/-
# `Ldap.AttrList` — attribute lists off the wire

ber_to_attrs reads a sequence of attributes back into the list that
LDAP_gen_ber_attrlist wrote them from,

    30 L  (30 L  04 n name  31 L values)*

in three loops, one inside the other, each of which takes what it has read off a
length of its own.  Strings are copied into arrays on the stack first, and
LBER_attrlist_add and LBER_valuelist_add copy them again, up to their NUL.  The
values of the last set stay in a variable, so an attribute without a set is given
those of the one before.
-/
import CassandraApi.Ldap.WriteRequests

namespace CassandraApi.Ldap

open C Ber

/-! ## Building a list -/

/-- LBER_valuelist_add.  `vallist` is NULL or where the list is. -/
def lberValuelistAdd (vallist : Option (List (List UInt8))) (value : List UInt8) :
    RetCode × Option (List (List UInt8)) :=
  match vallist with
  | none => (.errEncode, none)
  | some vals => (.ok, some (vals ++ [value.take (ldapMaxAttrValueSize - 1)]))

/-- LBER_attrlist_add -/
def lberAttrlistAdd (attrlist : Option (List Attr)) (name : List UInt8)
    (vallist : List (List UInt8)) : RetCode × Option (List Attr) :=
  match attrlist with
  | none => (.errEncode, none)
  | some attrs => (.ok, some (attrs ++ [⟨name.take (ldapMaxAttrNameSize - 1), vallist⟩]))

/-- The values, added one after another to an empty list. -/
def addValues (vals : List (List UInt8)) : Option (List (List UInt8)) :=
  vals.foldl (fun l v => (lberValuelistAdd l v).2) (some [])

/-- The attributes, added one after another to an empty list. -/
def addAttrs (attrs : List Attr) : Option (List Attr) :=
  attrs.foldl (fun l a => (lberAttrlistAdd l a.name ((addValues a.vals).getD [])).2) (some [])

/-! ## ber_to_attrs -/

/-- A string that a field of `cap` bytes takes whole. -/
def Whole (cap : Nat) (s : List UInt8) : Prop := s.length < cap ∧ 0 ∉ s

instance (cap : Nat) (s : List UInt8) : Decidable (Whole cap s) :=
  inferInstanceAs (Decidable (_ ∧ _))

theorem Whole.take {cap : Nat} {s : List UInt8} (h : Whole cap s) : s.take (cap - 1) = s :=
  List.take_of_length_le (Nat.le_pred_of_lt h.1)

theorem Whole.beforeNul {cap : Nat} {s : List UInt8} (h : Whole cap s) : beforeNul s = s :=
  beforeNul_eq_self.2 h.2

/-- Adding one by one appends. -/
theorem foldl_append {α : Type} {add : Option (List α) → α → Option (List α)} {xs : List α}
    (hadd : ∀ x ∈ xs, ∀ l, add (some l) x = some (l ++ [x])) (l : List α) :
    xs.foldl add (some l) = some (l ++ xs) := by
  induction xs generalizing l with
  | nil => rw [List.foldl_nil, List.append_nil]
  | cons x xs ih =>
    have hrest := ih (fun y hy => hadd y (List.mem_cons_of_mem _ hy)) (l ++ [x])
    rw [List.foldl_cons, hadd x List.mem_cons_self, hrest, List.append_assoc]
    rfl

theorem addValues_eq {vals : List (List UInt8)} (h : ∀ v ∈ vals, Whole ldapMaxAttrValueSize v) :
    addValues vals = some vals := by
  refine foldl_append (fun v hv l => ?_) []
  rw [lberValuelistAdd, (h v hv).take]

section

variable {data : Block} {i : Nat} {a : Attr} {vals : List (List UInt8)} (st : AttrState)

end

/-! ## Reading lists -/

end CassandraApi.Ldap
