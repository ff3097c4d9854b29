/-
# `Ldap.SearchObjects` — search entries as objects

A search entry that LDAP_gen_search_entry has written is collected by
ldap_decode_response and becomes an LDAP_OBJECT.  On the way its strings have to
fit arrays that are smaller than what an entry may hold, and C strings besides;
and of all its object classes the object keeps one (`search_objects_iff`).
-/
import CassandraApi.Ldap.Objects
import CassandraApi.Lib.Machine

namespace CassandraApi.Ldap

open C Ber Lib

/-! ## An entry and its object -/

namespace SearchEntry

/-- The arguments of LDAP_gen_search_entry. -/
structure Valid (e : SearchEntry) : Prop where
  dn : Whole ldapMaxDnSize e.dn
  name : ∀ a ∈ e.attrs, 1 ≤ a.name.length ∧ a.name.length < ldapMaxAttrNameSize
  value : ∀ a ∈ e.attrs, a.vals ≠ [] ∧ ∀ v ∈ a.vals, v.length < ldapMaxAttrValueSize

/-- The object classes of the entry. -/
def classes (e : SearchEntry) : List (List UInt8) :=
  (e.attrs.filter (·.name = objectClassName)).flatMap Attr.vals

end SearchEntry

/-- Its other attributes. -/
def others (attrs : List Attr) : List Attr := attrs.filter (·.name ≠ objectClassName)

/-- The object classes of an object, wherever they are. -/
def LdapObject.classes (o : LdapObject) : List (List UInt8) :=
  o.objectClass :: (o.alist.filter (·.name = objectClassName)).flatMap Attr.vals

/-- Nothing of the entry is lost. -/
structure LdapObject.Represents (o : LdapObject) (e : SearchEntry) : Prop where
  name : o.name = e.dn
  classes : ∀ c ∈ e.classes, c ∈ o.classes
  others : others o.alist = others e.attrs

/-- The strings fit the arrays, none of them has a NUL inside, and all object classes are the
same. -/
structure SearchEntry.Fits (e : SearchEntry) : Prop where
  dn : e.dn.length < ldapMaxAttrNameSize
  name : ∀ a ∈ e.attrs, 0 ∉ a.name
  value : ∀ a ∈ others e.attrs, ∀ v ∈ a.vals, Whole ldapMaxDnSize v
  objectClass : ∀ c ∈ e.classes, Whole ldapMaxAttrNameSize c
  one : ∀ c ∈ e.classes, ∀ c' ∈ e.classes, c = c'

/-- An attribute with its strings up to their NUL. -/
def Attr.cut (a : Attr) : Attr := ⟨beforeNul a.name, a.vals.map beforeNul⟩

/-- What is in the object and in `buff` are C strings, and the class fits its field. -/
structure ObjState.Clean (st : ObjState) : Prop where
  objectClass : Whole ldapMaxAttrNameSize st.obj.objectClass
  buff : 0 ∉ st.buff

namespace SearchEntry

/-- What LDAP_gen_search_entry writes of an entry, from its tag on. -/
def octets (e : SearchEntry) : List UInt8 :=
  tlv 0x64 (tlv 0x04 e.dn ++ tlv 0x30 (itemOctets Attr.octets e.attrs))

def generate (ber : Option BER) (mid : Int) (e : SearchEntry) : Except Fault BER :=
  ldapGenSearchEntry true ber mid (some e.dn) (itemOctets Attr.octets e.attrs)

theorem generate_produced {mid : Int} (hlt : mid < 2 ^ 31) (ber : Option BER) (e : SearchEntry) :
    Produced (midTlv mid ++ e.octets) (e.generate ber mid) := by
  unfold generate octets
  generalize itemOctets Attr.octets e.attrs = attrs
  have hlen : (tlv 0x04 e.dn ++ tlv 0x30 attrs).length = attrs.length +
      ((lengthOctets attrs.length).length + 1) +
        ((lengthOctets e.dn.length).length + 1 + e.dn.length) := by
    simp only [List.length_append, tlv_length]
    omega
  have hshape : tlv 0x04 e.dn ++ tlv 0x30 attrs =
      0x04 :: lengthOctets e.dn.length ++ e.dn ++ 0x30 :: lengthOctets attrs.length ++ attrs := by
    simp only [tlv, List.append_assoc, List.cons_append]
  have hcontent : (tlv 0x04 e.dn ++ tlv 0x30 attrs).length ≤
      (midTlv mid ++ tlv 0x64 (tlv 0x04 e.dn ++ tlv 0x30 attrs)).length := by
    generalize tlv 0x04 e.dn ++ tlv 0x30 attrs = body
    rw [List.length_append, tlv_length]
    omega
  simp only [ldapGenSearchEntry, Option.getD_some, insertLength_eq_ite attrs.length,
    insertLength_eq_ite e.dn.length]
  split
  · rw [ok_bind]
    split
    · rw [ok_bind]
      simp only [List.length_cons]
      rw [← hlen, ← hshape]
      exact finishOperation_produced hlt ber 0x64 _
    · rw [error_bind]
      exact .stuck (by omega)
  · rw [error_bind]
    exact .stuck (by omega)

theorem itemOctets_wire {attrs : List Attr} (hlen : (itemOctets Attr.octets attrs).length < 2 ^ 24) :
    AttrsWire attrs (itemOctets Attr.octets attrs) := by
  induction attrs with
  | nil => exact .nil
  | cons a attrs ih =>
    have hsplit : itemOctets Attr.octets (a :: attrs) =
        tlv 0x30 a.octets ++ itemOctets Attr.octets attrs := rfl
    rw [hsplit, List.length_append] at hlen
    have ha : a.octets.length < 2 ^ 24 :=
      contents_lt (show (tlv 0x30 a.octets).length < 2 ^ 24 by omega)
    have hpair : a.octets.length =
        (tlv 0x04 a.name).length + (tlv 0x31 (valsOctets a.vals)).length := List.length_append
    have hvals : (valsOctets a.vals).length < 2 ^ 24 :=
      contents_lt (show (tlv 0x31 (valsOctets a.vals)).length < 2 ^ 24 by omega)
    rw [hsplit]
    refine .cons ⟨_, _, _, tlv_isTlv (contents_lt (show (tlv 0x04 a.name).length < 2 ^ 24 by omega)),
      Tlvs.of_tlv fun v hv => ?_, tlv_isTlv hvals, rfl⟩ (tlv_isTlv ha) (ih (by omega))
    have hle : (tlv 0x04 v).length ≤ (valsOctets a.vals).length :=
      (List.sublist_flatten_of_mem (List.mem_map_of_mem hv)).length_le
    exact contents_lt (show (tlv 0x04 v).length < 2 ^ 24 by omega)

/-- The parts of an entry that is short enough. -/
theorem parts_lt {e : SearchEntry} (hlen : e.octets.length < 2 ^ 24) :
    e.dn.length < 2 ^ 24 ∧ (itemOctets Attr.octets e.attrs).length < 2 ^ 24 ∧
      (tlv 0x04 e.dn ++ tlv 0x30 (itemOctets Attr.octets e.attrs)).length < 2 ^ 24 := by
  have hbody : (tlv 0x04 e.dn ++ tlv 0x30 (itemOctets Attr.octets e.attrs)).length < 2 ^ 24 :=
    contents_lt hlen
  have hparts := hbody
  rw [List.length_append] at hparts
  exact ⟨contents_lt (show (tlv 0x04 e.dn).length < 2 ^ 24 by omega),
    contents_lt (show (tlv 0x30 _).length < 2 ^ 24 by omega), hbody⟩

end SearchEntry

/-- ldap_decode_response, for what it leaves in the connection. -/
def collect (alloc : Bool) (lc : LdapClnt) (rb : ReadBuffer) : Except Fault LdapClnt := do
  let (_, _, lc) ← ldapDecodeResponse alloc lc rb
  pure lc

/-- A search entry that was received with the message id `mid`. -/
structure EntryReceived where
  entry : SearchEntry
  mid : Int
  rb : ReadBuffer

namespace EntryReceived

def step (lc : LdapClnt) (e : EntryReceived) : Except Fault LdapClnt := collect true lc e.rb

/-- The frame in the read buffer is what LDAP_gen_search_entry has written, and the entry does not
answer the keepalive `ktid`. -/
structure Delivered (ktid : UInt32) (e : EntryReceived) : Prop where
  valid : e.entry.Valid
  mid : 0 ≤ e.mid ∧ e.mid < 2 ^ 31
  frame : ∃ ber b buf, ∃ p : Nat, e.entry.generate ber e.mid = .ok b ∧ e.rb.rBuffer = some buf ∧
    e.rb.rBerBody = p ∧ e.rb.rBerBodyLength = b.berval.length ∧ Holds buf p b.berval
  other : ktid = 0 ∨ ktid ≠ UInt32.ofNat e.mid.toNat

end EntryReceived

/-- A read buffer with one frame. -/
def framed (frame : List UInt8) : ReadBuffer :=
  { inbox frame with rBerBody := 0, rBerBodyLength := frame.length }

/-- The entry arrives by itself. -/
def SearchEntry.received (e : SearchEntry) (mid : Int) : EntryReceived where
  entry := e
  mid := mid
  rb := framed (tlv 0x30 (midTlv mid ++ e.octets))

/-- A person with a description of `n` bytes. -/
def person (n : Nat) : SearchEntry :=
  ⟨ascii "cn=a", [⟨objectClassName, [ascii "person"]⟩,
    ⟨ascii "description", [List.replicate n 0x61]⟩]⟩

end CassandraApi.Ldap
