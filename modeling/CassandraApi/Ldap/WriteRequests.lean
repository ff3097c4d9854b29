/-
# `Ldap.WriteRequests` — requests that change something, across the wire

Add, modify, delete and extended requests are read back as they were sent.  The
loops of ldap_decode_request take as many bytes off the length of a list as an
item takes, so they end where the list ends (`decodeItems_eq`); in this order
they are lists of values, of attributes or modifications, and of the operation.
-/
import CassandraApi.Ldap.Lists
import CassandraApi.Ldap.Reading

namespace CassandraApi.Ldap

open C Ber

/-! ## Reading lists -/

/-- What an item of a list is read as, wherever it lies. -/
def Reads {ν α : Type} (buf : Block) (item : Int → Int → Except Fault (ν × Int))
    (content : α → List UInt8) (value : α → ν) (x : α) : Prop :=
  (content x).length < 2 ^ 24 ∧ ∀ j : Nat, Holds buf j (content x) →
    item (content x).length j = .ok (value x, ((j + (content x).length : Nat) : Int))

/-- A loop over a list reads its items, and ends where the list ends. -/
theorem decodeItems_eq {ν α : Type} {buf : Block} {tag : UInt8}
    {item : Int → Int → Except Fault (ν × Int)} {content : α → List UInt8} {value : α → ν}
    {xs : List α} (reads : ∀ x ∈ xs, Reads buf item content value x) {turns i : Nat}
    (hturns : xs.length < turns) (hlen : (xs.flatMap fun x => tlv tag (content x)).length < 2 ^ 31)
    (h : Holds buf i (xs.flatMap fun x => tlv tag (content x))) :
    decodeItems tag wholeItem item buf turns
        ((xs.flatMap fun x => tlv tag (content x)).length : Nat) i =
      .ok (xs.map value, ((i + (xs.flatMap fun x => tlv tag (content x)).length : Nat) : Int)) := by
  induction xs generalizing turns i with
  | nil =>
    obtain ⟨turns, rfl⟩ := Nat.exists_eq_succ_of_ne_zero (by omega : turns ≠ 0)
    simp only [decodeItems, List.flatMap_nil, List.length_nil, Nat.cast_zero, lt_irrefl, if_false,
      Nat.add_zero, List.map_nil, pure_eq_ok]
  | cons x xs ih =>
    obtain ⟨turns, rfl⟩ := Nat.exists_eq_succ_of_ne_zero (by omega : turns ≠ 0)
    obtain ⟨hsmall, hitem⟩ := reads x List.mem_cons_self
    rw [List.flatMap_cons] at h hlen ⊢
    rw [List.length_append] at hlen ⊢
    obtain ⟨j, htag, hlength, hbytes, hj⟩ := tlv_read hsmall h.left
    have hrest := h.right
    rw [← hj] at hrest
    rw [List.length_cons] at hturns
    have hrec := ih (fun y hy => reads y (List.mem_cons_of_mem _ hy))
      (show xs.length < turns by omega) (by omega) hrest
    have hpos : 0 < (((tlv tag (content x)).length +
        (xs.flatMap fun x => tlv tag (content x)).length : Nat) : Int) := by
      rw [tlv_length]
      omega
    have hleft : int32 ((((tlv tag (content x)).length +
        (xs.flatMap fun x => tlv tag (content x)).length : Nat) : Int) -
          wholeItem ((j : Int) - ((i : Int) + 1)) ((content x).length : Nat)) =
        ((xs.flatMap fun x => tlv tag (content x)).length : Nat) := by
      unfold wholeItem
      rw [int32_of_range (by omega) (by omega)]
      omega
    rw [decodeItems, if_pos hpos, htag, ok_bind, if_pos rfl, hlength, ok_bind]
    simp only [hitem j hbytes, ok_bind, hleft, hrec, List.map_cons, pure_eq_ok]
    rw [hj, Nat.add_assoc]

theorem takeString_eq {buf : Block} {i cap : Nat} {s : List UInt8} (hcap : s.length < cap)
    (h : Holds buf i s) :
    takeString cap buf i s.length = .ok (s, ((i + s.length : Nat) : Int)) := by
  unfold takeString
  split
  · have hlt : (s.length : Int) < cap := by exact_mod_cast hcap
    simp only [copyString, h.load, ok_bind, if_pos hlt, pure_eq_ok]
    push_cast
    rfl
  · have hnil : s = [] := List.length_eq_zero_iff.1 (by omega)
    subst hnil
    rfl

/-! ## Attributes and modifications -/

/-- A list of values whose strings the decoder has room for. -/
structure Readable (name : List UInt8) (vals : List (List UInt8)) : Prop where
  size : (valsOctets vals).length < 2 ^ 24
  name : name.length < ldapMaxAttrNameSize
  value : ∀ v ∈ vals, v.length < ldapMaxAttrValueSize

theorem decodeVals_eq {buf : Block} {i : Nat} {vals : List (List UInt8)}
    (hsize : (valsOctets vals).length < 2 ^ 24)
    (hvals : ∀ v ∈ vals, v.length < ldapMaxAttrValueSize) (h : Holds buf i (valsOctets vals)) :
    decodeItems 0x04 wholeItem (fun len i => takeString ldapMaxAttrValueSize buf i len) buf
        (buf.size + 1) ((valsOctets vals).length : Nat) i =
      .ok (vals, ((i + (valsOctets vals).length : Nat) : Int)) := by
  have reads : ∀ v ∈ vals, Reads buf
      (fun len i => takeString ldapMaxAttrValueSize buf i len) id id v := by
    intro v hv
    have hlt := hvals v hv
    have hmax : ldapMaxAttrValueSize < 2 ^ 24 := by decide
    exact ⟨hlt.trans hmax, fun j hj => takeString_eq hlt hj⟩
  have hturns : vals.length < buf.size + 1 := by
    have hle : vals.length ≤ (valsOctets vals).length := length_le_items vals
    have hin := h.inside
    omega
  have hitems := decodeItems_eq reads hturns (show (valsOctets vals).length < 2 ^ 31 by omega) h
  rwa [List.map_id] at hitems

theorem decodeAttr_eq {buf : Block} {i : Nat} {name : List UInt8} {vals : List (List UInt8)}
    (readable : Readable name vals) (h : Holds buf i (attrOctets name vals)) :
    decodeAttr buf i =
      .ok (⟨name, vals⟩, ((i + (attrOctets name vals).length : Nat) : Int)) := by
  have hname := readable.name
  have hmax : ldapMaxAttrNameSize < 2 ^ 24 := by decide
  unfold attrOctets at h ⊢
  have hstring := lengthString_eq (hname.trans hmax) hname h.left.tail
  have hend : i + 1 + (lengthOctets name.length ++ name).length = i + (tlv 0x04 name).length := by
    rw [tlv, List.length_cons]
    omega
  rw [hend, Nat.cast_add i 1, Nat.cast_one] at hstring
  obtain ⟨j, htag, hlength, hbytes, hj⟩ := tlv_read readable.size h.right
  have hvals := decodeVals_eq readable.size readable.value hbytes
  simp only [decodeAttr, h.left.rd, ok_bind, if_true, hstring, htag, hlength, hvals, pure_eq_ok]
  rw [hj, List.length_append, Nat.add_assoc]

/-- What a modification is read as. -/
def Mod.change (m : Mod) : Int × Option Attr :=
  (schar (toChar m.operation), some ⟨m.name, m.vals⟩)

theorem decodeChange_eq {buf : Block} {i : Nat} {m : Mod} (readable : Readable m.name m.vals)
    (hsize : (attrOctets m.name m.vals).length < 2 ^ 24) (h : Holds buf i m.octets) :
    decodeChange buf i = .ok (m.change, ((i + m.octets.length : Nat) : Int)) := by
  unfold Mod.octets at h ⊢
  have hfront : Holds buf i [0x0a, 1, toChar m.operation] := h.left
  have hone := findLength_eq (DefLen.short (show (1 : Nat) < 128 by decide)) (by decide)
    (show Holds buf (i + 1) [UInt8.ofNat 1] from hfront.tail.left)
  have hlength : findLength buf ((i : Int) + 1) = .ok (1, (i : Int) + 2) := by
    exact_mod_cast hone
  have hoperation : buf.rd ((i : Int) + 2) = .ok (toChar m.operation) := by
    exact_mod_cast hfront.tail.tail.rd
  have hlist : Holds buf (i + 3) (tlv 0x30 (attrOctets m.name m.vals)) := h.right
  obtain ⟨j, htag, hlength', hbytes, hj⟩ := tlv_read hsize hlist
  have hattr := decodeAttr_eq readable hbytes
  have hthree : (i : Int) + 2 + 1 = ((i + 3 : Nat) : Int) := by
    push_cast
    ring
  simp only [decodeChange, hfront.rd, ok_bind, if_true, hlength, hoperation, hthree, htag,
    hlength', hattr, pure_eq_ok, Mod.change]
  rw [hj, List.length_append, Nat.add_assoc]
  rfl

/-! ## Operations -/

/-- An add or a modify request from behind its tag on. -/
theorem decodeEntry_eq {ν α : Type} {buf : Block} {i n : Nat} (e : String)
    {item : Int → Except Fault (ν × Int)} (make : List UInt8 → List ν → Alt)
    {content : α → List UInt8} {value : α → ν} {xs : List α} {dn : List UInt8}
    (reads : ∀ x ∈ xs, Reads buf (fun _ i => item i) content value x) (hn : n < 2 ^ 24)
    (hsize : (itemOctets content xs).length < 2 ^ 24)
    (h : Holds buf i (lengthOctets n ++ (createDn 0x04 dn ++ tlv 0x30 (itemOctets content xs)))) :
    decodeEntry e item make buf i = .ok (.ok (make (sent dn) (xs.map value),
      ((i + (lengthOctets n ++
        (createDn 0x04 dn ++ tlv 0x30 (itemOctets content xs))).length : Nat) : Int))) := by
  have hlen := findLength_eq (lengthOctets_defLen hn) (by omega) h.left
  rw [← Nat.cast_add] at hlen
  have hdn := requiredString_createDn ldapMaxOidSize e (by decide) h.right.left
  obtain ⟨j, htag, hlength, hbytes, hj⟩ := tlv_read hsize h.right.right
  have hturns : xs.length < buf.size + 1 := by
    have hle : xs.length ≤ (itemOctets content xs).length := length_le_items xs
    have hin := hbytes.inside
    omega
  have hitems := decodeItems_eq reads hturns
    (show (itemOctets content xs).length < 2 ^ 31 by omega) hbytes
  change decodeItems 0x30 wholeItem (fun _ i => item i) buf (buf.size + 1)
    ((itemOctets content xs).length : Nat) j =
      .ok (xs.map value, ((j + (itemOctets content xs).length : Nat) : Int)) at hitems
  simp only [decodeEntry, hlen, ok_bind, hdn, andThen_ok, htag, if_true, hlength, hitems,
    pure_eq_ok, List.length_append]
  rw [hj, Nat.add_assoc, Nat.add_assoc]

theorem decodeDelete_eq {buf : Block} {i : Nat} {dn : List UInt8} {op : UInt8}
    (h : Holds buf i (createDn op dn)) :
    decodeDelete buf ((i + 1 : Nat) : Int) =
      .ok (.ok (.deleteRequest (sent dn), ((i + (createDn op dn).length : Nat) : Int))) := by
  have hdn := lengthString_createDn ldapMaxOidSize (by decide) h
  rw [← Nat.cast_one, ← Nat.cast_add] at hdn
  simp only [decodeDelete, hdn, ok_bind, pure_eq_ok]

/-- An extended request from behind its tag on; the octets `value` of its value are not looked
into, and none of them are no value. -/
theorem decodeExtended_eq {buf : Block} {i n : Nat} {oid value : List UInt8} (hn : n < 2 ^ 24)
    (hoid : oid.length < ldapMaxOidSize) (hvalue : value.length < 2 ^ 24)
    (h : Holds buf i (lengthOctets n ++ (tlv 0x80 oid ++ tlv 0x81 value))) :
    decodeExtended true buf i = .ok (.ok
      (.extendedRequest oid (if value = [] then none else some value),
        ((i + (lengthOctets n ++ (tlv 0x80 oid ++ tlv 0x81 value)).length : Nat) : Int))) := by
  have hmax : ldapMaxOidSize < 2 ^ 24 := by decide
  have hlen := findLength_eq (lengthOctets_defLen hn) (by omega) h.left
  rw [← Nat.cast_add] at hlen
  obtain ⟨j, htag, hlength, hbytes, hj⟩ := tlv_read (hoid.trans hmax) h.right.left
  have hname := takeString_eq hoid hbytes
  have hnext : Holds buf (j + oid.length) (tlv 0x81 value) := by
    have hright := h.right.right
    rwa [← hj] at hright
  obtain ⟨j', htag', hlength', hbytes', hj'⟩ := tlv_read hvalue hnext
  have hnot : ¬ ((oid.length : Int) < 0) := by omega
  have hend : (j' : Int) + value.length =
      ((i + (lengthOctets n ++ (tlv 0x80 oid ++ tlv 0x81 value)).length : Nat) : Int) := by
    simp only [List.length_append] at hj hj' ⊢
    omega
  simp only [decodeExtended, hlen, ok_bind, htag, ne_eq, not_true_eq_false, if_false, hlength,
    if_neg hnot, hname, htag', hlength', pure_eq_ok]
  by_cases hnone : value = []
  · subst hnone
    rw [← hend]
    simp only [List.length_nil, Nat.cast_zero, lt_irrefl, if_false, if_true, Int.add_zero]
  · obtain ⟨b, hb, hroom⟩ := berAllocBuffer_room none value.length
    have hnil : b.berval = [] := berAllocBuffer_bytes hb
    have happend : b.append value = .ok { b with berval := value } := by
      rw [BER.append_eq (by rw [hnil, List.length_nil]; omega), hnil, List.nil_append]
    have hpos : 0 < (value.length : Int) := by
      have := List.length_pos_iff.2 hnone
      omega
    simp only [if_pos hpos, hbytes'.load, ok_bind, hb, happend, hend, if_neg hnone]

/-! ## Requests -/

/-- What the generators of requests that change something are asked to send. -/
inductive WriteRequest where
  | add (dn : List UInt8) (attrs : List Attr)
  | modify (dn : List UInt8) (mods : List Mod)
  | delete (dn : List UInt8)
  | extended (oid : List UInt8) (extAttr : List UInt8)

namespace WriteRequest

/-- The bytes of a list whose generator has succeeded. -/
def listBytes {ν : Type} (r : Except Fault (RetCode × Option BER × List ν)) :
    Except Fault (List UInt8) := do
  match ← r with
  | (.ok, some b, _) => pure b.berval
  | _ => throw .null

/-- A list is generated into `list`, which is empty, and the request from it. -/
def generate (tid : Int) (ber list : Option BER) (freeFlag : Bool) (controls : List Control) :
    WriteRequest → Except Fault (Int × BER)
  | .add dn attrs => do
      let bytes ← listBytes (ldapGenBerAttrlist true true attrs list freeFlag)
      ldapGenAddRequest true tid ber dn bytes controls
  | .modify dn mods => do
      let bytes ← listBytes (ldapGenBerModlist true true mods list freeFlag)
      ldapGenModifyRequest true tid ber dn bytes controls
  | .delete dn => ldapGenDeleteRequest true tid ber dn controls
  | .extended oid extAttr =>
      ldapGenExtendedRequest true tid ber oid (some extAttr) extAttr.length controls

def choice : WriteRequest → ProtocolOp
  | .add _ _ => .addRequest
  | .modify _ _ => .modifyRequest
  | .delete _ => .deleteRequest
  | .extended _ _ => .extendedRequest

/-- The operation as it is to be read. -/
def alt : WriteRequest → Alt
  | .add dn attrs => .addRequest dn attrs
  | .modify dn mods =>
      .modifyRequest dn (mods.map fun m => (m.operation, some ⟨m.name, m.vals⟩))
  | .delete dn => .deleteRequest dn
  | .extended oid extAttr => .extendedRequest oid (some (tlv 0x30 extAttr))

/-- The tag of the operation. -/
def op : WriteRequest → UInt8
  | .add _ _ => 0x68
  | .modify _ _ => 0x66
  | .delete _ => 0x4a
  | .extended _ _ => 0x77

/-- And the operation on the wire. -/
def written : WriteRequest → List UInt8
  | .add dn attrs => tlv 0x68 (createDn 0x04 dn ++ tlv 0x30 (itemOctets Attr.octets attrs))
  | .modify dn mods => tlv 0x66 (createDn 0x04 dn ++ tlv 0x30 (itemOctets Mod.octets mods))
  | .delete dn => createDn 0x4a dn
  | .extended oid extAttr => tlv 0x77 (tlv 0x80 oid ++ tlv 0x81 (tlv 0x30 extAttr))

theorem written_head (r : WriteRequest) : ∃ body, r.written = r.op :: body := by
  cases r <;> exact ⟨_, rfl⟩

/-- An attribute or a modification whose strings the decoder has room for. -/
structure Item (name : List UInt8) (vals : List (List UInt8)) : Prop where
  name : name.length < ldapMaxAttrNameSize
  value : ∀ v ∈ vals, v.length < ldapMaxAttrValueSize

/-- The requests that the generators and the decoder have room for. -/
def Sendable : WriteRequest → Prop
  | .add _ attrs => attrs ≠ [] ∧ (itemOctets Attr.octets attrs).length ≤ berBuffer ∧
      ∀ a ∈ attrs, Item a.name a.vals ∧ a.vals ≠ []
  | .modify _ mods => mods ≠ [] ∧ (itemOctets Mod.octets mods).length ≤ berBuffer ∧
      ∀ m ∈ mods, Item m.name m.vals ∧ (m.operation = 0 ∨ m.operation = 1 ∨ m.operation = 2)
  | .delete _ => True
  | .extended oid extAttr => oid.length < ldapMaxOidSize ∧ extAttr.length < 2 ^ 24 - 2 ^ 11

/-- The DN gets onto the wire. -/
def Short : WriteRequest → Prop
  | .add dn _ => dn.length < 256
  | .modify dn _ => dn.length < 256
  | .delete dn => dn.length < 256
  | .extended _ _ => True

end WriteRequest

/-! ## Generating them -/

theorem item_length_le {α : Type} (content : α → List UInt8) {xs : List α} {x : α} (h : x ∈ xs) :
    (content x).length ≤ (itemOctets content xs).length := by
  induction xs with
  | nil => cases h
  | cons y ys ih =>
    have hsplit : itemOctets content (y :: ys) = tlv 0x30 (content y) ++ itemOctets content ys := rfl
    rw [hsplit, List.length_append, tlv_length]
    rcases List.mem_cons.1 h with rfl | hmem
    · omega
    · have hrest := ih hmem
      omega

theorem vals_le_attr (name : List UInt8) (vals : List (List UInt8)) :
    (valsOctets vals).length ≤ (attrOctets name vals).length := by
  rw [attrOctets, List.length_append, tlv_length 0x31]
  omega

theorem attr_le_mod (m : Mod) : (attrOctets m.name m.vals).length ≤ m.octets.length := by
  rw [Mod.octets, List.length_append, tlv_length]
  omega

theorem ldapGenExtendedRequest_generated {tid : Int} (h0 : 0 ≤ tid) (hmax : tid < 0x7fffffff)
    (ber : Option BER) (controls : List Control) (oid extAttr : List UInt8) :
    Generated (tidIncrement tid) (messageContent (tidIncrement tid)
      (tlv 0x77 (tlv 0x80 oid ++ tlv 0x81 (tlv 0x30 extAttr))) controls)
      (ldapGenExtendedRequest true tid ber oid (some extAttr) extAttr.length controls) := by
  have hgen := genOperation_generated h0 hmax ber controls 0x77
    (tlv 0x80 oid ++ tlv 0x81 (tlv 0x30 extAttr))
  have hvalue := tlv_length 0x30 extAttr
  have hall := tlv_length 0x81 (tlv 0x30 extAttr)
  have hoid := tlv_length 0x80 oid
  have hcontent : (tlv 0x80 oid).length + (tlv 0x81 (tlv 0x30 extAttr)).length ≤
      (messageContent (tidIncrement tid)
        (tlv 0x77 (tlv 0x80 oid ++ tlv 0x81 (tlv 0x30 extAttr))) controls).length := by
    simp only [messageContent, List.length_append, tlv_length 0x77]
    omega
  have hsum : extAttr.length + (0x30 :: lengthOctets extAttr.length).length =
      (tlv 0x30 extAttr).length := by
    rw [hvalue, List.length_cons]
    omega
  have hbody : (tlv 0x30 extAttr).length +
      (0x81 :: lengthOctets (tlv 0x30 extAttr).length).length +
      (0x80 :: lengthOctets oid.length).length + oid.length =
        (tlv 0x80 oid ++ tlv 0x81 (tlv 0x30 extAttr)).length := by
    rw [List.length_append, hall, hoid, List.length_cons, List.length_cons]
    omega
  have hshape : (0x80 :: lengthOctets oid.length) ++ oid ++
      (0x81 :: lengthOctets (tlv 0x30 extAttr).length) ++
      (0x30 :: lengthOctets extAttr.length) ++ extAttr =
        tlv 0x80 oid ++ tlv 0x81 (tlv 0x30 extAttr) := by
    simp only [tlv, List.append_assoc, List.cons_append]
  have hbytes : readBytes extAttr.length (some extAttr) = .ok extAttr := by
    simp only [readBytes, le_refl, if_true, List.take_length]
  unfold ldapGenExtendedRequest
  simp only [Option.isSome_some, true_or, if_true]
  rw [insertLength_eq_ite extAttr.length]
  split
  · rw [ok_bind, hsum, insertLength_eq_ite (tlv 0x30 extAttr).length]
    split
    · rw [ok_bind, insertLength_eq_ite oid.length]
      split
      · simp only [ok_bind, hbody, hbytes, hshape]
        exact hgen
      · rw [error_bind]
        exact .stuck (by omega)
    · rw [error_bind]
      exact .stuck (by omega)
  · rw [error_bind]
    exact .stuck (by omega)

namespace WriteRequest

theorem generate_generated {tid : Int} (h0 : 0 ≤ tid) (hmax : tid < 0x7fffffff)
    (ber : Option BER) {list : Option BER} (empty : BER.bytes list = []) (freeFlag : Bool)
    (controls : List Control) {r : WriteRequest} (sendable : r.Sendable) :
    Generated (tidIncrement tid) (messageContent (tidIncrement tid) r.written controls)
      (r.generate tid ber list freeFlag controls) := by
  cases r with
  | add dn attrs =>
    obtain ⟨hsome, hsize, items⟩ := sendable
    have encodes : ∀ a ∈ attrs, Encodes encodeAttr Attr.octets a := by
      intro a ha
      have hle := item_length_le Attr.octets ha
      have hvals := vals_le_attr a.name a.vals
      exact encodeAttr_eq ⟨(items a ha).1.name, hvals.trans (hle.trans hsize)⟩ (items a ha).2
    obtain ⟨b, hb, hbytes⟩ := genBerList_eq encodes hsome empty hsize freeFlag
    have hgen := genEntryRequest_generated h0 hmax ber controls 0x68 dn b.berval
    simp only [generate, ldapGenBerAttrlist, hb, listBytes, ok_bind, pure_eq_ok]
    rw [hbytes] at hgen ⊢
    exact hgen
  | modify dn mods =>
    obtain ⟨hsome, hsize, items⟩ := sendable
    have encodes : ∀ m ∈ mods, Encodes encodeMod Mod.octets m := by
      intro m hm
      have hle := item_length_le Mod.octets hm
      have hvals := (vals_le_attr m.name m.vals).trans (attr_le_mod m)
      exact encodeMod_eq ⟨(items m hm).1.name, hvals.trans (hle.trans hsize)⟩
    obtain ⟨b, hb, hbytes⟩ := genBerList_eq encodes hsome empty hsize freeFlag
    have hgen := genEntryRequest_generated h0 hmax ber controls 0x66 dn b.berval
    simp only [generate, ldapGenBerModlist, hb, listBytes, ok_bind, pure_eq_ok]
    rw [hbytes] at hgen ⊢
    exact hgen
  | delete dn => exact ldapGenDeleteRequest_generated h0 hmax ber controls dn
  | extended oid extAttr =>
    exact ldapGenExtendedRequest_generated h0 hmax ber controls oid extAttr

/-- The operation as it is read: a DN that did not get onto the wire is empty. -/
def received : WriteRequest → Alt
  | .add dn attrs => .addRequest (sent dn) attrs
  | .modify dn mods => .modifyRequest (sent dn) (mods.map Mod.change)
  | .delete dn => .deleteRequest (sent dn)
  | .extended oid extAttr => .extendedRequest oid (some (tlv 0x30 extAttr))

/-- The decoder reads the operation, and ends where it ends. -/
theorem decodeOp_written {r : WriteRequest} (sendable : r.Sendable)
    (hsize : r.written.length < 2 ^ 24) (garbage : Nat → UInt8) (depth : Nat) {buf : Block}
    {k : Nat} (h : Holds buf k r.written) :
    decodeOp true garbage depth buf r.op ((k + 1 : Nat) : Int) =
      .ok (.ok (r.choice, r.received, ((k + r.written.length : Nat) : Int))) := by
  have hbuffer : berBuffer < 2 ^ 24 := by decide
  cases r with
  | add dn attrs =>
    obtain ⟨-, hlist, items⟩ := sendable
    have reads : ∀ a ∈ attrs, Reads buf (fun _ i => decodeAttr buf i) Attr.octets id a := by
      intro a ha
      have hle := lt_of_le_of_lt ((item_length_le Attr.octets ha).trans hlist) hbuffer
      have hvals := lt_of_le_of_lt (vals_le_attr a.name a.vals) hle
      exact ⟨hle, fun j hj =>
        decodeAttr_eq ⟨hvals, (items a ha).1.name, (items a ha).1.value⟩ hj⟩
    have hentry := decodeEntry_eq "ldapadd: malformat object" .addRequest reads
      (contents_lt hsize) (lt_of_le_of_lt hlist hbuffer) h.tail
    rw [List.map_id, tlv_end] at hentry
    simp only [decodeOp, decodeAdd, hentry, andThen_ok, pure_eq_ok]
    rfl
  | modify dn mods =>
    obtain ⟨-, hlist, items⟩ := sendable
    have reads : ∀ m ∈ mods, Reads buf (fun _ i => decodeChange buf i) Mod.octets Mod.change m := by
      intro m hm
      have hle := lt_of_le_of_lt ((item_length_le Mod.octets hm).trans hlist) hbuffer
      have hattr := lt_of_le_of_lt (attr_le_mod m) hle
      have hvals := lt_of_le_of_lt (vals_le_attr m.name m.vals) hattr
      exact ⟨hle, fun j hj =>
        decodeChange_eq ⟨hvals, (items m hm).1.name, (items m hm).1.value⟩ hattr hj⟩
    have hentry := decodeEntry_eq "ldapmodify: malformat object" .modifyRequest reads
      (contents_lt hsize) (lt_of_le_of_lt hlist hbuffer) h.tail
    rw [tlv_end] at hentry
    simp only [decodeOp, decodeModify, hentry, andThen_ok, pure_eq_ok]
    rfl
  | delete dn =>
    simp only [decodeOp, decodeDelete_eq h, andThen_ok, pure_eq_ok]
    rfl
  | extended oid extAttr =>
    have hvalue : (tlv 0x30 extAttr).length < 2 ^ 24 := by
      have hin := contents_lt hsize
      rw [List.length_append, tlv_length 0x81] at hin
      omega
    have hext := decodeExtended_eq (contents_lt hsize) sendable.1 hvalue h.tail
    rw [tlv_end, if_neg (by simp [tlv])] at hext
    simp only [decodeOp, hext, andThen_ok, pure_eq_ok]
    rfl

/-- The request is generated and decoded again, wherever its bytes lie, as long as the byte behind
them is not taken for a tag of controls. -/
def Survives (tid : Int) (ber list : Option BER) (freeFlag : Bool) (r : WriteRequest) : Prop :=
  ∃ b, r.generate tid ber list freeFlag [] = .ok (tidIncrement tid, b) ∧
    ∀ (env : DecodeEnv) (buf : Block) (p : Nat) (c : UInt8), env.message = true ∧ env.value = true →
      c ≠ 0xa0 → Holds buf p (b.berval ++ [c]) →
      ldapDecodeRequest env (frameAt buf p b.berval.length) = .ok (⟨.dataAvailable, none⟩,
        some ⟨r.choice, UInt32.ofNat (tidIncrement tid).toNat, r.alt, []⟩)

end WriteRequest

end CassandraApi.Ldap
