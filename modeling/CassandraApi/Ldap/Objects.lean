/-
# `Ldap.Objects` — collected results as a list of objects

ber_attr_to_obj walks over what ldap_decode_response has collected in rber,

    64 L  04 n dn  30 L (30 L  04 n name  31 L (04 n value)*)*
    78 L  0a n r  04 n dn  04 n text  8a n oid  8b L  30 L (…)*

and makes an LDAP_OBJECT of every element.  `len` is what is left of rber as the
code counts it; it decides when the walk ends, but not where the walk is.

Every string comes through one of two arrays on the stack, `attr` and `buff`.  An
LDAP_OBJECT has room for one object class, so a search entry gives it the last
string that was in `buff`.
-/
import CassandraApi.Ldap.AttrList
import CassandraApi.Ldap.Responses

namespace CassandraApi.Ldap

open C Ber Lib

/-! ## LDAP_OBJECT -/

/-- LDAP_OBJECT without its links, as `malloc` zeroes it. -/
structure LdapObject where
  name : List UInt8 := []
  value : List UInt8 := []
  objectClass : List UInt8 := []
  error : List UInt8 := []
  alist : List Attr := []

/-- The objects: `count` of them are allocated, at the addresses below. -/
structure ObjectList where
  links : Heap Ptr := fun _ => none
  node : Ptr → LdapObject := fun _ => {}
  first : Option Ptr := none
  count : Nat := 0

namespace ObjectList

/-- `tmp_obj = SDF_MALLOC(sizeof(LDAP_OBJECT))`, at the address `objs.count` -/
def malloc (objs : ObjectList) : ObjectList :=
  { objs with
    links := Function.update objs.links objs.count (some {}), count := objs.count + 1 }

def put (objs : ObjectList) (a : Ptr) (o : LdapObject) : ObjectList :=
  { objs with node := Function.update objs.node a o }

/-- `LINKEDLIST_APPEND(obj, tmp_obj)` -/
def append (objs : ObjectList) (a : Ptr) : Except Fault ObjectList := do
  let (first, links) ← linkedlistAppend objs.first a objs.links
  pure { objs with first := first, links := links }

end ObjectList

/-- `sprintf(field, "%s", s)`, for a field of `cap` bytes. -/
def fieldString (cap : Nat) (s : List UInt8) : Except Fault (List UInt8) :=
  if s.length < cap then pure s else throw .overrun

def objectClassName : List UInt8 := ascii "objectClass"

/-! ## The attributes -/

/-- `*tmp_obj`, and the string in `buff`. -/
structure ObjState where
  obj : LdapObject
  buff : List UInt8

/-- An attribute whose set was read.  `entry` says whether it is one of a search entry, where the
class is kept apart. -/
def ObjState.keepAttr (entry : Bool) (attr : List UInt8) (vlist : List (List UInt8))
    (st : ObjState) : Except Fault ObjState :=
  if entry ∧ attr = objectClassName then do
    let c ← fieldString ldapMaxAttrNameSize st.buff
    pure { st with obj := { st.obj with objectClass := c } }
  else
    let alist := (lberAttrlistAdd (some []) attr ((addValues vlist).getD [])).2.getD []
    pure { st with obj := { st.obj with alist := st.obj.alist ++ alist } }

/-- A value of a set: into `buff`. -/
def objValue (data : Block) (len i : Int) : Except Fault (List UInt8 × Int) := do
  let buff ← copyString ldapMaxDnSize data i len
  pure (buff, i + len)

/-- The set behind a name, when there is one: what is left of `partLen`, and the new `i`. -/
def objSet (entry : Bool) (data : Block) (attr : List UInt8) (partLen i : Int) (st : ObjState) :
    Except Fault (Int × Int × ObjState) := do
  if (← data.rd i) = 0x31 then
    let (valLen, i') ← findLength data (i + 1)
    let (vals, j) ← decodeItems 0x04 wholeItem (objValue data) data (data.size + 1) valLen i'
    let vals := vals.map beforeNul
    let st ← ObjState.keepAttr entry attr vals { st with buff := vals.getLast?.getD st.buff }
    pure (int32 (partLen - (valLen + i' - i)), j, st)
  else pure (partLen, i + 1, st)

/-- `while (partLen > 0)` -/
def objParts (entry : Bool) (data : Block) : Nat → Int → Int → ObjState →
    Except Fault (Int × ObjState)
  | 0, _, _, _ => .error .stuck
  | turns + 1, partLen, i, st =>
      if 0 < partLen then do
        if (← data.rd i) = 0x04 then
          let (bufLen, i') ← findLength data (i + 1)
          let attr ← copyString ldapMaxAttrNameSize data i' bufLen
          let (partLen, j, st) ← objSet entry data (beforeNul attr)
            (int32 (partLen - (bufLen + i' - i))) (i' + bufLen) st
          objParts entry data turns partLen j st
        else objParts entry data turns partLen (i + 1) st
      else pure (i, st)

/-- `while (attrLen > 0)` -/
def objItems (entry : Bool) (data : Block) : Nat → Int → Int → ObjState →
    Except Fault (Int × ObjState)
  | 0, _, _, _ => .error .stuck
  | turns + 1, attrLen, i, st =>
      if 0 < attrLen then do
        if (← data.rd i) = 0x30 then
          let (partLen, i') ← findLength data (i + 1)
          let (j, st) ← objParts entry data (data.size + 1) partLen i' st
          objItems entry data turns (int32 (attrLen - (partLen + i' - i))) j st
        else objItems entry data turns attrLen (i + 1) st
      else pure (i, st)

/-! ## The elements -/

/-- A search entry at `i`: `len`, the new `i` and the objects. -/
def entryObject (data : Block) (len i : Int) (objs : ObjectList) :
    Except Fault (Int × Int × ObjectList) := do
  let (optLen, i') ← findLength data (i + 1)
  let len := int32 (len - (optLen + i' - i))
  if (← data.rd i') = 0x04 then
    let (bufLen, k) ← findLength data (i' + 1)
    let buff ← copyString ldapMaxDnSize data k bufLen
    let k := k + bufLen
    let a := objs.count
    let objs := objs.malloc
    let name ← fieldString ldapMaxAttrNameSize (beforeNul buff)
    if (← data.rd k) = 0x30 then
      let (attrLen, m) ← findLength data (k + 1)
      let (m, st) ← objItems true data (data.size + 1) attrLen m
        { obj := { name := name }, buff := beforeNul buff }
      let objs ← (objs.put a st.obj).append a
      pure (len, m, objs)
    else pure (len, k + 1, objs)
  else pure (len, i' + 1, objs)

/-- `if (data[i++] == tag) { FIND_LENGTH …; memcpy(buff, …); …; len -= (i - j); }`, a part of an
extended response: the string in `buff`, when the part is there. -/
def objPart (tag : UInt8) (data : Block) (len i : Int) :
    Except Fault (Option (List UInt8) × Int × Int) := do
  if (← data.rd i) = tag then
    let (bufLen, k) ← findLength data (i + 1)
    let buff ← copyString ldapMaxDnSize data k bufLen
    pure (some (beforeNul buff), int32 (len - (k + bufLen - i)), k + bufLen)
  else pure (none, len, i + 1)

/-- The response value, behind its tag. -/
def objResponseValue (data : Block) (len i : Int) (a : Ptr) (obj : LdapObject)
    (objs : ObjectList) : Except Fault (Int × Int × ObjectList) := do
  let (_, k) ← findLength data i
  let len := int32 (len - (k - (i - 1)))
  if (← data.rd k) = 0x30 then
    let (attrLen, m) ← findLength data (k + 1)
    let len := int32 (len - (m - k))
    let (m, st) ← objItems false data (data.size + 1) attrLen m { obj := obj, buff := [] }
    let objs ← (objs.put a st.obj).append a
    pure (len, m, objs)
  else pure (len, k + 1, objs.put a obj)

/-- An extended response at `i`. -/
def extendedObject (data : Block) (len i : Int) (objs : ObjectList) :
    Except Fault (Int × Int × ObjectList) := do
  let (optLen, i') ← findLength data (i + 1)
  let len := int32 (len - (optLen + i' - i))
  let a := objs.count
  let objs ← objs.malloc.append a
  let (_, len, i) ← objPart 0x0a data len i'
  let (_, len, i) ← objPart 0x04 data len i
  let (text, len, i) ← objPart 0x04 data len i
  let error ← fieldString ldapMaxAttrValueSize (text.getD [])
  let (oid, len, i) ← objPart 0x8a data len i
  let name ← fieldString ldapMaxAttrNameSize (oid.getD [])
  let obj : LdapObject := { name := name, objectClass := ascii "extended", error := error }
  if (← data.rd i) = 0x8b then objResponseValue data len (i + 1) a obj objs
  else pure (len, i + 1, objs.put a obj)

/-- `while (len > 0)` -/
def objElements (data : Block) : Nat → Int → Int → ObjectList → Except Fault ObjectList
  | 0, _, _, _ => .error .stuck
  | turns + 1, len, i, objs =>
      if 0 < len then do
        match ← data.rd i with
        | 0x64 => do
            let (len, i, objs) ← entryObject data len i objs
            objElements data turns len i objs
        | 0x78 => do
            let (len, i, objs) ← extendedObject data len i objs
            objElements data turns len i objs
        | _ => objElements data turns len (i + 1) objs
      else pure objs

/-- ber_attr_to_obj.  The bytes of rber end at `rber->len`: what is behind them is not to be
read. -/
def berAttrToObj (lc : LdapClnt) : Except Fault (Outcome × Option ObjectList) :=
  match lc.rber with
  | none => .ok (⟨.errDecode, some "buffer doesn't exist"⟩, none)
  | some rber => do
      let data := Block.ofList rber.berval
      let objs ← objElements data (data.size + 1) (int32 rber.berval.length) 0 {}
      pure (⟨.ok, none⟩, some objs)

/-- The contents of an attribute: a name and a set of values. -/
def AttrWire (a : Attr) (content : List UInt8) : Prop :=
  ∃ name vals set, Tlv 0x04 a.name name ∧ Tlvs (a.vals.map fun v => (0x04, v)) vals ∧
    Tlv 0x31 vals set ∧ content = name ++ set

/-- A list of attributes. -/
inductive AttrsWire : List Attr → List UInt8 → Prop where
  | nil : AttrsWire [] []
  | cons {a : Attr} {attrs : List Attr} {content item rest : List UInt8}
      (head : AttrWire a content) (seq : Tlv 0x30 content item) (tail : AttrsWire attrs rest) :
      AttrsWire (a :: attrs) (item ++ rest)

/-- A search entry as the server has it. -/
structure SearchEntry where
  dn : List UInt8
  attrs : List Attr

/-- A search entry, from its tag on. -/
def SearchEntry.Wire (e : SearchEntry) (out : List UInt8) : Prop :=
  ∃ dn items seq, Tlv 0x04 e.dn dn ∧ AttrsWire e.attrs items ∧ Tlv 0x30 items seq ∧
    Tlv 0x64 (dn ++ seq) out

/-! ## What a search entry becomes -/

/-- What an attribute adds, when its strings fit. -/
def ObjState.takeAttr (entry : Bool) (st : ObjState) (a : Attr) : Except Fault ObjState :=
  if a.name.length < ldapMaxAttrNameSize ∧ ∀ v ∈ a.vals, v.length < ldapMaxDnSize then
    let vals := a.vals.map beforeNul
    ObjState.keepAttr entry (beforeNul a.name) vals
      { st with buff := vals.getLast?.getD st.buff }
  else .error .overrun

/-- The object of a search entry. -/
def SearchEntry.object (e : SearchEntry) : Except Fault LdapObject :=
  if e.dn.length < ldapMaxDnSize ∧ (beforeNul e.dn).length < ldapMaxAttrNameSize then do
    let st ← e.attrs.foldlM (ObjState.takeAttr true)
      { obj := { name := beforeNul e.dn }, buff := beforeNul e.dn }
    pure st.obj
  else .error .overrun

section

variable {data : Block} {i : Nat}

theorem copyString_eq {cap : Nat} {s : List UInt8} (h : Holds data i s) :
    copyString cap data i s.length = if s.length < cap then .ok s else .error .overrun := by
  simp only [copyString, h.load, ok_bind, Nat.cast_lt, pure_eq_ok, throw_eq_error]

/-- A set of values is read whole, or one of them is too long. -/
theorem objValues_eq {vals : List (List UInt8)} {out : List UInt8}
    (wire : Tlvs (vals.map fun v => (0x04, v)) out) (hlen : out.length < 2 ^ 31) {turns : Nat}
    (hturns : vals.length < turns) (h : Holds data i out) :
    decodeItems 0x04 wholeItem (objValue data) data turns out.length i =
      if ∀ v ∈ vals, v.length < ldapMaxDnSize then .ok (vals, ((i + out.length : Nat) : Int))
      else .error .overrun := by
  induction vals generalizing out turns i with
  | nil =>
    obtain ⟨turns, rfl⟩ := Nat.exists_eq_succ_of_ne_zero (by omega : turns ≠ 0)
    cases wire
    simp [decodeItems]
  | cons v vals ih =>
    obtain ⟨turns, rfl⟩ := Nat.exists_eq_succ_of_ne_zero (by omega : turns ≠ 0)
    rw [List.map_cons] at wire
    cases wire with
    | cons head tail =>
      rename_i t rest
      have htwo := head.two_le
      have hcontent := head.length_lt
      rw [List.length_append] at hlen
      rw [List.length_cons] at hturns
      obtain ⟨j, htag, hlength, hbytes, hend, -, -⟩ := head.read (by omega) h.left
      have hrest := ih tail (by omega) (show vals.length < turns by omega) h.right
      have hpos : 0 < ((t ++ rest).length : Int) := by
        rw [List.length_append]
        omega
      have hleft : int32 (((t ++ rest).length : Int) -
          wholeItem ((j : Int) - ((i : Int) + 1)) (v.length : Int)) = (rest.length : Int) := by
        rw [wholeItem, List.length_append, int32_of_range (by omega) (by omega)]
        omega
      have hj : (j : Int) + v.length = ((i + t.length : Nat) : Int) := by omega
      rw [decodeItems, if_pos hpos]
      simp only [htag, ok_bind, if_true, hlength, objValue, copyString_eq hbytes, List.mem_cons,
        forall_eq_or_imp]
      by_cases hv : v.length < ldapMaxDnSize
      · simp only [pure_eq_ok, hleft, hj, hv, true_and]
        change (decodeItems 0x04 wholeItem (objValue data) data turns rest.length
          ((i + t.length : Nat) : Int) >>= _) = _
        rw [hrest]
        split
        · rw [ok_bind, List.length_append, Nat.add_assoc]
        · rfl
      · simp only [error_bind, hv, false_and, if_false]

/-- The set of values behind the name, with which the attribute ends. -/
theorem objSet_eq (entry : Bool) {vals : List (List UInt8)} {out set : List UInt8}
    (wire : Tlvs (vals.map fun v => (0x04, v)) out) (hset : Tlv 0x31 out set)
    (hlen : set.length < 2 ^ 31) (attr : List UInt8) (st : ObjState) (h : Holds data i set) :
    objSet entry data attr set.length i st =
      if ∀ v ∈ vals, v.length < ldapMaxDnSize then do
        let st ← ObjState.keepAttr entry attr (vals.map beforeNul)
          { st with buff := (vals.map beforeNul).getLast?.getD st.buff }
        pure (0, ((i + set.length : Nat) : Int), st)
      else .error .overrun := by
  have hcontent := hset.length_lt
  obtain ⟨j, htag, hlength, hbytes, hend, -, -⟩ := hset.read (by omega) h
  have hturns : vals.length < data.size + 1 := by
    have hle := wire.length_le
    have hin := hbytes.inside
    rw [List.length_map] at hle
    omega
  have hleft : int32 ((set.length : Int) - ((out.length : Int) + j - i)) = 0 := by
    rw [int32_of_range (by omega) (by omega)]
    omega
  simp only [objSet, htag, ok_bind, if_true, hlength,
    objValues_eq wire (show out.length < 2 ^ 31 by omega) hturns hbytes, hend]
  split
  · simp only [ok_bind, hleft]
  · rfl

/-- The parts of an attribute, to where it ends. -/
theorem objParts_eq (entry : Bool) {a : Attr} {content : List UInt8} (wire : AttrWire a content)
    (hlen : content.length < 2 ^ 31) (turns : Nat) (st : ObjState) (h : Holds data i content) :
    objParts entry data (turns + 2) content.length i st =
      st.takeAttr entry a >>= fun st => pure (((i + content.length : Nat) : Int), st) := by
  obtain ⟨name, vals, set, hname, hvals, hset, rfl⟩ := wire
  have htwo := hname.length_lt
  rw [List.length_append] at hlen ⊢
  obtain ⟨j, htag, hlength, hbytes, hend, -, -⟩ := hname.read (by omega) h.left
  have hright := h.right
  have hleft : int32 (((name.length + set.length : Nat) : Int) -
      ((a.name.length : Int) + j - i)) = (set.length : Nat) := by
    rw [int32_of_range (by omega) (by omega)]
    omega
  have hj : (j : Int) + a.name.length = ((i + name.length : Nat) : Int) := by omega
  have hpos : 0 < ((name.length + set.length : Nat) : Int) := by omega
  rw [objParts, if_pos hpos]
  simp only [htag, ok_bind, if_true, hlength, copyString_eq hbytes, ObjState.takeAttr]
  by_cases hfits : a.name.length < ldapMaxAttrNameSize
  · simp only [hfits, if_true, true_and, ok_bind, hleft, hj,
      objSet_eq entry hvals hset (show set.length < 2 ^ 31 by omega) _ st hright]
    split
    · simp only [bind_assoc, pure_eq_ok, ok_bind]
      refine bind_congr fun st' => ?_
      rw [objParts, if_neg (lt_irrefl 0), Nat.add_assoc]
      rfl
    · rfl
  · simp only [hfits, if_false, false_and, error_bind]

/-- The loop over a list of attributes takes one after another, and ends where the list ends. -/
theorem objItems_eq (entry : Bool) {attrs : List Attr} {out : List UInt8}
    (wire : AttrsWire attrs out) (hlen : out.length < 2 ^ 31) {turns : Nat}
    (hturns : attrs.length < turns) (st : ObjState) (h : Holds data i out) :
    objItems entry data turns out.length i st =
      attrs.foldlM (ObjState.takeAttr entry) st >>= fun st =>
        pure (((i + out.length : Nat) : Int), st) := by
  induction wire generalizing turns i st with
  | nil =>
    obtain ⟨turns, rfl⟩ := Nat.exists_eq_succ_of_ne_zero (by omega : turns ≠ 0)
    rfl
  | @cons a attrs content item rest head seq tail ih =>
    obtain ⟨turns, rfl⟩ := Nat.exists_eq_succ_of_ne_zero (by omega : turns ≠ 0)
    rw [List.length_append] at hlen ⊢
    rw [List.length_cons] at hturns
    have htwo := seq.length_lt
    obtain ⟨j, htag, hlength, hbytes, hend, hj, -⟩ := seq.read (by omega) h.left
    have hin := hbytes.inside
    obtain ⟨size, hsize⟩ : ∃ size, data.size + 1 = size + 2 := ⟨data.size - 1, by omega⟩
    have hpos : 0 < ((item.length + rest.length : Nat) : Int) := by omega
    have hleft : int32 (((item.length + rest.length : Nat) : Int) -
        ((content.length : Int) + j - i)) = (rest.length : Nat) := by
      rw [int32_of_range (by omega) (by omega)]
      omega
    rw [objItems, if_pos hpos]
    simp only [htag, ok_bind, if_true, hlength, hsize,
      objParts_eq entry head (show content.length < 2 ^ 31 by omega) size st hbytes, hleft,
      List.foldlM_cons, bind_assoc, pure_eq_ok, hend]
    refine bind_congr fun st' => ?_
    rw [ih (by omega) (show attrs.length < turns by omega) st' h.right, Nat.add_assoc]
    rfl

theorem AttrsWire.length_le {attrs : List Attr} {out : List UInt8} (wire : AttrsWire attrs out) :
    attrs.length ≤ out.length := by
  induction wire with
  | nil => exact Nat.le_refl 0
  | cons head seq tail ih =>
    have htwo := seq.length_lt
    rw [List.length_cons, List.length_append]
    omega

/-- A search entry becomes an object at the end of the list. -/
theorem entryObject_eq {e : SearchEntry} {out : List UInt8} (wire : e.Wire out)
    (hlen : out.length < 2 ^ 31) (len : Int) (objs : ObjectList) (h : Holds data i out) :
    entryObject data len i objs = e.object >>= fun o =>
      (objs.malloc.put objs.count o).append objs.count >>= fun objs =>
        pure (int32 (len - out.length), ((i + out.length : Nat) : Int), objs) := by
  obtain ⟨dn, items, seq, hdn, hattrs, hseq, hout⟩ := wire
  have hshort := hout.length_lt
  rw [List.length_append] at hshort
  obtain ⟨j, -, hlength, hbytes, hend, -, -⟩ :=
    hout.read (show (dn ++ seq).length < 2 ^ 31 by rw [List.length_append]; omega) h
  have hsmall := hdn.length_lt
  have hsmaller := hseq.length_lt
  obtain ⟨k, htag, hdnlen, hname, hk, -, -⟩ := hdn.read (by omega) hbytes.left
  obtain ⟨m, hseqtag, hseqlen, hitems, hm, -, -⟩ := hseq.read (by omega) hbytes.right
  have hturns : e.attrs.length < data.size + 1 := by
    have hle := hattrs.length_le
    have hin := hitems.inside
    omega
  have hused : ((dn ++ seq).length : Int) + j - i = out.length := by omega
  have hnext : (k : Int) + e.dn.length = ((j + dn.length : Nat) : Int) := by omega
  have hlast : m + items.length = i + out.length := by
    rw [List.length_append] at hend
    omega
  simp only [entryObject, hlength, ok_bind, htag, if_true, hdnlen, copyString_eq hname, hnext,
    hused, SearchEntry.object]
  by_cases hfits : e.dn.length < ldapMaxDnSize
  · simp only [hfits, if_true, ok_bind, true_and, fieldString]
    by_cases hfield : (beforeNul e.dn).length < ldapMaxAttrNameSize
    · simp only [hfield, if_true, pure_eq_ok, ok_bind, hseqtag, hseqlen,
        objItems_eq true hattrs (show items.length < 2 ^ 31 by omega) hturns _ hitems, bind_assoc,
        hlast]
    · simp only [hfield, if_false, throw_eq_error, error_bind]
  · simp only [hfits, if_false, false_and, error_bind]

end

/-! ## The ring of objects -/

/-- The objects `os` have been built, in this order. -/
structure ObjectList.Holding (objs : ObjectList) (os : List LdapObject) : Prop where
  count : objs.count = os.length
  ring : IsRing objs.links objs.first (List.range os.length)
  node : (List.range os.length).map objs.node = os

theorem ObjectList.empty_holding : ObjectList.Holding {} [] := ⟨rfl, IsRing.empty, rfl⟩

/-- A new object is linked in behind the others. -/
theorem ObjectList.Holding.append {objs : ObjectList} {os : List LdapObject}
    (holding : objs.Holding os) (o : LdapObject) :
    ∃ objs', (objs.malloc.put objs.count o).append objs.count = .ok objs' ∧
      objs'.Holding (os ++ [o]) := by
  have hnew : objs.count ∉ List.range os.length := by
    rw [holding.count, List.mem_range]
    exact lt_irrefl _
  have hother : ∀ y ∈ List.range os.length, y ≠ objs.count := by
    rintro y hy rfl
    exact hnew hy
  have hring : IsRing objs.malloc.links objs.first (List.range os.length) :=
    holding.ring.congr fun y hy => Function.update_of_ne (hother y hy) _ _
  have halloc : (objs.malloc.links objs.count).isSome := by
    simp only [ObjectList.malloc, Function.update_self, Option.isSome_some]
  obtain ⟨first, links, happend, hring', -⟩ := linkedlistAppend_ring hring hnew halloc
  refine ⟨{ objs.malloc.put objs.count o with first := first, links := links }, ?_, ?_, ?_, ?_⟩
  · change linkedlistAppend objs.first objs.count objs.malloc.links >>= _ = _
    rw [happend]
    rfl
  · rw [List.length_append, List.length_singleton]
    exact congrArg (· + 1) holding.count
  · rw [List.length_append, List.length_singleton, List.range_succ, ← holding.count]
    rw [← holding.count] at hring'
    exact hring'
  · rw [List.length_append, List.length_singleton, List.range_succ, List.map_append]
    congr 1
    · refine (List.map_congr_left fun y hy => ?_).trans holding.node
      exact Function.update_of_ne (hother y hy) _ _
    · rw [List.map_singleton, ← holding.count]
      exact congrArg (fun x => [x]) (Function.update_self ..)

/-! ## One entry after another -/

/-- Search entries, one after another. -/
inductive EntriesWire : List SearchEntry → List UInt8 → Prop where
  | nil : EntriesWire [] []
  | cons {e : SearchEntry} {es : List SearchEntry} {out rest : List UInt8} (head : e.Wire out)
      (tail : EntriesWire es rest) : EntriesWire (e :: es) (out ++ rest)

theorem SearchEntry.Wire.starts {e : SearchEntry} {out : List UInt8} (wire : e.Wire out) :
    ∃ rest, out = 0x64 :: rest := by
  obtain ⟨_, _, _, -, -, -, hout⟩ := wire
  exact hout.head

theorem EntriesWire.length_le {es : List SearchEntry} {out : List UInt8}
    (wire : EntriesWire es out) : es.length ≤ out.length := by
  induction wire with
  | nil => exact Nat.le_refl 0
  | cons head tail ih =>
    obtain ⟨rest, rfl⟩ := head.starts
    simp only [List.length_append, List.length_cons]
    omega

/-- The turn of the loop that takes a search entry. -/
theorem objElements_entry {data : Block} {i n : Nat} {e : SearchEntry} {out : List UInt8}
    (wire : e.Wire out) (hlen : out.length < 2 ^ 31) {k : Int} (hpos : 0 < k)
    {objs : ObjectList} {os : List LdapObject} (holding : objs.Holding os) (h : Holds data i out) :
    (∃ o objs', e.object = .ok o ∧ objs'.Holding (os ++ [o]) ∧
      objElements data (n + 1) k i objs =
        objElements data n (int32 (k - out.length)) ((i + out.length : Nat) : Int) objs') ∨
    ∃ f, e.object = .error f ∧ objElements data (n + 1) k i objs = .error f := by
  have htag : data.rd i = .ok 0x64 := by
    obtain ⟨rest, rfl⟩ := wire.starts
    exact h.rd
  have hentry := entryObject_eq wire hlen k objs h
  rw [objElements, if_pos hpos]
  simp only [htag, ok_bind, hentry]
  cases hobj : e.object with
  | error f => exact .inr ⟨f, rfl, rfl⟩
  | ok o =>
    obtain ⟨objs', happend, holding'⟩ := holding.append o
    refine .inl ⟨o, objs', rfl, holding', ?_⟩
    simp only [ok_bind, happend, pure_eq_ok]

end CassandraApi.Ldap
