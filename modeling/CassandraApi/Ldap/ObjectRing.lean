/-
# `Ldap.ObjectRing` — each object once in the ring

ber_attr_to_obj links an extended response in before it reads its parts, and once
more behind its value.  In a ring of one that changes nothing; behind other
objects the node becomes its own neighbour, which nothing repairs.  The parts are
also taken off the counter a second time, so that as many bytes at the end of rber
are not looked at.

`Passable` says when the walk comes to its end: search entries, and nothing else
but an extended response that comes first.
-/
import CassandraApi.Ldap.SearchObjects

namespace CassandraApi.Ldap

open C Ber Lib

/-! ## Extended responses -/

/-- An extended response with a name, and a list of attributes for its value. -/
structure AttrResponse where
  result : List UInt8
  dn : List UInt8
  text : List UInt8
  oid : List UInt8
  attrs : List Attr

namespace AttrResponse

/-- Such a response, from its tag on; `again` are the bytes between the header of the response
and the attributes. -/
def Wire (x : AttrResponse) (out : List UInt8) (again : Nat) : Prop :=
  ∃ result dn text oid items seq value, Tlv 0x0a x.result result ∧ Tlv 0x04 x.dn dn ∧
    Tlv 0x04 x.text text ∧ Tlv 0x8a x.oid oid ∧ AttrsWire x.attrs items ∧ Tlv 0x30 items seq ∧
    Tlv 0x8b seq value ∧ Tlv 0x78 (result ++ (dn ++ (text ++ (oid ++ value)))) out ∧
    again + items.length = (result ++ (dn ++ (text ++ (oid ++ value)))).length

/-- A string that goes through `buff`. -/
def part (s : List UInt8) : Except Fault (List UInt8) :=
  if s.length < ldapMaxDnSize then .ok (beforeNul s) else .error .overrun

/-- The object of the response. -/
def object (x : AttrResponse) : Except Fault LdapObject := do
  let _ ← part x.result
  let _ ← part x.dn
  let text ← part x.text
  let oid ← part x.oid
  let name ← fieldString ldapMaxAttrNameSize oid
  let st ← x.attrs.foldlM (ObjState.takeAttr false)
    { obj := { name := name, objectClass := ascii "extended", error := text }, buff := [] }
  pure st.obj

end AttrResponse

section

variable {data : Block} {i : Nat}

/-- A part that is there. -/
theorem objPart_eq {tag : UInt8} {s t : List UInt8} (wire : Tlv tag s t)
    (hlen : s.length < 2 ^ 31) (len : Int) (h : Holds data i t) :
    objPart tag data len i = AttrResponse.part s >>= fun s =>
      pure (some s, int32 (len - t.length), ((i + t.length : Nat) : Int)) := by
  obtain ⟨j, htag, hlength, hbytes, hend, -, -⟩ := wire.read hlen h
  have hnext : (j : Int) + s.length = ((i + t.length : Nat) : Int) := by omega
  have hused : ((i + t.length : Nat) : Int) - i = t.length := by omega
  simp only [objPart, htag, ok_bind, if_true, hlength, copyString_eq hbytes, hnext, hused,
    AttrResponse.part]
  split <;> rfl

/-- The error text has more room in the object than in `buff`. -/
theorem fieldString_part {s s' : List UInt8} (h : AttrResponse.part s = .ok s') :
    fieldString ldapMaxAttrValueSize s' = .ok s' := by
  unfold AttrResponse.part at h
  split at h
  · cases h
    have hle := beforeNul_length_le s
    have hmax : ldapMaxDnSize < ldapMaxAttrValueSize := by decide
    rw [fieldString, if_pos (by omega)]
    rfl
  · cases h

/-- An extended response becomes an object, which is linked in twice. -/
theorem extendedObject_eq {x : AttrResponse} {out : List UInt8} {again : Nat}
    (wire : x.Wire out again) (hlen : out.length < 2 ^ 31) (len : Int) (objs : ObjectList)
    (h : Holds data i out) :
    ∃ len', (out.length ≤ len → len < 2 ^ 31 → len' = len - out.length - again) ∧
      extendedObject data len i objs = objs.malloc.append objs.count >>= fun objs' =>
        x.object >>= fun o => (objs'.put objs.count o).append objs.count >>= fun objs' =>
          pure (len', ((i + out.length : Nat) : Int), objs') := by
  obtain ⟨result, dn, text, oid, items, seq, value, hresult, hdn, htext, hoid, hattrs, hseq, hvalue,
    hbody, hagain⟩ := wire
  have hshort := hbody.length_lt
  obtain ⟨j, -, hlength, hbytes, hend, -, -⟩ := hbody.read (by omega) h
  have h₁ := hresult.length_lt
  have h₂ := hdn.length_lt
  have h₃ := htext.length_lt
  have h₄ := hoid.length_lt
  have h₅ := hvalue.length_lt
  have h₆ := hseq.length_lt
  have hused : ((result ++ (dn ++ (text ++ (oid ++ value)))).length : Int) + j - i =
      out.length := by omega
  simp only [List.length_append] at hshort hagain hend
  obtain ⟨k, hvtag, hvlen, hvbytes, hk, -, -⟩ :=
    hvalue.read (by omega) hbytes.right.right.right.right
  obtain ⟨m, hstag, hslen, hitems, hm, -, -⟩ := hseq.read (by omega) hvbytes
  have hturns : x.attrs.length < data.size + 1 := by
    have hle := hattrs.length_le
    have hin := hitems.inside
    omega
  have hlast : m + items.length = i + out.length := by omega
  refine ⟨int32 (int32 (int32 (int32 (int32 (int32 (int32 (len - out.length) - result.length) -
    dn.length) - text.length) - oid.length) - ((k : Int) - (((j + result.length + dn.length +
      text.length + oid.length : Nat) : Int) + 1 - 1))) - ((m : Int) - k)),
    fun hout hmax => ?_, ?_⟩
  · rw [int32_of_range (x := len - out.length) (by omega) (by omega),
      int32_of_range (x := len - out.length - result.length) (by omega) (by omega),
      int32_of_range (x := _ - (dn.length : Int)) (by omega) (by omega),
      int32_of_range (x := _ - (text.length : Int)) (by omega) (by omega),
      int32_of_range (x := _ - (oid.length : Int)) (by omega) (by omega),
      int32_of_range (x := _ - ((k : Int) - _)) (by omega) (by omega),
      int32_of_range (by omega) (by omega)]
    omega
  · simp only [extendedObject, hlength, ok_bind, hused]
    refine bind_congr fun objs' => ?_
    simp only [AttrResponse.object, bind_assoc]
    rw [objPart_eq hresult (by omega) _ hbytes.left, bind_assoc]
    refine bind_congr fun _ => ?_
    simp only [pure_eq_ok, ok_bind]
    rw [objPart_eq hdn (by omega) _ hbytes.right.left, bind_assoc]
    refine bind_congr fun _ => ?_
    simp only [pure_eq_ok, ok_bind]
    rw [objPart_eq htext (by omega) _ hbytes.right.right.left, bind_assoc]
    cases hpart : AttrResponse.part x.text with
    | error f => rfl
    | ok text' =>
      simp only [ok_bind, pure_eq_ok, Option.getD_some, fieldString_part hpart]
      rw [objPart_eq hoid (by omega) _ hbytes.right.right.right.left, bind_assoc]
      refine bind_congr fun oid' => ?_
      simp only [pure_eq_ok, ok_bind, Option.getD_some]
      refine bind_congr fun name => ?_
      simp only [hvtag, ok_bind, if_true, objResponseValue, hvlen, hstag, hslen,
        objItems_eq false hattrs (show items.length < 2 ^ 31 by omega) hturns _ hitems, bind_assoc,
        pure_eq_ok, hlast]

end

/-! ## Rings that stay whole -/

/-- Every object that was allocated is in the ring, once. -/
def ObjectList.LinkedOnce (objs : ObjectList) : Prop :=
  ∃ ptrs, IsRing objs.links objs.first ptrs ∧ ptrs.Perm (List.range objs.count)

theorem ObjectList.Holding.linkedOnce {objs : ObjectList} {os : List LdapObject}
    (holding : objs.Holding os) : objs.LinkedOnce :=
  ⟨_, holding.ring, by rw [holding.count]⟩

/-- The first object may be linked in twice. -/
theorem append_twice (o : LdapObject) :
    ∃ objs objs', ObjectList.append (ObjectList.malloc {}) 0 = .ok objs ∧
      (objs.put 0 o).append 0 = .ok objs' ∧ objs'.Holding [o] := by
  obtain ⟨objs, happend, holding⟩ := ObjectList.empty_holding.append o
  have hring : IsRing objs.links objs.first [0] := holding.ring
  have hfirst : objs.first = some 0 := hring.head
  rw [hfirst] at hring
  obtain ⟨links, hagain, hring'⟩ := linkedlistAppend_again hring
  obtain ⟨⟨first, links'⟩, hlink, heq⟩ := bind_eq_ok.1 happend
  cases heq
  refine ⟨{ ObjectList.malloc {} with first := first, links := links' },
    { ({ ObjectList.malloc {} with first := first, links := links' } : ObjectList).put 0 o with
      first := some 0, links := links }, ?_, ?_, rfl, hring', ?_⟩
  · change linkedlistAppend none 0 (ObjectList.malloc {}).links >>= _ = _
    change linkedlistAppend none 0 (ObjectList.malloc {}).links = _ at hlink
    rw [hlink]
    rfl
  · change linkedlistAppend first 0 links' >>= _ = _
    simp only at hfirst hagain
    rw [hfirst, hagain]
    rfl
  · exact congrArg (fun x => [x])
      (show Function.update (ObjectList.malloc {}).node 0 o 0 = o from Function.update_self ..)

/-! ## What the walk gets through -/

/-- Search entries whose strings fit, for as long as `len` is positive. -/
inductive EntriesPass : Int → List UInt8 → Prop where
  | done {len : Int} {bytes : List UInt8} (h : len ≤ 0) : EntriesPass len bytes
  | entry {e : SearchEntry} {out rest : List UInt8} {len : Int} {o : LdapObject}
      (wire : e.Wire out) (fits : e.object = .ok o)
      (tail : EntriesPass (len - out.length) rest) : EntriesPass len (out ++ rest)

/-- The walk starts with a search entry, or with an extended response whose strings fit; from
there on it meets search entries. -/
inductive Passable : List UInt8 → Prop where
  | entries {bytes : List UInt8} (h : EntriesPass bytes.length bytes) : Passable bytes
  | response {x : AttrResponse} {out rest : List UInt8} {again : Nat} {o : LdapObject}
      (wire : x.Wire out again) (fits : x.object = .ok o)
      (tail : EntriesPass ((rest.length : Int) - again) rest) : Passable (out ++ rest)

section

variable {data : Block} {i : Nat}

/-- The walk over search entries ends with a whole ring. -/
theorem objElements_pass {len : Int} {bytes : List UInt8} (pass : EntriesPass len bytes)
    (hlow : -2 ^ 31 ≤ len) (hhigh : len < 2 ^ 31) (hbytes : bytes.length < 2 ^ 31) {n : Nat}
    (hturns : bytes.length < n) {objs : ObjectList} {os : List LdapObject}
    (holding : objs.Holding os) (h : Holds data i bytes) :
    ∃ objs' os', objElements data n len i objs = .ok objs' ∧ objs'.Holding os' := by
  induction pass generalizing i n objs os with
  | done hdone =>
    obtain ⟨n, rfl⟩ := Nat.exists_eq_succ_of_ne_zero (by omega : n ≠ 0)
    refine ⟨objs, os, ?_, holding⟩
    rw [objElements, if_neg (not_lt.2 hdone)]
    rfl
  | @entry e out rest len o wire fits tail ih =>
    obtain ⟨n, rfl⟩ := Nat.exists_eq_succ_of_ne_zero (by omega : n ≠ 0)
    by_cases hpos : 0 < len
    · obtain ⟨_, hout⟩ := wire.starts
      have hone : 1 ≤ out.length := by
        rw [hout, List.length_cons]
        omega
      rw [List.length_append] at hbytes hturns
      obtain ⟨o', objs', -, holding', hturn⟩ | ⟨f, hobj, -⟩ :=
        objElements_entry (n := n) wire (by omega) hpos holding h.left
      · rw [hturn, int32_of_range (by omega) (by omega)]
        exact ih (by omega) (by omega) (by omega) (show rest.length < n by omega) holding'
          h.right
      · rw [fits] at hobj
        cases hobj
    · refine ⟨objs, os, ?_, holding⟩
      rw [objElements, if_neg hpos]
      rfl

/-- The turn of the loop that takes an extended response before anything else. -/
theorem objElements_response {n : Nat} {x : AttrResponse} {out : List UInt8} {again : Nat}
    (wire : x.Wire out again) (hlen : out.length < 2 ^ 31) {k : Int} (hout : out.length ≤ k)
    (hmax : k < 2 ^ 31) (h : Holds data i out) :
    (∃ o objs, x.object = .ok o ∧ objs.Holding [o] ∧
      objElements data (n + 1) k i {} = objElements data n (k - out.length - again)
        ((i + out.length : Nat) : Int) objs) ∨
    ∃ f, x.object = .error f ∧ objElements data (n + 1) k i {} = .error f := by
  obtain ⟨k', hlen', hresp⟩ := extendedObject_eq wire hlen k {} h
  rw [hlen' hout hmax] at hresp
  have htag : data.rd i = .ok 0x78 := by
    obtain ⟨_, _, _, _, _, _, _, -, -, -, -, -, -, -, hbody, -⟩ := wire
    obtain ⟨rest, rfl⟩ := hbody.head
    exact h.rd
  have hpos : 0 < k := by
    obtain ⟨_, _, _, _, _, _, _, -, -, -, -, -, -, -, hbody, -⟩ := wire
    have htwo := hbody.length_lt
    omega
  rw [objElements, if_pos hpos]
  simp only [htag, ok_bind, hresp]
  cases hobj : x.object with
  | error f =>
    obtain ⟨objs, -, happend, -⟩ := append_twice {}
    exact .inr ⟨f, rfl, by rw [happend]; rfl⟩
  | ok o =>
    obtain ⟨objs, objs', happend, hagain, holding⟩ := append_twice o
    refine .inl ⟨o, objs', rfl, holding, ?_⟩
    rw [happend]
    simp only [ok_bind, hagain, pure_eq_ok]

end

/-! ## Rings that are broken -/

/-- `x` is its own predecessor, but not the first object. -/
structure ObjectList.BrokenAt (objs : ObjectList) (f x : Ptr) : Prop where
  first : objs.first = some f
  other : f ≠ x
  allocated : x < objs.count
  own : objs.links.prev x = some x

section

variable {objs objs' : ObjectList} {f x a : Ptr}

/-- Such a list is no ring of all objects. -/
theorem ObjectList.BrokenAt.not_linkedOnce (broken : objs.BrokenAt f x) : ¬ objs.LinkedOnce := by
  rintro ⟨ptrs, hring, hperm⟩
  have hmem : x ∈ ptrs := hperm.mem_iff.2 (List.mem_range.2 broken.allocated)
  obtain ⟨ys, zs, rfl⟩ := List.append_of_mem hmem
  cases ys with
  | nil =>
    have hhead : some f = some x := broken.first.symm.trans hring.head
    exact broken.other (Option.some.inj hhead)
  | cons y ys =>
    have hseg : Seg objs.links y (ys ++ x :: zs) y := hring.cycle
    obtain ⟨l, hl, hprev⟩ := (Seg.append_iff.1 hseg).1.prev_mem
    obtain rfl : x = l := Option.some.inj (broken.own.symm.trans hprev)
    exact hring.not_mem (List.mem_append_left zs hl)

theorem ObjectList.BrokenAt.malloc (broken : objs.BrokenAt f x) : objs.malloc.BrokenAt f x := by
  have hne : x ≠ objs.count := broken.allocated.ne
  refine ⟨broken.first, broken.other, Nat.lt_succ_of_lt broken.allocated, ?_⟩
  simpa [ObjectList.malloc, Heap.prev, hne] using broken.own

theorem ObjectList.BrokenAt.put (broken : objs.BrokenAt f x) (a : Ptr) (o : LdapObject) :
    (objs.put a o).BrokenAt f x :=
  ⟨broken.first, broken.other, broken.allocated, broken.own⟩

theorem ObjectList.BrokenAt.append (broken : objs.BrokenAt f x) (hx : a ≠ x) (hf : a ≠ f)
    (h : objs.append a = .ok objs') : objs'.BrokenAt f x ∧ objs'.count = objs.count := by
  obtain ⟨⟨first, links⟩, hlink, heq⟩ := bind_eq_ok.1 h
  cases heq
  rw [broken.first] at hlink
  obtain ⟨rfl, -, hprev⟩ := linkedlistAppend_prev hf hlink
  exact ⟨⟨rfl, broken.other, broken.allocated,
    (hprev x hx.symm broken.other.symm).trans broken.own⟩, rfl⟩

/-- Whatever a search entry looks like, it does not repair the list. -/
theorem entryObject_broken {data : Block} {len i len' i' : Int} (broken : objs.BrokenAt f x)
    (hf : f < objs.count) (h : entryObject data len i objs = .ok (len', i', objs')) :
    objs'.BrokenAt f x ∧ f < objs'.count := by
  simp only [entryObject, bind_eq_ok] at h
  obtain ⟨⟨optLen, k⟩, -, c, -, h⟩ := h
  split at h
  · obtain ⟨⟨bufLen, m⟩, -, h⟩ := bind_eq_ok.1 h
    obtain ⟨buff, -, h⟩ := bind_eq_ok.1 h
    obtain ⟨name, -, h⟩ := bind_eq_ok.1 h
    obtain ⟨c', -, h⟩ := bind_eq_ok.1 h
    split at h
    · obtain ⟨⟨attrLen, n⟩, -, h⟩ := bind_eq_ok.1 h
      obtain ⟨⟨n', st⟩, -, h⟩ := bind_eq_ok.1 h
      obtain ⟨objs₁, happend, h⟩ := bind_eq_ok.1 h
      cases h
      obtain ⟨hbroken, hcount⟩ :=
        (broken.malloc.put _ _).append broken.allocated.ne' hf.ne' happend
      exact ⟨hbroken, hcount ▸ Nat.lt_succ_of_lt hf⟩
    · cases h
      exact ⟨broken.malloc, Nat.lt_succ_of_lt hf⟩
  · cases h
    exact ⟨broken, hf⟩

theorem objResponseValue_broken {data : Block} {len i len' i' : Int} {obj : LdapObject}
    (broken : objs.BrokenAt f x) (hf : f < objs.count) (hx : a ≠ x) (ha : a ≠ f)
    (h : objResponseValue data len i a obj objs = .ok (len', i', objs')) :
    objs'.BrokenAt f x ∧ f < objs'.count := by
  simp only [objResponseValue, bind_eq_ok] at h
  obtain ⟨⟨_, k⟩, -, c, -, h⟩ := h
  split at h
  · obtain ⟨⟨attrLen, m⟩, -, h⟩ := bind_eq_ok.1 h
    obtain ⟨⟨m', st⟩, -, h⟩ := bind_eq_ok.1 h
    obtain ⟨objs₁, happend, h⟩ := bind_eq_ok.1 h
    cases h
    obtain ⟨hbroken, hcount⟩ := (broken.put _ _).append hx ha happend
    exact ⟨hbroken, hcount ▸ hf⟩
  · cases h
    exact ⟨broken.put _ _, hf⟩

theorem extendedObject_broken {data : Block} {len i len' i' : Int} (broken : objs.BrokenAt f x)
    (hf : f < objs.count) (h : extendedObject data len i objs = .ok (len', i', objs')) :
    objs'.BrokenAt f x ∧ f < objs'.count := by
  simp only [extendedObject, bind_eq_ok] at h
  obtain ⟨⟨optLen, k⟩, -, objs₁, happend, ⟨_, _, _⟩, -, ⟨_, _, _⟩, -, ⟨_, _, _⟩, -, error, -,
    ⟨_, _, _⟩, -, name, -, c, -, h⟩ := h
  obtain ⟨hbroken, hcount⟩ := broken.malloc.append broken.allocated.ne' hf.ne' happend
  have hf₁ : f < objs₁.count := hcount ▸ Nat.lt_succ_of_lt hf
  split at h
  · exact objResponseValue_broken hbroken hf₁ broken.allocated.ne' hf.ne' h
  · cases h
    exact ⟨hbroken.put _ _, hf₁⟩

/-- Nothing does, on any bytes. -/
theorem objElements_broken {data : Block} {turns : Nat} {len i : Int} (broken : objs.BrokenAt f x)
    (hf : f < objs.count) (h : objElements data turns len i objs = .ok objs') :
    objs'.BrokenAt f x := by
  induction turns generalizing len i objs with
  | zero => cases h
  | succ turns ih =>
    rw [objElements] at h
    split at h
    · obtain ⟨c, -, h⟩ := bind_eq_ok.1 h
      split at h
      · obtain ⟨⟨len₁, i₁, objs₁⟩, hentry, h⟩ := bind_eq_ok.1 h
        obtain ⟨hbroken, hf₁⟩ := entryObject_broken broken hf hentry
        exact ih hbroken hf₁ h
      · obtain ⟨⟨len₁, i₁, objs₁⟩, hresp, h⟩ := bind_eq_ok.1 h
        obtain ⟨hbroken, hf₁⟩ := extendedObject_broken broken hf hresp
        exact ih hbroken hf₁ h
      · exact ih broken hf h
    · cases h
      exact broken

/-- A response behind other objects is linked in twice, and the list is broken. -/
theorem append_twice_broken {os : List LdapObject} (holding : objs.Holding os) (hos : os ≠ [])
    {o : LdapObject} {objs₁ objs₂ : ObjectList}
    (happend : objs.malloc.append objs.count = .ok objs₁)
    (hagain : (objs₁.put objs.count o).append objs.count = .ok objs₂) :
    objs₂.BrokenAt 0 objs.count ∧ 0 < objs₂.count := by
  obtain ⟨objs', happend', holding'⟩ := holding.append {}
  have hpos : 0 < os.length := List.length_pos_iff.2 hos
  have hne : objs.count ≠ 0 := by
    rw [holding.count]
    exact hpos.ne'
  obtain ⟨⟨first, links⟩, hlink, heq⟩ := bind_eq_ok.1 happend
  cases heq
  have hsame : (objs.malloc.put objs.count {}).append objs.count =
      .ok { objs.malloc.put objs.count {} with first := first, links := links } := by
    change linkedlistAppend objs.malloc.first objs.count objs.malloc.links >>= _ = _
    rw [hlink]
    rfl
  rw [hsame] at happend'
  cases happend'
  have hring : IsRing links first (List.range (os ++ [({} : LdapObject)]).length) := holding'.ring
  rw [List.length_append, List.length_singleton, List.range_succ, ← holding.count] at hring
  obtain ⟨n, hn⟩ := Nat.exists_eq_succ_of_ne_zero hne
  have hrange : List.range objs.count = 0 :: (List.range n).map Nat.succ := by
    rw [hn, List.range_succ_eq_map]
  rw [hrange, List.cons_append] at hring
  have hfirst : first = some 0 := hring.head
  subst hfirst
  obtain ⟨⟨first₂, links₂⟩, hlink₂, heq₂⟩ := bind_eq_ok.1 hagain
  cases heq₂
  obtain ⟨rfl, hitem, -⟩ := linkedlistAppend_prev hne hlink₂
  have hlast : links.prev 0 = some objs.count := (Seg.append_iff.1 hring.cycle).2.2
  exact ⟨⟨rfl, hne.symm, Nat.lt_succ_self _, hitem.trans hlast⟩, Nat.succ_pos _⟩

end

/-! ## When each object is linked once -/

/-- Search entries and extended responses with an attribute list, without controls. -/
inductive Plain : List UInt8 → Prop where
  | nil : Plain []
  | entry {e : SearchEntry} {out rest : List UInt8} (wire : e.Wire out) (tail : Plain rest) :
      Plain (out ++ rest)
  | response {x : AttrResponse} {out rest : List UInt8} {again : Nat} (wire : x.Wire out again)
      (tail : Plain rest) : Plain (out ++ rest)

section

variable {data : Block} {i : Nat}

theorem AttrResponse.Wire.starts {x : AttrResponse} {out : List UInt8} {again : Nat}
    (wire : x.Wire out again) : ∃ rest, out = 0x78 :: rest := by
  obtain ⟨_, _, _, _, _, _, _, -, -, -, -, -, -, -, hbody, -⟩ := wire
  exact hbody.head

/-- Behind other objects, an extended response that is reached breaks the list for good. -/
theorem response_breaks {turns : Nat} {x : AttrResponse} {out : List UInt8} {again : Nat}
    (wire : x.Wire out again) (hlen : out.length < 2 ^ 31) {len : Int} (hpos : 0 < len)
    {objs objs' : ObjectList} {os : List LdapObject} (holding : objs.Holding os) (hos : os ≠ [])
    (h : Holds data i out) (hrun : objElements data turns len i objs = .ok objs') :
    ¬ objs'.LinkedOnce := by
  cases turns with
  | zero => cases hrun
  | succ turns =>
    have htag : data.rd i = .ok 0x78 := by
      obtain ⟨rest, rfl⟩ := wire.starts
      exact h.rd
    obtain ⟨len', -, hresp⟩ := extendedObject_eq wire hlen len objs h
    rw [objElements, if_pos hpos, htag, ok_bind] at hrun
    simp only at hrun
    obtain ⟨⟨len₁, i₁, objs₂⟩, hext, hrest⟩ := bind_eq_ok.1 hrun
    rw [hresp] at hext
    obtain ⟨objs₁, happend, hext⟩ := bind_eq_ok.1 hext
    obtain ⟨o, -, hext⟩ := bind_eq_ok.1 hext
    obtain ⟨objs₂', hagain, heq⟩ := bind_eq_ok.1 hext
    cases heq
    obtain ⟨hbroken, hcount⟩ := append_twice_broken holding hos happend hagain
    exact (objElements_broken hbroken hcount hrest).not_linkedOnce

/-- Behind other objects the walk gets through search entries only. -/
theorem pass_of_linkedOnce {bytes : List UInt8} (plain : Plain bytes) {len : Int}
    (hlow : -2 ^ 31 ≤ len) (hhigh : len < 2 ^ 31) (hbytes : bytes.length < 2 ^ 31) {turns : Nat}
    {objs objs' : ObjectList} {os : List LdapObject} (holding : objs.Holding os) (hos : os ≠ [])
    (h : Holds data i bytes) (hend : i + bytes.length = data.size)
    (hrun : objElements data turns len i objs = .ok objs') (once : objs'.LinkedOnce) :
    EntriesPass len bytes := by
  induction plain generalizing i len turns objs os with
  | nil =>
    by_cases hpos : 0 < len
    · cases turns with
      | zero => cases hrun
      | succ turns =>
        have hout : data.rd i = .error .read := by
          rw [List.length_nil] at hend
          exact if_neg (by omega)
        rw [objElements, if_pos hpos, hout] at hrun
        cases hrun
    · exact .done (not_lt.1 hpos)
  | @entry e out rest wire tail ih =>
    by_cases hpos : 0 < len
    · cases turns with
      | zero => cases hrun
      | succ turns =>
        have hone : 1 ≤ out.length := by
          obtain ⟨_, rfl⟩ := wire.starts
          rw [List.length_cons]
          omega
        rw [List.length_append] at hbytes hend
        obtain ⟨o, objs₁, hobj, holding', hturn⟩ | ⟨f, -, hturn⟩ :=
          objElements_entry (n := turns) wire (by omega) hpos holding h.left
        · rw [hturn, int32_of_range (by omega) (by omega)] at hrun
          exact .entry wire hobj (ih (by omega) (by omega) (by omega) holding' (by simp) h.right
            (by omega) hrun)
        · rw [hturn] at hrun
          cases hrun
    · exact .done (not_lt.1 hpos)
  | @response x out rest again wire tail ih =>
    by_cases hpos : 0 < len
    · rw [List.length_append] at hbytes
      exact absurd once (response_breaks wire (by omega) hpos holding hos h.left hrun)
    · exact .done (not_lt.1 hpos)

end

/-- ber_attr_to_obj ends without reading behind rber, and each object it has allocated is in the
ring once. -/
def ConvertsOnce (lc : LdapClnt) : Prop :=
  ∃ out objs, berAttrToObj lc = .ok (out, objs) ∧ ∀ o ∈ objs, o.LinkedOnce

theorem convertsOnce_iff {lc : LdapClnt} {b : BER} (hrber : lc.rber = some b)
    (hlen : b.berval.length < 2 ^ 31) : ConvertsOnce lc ↔
      ∃ objs, objElements (Block.ofList b.berval) (b.berval.length + 1) b.berval.length 0 {} =
        .ok objs ∧ objs.LinkedOnce := by
  rw [ConvertsOnce, berAttrToObj, hrber]
  simp only [int32_natCast hlen]
  constructor
  · rintro ⟨out, objs, hrun, once⟩
    obtain ⟨objs', hloop, heq⟩ := bind_eq_ok.1 hrun
    cases heq
    exact ⟨objs', hloop, once objs' rfl⟩
  · rintro ⟨objs, hloop, once⟩
    refine ⟨⟨.ok, none⟩, some objs, ?_, fun o ho => ?_⟩
    · exact bind_eq_ok.2 ⟨objs, hloop, rfl⟩
    · cases ho
      exact once

theorem objElements_passable {bytes : List UInt8} (pass : Passable bytes)
    (hlen : bytes.length < 2 ^ 31) :
    ∃ objs, objElements (Block.ofList bytes) (bytes.length + 1) bytes.length 0 {} = .ok objs ∧
      objs.LinkedOnce := by
  have hholds := Block.ofList_holds bytes
  generalize Block.ofList bytes = data at hholds
  cases pass with
  | entries pass =>
    obtain ⟨objs, os, hrun, holding⟩ := objElements_pass pass (by omega) (by omega) hlen
      (Nat.lt_succ_self _) ObjectList.empty_holding hholds
    exact ⟨objs, hrun, holding.linkedOnce⟩
  | @response x out rest again o wire fits tail =>
    rw [List.length_append] at hlen ⊢
    have hagain : again < out.length := by
      obtain ⟨_, _, _, _, _, _, _, -, -, -, -, -, -, -, hbody, hagain⟩ := wire
      have htwo := hbody.length_lt
      omega
    have hleft : ((out.length + rest.length : Nat) : Int) - out.length - again =
        rest.length - again := by omega
    obtain ⟨o', objs, -, holding, hturn⟩ | ⟨f, hobj, -⟩ := objElements_response
      (n := out.length + rest.length) wire (by omega)
      (k := ((out.length + rest.length : Nat) : Int)) (by omega) (by omega) hholds.left
    · rw [Nat.cast_zero, hleft] at hturn
      obtain ⟨objs', os, hrun, holding'⟩ := objElements_pass (n := out.length + rest.length)
        tail (by omega) (by omega) (by omega) (by omega) holding hholds.right
      exact ⟨objs', hturn.trans hrun, holding'.linkedOnce⟩
    · rw [fits] at hobj
      cases hobj

theorem passable_of_linkedOnce {bytes : List UInt8} (plain : Plain bytes)
    (hlen : bytes.length < 2 ^ 31) {objs : ObjectList}
    (hrun : objElements (Block.ofList bytes) (bytes.length + 1) bytes.length 0 {} = .ok objs)
    (once : objs.LinkedOnce) : Passable bytes := by
  have hholds := Block.ofList_holds bytes
  have hsize : (Block.ofList bytes).size = bytes.length := rfl
  generalize Block.ofList bytes = data at hholds hsize hrun
  cases plain with
  | nil => exact .entries (.done (le_refl _))
  | @entry e out rest wire tail =>
    refine .entries ?_
    rw [List.length_append] at hlen hrun hsize ⊢
    have hone : 1 ≤ out.length := by
      obtain ⟨_, rfl⟩ := wire.starts
      rw [List.length_cons]
      omega
    have hleft : int32 (((out.length + rest.length : Nat) : Int) - out.length) =
        ((out.length + rest.length : Nat) : Int) - out.length :=
      int32_of_range (by omega) (by omega)
    obtain ⟨o, objs₁, hobj, holding, hturn⟩ | ⟨f, -, hturn⟩ :=
      objElements_entry (n := out.length + rest.length) wire (by omega)
        (k := ((out.length + rest.length : Nat) : Int)) (by omega) ObjectList.empty_holding
        hholds.left
    · rw [Nat.cast_zero, hrun, hleft] at hturn
      exact .entry wire hobj (pass_of_linkedOnce tail (by omega) (by omega) (by omega) holding
        (by simp) hholds.right (by omega) hturn.symm once)
    · rw [Nat.cast_zero, hrun] at hturn
      cases hturn
  | @response x out rest again wire tail =>
    rw [List.length_append] at hlen hrun hsize
    have hagain : again < out.length := by
      obtain ⟨_, _, _, _, _, _, _, -, -, -, -, -, -, -, hbody, hagain⟩ := wire
      have htwo := hbody.length_lt
      omega
    have hleft : ((out.length + rest.length : Nat) : Int) - out.length - again =
        rest.length - again := by omega
    obtain ⟨o, objs₁, hobj, holding, hturn⟩ | ⟨f, -, hturn⟩ := objElements_response
      (n := out.length + rest.length) wire (by omega)
      (k := ((out.length + rest.length : Nat) : Int)) (by omega) (by omega) hholds.left
    · rw [Nat.cast_zero, hrun, hleft] at hturn
      exact .response wire hobj (pass_of_linkedOnce tail (by omega) (by omega) (by omega) holding
        (by simp) hholds.right (by omega) hturn.symm once)
    · rw [Nat.cast_zero, hrun] at hturn
      cases hturn

/-- What can be passed is converted, each object once; and of plain elements nothing else is.
`rber->len` is an `int`. -/
theorem converts_once (lc : LdapClnt) (hlen : (BER.bytes lc.rber).length < 2 ^ 31) :
    (lc.rber = none ∨ Passable (BER.bytes lc.rber) → ConvertsOnce lc) ∧
      (Plain (BER.bytes lc.rber) → ConvertsOnce lc →
        lc.rber = none ∨ Passable (BER.bytes lc.rber)) := by
  cases hrber : lc.rber with
  | none =>
    refine ⟨fun _ => ⟨⟨.errDecode, some "buffer doesn't exist"⟩, none, ?_, fun o ho => ?_⟩,
      fun _ _ => .inl rfl⟩
    · rw [berAttrToObj, hrber]
    · cases ho
  | some b =>
    rw [hrber] at hlen
    change b.berval.length < 2 ^ 31 at hlen
    rw [convertsOnce_iff hrber hlen]
    change (_ ∨ Passable b.berval → _) ∧ (Plain b.berval → _ → _ ∨ Passable b.berval)
    constructor
    · intro hpass
      exact objElements_passable (hpass.resolve_left (by simp)) hlen
    · rintro plain ⟨objs, hrun, once⟩
      exact .inr (passable_of_linkedOnce plain hlen hrun once)

/-- A connection that has collected one search entry. -/
theorem converts_once_entry :
    ((some ⟨berBuffer, (person 1).octets⟩ : Option BER) = none ∨ Passable (person 1).octets →
        ConvertsOnce { no := 0, rber := some ⟨berBuffer, (person 1).octets⟩ }) ∧
      (Plain (person 1).octets →
        ConvertsOnce { no := 0, rber := some ⟨berBuffer, (person 1).octets⟩ } →
          (some ⟨berBuffer, (person 1).octets⟩ : Option BER) = none ∨ Passable (person 1).octets) :=
  converts_once { no := 0, rber := some ⟨berBuffer, (person 1).octets⟩ } (by decide)

/-- What the generators of search entries, search dones and extended responses write. -/
inductive AnswerBer (b : BER) : Prop where
  | entry (e : SearchEntry) (ber : Option BER) (mid : Int) (h : e.generate ber mid = .ok b)
  | report (r : Report) (ber : Option BER) (hop : r.op = 0x65 ∨ r.op = 0x78)
      (h : r.generate true ber = .ok b)

/-- The frame in the read buffer. -/
structure Framed (b : BER) (rb : ReadBuffer) : Prop where
  held : ∃ buf, rb.rBuffer = some buf ∧ Holds buf 0 b.berval
  body : rb.rBerBody = 0
  length : rb.rBerBodyLength = b.berval.length

/-- An extended response with a name and an empty value. -/
def emptied : Report := ⟨.extendedResponse (some (ascii "1.2")) [], 1, 0, none, none⟩

/-- Behind its value the byte after rber is read. -/
theorem empty_value_overread :
    ¬ ∀ rbs : List ReadBuffer, (∀ rb ∈ rbs, ∃ b, AnswerBer b ∧ Framed b rb) →
      ∀ lc', run (collect true) { no := 0 } rbs = .ok lc' → ConvertsOnce lc' := by
  intro h
  have hproduced := emptied.generate_produced (by decide) none
  rw [Produced, if_pos (by decide)] at hproduced
  obtain ⟨size, hgen⟩ := hproduced
  have hsmall : (tlv 0x30 emptied.content).length < ldapReadBuffer := by decide
  obtain ⟨buf, hbuf, -, -, hheld⟩ := (inbox_buffered hsmall).block
  rw [List.append_nil] at hheld
  have hrun : (do
      let lc ← run (collect true) { no := 0 } [framed (tlv 0x30 emptied.content)]
      pure ((fun _ => ()) <$> berAttrToObj lc)) = .ok (.error .read) := by decide +kernel
  obtain ⟨lc', hlc, hconv⟩ := bind_eq_ok.1 hrun
  obtain ⟨out, objs, hok, -⟩ := h [framed (tlv 0x30 emptied.content)] (List.forall_mem_singleton.2
    ⟨_, .report emptied none (.inr rfl) hgen, ⟨buf, hbuf, hheld⟩, rfl, rfl⟩) lc' hlc
  rw [hok] at hconv
  cases hconv

end CassandraApi.Ldap
