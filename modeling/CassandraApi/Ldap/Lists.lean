/-
# `Ldap.Lists` — lists of attributes and of modifications on the wire

The generators of the two lists in closed form:

    30 L  04 n name  31 L values                          an attribute
    30 L  0a 1 operation  30 L  04 n name  31 L values    a modification

The code computes the size of a header in the scratch variable that
INSERT_LENGTH shares with it, and goes on counting from wherever the last count
has ended.  No count ends beyond what the lengths need that are still to come
(`Reaches`), and after a turn the variable is at most 1 again.
-/
import CassandraApi.Ldap.Wire

namespace CassandraApi.Ldap

open C Ber

/-! ## On the wire -/

/-- A set of values. -/
def valsOctets (vals : List (List UInt8)) : List UInt8 := vals.flatMap (tlv 0x04)

/-- A name and its values. -/
def attrOctets (name : List UInt8) (vals : List (List UInt8)) : List UInt8 :=
  tlv 0x04 name ++ tlv 0x31 (valsOctets vals)

def Attr.octets (a : Attr) : List UInt8 := attrOctets a.name a.vals

def Mod.octets (m : Mod) : List UInt8 :=
  [0x0a, 1, toChar m.operation] ++ tlv 0x30 (attrOctets m.name m.vals)

/-- The items of a list, one after another. -/
def itemOctets {ν : Type} (content : ν → List UInt8) (xs : List ν) : List UInt8 :=
  xs.flatMap fun x => tlv 0x30 (content x)

/-- A list takes at least as many bytes as it has items. -/
theorem length_le_items {α : Type} {tag : UInt8} {content : α → List UInt8} (xs : List α) :
    xs.length ≤ (xs.flatMap fun x => tlv tag (content x)).length := by
  induction xs with
  | nil => exact Nat.zero_le _
  | cons x xs ih =>
    rw [List.flatMap_cons, List.length_append, tlv_length, List.length_cons]
    omega

/-! ## The scratch variable -/

/-- A count that starts at `r` comes to the octets that `len` needs. -/
def Reaches (r len : Nat) : Prop := r ≤ 1 ∨ 256 ^ (r - 1) ≤ len

theorem Reaches.mono {r len len' : Nat} (h : Reaches r len) (hle : len ≤ len') : Reaches r len' :=
  h.imp_right fun hpow => hpow.trans hle

theorem scratchAfter_le {len r : Nat} : scratchAfter len r ≤ r := by
  unfold scratchAfter
  split
  · exact le_refl r
  · exact Nat.zero_le r

/-- INSERT_LENGTH leaves at most 1 where it has written more than the count was for. -/
theorem scratchAfter_le_one {r len len' : Nat} (h : Reaches r len) (hle : len ≤ len') :
    scratchAfter len' r ≤ 1 := by
  unfold scratchAfter
  split
  · rename_i hlt
    rcases h with hone | hpow
    · exact hone
    · by_contra hgt
      have hmono : 256 ^ 1 ≤ 256 ^ (r - 1) := Nat.pow_le_pow_right (by decide) (by omega)
      omega
  · exact Nat.zero_le 1

theorem octetsFrom_eq {r len : Nat} (h : Reaches r len) (hlow : 128 ≤ len) (hlt : len < 2 ^ 24) :
    ∃ n, octetsFrom len r = .ok n ∧ Reaches n len ∧ (lengthOctets len).length = 1 + n := by
  have hthree : r ≤ 3 := by
    rcases h with hone | hpow
    · omega
    · by_contra hgt
      have hmono : 256 ^ 3 ≤ 256 ^ (r - 1) := Nat.pow_le_pow_right (by decide) (by omega)
      omega
  obtain ⟨n, hn, -⟩ := countOctets_total len (3 - r) r (by
    rw [Nat.add_sub_cancel' hthree]
    exact hlt)
  rw [show 3 - r + 1 = 4 - r by omega] at hn
  obtain ⟨hub, hle, hlb⟩ := countOctets_eq hn
  have hreach : Reaches n len := by
    obtain rfl | hlt : r = n ∨ r < n := by omega
    · exact h
    · exact .inr (hlb hlt)
  refine ⟨n, hn, hreach, ?_⟩
  unfold lengthOctets
  rw [if_neg (by omega)]
  have hpow : n ≤ 1 ∨ 256 ^ (n - 1) ≤ len := hreach
  obtain rfl | rfl | rfl | rfl | hbig : n = 0 ∨ n = 1 ∨ n = 2 ∨ n = 3 ∨ 4 ≤ n := by omega
  · omega
  · rw [if_pos (by omega)]
    rfl
  · rw [if_neg (by omega), if_pos (by omega), List.length_cons, octets_length]
  · rw [if_neg (by omega), if_neg (by omega), List.length_cons, octets_length]
  · have hmono : 256 ^ 3 ≤ 256 ^ (n - 1) := Nat.pow_le_pow_right (by decide) (by omega)
    omega

/-- The size of a tag and a length. -/
theorem headerSize_eq {r len : Nat} (h : Reaches r len) (hlt : len < 2 ^ 24) :
    ∃ n, headerSize len r = .ok (1 + (lengthOctets len).length, n) ∧ Reaches n len := by
  unfold headerSize
  split
  · rename_i hshort
    refine ⟨r, ?_, h⟩
    rw [lengthOctets, if_pos hshort]
    rfl
  · obtain ⟨n, hn, hreach, hlen⟩ := octetsFrom_eq h (by omega) hlt
    refine ⟨n, ?_, hreach⟩
    rw [hn, ok_bind, hlen, pure_eq_ok]
    congr 2
    omega

/-! ## Names and values -/

theorem insertLength_ok {n : Nat} (h : n < 2 ^ 24) : insertLength n = .ok (lengthOctets n) := by
  rw [insertLength_eq_ite, if_pos h]

theorem encodeName_eq {name : List UInt8} (h : name.length < ldapMaxAttrNameSize) :
    encodeName name = .ok (tlv 0x04 name) := by
  unfold ldapMaxAttrNameSize at h
  have htwo : (lengthOctets name.length).length ≤ 2 := by
    unfold lengthOctets
    split_ifs <;> simp
  simp only [encodeName, insertLength_ok (show name.length < 2 ^ 24 by omega), ok_bind,
    ldapMaxAttrNameSize, List.length_append, List.length_cons]
  rw [if_pos (by omega)]
  rfl

theorem encodeVals_eq {vals : List (List UInt8)} {buff : List UInt8} (r : Nat)
    (h : buff.length + (valsOctets vals).length ≤ berBuffer) :
    ∃ n, n ≤ r ∧ encodeVals vals buff r = .ok (buff ++ valsOctets vals, n) := by
  induction vals generalizing buff r with
  | nil =>
    refine ⟨r, le_refl r, ?_⟩
    simp only [encodeVals, valsOctets, List.flatMap_nil, List.append_nil, pure_eq_ok]
  | cons v vs ih =>
    have hsplit : valsOctets (v :: vs) = tlv 0x04 v ++ valsOctets vs := rfl
    rw [hsplit, List.length_append] at h
    have hsmall : v.length < 2 ^ 24 := by
      rw [tlv_length, berBuffer] at h
      omega
    have hroom : (buff ++ tlv 0x04 v).length ≤ berBuffer := by
      rw [List.length_append]
      omega
    have hrest : (buff ++ tlv 0x04 v).length + (valsOctets vs).length ≤ berBuffer := by
      rw [List.length_append]
      omega
    obtain ⟨n, hn, hrec⟩ := ih (scratchAfter v.length r) hrest
    refine ⟨n, hn.trans scratchAfter_le, ?_⟩
    rw [encodeVals, insertLength_ok hsmall, ok_bind]
    change (if (buff ++ tlv 0x04 v).length ≤ berBuffer then
      encodeVals vs (buff ++ tlv 0x04 v) (scratchAfter v.length r) else _) = _
    rw [if_pos hroom, hrec, hsplit, List.append_assoc]

/-! ## The items -/

/-- A turn of one of the two loops puts the item behind what there is. -/
def Encodes {ν : Type} (turn : ν → BER → Nat → Except Fault (BER × Nat))
    (content : ν → List UInt8) (x : ν) : Prop :=
  ∀ (ber : BER) (r : Nat), r ≤ 1 → ber.berval.length + (tlv 0x30 (content x)).length ≤ ber.size →
    ∃ n, n ≤ 1 ∧
      turn x ber r = .ok ({ ber with berval := ber.berval ++ tlv 0x30 (content x) }, n)

/-- A turn of one of the two loops comes to one append, which may not fit. -/
def Appends {ν : Type} (turn : ν → BER → Nat → Except Fault (BER × Nat))
    (content : ν → List UInt8) (x : ν) : Prop :=
  ∀ (ber : BER) (r : Nat), r ≤ 1 →
    ∃ n, n ≤ 1 ∧ turn x ber r = ber.append (tlv 0x30 (content x)) >>= fun b => pure (b, n)

theorem Appends.encodes {ν : Type} {turn : ν → BER → Nat → Except Fault (BER × Nat)}
    {content : ν → List UInt8} {x : ν} (h : Appends turn content x) : Encodes turn content x := by
  intro ber r hr hroom
  obtain ⟨n, hn, hturn⟩ := h ber r hr
  refine ⟨n, hn, ?_⟩
  rw [hturn, BER.append_eq hroom, ok_bind, pure_eq_ok]

/-- Appending one piece after another is appending them all. -/
theorem BER.append_then {β : Type} (b : BER) (xs ys : List UInt8) (f : BER → Except Fault β) :
    (b.append xs >>= fun b => b.append ys >>= f) = b.append (xs ++ ys) >>= f := by
  unfold BER.append
  by_cases hxs : b.berval.length + xs.length ≤ b.size
  · simp only [if_pos hxs, ok_bind, List.length_append, List.append_assoc, Nat.add_assoc]
  · rw [if_neg hxs, if_neg (by rw [List.length_append]; omega), error_bind, error_bind]

/-- A list with a name and values that the generators have room for. -/
structure Fits (name : List UInt8) (vals : List (List UInt8)) : Prop where
  name : name.length < ldapMaxAttrNameSize
  vals : (valsOctets vals).length ≤ berBuffer

theorem encodeAttr_appends {a : Attr} (fits : Fits a.name a.vals) (some : a.vals ≠ []) :
    Appends encodeAttr Attr.octets a := by
  intro ber r hr
  have hstart : scratchAfter a.name.length r ≤ 1 := scratchAfter_le.trans hr
  obtain ⟨n, hn, hvals⟩ := encodeVals_eq (scratchAfter a.name.length r)
    (show ([] : List UInt8).length + (valsOctets a.vals).length ≤ berBuffer by simpa using fits.vals)
  rw [List.nil_append] at hvals
  have hfits := fits.vals
  have hname := fits.name
  unfold berBuffer at hfits
  unfold ldapMaxAttrNameSize at hname
  obtain ⟨m, hm, hreach⟩ := headerSize_eq
    (show Reaches n (valsOctets a.vals).length from .inl (hn.trans hstart)) (by omega)
  have hsum : (tlv 0x04 a.name).length + (valsOctets a.vals).length +
      (1 + (lengthOctets (valsOctets a.vals).length).length) = a.octets.length := by
    rw [Attr.octets, attrOctets, List.length_append, tlv_length 0x31]
    omega
  have hsmall : a.octets.length < 2 ^ 24 := by
    have := lengthOctets_length_le a.name.length
    have := lengthOctets_length_le (valsOctets a.vals).length
    rw [← hsum, tlv_length]
    omega
  refine ⟨scratchAfter (valsOctets a.vals).length (scratchAfter a.octets.length m),
    scratchAfter_le.trans (scratchAfter_le_one hreach (by omega)), ?_⟩
  have hshape : tlv 0x30 a.octets = (0x30 :: lengthOctets a.octets.length) ++ tlv 0x04 a.name ++
      (0x31 :: lengthOctets (valsOctets a.vals).length) ++ valsOctets a.vals := by
    simp only [tlv, Attr.octets, attrOctets, List.append_assoc, List.cons_append]
  simp only [encodeAttr, encodeName_eq fits.name, ok_bind, if_neg some, hvals, hm, hsum,
    insertLength_ok hsmall, insertLength_ok (show (valsOctets a.vals).length < 2 ^ 24 by omega)]
  rw [hshape, BER.append_then, BER.append_then, BER.append_then]

theorem encodeAttr_eq {a : Attr} (fits : Fits a.name a.vals) (some : a.vals ≠ []) :
    Encodes encodeAttr Attr.octets a :=
  (encodeAttr_appends fits some).encodes

theorem encodeMod_appends {m : Mod} (fits : Fits m.name m.vals) :
    Appends encodeMod Mod.octets m := by
  intro ber r hr
  have hstart : scratchAfter m.name.length r ≤ 1 := scratchAfter_le.trans hr
  obtain ⟨n, hn, hvals⟩ := encodeVals_eq (scratchAfter m.name.length r)
    (show ([] : List UInt8).length + (valsOctets m.vals).length ≤ berBuffer by simpa using fits.vals)
  rw [List.nil_append] at hvals
  have hfits := fits.vals
  have hname := fits.name
  unfold berBuffer at hfits
  unfold ldapMaxAttrNameSize at hname
  obtain ⟨k, hk, hreach⟩ := headerSize_eq
    (show Reaches n (valsOctets m.vals).length from .inl (hn.trans hstart)) (by omega)
  have hattr : (tlv 0x04 m.name).length + (valsOctets m.vals).length +
      (1 + (lengthOctets (valsOctets m.vals).length).length) =
        (attrOctets m.name m.vals).length := by
    rw [attrOctets, List.length_append, tlv_length 0x31]
    omega
  have hattrsmall : (attrOctets m.name m.vals).length < 2 ^ 23 := by
    have := lengthOctets_length_le m.name.length
    have := lengthOctets_length_le (valsOctets m.vals).length
    rw [← hattr, tlv_length]
    omega
  obtain ⟨l, hl, hreach'⟩ := headerSize_eq
    (hreach.mono (show _ ≤ (attrOctets m.name m.vals).length by omega)) (by omega)
  have hsum : (attrOctets m.name m.vals).length +
      (1 + (lengthOctets (attrOctets m.name m.vals).length).length) + 3 = m.octets.length := by
    rw [Mod.octets, List.length_append, tlv_length]
    simp only [List.length_cons, List.length_nil]
    omega
  have hsmall : m.octets.length < 2 ^ 24 := by
    have := lengthOctets_length_le (attrOctets m.name m.vals).length
    omega
  have hswap : 1 + (lengthOctets (valsOctets m.vals).length).length + (valsOctets m.vals).length +
      (tlv 0x04 m.name).length = (attrOctets m.name m.vals).length := by
    omega
  refine ⟨scratchAfter (valsOctets m.vals).length (scratchAfter (attrOctets m.name m.vals).length
    (scratchAfter m.octets.length l)), scratchAfter_le.trans (scratchAfter_le.trans
      (scratchAfter_le_one hreach' (by omega))), ?_⟩
  have hshape : tlv 0x30 m.octets = (0x30 :: lengthOctets m.octets.length) ++
      [0x0a, 1, toChar m.operation] ++ (0x30 :: lengthOctets (attrOctets m.name m.vals).length) ++
        tlv 0x04 m.name ++ (0x31 :: lengthOctets (valsOctets m.vals).length) ++
          valsOctets m.vals := by
    rw [tlv, Mod.octets, tlv, attrOctets]
    simp only [tlv, List.append_assoc, List.cons_append]
  simp only [encodeMod, encodeName_eq fits.name, ok_bind, hvals, hk, hattr, hl, hsum, hswap,
    insertLength_ok hsmall, insertLength_ok (show (valsOctets m.vals).length < 2 ^ 24 by omega),
    insertLength_ok (show (attrOctets m.name m.vals).length < 2 ^ 24 by omega)]
  rw [hshape, BER.append_then, BER.append_then, BER.append_then, BER.append_then, BER.append_then]

theorem encodeMod_eq {m : Mod} (fits : Fits m.name m.vals) : Encodes encodeMod Mod.octets m :=
  (encodeMod_appends fits).encodes

/-! ## The lists -/

theorem encodeNodes_eq {ν : Type} {turn : ν → BER → Nat → Except Fault (BER × Nat)}
    {content : ν → List UInt8} {xs : List ν} (encodes : ∀ x ∈ xs, Encodes turn content x)
    (ber : BER) {r : Nat} (hr : r ≤ 1)
    (hroom : ber.berval.length + (itemOctets content xs).length ≤ ber.size) :
    encodeNodes turn xs ber r =
      .ok { ber with berval := ber.berval ++ itemOctets content xs } := by
  induction xs generalizing ber r with
  | nil =>
    simp only [encodeNodes, itemOctets, List.flatMap_nil, List.append_nil, pure_eq_ok]
  | cons x xs ih =>
    have hsplit : itemOctets content (x :: xs) = tlv 0x30 (content x) ++ itemOctets content xs := rfl
    rw [hsplit, List.length_append] at hroom
    obtain ⟨n, hn, hturn⟩ := encodes x List.mem_cons_self ber r hr (by omega)
    have hrest := ih (fun y hy => encodes y (List.mem_cons_of_mem _ hy))
      { ber with berval := ber.berval ++ tlv 0x30 (content x) } hn (by
        simp only [List.length_append]
        omega)
    rw [encodeNodes, hturn, ok_bind, hsplit]
    simp only [hrest, List.append_assoc]

/-- The generators of lists put the whole list into an empty BER, and leave the caller the list
or, having freed it, nothing. -/
theorem genBerList_eq {ν : Type} {turn : ν → BER → Nat → Except Fault (BER × Nat)}
    {content : ν → List UInt8} {xs : List ν} (encodes : ∀ x ∈ xs, Encodes turn content x)
    (hsome : xs ≠ []) {ber : Option BER} (empty : BER.bytes ber = [])
    (hroom : (itemOctets content xs).length ≤ berBuffer) (freeFlag : Bool) :
    ∃ b, genBerList turn true true xs ber freeFlag =
        .ok (.ok, some b, if freeFlag then [] else xs) ∧ b.berval = itemOctets content xs := by
  obtain ⟨b, hb, hsize⟩ := berAllocBuffer_room ber berBuffer
  have hnil : b.berval = [] := (berAllocBuffer_bytes hb).trans empty
  have hnodes := encodeNodes_eq encodes b (Nat.zero_le 1) (by
    rw [hnil, List.length_nil, Nat.zero_add]
    exact hroom.trans hsize)
  have hne : xs.isEmpty = false := List.isEmpty_eq_false_iff.2 hsome
  simp only [genBerList, hne, Bool.false_eq_true, if_false, not_true_eq_false, hb, hnodes, ok_bind,
    pure_eq_ok]
  exact ⟨_, rfl, by rw [hnil, List.nil_append]⟩

end CassandraApi.Ldap
