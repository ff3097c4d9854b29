/-
# `Ldap.Controls` — controls across the wire

The generators write a control as

    30 L  04 n type  [01 01 criticality]  [04 m value]

with a single octet for each of the three lengths.  ldap_decode_request steps
over the type and looks for a value behind it; where there is a criticality it
finds none.  From the length of all controls it takes off one and the length of
a control, but adds the octet of that length instead of taking it off as well.
So two bytes a control are still to come when the last one has been read, and
the loop goes on behind the frame (`no_controls_read`).
-/
import CassandraApi.Ldap.Wire
import CassandraApi.Ldap.DecodeRequest

namespace CassandraApi.Ldap

open C Ber

/-! ## What the readers take -/

section Readers

variable {buf : Block} {i j len : Int} {cap : Nat} {s : List UInt8}

theorem rd_inside {x : UInt8} (h : buf.rd i = .ok x) : 0 ≤ i ∧ i < buf.size := by
  unfold Block.rd at h
  split at h
  · assumption
  · cases h

theorem accLength_inside {n : Nat} {pp : Int} (h : accLength buf n i pp = .ok j)
    (hi : i < buf.size) : i + n < buf.size := by
  induction n generalizing i pp with
  | zero => simpa using hi
  | succ n ih =>
    obtain ⟨c, hc, h⟩ := bind_eq_ok.1 h
    have hrest := ih h (rd_inside hc).2
    push_cast
    omega

/-- The number of octets that a first octet from 128 on announces. -/
theorem lengthSize_octet {c : UInt8} (h : uint32 (schar c) > 0xffffff00) :
    int32 (uint32 (schar c) - 0xffffff80) = (c.toNat - 128 : Nat) := by
  rw [uint32_schar_gt] at h
  have hlt := c.toNat_lt
  have hsize := (lengthSize_eq (k := c.toNat - 128) (by omega)).2
  rwa [Nat.add_sub_cancel' h, UInt8.ofNat_toNat] at hsize

/-- A length takes an octet at least, and lies in the block. -/
theorem findLength_takes (h : findLength buf i = .ok (len, j)) : i + 1 ≤ j ∧ j ≤ buf.size := by
  obtain ⟨c, hc, h⟩ := bind_eq_ok.1 h
  have hin := (rd_inside hc).2
  split at h
  · rename_i hlong
    rw [lengthSize_octet hlong] at h
    obtain ⟨pp, hpp, h⟩ := bind_eq_ok.1 h
    have hacc := accLength_inside hpp hin
    cases h
    omega
  · cases h
    omega

/-- A length that takes one octet is no larger than that octet. -/
theorem findLength_one {c : UInt8} (h : findLength buf i = .ok (len, i + 1))
    (hc : buf.rd i = .ok c) : 0 ≤ len ∧ len ≤ c.toNat := by
  rw [findLength, hc, ok_bind] at h
  split at h
  · rename_i hlong
    rw [lengthSize_octet hlong] at h
    obtain ⟨pp, hpp, h⟩ := bind_eq_ok.1 h
    obtain ⟨hlen, hend⟩ := Prod.mk.inj (Except.ok.inj h)
    have hzero : c.toNat - 128 = 0 := by omega
    rw [hzero] at hpp
    cases hpp
    omega
  · rename_i hshort
    rw [uint32_schar_gt] at hshort
    rw [schar_of_lt (by omega)] at h
    cases h
    omega

theorem load_takes (h : buf.load i len = .ok s) : (s.length : Int) = len ∧ i + len ≤ buf.size := by
  unfold Block.load at h
  split at h
  · cases h
  · split at h
    · cases h
      rw [Block.slice_length]
      omega
    · cases h

theorem takeString_takes (h : takeString cap buf i len = .ok (s, j)) (hi : i ≤ buf.size) :
    j = i + s.length ∧ j ≤ buf.size := by
  unfold takeString at h
  split at h
  · obtain ⟨s', hs, h⟩ := bind_eq_ok.1 h
    obtain ⟨bytes, hload, hcopy⟩ := bind_eq_ok.1 hs
    have htake := load_takes hload
    split at hcopy
    · cases hcopy
      cases h
      omega
    · cases hcopy
  · cases h
    exact ⟨by simp, hi⟩

theorem lengthString_takes (h : lengthString cap buf i = .ok (s, j)) :
    i + 1 + s.length ≤ j ∧ j ≤ buf.size := by
  obtain ⟨⟨len, i'⟩, hlen, h⟩ := bind_eq_ok.1 h
  have hl := findLength_takes hlen
  have ht := takeString_takes h hl.2
  omega

/-- How many bytes the contents of a control take at least, seen from what is decoded. -/
def DecodedControl.least (x : DecodedControl) : Nat :=
  if x.hasType then
    2 + x.controlType.length + if x.hasValue then 2 + x.controlValue.length else 1
  else 1

/-- What every decoded control is like. -/
def DecodedControl.Plain (x : DecodedControl) : Prop :=
  x.hasCriticality = false ∧ (x.hasValue = false → x.controlValue = [])

theorem decodeControl_takes {x : DecodedControl} (h : decodeControl buf i = .ok (x, j)) :
    i + x.least ≤ j ∧ j ≤ buf.size ∧ x.Plain := by
  obtain ⟨c, hc, h⟩ := bind_eq_ok.1 h
  have hin := (rd_inside hc).2
  split at h
  · cases h
    simp only [DecodedControl.least]
    refine ⟨?_, by omega, rfl, by simp⟩
    simp
  · obtain ⟨⟨controlType, i₁⟩, htype, h⟩ := bind_eq_ok.1 h
    have ht := lengthString_takes htype
    obtain ⟨c', hc', h⟩ := bind_eq_ok.1 h
    have hin' := (rd_inside hc').2
    split at h
    · cases h
      simp only [DecodedControl.least]
      refine ⟨?_, by omega, rfl, by simp⟩
      simp
      omega
    · obtain ⟨⟨controlValue, i₂⟩, hvalue, h⟩ := bind_eq_ok.1 h
      have hv := lengthString_takes hvalue
      cases h
      simp only [DecodedControl.least]
      refine ⟨?_, by omega, rfl, by simp⟩
      simp
      omega

/-- And how many the controls take, each with a tag and an octet of its length. -/
def leastAll (xs : List DecodedControl) : Nat := (xs.map fun x => 2 + x.least).sum

theorem leastAll_cons (x : DecodedControl) (xs : List DecodedControl) :
    leastAll (x :: xs) = 2 + x.least + leastAll xs := rfl

/-- The loop over the controls takes as much as what it has decoded. -/
theorem controls_take {turns : Nat} {left : Int} {xs : List DecodedControl}
    (h : decodeItems 0x30 controlUsed (fun _ i => decodeControl buf i) buf turns left i =
      .ok (xs, j)) (hi : i ≤ buf.size) :
    i + leastAll xs ≤ j ∧ j ≤ buf.size ∧ ∀ x ∈ xs, x.Plain := by
  induction turns generalizing left i xs with
  | zero => cases h
  | succ turns ih =>
    unfold decodeItems at h
    split at h
    · obtain ⟨c, hc, h⟩ := bind_eq_ok.1 h
      have hin := (rd_inside hc).2
      split at h
      · obtain ⟨⟨len, i₁⟩, hlen, h⟩ := bind_eq_ok.1 h
        obtain ⟨⟨x, i₂⟩, hx, h⟩ := bind_eq_ok.1 h
        obtain ⟨⟨xs', i₃⟩, hxs, h⟩ := bind_eq_ok.1 h
        cases h
        have hl := findLength_takes hlen
        have hitem := decodeControl_takes hx
        have hrest := ih hxs hitem.2.1
        rw [leastAll_cons]
        exact ⟨by omega, hrest.2.1, List.forall_mem_cons.2 ⟨hitem.2.2, hrest.2.2⟩⟩
      · have hrest := ih h (by omega)
        exact ⟨by omega, hrest.2⟩
    · cases h
      exact ⟨by simp [leastAll], hi, by simp⟩

end Readers

/-! ## A list of controls -/

/-- What was decoded is the control: its type, its criticality when it has one, its value. -/
def DecodedControl.IsOf (x : DecodedControl) (c : Control) : Prop :=
  x.hasType = true ∧ x.controlType = c.controlType ∧
    (x.hasCriticality = true ↔ c.criticality ≠ -1) ∧
    (c.criticality ≠ -1 → x.criticality = c.criticality) ∧ x.controlValue = c.controlValue

theorem writtenControls_cons (c : Control) (cs : List Control) :
    writtenControls (c :: cs) =
      (if c.controlType = [] then [] else c.encode) ++ writtenControls cs := by
  by_cases h : c.controlType = [] <;> simp [writtenControls, h]

/-- No bytes less are taken for a control than were written for it. -/
theorem encode_le_least {x : DecodedControl} {c : Control} (h : x.IsOf c) (plain : x.Plain) :
    c.encode.length ≤ 2 + x.least := by
  obtain ⟨htype, hname, hcrit, -, hvalue⟩ := h
  have hnone : c.criticality = -1 := by
    by_contra hne
    have := hcrit.2 hne
    rw [plain.1] at this
    cases this
  rw [Control.encode_length, Control.bsize, if_neg (not_not.2 hnone), DecodedControl.least,
    if_pos htype, hname, hvalue]
  cases hx : x.hasValue with
  | true =>
    simp only [if_true]
    split <;> omega
  | false =>
    have hempty : c.controlValue = [] := hvalue ▸ plain.2 hx
    have hno : c.hasValue = false := by simp [Control.hasValue, hempty]
    simp only [hno, Bool.false_eq_true, if_false]
    omega

theorem written_le_leastAll {xs : List DecodedControl} {cs : List Control}
    (h : List.Forall₂ DecodedControl.IsOf xs cs) (plain : ∀ x ∈ xs, x.Plain) :
    (writtenControls cs).length ≤ leastAll xs := by
  induction h with
  | nil => simp [writtenControls]
  | @cons x c xs cs hx _ ih =>
    have hc := encode_le_least hx (plain x List.mem_cons_self)
    have hrest := ih fun y hy => plain y (List.mem_cons_of_mem _ hy)
    rw [writtenControls_cons, List.length_append, leastAll_cons]
    split
    · rw [List.length_nil]
      omega
    · omega

/-- In a block that ends with the controls, they are not decoded: two bytes a control are still
to come when the last one is read. -/
theorem no_controls_read {buf : Block} {turns i : Nat} {left : Int} {cs : List Control}
    (hbytes : Holds buf i (writtenControls cs)) (hend : buf.size = i + (writtenControls cs).length)
    (hleft : ((writtenControls cs).length : Int) ≤ left) (hpos : 0 < left) (hmax : left < 2 ^ 31)
    {xs : List DecodedControl} {j : Int}
    (h : decodeItems 0x30 controlUsed (fun _ i => decodeControl buf i) buf turns left i =
      .ok (xs, j)) : ¬ List.Forall₂ DecodedControl.IsOf xs cs := by
  intro hall
  induction turns generalizing i left cs xs with
  | zero => cases h
  | succ turns ih =>
    have htake := controls_take h (by omega)
    have hwritten := written_le_leastAll hall htake.2.2
    cases hall with
    | nil =>
      -- nothing is left to read
      unfold decodeItems at h
      rw [if_pos hpos] at h
      obtain ⟨c, hc, -⟩ := bind_eq_ok.1 h
      have hin := (rd_inside hc).2
      simp only [writtenControls, List.filter_nil, List.flatMap_nil, List.length_nil] at hend
      omega
    | @cons x c xs cs hx hall =>
      have hc := encode_le_least hx (htake.2.2 x List.mem_cons_self)
      have hrest := written_le_leastAll hall fun y hy => htake.2.2 y (List.mem_cons_of_mem _ hy)
      rw [writtenControls_cons] at hbytes hend hleft hwritten
      rw [leastAll_cons] at htake
      split at hbytes
      · rename_i hempty
        rw [if_pos hempty, List.nil_append] at hend
        omega
      · rename_i hname
        rw [if_neg hname, List.length_append] at hend hleft
        obtain ⟨tail, htail⟩ : ∃ tail, c.encode = 0x30 :: UInt8.ofNat c.bsize :: tail := ⟨_, rfl⟩
        have hhere := hbytes.left
        rw [htail] at hhere
        have htag : buf.rd i = .ok 0x30 := hhere.rd
        have hoctet : buf.rd ((i : Int) + 1) = .ok (UInt8.ofNat c.bsize) := by
          exact_mod_cast hhere.tail.rd
        unfold decodeItems at h
        rw [if_pos hpos, htag, ok_bind, if_pos rfl] at h
        obtain ⟨⟨len, i₁⟩, hlen, h⟩ := bind_eq_ok.1 h
        obtain ⟨⟨x', i₂⟩, hitem, h⟩ := bind_eq_ok.1 h
        obtain ⟨⟨xs', j'⟩, hxs, h⟩ := bind_eq_ok.1 h
        cases h
        have hl := findLength_takes hlen
        have hi := decodeControl_takes hitem
        have ht := controls_take hxs hi.2.1
        have hsize := c.encode_length
        have hone : i₁ = (i : Int) + 1 + 1 := by omega
        have hnext : i₂ = ((i + c.encode.length : Nat) : Int) := by
          push_cast
          omega
        subst hone hnext
        have hle := findLength_one hlen hoctet
        have hb : (UInt8.ofNat c.bsize).toNat ≤ c.bsize := by
          rw [UInt8.toNat_ofNat']
          exact Nat.mod_le _ _
        have hused : controlUsed ((i : Int) + 1 + 1 - (i + 1)) len = len := by
          unfold controlUsed
          omega
        rw [hused, int32_of_range (by omega) (by omega)] at hxs
        have hrest' : Holds buf (i + c.encode.length) (writtenControls cs) := hbytes.right
        exact ih hrest' (by omega) (by omega) (by omega) (by omega) hxs hall

/-- At the end of a block the controls are not decoded. -/
theorem decodeControls_at_end {buf : Block} {i : Nat} {cs : List Control}
    (hlen : allCtrlLen cs < 2 ^ 24) (hbytes : Holds buf i (controlOctets cs))
    (hend : buf.size = i + (controlOctets cs).length) {xs : List DecodedControl}
    (h : decodeControls buf i = .ok xs) : ¬ List.Forall₂ DecodedControl.IsOf xs cs := by
  obtain ⟨c, hc, h⟩ := bind_eq_ok.1 h
  have hin := (rd_inside hc).2
  have hsome : 0 < allCtrlLen cs := by
    by_contra hzero
    rw [controlOctets, if_neg hzero, List.length_nil] at hend
    omega
  have hwire := writtenControls_length cs
  rw [controlOctets, if_pos hsome] at hbytes hend
  have htag : buf.rd i = .ok 0xa0 := hbytes.rd
  rw [htag] at hc
  cases hc
  rw [if_pos rfl] at h
  have hl := findLength_eq (lengthOctets_defLen (hwire ▸ hlen)) (by omega) hbytes.tail.left
  rw [Nat.cast_add, Nat.cast_one] at hl
  rw [hl, ok_bind] at h
  obtain ⟨⟨xs', j⟩, hitems, h⟩ := bind_eq_ok.1 h
  cases h
  have hitems' : decodeItems 0x30 controlUsed (fun _ i => decodeControl buf i) buf (buf.size + 1)
      ((writtenControls cs).length : Nat)
      ((i + 1 + (lengthOctets (writtenControls cs).length).length : Nat) : Int) = .ok (xs, j) := by
    exact_mod_cast hitems
  rw [tlv_length] at hend
  exact no_controls_read hbytes.tail.right (by omega) (le_refl _) (by omega) (by omega) hitems'

end CassandraApi.Ldap
