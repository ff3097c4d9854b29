/-
# `Ber.Tlv` — what the writers of lengths put on the wire, in closed form

`Tlv tag content t`: the bytes `t` are the tag, a definite length and exactly as
many bytes of contents.  A list of bytes starts with at most one such value for
a given tag (`Tlv.append_inj`), and never with `tag :: 0x80` (`Tlv.definite`),
which is what INSERT_LENGTH leaves of a long string when the length to write is
its own scratch variable.

`insertLength` and `berTidCreate` count octets in loops; here both are given
without the loops (`insertLength_eq_ite`, `berTidCreate_octets`), so that the
generators can be given in closed form.
-/
import CassandraApi.Ber.Write

namespace CassandraApi.Ber

open C

/-! ## One value -/

/-- A tag, a definite length and the contents. -/
inductive Tlv (tag : UInt8) (content : List UInt8) : List UInt8 → Prop where
  | mk {L : List UInt8} (len : DefLen content.length L) : Tlv tag content (tag :: (L ++ content))

theorem DefLen.append_inj {n m : Nat} {L M xs ys : List UInt8} (hL : DefLen n L)
    (hM : DefLen m M) (h : L ++ xs = M ++ ys) : n = m ∧ xs = ys := by
  cases hL with
  | short hn =>
    cases hM with
    | short hm =>
      obtain ⟨h0, htl⟩ := List.cons.inj h
      have hnat := congrArg UInt8.toNat h0
      rw [UInt8.toNat_ofNat', UInt8.toNat_ofNat'] at hnat
      exact ⟨by omega, htl⟩
    | long os pos four =>
      have hnat := congrArg UInt8.toNat (List.cons.inj h).1
      rw [UInt8.toNat_ofNat', UInt8.toNat_ofNat'] at hnat
      omega
  | long os pos four =>
    cases hM with
    | short hm =>
      have hnat := congrArg UInt8.toNat (List.cons.inj h).1
      rw [UInt8.toNat_ofNat', UInt8.toNat_ofNat'] at hnat
      omega
    | long os' pos' four' =>
      obtain ⟨h0, htl⟩ := List.cons.inj h
      have hnat := congrArg UInt8.toNat h0
      rw [UInt8.toNat_ofNat', UInt8.toNat_ofNat'] at hnat
      obtain ⟨rfl, hxs⟩ := List.append_inj htl (by omega)
      exact ⟨rfl, hxs⟩

/-- The two forms of a length. -/
theorem DefLen.forms {n : Nat} {L : List UInt8} (h : DefLen n L) :
    (n < 128 ∧ L = [UInt8.ofNat n]) ∨
      ∃ os : List UInt8, 1 ≤ os.length ∧ os.length ≤ 4 ∧ n = beVal os ∧
        L = UInt8.ofNat (128 + os.length) :: os := by
  cases h with
  | short hn => exact .inl ⟨hn, rfl⟩
  | long os pos four => exact .inr ⟨os, pos, four, rfl, rfl⟩

namespace Tlv

variable {tag : UInt8} {content content' t t' xs ys : List UInt8}

/-- The first value of a list of bytes is determined. -/
theorem append_inj (h : Tlv tag content t) (h' : Tlv tag content' t') (he : t ++ xs = t' ++ ys) :
    content = content' ∧ xs = ys := by
  cases h with
  | mk hL =>
    cases h' with
    | mk hM =>
      rw [List.cons_append, List.cons_append, List.append_assoc, List.append_assoc] at he
      have htl := (List.cons.inj he).2
      obtain ⟨hn, hrest⟩ := hL.append_inj hM htl
      exact List.append_inj hrest hn

theorem two_le (h : Tlv tag content t) : 2 ≤ t.length := by
  cases h with
  | mk hL =>
    have := hL.length_pos
    rw [List.length_cons, List.length_append]
    omega

theorem inj (h : Tlv tag content t) (h' : Tlv tag content' t) : content = content' := by
  have he : t ++ [] = t ++ [] := rfl
  exact (h.append_inj h' he).1

end Tlv

/-! ## INSERT_LENGTH -/

/-- The octets of a definite length below `2 ^ 24`, as few as possible. -/
def lengthOctets (n : Nat) : List UInt8 :=
  if n < 128 then [UInt8.ofNat n]
  else if n < 256 then [0x81, UInt8.ofNat n]
  else if n < 65536 then 0x82 :: octets n 2
  else 0x83 :: octets n 3

/-- A value with its length in as few octets as possible. -/
def tlv (tag : UInt8) (content : List UInt8) : List UInt8 :=
  tag :: (lengthOctets content.length ++ content)

theorem countOctets_lt {len left r n : Nat} (h : countOctets len left r = .ok n) :
    n < r + left := by
  induction left generalizing r with
  | zero => cases h
  | succ left ih =>
    rw [countOctets] at h
    split at h
    · have := ih h
      omega
    · cases h
      omega

theorem countOctets_error {len left r : Nat} {f : Fault} (h : countOctets len left r = .error f) :
    f = .stuck := by
  induction left generalizing r with
  | zero =>
    cases h
    rfl
  | succ left ih =>
    rw [countOctets] at h
    split at h
    · exact ih h
    · cases h

theorem insertLength_eq_ite (n : Nat) :
    insertLength n = if n < 2 ^ 24 then .ok (lengthOctets n) else .error .stuck := by
  unfold insertLength lengthOctets
  by_cases h1 : n < 128
  · rw [if_pos h1, if_pos (by omega), if_pos h1]
  rw [if_neg h1, if_neg h1]
  by_cases h2 : n < 256
  · rw [if_pos h2, if_pos (by omega), if_pos h2]
  rw [if_neg h2, if_neg h2]
  cases hc : octetsFrom n 0 with
  | error f =>
    have hf : f = .stuck := countOctets_error hc
    have hbig : ¬ n < 2 ^ 24 := by
      intro hlt
      obtain ⟨k, hk, -⟩ := countOctets_total n 3 0 (by simpa using hlt)
      rw [octetsFrom, hk] at hc
      cases hc
    rw [if_neg hbig, hf, error_bind]
  | ok k =>
    have hk : k < 4 := by
      have := countOctets_lt hc
      omega
    obtain ⟨hlt, -, hge⟩ := countOctets_eq hc
    rw [ok_bind, pure_eq_ok]
    obtain rfl | rfl | rfl | rfl : k = 0 ∨ k = 1 ∨ k = 2 ∨ k = 3 := by omega
    · omega
    · omega
    · rw [if_pos (by omega), if_pos (by omega)]
      rfl
    · have := hge (by omega)
      rw [if_pos (by omega), if_neg (by omega)]
      rfl

theorem lengthOctets_defLen {n : Nat} (h : n < 2 ^ 24) : DefLen n (lengthOctets n) := by
  obtain ⟨L, hL, hdef, -⟩ := insertLength_eq h
  rw [insertLength_eq_ite, if_pos h] at hL
  cases hL
  exact hdef

theorem lengthOctets_length_le (n : Nat) : (lengthOctets n).length ≤ 4 := by
  unfold lengthOctets
  split_ifs <;> simp [octets_length]

theorem tlv_isTlv {tag : UInt8} {content : List UInt8} (h : content.length < 2 ^ 24) :
    Tlv tag content (tlv tag content) :=
  .mk (lengthOctets_defLen h)

@[simp] theorem tlv_length (tag : UInt8) (content : List UInt8) :
    (tlv tag content).length = 1 + ((lengthOctets content.length).length + content.length) := by
  rw [tlv, List.length_cons, List.length_append]
  omega

theorem tlv_length_le (tag : UInt8) (contents : List UInt8) :
    (tlv tag contents).length ≤ 5 + contents.length := by
  have h := lengthOctets_length_le contents.length
  rw [tlv_length]
  omega

theorem tlv_end {tag : UInt8} (k : Nat) (contents : List UInt8) :
    k + 1 + (lengthOctets contents.length ++ contents).length = k + (tlv tag contents).length := by
  rw [tlv, List.length_cons]
  omega

theorem contents_lt {tag : UInt8} {contents : List UInt8}
    (h : (tlv tag contents).length < 2 ^ 24) : contents.length < 2 ^ 24 := by
  rw [tlv_length] at h
  omega

/-! ## Reading -/

/-- Reading a value: its tag, its length, and where its contents are. -/
theorem Tlv.read {buf : Block} {i : Nat} {tag : UInt8} {content t : List UInt8}
    (ht : Tlv tag content t) (hlen : content.length < 2 ^ 31) (h : Holds buf i t) :
    ∃ j : Nat, buf.rd i = .ok tag ∧
      findLength buf ((i : Int) + 1) = .ok ((content.length : Int), (j : Int)) ∧
      Holds buf j content ∧ j + content.length = i + t.length ∧ i + 2 ≤ j ∧ j ≤ i + 6 := by
  cases ht with
  | mk hL =>
    have hread := findLength_eq hL hlen h.tail.left
    have hpos := hL.length_pos
    have hfive := hL.length_le
    rw [Nat.cast_add, Nat.cast_one] at hread
    refine ⟨_, h.rd, hread.trans ?_, h.tail.right, ?_, by omega, by omega⟩
    · push_cast
      rfl
    · rw [List.length_cons, List.length_append]
      omega

/-- The same where the length takes as few octets as possible. -/
theorem tlv_read {buf : Block} {i : Nat} {tag : UInt8} {content : List UInt8}
    (hlen : content.length < 2 ^ 24) (h : Holds buf i (tlv tag content)) :
    ∃ j : Nat, buf.rd i = .ok tag ∧
      findLength buf ((i : Int) + 1) = .ok ((content.length : Int), (j : Int)) ∧
      Holds buf j content ∧ j + content.length = i + (tlv tag content).length := by
  obtain ⟨j, htag, hlength, hcontent, hend, -, -⟩ :=
    (tlv_isTlv hlen).read (hlen.trans (by norm_num)) h
  exact ⟨j, htag, hlength, hcontent, hend⟩

theorem Tlv.length_lt {tag : UInt8} {content t : List UInt8} (h : Tlv tag content t) :
    content.length + 2 ≤ t.length := by
  cases h with
  | mk hL =>
    have hpos := hL.length_pos
    rw [List.length_cons, List.length_append]
    omega

/-- The header of a value has at most six bytes. -/
theorem Tlv.header_le {tag : UInt8} {content out : List UInt8} (h : Tlv tag content out) :
    out.length ≤ content.length + 6 := by
  cases h with
  | mk hL =>
    have hfive := hL.length_le
    rw [List.length_cons, List.length_append]
    omega

/-- The value 1 in four octets at most. -/
theorem DefLen.one {L : List UInt8} (h : DefLen 1 L) :
    L = [1] ∨ L = [0x81, 1] ∨ L = [0x82, 0, 1] ∨ L = [0x83, 0, 0, 1] ∨ L = [0x84, 0, 0, 0, 1] := by
  obtain ⟨-, rfl⟩ | ⟨os, pos, four, hval, rfl⟩ := h.forms
  · exact .inl rfl
  · have hbyte : ∀ {a : UInt8} {n : Nat}, a.toNat = n → n < 256 → a = UInt8.ofNat n := by
      intro a n ha hn
      rw [← ha, UInt8.ofNat_toNat]
    match os, pos, four, hval with
    | [a], _, _, hval =>
      simp only [beVal, List.length_nil, pow_zero] at hval
      rw [hbyte (a := a) (n := 1) (by omega) (by norm_num)]
      exact .inr (.inl rfl)
    | [a, b], _, _, hval =>
      have hb := b.toNat_lt
      simp only [beVal, List.length_nil, List.length_cons] at hval
      rw [hbyte (a := a) (n := 0) (by omega) (by norm_num),
        hbyte (a := b) (n := 1) (by omega) (by norm_num)]
      exact .inr (.inr (.inl rfl))
    | [a, b, c], _, _, hval =>
      simp only [beVal, List.length_nil, List.length_cons] at hval
      rw [hbyte (a := a) (n := 0) (by omega) (by norm_num),
        hbyte (a := b) (n := 0) (by omega) (by norm_num),
        hbyte (a := c) (n := 1) (by omega) (by norm_num)]
      exact .inr (.inr (.inr (.inl rfl)))
    | [a, b, c, d], _, _, hval =>
      simp only [beVal, List.length_nil, List.length_cons] at hval
      rw [hbyte (a := a) (n := 0) (by omega) (by norm_num),
        hbyte (a := b) (n := 0) (by omega) (by norm_num),
        hbyte (a := c) (n := 0) (by omega) (by norm_num),
        hbyte (a := d) (n := 1) (by omega) (by norm_num)]
      exact .inr (.inr (.inr (.inr rfl)))

theorem Tlv.head {tag : UInt8} {content out : List UInt8} (h : Tlv tag content out) :
    ∃ rest, out = tag :: rest := by
  cases h with
  | mk hL => exact ⟨_, rfl⟩

/-- A value with its length in one octet or in more. -/
theorem Tlv.forms {tag : UInt8} {content out : List UInt8} (h : Tlv tag content out) :
    (content.length < 128 ∧ out = tag :: UInt8.ofNat content.length :: content) ∨
      ∃ os : List UInt8, 1 ≤ os.length ∧ os.length ≤ 4 ∧
        out = tag :: UInt8.ofNat (128 + os.length) :: (os ++ content) := by
  cases h with
  | mk hL =>
    rcases hL.forms with ⟨hshort, rfl⟩ | ⟨os, pos, four, -, rfl⟩
    · exact .inl ⟨hshort, rfl⟩
    · exact .inr ⟨os, pos, four, rfl⟩

theorem Tlv.one {tag v : UInt8} {out : List UInt8} (h : Tlv tag [v] out) :
    out = [tag, 1, v] ∨ out = [tag, 0x81, 1, v] ∨ out = [tag, 0x82, 0, 1, v] ∨
      out = [tag, 0x83, 0, 0, 1, v] ∨ out = [tag, 0x84, 0, 0, 0, 1, v] := by
  cases h with
  | mk hL =>
    rcases DefLen.one hL with rfl | rfl | rfl | rfl | rfl
    · exact .inl rfl
    · exact .inr (.inl rfl)
    · exact .inr (.inr (.inl rfl))
    · exact .inr (.inr (.inr (.inl rfl)))
    · exact .inr (.inr (.inr (.inr rfl)))

theorem Tlv.three {tag v : UInt8} {out : List UInt8} (h : Tlv tag [v] out)
    (hlen : out.length = 3) : out = [tag, 1, v] := by
  rcases h.one with rfl | rfl | rfl | rfl | rfl
  · rfl
  all_goals simp at hlen

/-! ## One value after another -/

/-- Tagged values and their bytes, one after another. -/
inductive Tlvs : List (UInt8 × List UInt8) → List UInt8 → Prop where
  | nil : Tlvs [] []
  | cons {tag : UInt8} {content t rest : List UInt8} {items : List (UInt8 × List UInt8)}
      (head : Tlv tag content t) (tail : Tlvs items rest) :
      Tlvs ((tag, content) :: items) (t ++ rest)

namespace Tlvs

variable {items : List (UInt8 × List UInt8)} {out : List UInt8}

/-- Every value takes two bytes and its contents. -/
theorem length_le (h : Tlvs items out) : 2 * items.length ≤ out.length := by
  induction h with
  | nil => exact Nat.zero_le _
  | cons head tail ih =>
    have hhead := head.length_lt
    rw [List.length_cons, List.length_append]
    omega

/-- Values with lengths in as few octets as possible. -/
theorem of_tlv {tag : UInt8} {xs : List (List UInt8)} (h : ∀ x ∈ xs, x.length < 2 ^ 24) :
    Tlvs (xs.map fun x => (tag, x)) (xs.flatMap (tlv tag)) := by
  induction xs with
  | nil => exact .nil
  | cons x xs ih =>
    exact .cons (tlv_isTlv (h x List.mem_cons_self))
      (ih fun y hy => h y (List.mem_cons_of_mem _ hy))

theorem single {tag : UInt8} {content t : List UInt8} (h : Tlv tag content t) :
    Tlvs [(tag, content)] t := by
  have hcons := Tlvs.cons h .nil
  rwa [List.append_nil] at hcons

/-- Values and their bytes, put behind others. -/
theorem append {items' : List (UInt8 × List UInt8)} {out' : List UInt8} (h : Tlvs items out)
    (h' : Tlvs items' out') : Tlvs (items ++ items') (out ++ out') := by
  induction h with
  | nil => exact h'
  | cons head tail ih =>
    rw [List.append_assoc]
    exact .cons head ih

/-- The values are determined by the bytes. -/
theorem inj {items' : List (UInt8 × List UInt8)} (h : Tlvs items out) (h' : Tlvs items' out) :
    items = items' := by
  induction h generalizing items' with
  | nil =>
    generalize hout : ([] : List UInt8) = out' at h'
    cases h' with
    | nil => rfl
    | cons head tail =>
      cases head with
      | mk _ => cases hout
  | cons head tail ih =>
    rename_i tag content t rest items
    generalize hout : t ++ rest = out' at h'
    cases h' with
    | nil =>
      cases head with
      | mk _ => cases hout
    | cons head' tail' =>
      rename_i tag' content' t' rest' items'
      obtain rfl : tag = tag' := by
        cases head with
        | mk _ =>
          cases head' with
          | mk _ => exact (List.cons.inj hout).1
      obtain ⟨rfl, rfl⟩ := head.append_inj head' hout
      rw [ih tail']

end Tlvs

/-! ## CREATE_DN -/

/-- The string whose length is in the scratch variable is written whole below 256 bytes, and lost
from there on. -/
theorem insertLengthOfScratch_eq (n : Nat) :
    insertLengthOfScratch n = if n < 256 then (lengthOctets n, n) else ([0x80], 0) := by
  unfold insertLengthOfScratch lengthOctets
  by_cases h1 : n < 128
  · rw [if_pos h1, if_pos h1, if_pos (by omega)]
  · rw [if_neg h1, if_neg h1]
    by_cases h2 : n < 256
    · rw [if_pos h2, if_pos h2, if_pos h2]
    · rw [if_neg h2, if_neg h2]

/-! ## Message ids -/

/-- How many octets a message id takes, one more than its bits need when the top bit is set. -/
def idSize (tid : Int) : Nat :=
  if tid < 0x80 then 1 else if tid < 0x8000 then 2 else if tid < 0x800000 then 3 else 4

theorem idSize_range (tid : Int) : 1 ≤ idSize tid ∧ idSize tid ≤ 4 := by
  unfold idSize
  split_ifs <;> omega

/-- A message id on the wire. -/
def idTlv (tid : Int) : List UInt8 :=
  0x02 :: UInt8.ofNat (idSize tid) :: octets tid.toNat (idSize tid)

@[simp] theorem idTlv_length (tid : Int) : (idTlv tid).length = 2 + idSize tid := by
  simp only [idTlv, List.length_cons, octets_length]
  omega

theorem idTlv_isTlv {tid : Int} : Tlv 0x02 (octets tid.toNat (idSize tid)) (idTlv tid) := by
  have h := idSize_range tid
  refine .mk (L := [UInt8.ofNat (idSize tid)]) ?_
  rw [octets_length]
  exact .short (by omega)

theorem beVal_idOctets {tid : Int} (hpos : 0 < tid) (hlt : tid < 2 ^ 31) :
    beVal (octets tid.toNat (idSize tid)) = tid.toNat := by
  rw [beVal_octets, Nat.mod_eq_of_lt]
  unfold idSize
  split_ifs <;> omega

theorem octets_lead {n : Nat} (r : Nat) (h : n < 256 ^ r) : octets n (r + 1) = 0 :: octets n r := by
  rw [octets, shiftRight_octets, Nat.div_eq_of_lt h]
  rfl

theorem berTidCreate_octets {tid : Int} (hpos : 0 < tid) (hlt : tid < 2 ^ 31) :
    berTidCreate tid = .ok (idTlv tid) := by
  obtain ⟨n, hn, -⟩ := countOctets_total tid.toNat 7 0 (by
    calc tid.toNat < 2 ^ 31 := by omega
      _ ≤ 256 ^ (0 + 7) := by norm_num)
  obtain ⟨hub, -, hlb⟩ := countOctets_eq hn
  have h4 : n ≤ 4 := by
    by_contra h5
    have h1 := hlb (by omega)
    have h2 : 256 ^ 4 ≤ 256 ^ (n - 1) := Nat.pow_le_pow_right (by norm_num) (by omega)
    omega
  have hlt8 : int32 (2 ^ (8 * 1 - 1)) = 0x80 ∧ int32 (2 ^ (8 * 1)) = 0x100 := by decide
  have hlt16 : int32 (2 ^ (8 * 2 - 1)) = 0x8000 ∧ int32 (2 ^ (8 * 2)) = 0x10000 := by decide
  have hlt24 : int32 (2 ^ (8 * 3 - 1)) = 0x800000 ∧ int32 (2 ^ (8 * 3)) = 0x1000000 := by decide
  -- the doubling overflows: no room is made for a sign in four octets
  have hlt32 : int32 (2 ^ (8 * 4 - 1)) = -0x80000000 ∧ int32 (2 ^ (8 * 4)) = 0 := by decide
  simp only [berTidCreate, hn, ok_bind, pure_eq_ok, idTlv]
  obtain rfl | rfl | rfl | rfl | rfl : n = 0 ∨ n = 1 ∨ n = 2 ∨ n = 3 ∨ n = 4 := by omega
  · omega
  · rw [hlt8.1, hlt8.2]
    by_cases hs : tid < 0x80
    · rw [if_neg (by omega), show idSize tid = 1 from if_pos hs]
      rfl
    · rw [if_pos (by omega), show idSize tid = 2 by unfold idSize; rw [if_neg hs, if_pos (by omega)],
        octets_lead 1 (by omega)]
      rfl
  · have := hlb (by omega)
    rw [hlt16.1, hlt16.2]
    by_cases hs : tid < 0x8000
    · rw [if_neg (by omega),
        show idSize tid = 2 by unfold idSize; rw [if_neg (by omega), if_pos hs]]
      rfl
    · rw [if_pos (by omega), show idSize tid = 3 by
          unfold idSize; rw [if_neg (by omega), if_neg hs, if_pos (by omega)],
        octets_lead 2 (by omega)]
      rfl
  · have := hlb (by omega)
    rw [hlt24.1, hlt24.2]
    by_cases hs : tid < 0x800000
    · rw [if_neg (by omega), show idSize tid = 3 by
          unfold idSize; rw [if_neg (by omega), if_neg (by omega), if_pos hs]]
      rfl
    · rw [if_pos (by omega), show idSize tid = 4 by
          unfold idSize; rw [if_neg (by omega), if_neg (by omega), if_neg hs],
        octets_lead 3 (by omega)]
      rfl
  · have := hlb (by omega)
    rw [hlt32.1, hlt32.2, if_neg (by omega), show idSize tid = 4 by
      unfold idSize; rw [if_neg (by omega), if_neg (by omega), if_neg (by omega)]]
    rfl

end CassandraApi.Ber
