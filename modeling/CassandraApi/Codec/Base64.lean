/-
# `Codec.Base64` — base64_encode and base64_decode

Both functions go on from where their four arguments point to, for as long as there is input
and room for a whole quantum of output, and leave the arguments behind what they have done:

    base64_encode    3 bytes (or the last 1 or 2)  to  4 characters
    base64_decode    4 characters                  to  3 bytes (or 2 or 1)

The encoder looks at `_i_[1]` in every quantum and at `_i_[2]` in all but a quantum of one byte,
also where the input has ended before them.  What it finds there goes into the bits of
the last character that no byte of the input stands for (`textBehind`); RFC 4648 has them
zero.  The decoder does not look at these bits.
-/
import CassandraApi.C.CString

namespace CassandraApi.Codec

open C

/-! ## The alphabet -/

def base64Characters : List UInt8 :=
  ascii "ABCDEFGHIJKLMNOPQRSTUVWXYZabcdefghijklmnopqrstuvwxyz0123456789+/"

/-- `_base64_charcters_[n]` -/
def base64Char (n : UInt8) : UInt8 := base64Characters.getD n.toNat 0

/-- `_BASE64_PAD_CHAR_` -/
def base64Pad : UInt8 := 61

/-- `_BASE64_DECODE_CHAR(_c)` -/
def base64DecodeChar (c : UInt8) : UInt8 :=
  if 65 ≤ c ∧ c ≤ 90 then c - 65
  else if 97 ≤ c ∧ c ≤ 122 then c - 97 + 26
  else if 48 ≤ c ∧ c ≤ 57 then c - 48 + 26 + 26
  else if c = 43 then 26 + 26 + 10
  else if c = 47 then 26 + 26 + 10 + 1
  else 0xff

/-! ## One quantum -/

/-- `_BASE64_ENCODE_(_i, _ilen, _o)`: the characters it writes. -/
def encodeQuantum (data : Block) (i : Nat) (ilen : Int) : Except Fault (List UInt8) := do
  let i0 ← data.rd i
  let i1 ← data.rd (i + 1)
  let o2 ←
    if ilen ≤ 1 then pure base64Pad
    else do
      let i2 ← data.rd (i + 2)
      pure (base64Char ((i1 &&& 0x0f) <<< 2 ||| (i2 &&& 0xc0) >>> 6))
  let o3 ←
    if ilen ≤ 2 then pure base64Pad
    else do
      let i2 ← data.rd (i + 2)
      pure (base64Char (i2 &&& 0x3f))
  pure [base64Char (i0 >>> 2), base64Char ((i0 &&& 0x03) <<< 4 ||| (i1 &&& 0xf0) >>> 4), o2, o3]

/-- `_BASE64_DECODE_(_i, _o, _olen)`: the bytes it writes, and `_olen`. -/
def decodeQuantum (buf : Block) (i : Nat) : Except Fault (List UInt8 × Int) := do
  let l0 := base64DecodeChar (← buf.rd i)
  if 64 ≤ l0 then pure ([], -1)
  else do
    let l1 := base64DecodeChar (← buf.rd (i + 1))
    if 64 ≤ l1 then pure ([], -2)
    else do
      let o0 := l0 <<< 2 ||| l1 >>> 4
      let i2 ← buf.rd (i + 2)
      let padded ← if i2 = base64Pad then (· == base64Pad) <$> buf.rd (i + 3) else pure false
      if padded then pure ([o0], 1)
      else do
        let l2 := base64DecodeChar i2
        if 64 ≤ l2 then pure ([o0], -3)
        else do
          let o1 := l1 <<< 4 ||| l2 >>> 2
          let i3 ← buf.rd (i + 3)
          if i3 = base64Pad then pure ([o0, o1], 2)
          else do
            let l3 := base64DecodeChar i3
            if 64 ≤ l3 then pure ([o0, o1], -4)
            else pure ([o0, o1, l2 <<< 6 ||| l3], 3)

/-! ## The loops -/

/-- What the four arguments of a call lead to: where the input and the output go on, and how much
is left of each. -/
structure Cursor where
  input : Nat
  ilen : Int
  output : Nat
  olen : Int

/-- `while (*ilen > 0 && *olen >= 4)` -/
def encodeLoop (data : Block) : Nat → Cursor → Block → Except Fault (Cursor × Block)
  | 0, _, _ => .error .stuck
  | turns + 1, c, out =>
      if 0 < c.ilen ∧ 4 ≤ c.olen then do
        let quantum ← encodeQuantum data c.input c.ilen
        let out ← out.write c.output quantum
        let taken := if c.ilen < 3 then c.ilen else 3
        encodeLoop data turns
          ⟨c.input + taken.toNat, c.ilen - taken, c.output + 4, c.olen - 4⟩ out
      else pure (c, out)

def base64Encode (data : Block) (c : Cursor) (out : Block) : Except Fault (Cursor × Block) :=
  encodeLoop data (c.ilen.toNat + 1) c out

/-- What comes after the loop of base64_decode: a last quantum with less room than three bytes is
decoded into `temp` first. -/
def decodeTail (buf : Block) (c : Cursor) (out : Block) : Except Fault (Int × Cursor × Block) :=
  if c.ilen ≤ 0 then .ok (0, c, out)
  else if c.ilen < 4 then .ok (-1, c, out)
  else if 0 < c.olen then do
    let (temp, n) ← decodeQuantum buf c.input
    if n ≤ 0 then pure (-1, c, out)
    else if n ≤ c.olen then do
      let out ← out.write c.output temp
      pure (0, ⟨c.input + 4, c.ilen - 4, c.output + n.toNat, c.olen - n⟩, out)
    else pure (0, c, out)
  else .ok (0, c, out)

/-- `while (*ilen >= 4 && *olen >= 3)`, and what comes after it. -/
def decodeLoop (buf : Block) : Nat → Cursor → Block → Except Fault (Int × Cursor × Block)
  | 0, _, _ => .error .stuck
  | turns + 1, c, out =>
      if 4 ≤ c.ilen ∧ 3 ≤ c.olen then do
        let (bytes, n) ← decodeQuantum buf c.input
        let out ← out.write c.output bytes
        if n ≤ 0 then pure (-1, c, out)
        else
          let c := ⟨c.input + 4, c.ilen - 4, c.output + n.toNat, c.olen - n⟩
          if n < 3 then pure (0, c, out) else decodeLoop buf turns c out
      else decodeTail buf c out

def base64Decode (buf : Block) (c : Cursor) (out : Block) : Except Fault (Int × Cursor × Block) :=
  decodeLoop buf (c.ilen.toNat + 1) c out

/-! ## Call after call -/

/-- Calls of base64_encode until nothing is left of the input.  `room` is the buffer that the
caller has for the output of the next call when `done` is the text so far. -/
def encodeCalls (data : Block) (room : List UInt8 → Block) :
    Nat → Nat → Int → List UInt8 → Except Fault (List UInt8)
  | 0, _, _, _ => .error .stuck
  | calls + 1, i, ilen, done =>
      if ilen = 0 then pure done
      else do
        let (c, out) ← base64Encode data ⟨i, ilen, 0, (room done).size⟩ (room done)
        encodeCalls data room calls c.input c.ilen (done ++ out.slice 0 c.output)

/-- Calls of base64_decode until nothing is left of the text; `none` when one of them does not
return 0. -/
def decodeCalls (buf : Block) (room : List UInt8 → Block) :
    Nat → Nat → Int → List UInt8 → Except Fault (Option (List UInt8))
  | 0, _, _, _ => .error .stuck
  | calls + 1, i, ilen, done =>
      if ilen = 0 then pure (some done)
      else do
        let (r, c, out) ← base64Decode buf ⟨i, ilen, 0, (room done).size⟩ (room done)
        if r ≠ 0 then pure none
        else decodeCalls buf room calls c.input c.ilen (done ++ out.slice 0 c.output)

/-! ## The text -/

/-- The second character of a quantum: two bits of a byte and four of the next. -/
def secondBits (a b : UInt8) : UInt8 := (a &&& 0x03) <<< 4 ||| b >>> 4

/-- The third: four bits of a byte and two of the next. -/
def thirdBits (b c : UInt8) : UInt8 := (b &&& 0x0f) <<< 2 ||| c >>> 6

/-- The text of some bytes, the unused bits of the last quantum being the first ones of `x`. -/
def textBehind (x : UInt8) : List UInt8 → List UInt8
  | [] => []
  | [a] => [base64Char (a >>> 2), base64Char (secondBits a x), base64Pad, base64Pad]
  | [a, b] => [base64Char (a >>> 2), base64Char (secondBits a b), base64Char (thirdBits b x),
      base64Pad]
  | a :: b :: c :: rest => base64Char (a >>> 2) :: base64Char (secondBits a b) ::
      base64Char (thirdBits b c) :: base64Char (c &&& 0x3f) :: textBehind x rest

/-- The encoding of RFC 4648: unused bits are zero. -/
def rfc4648 (s : List UInt8) : List UInt8 := textBehind 0 s

/-! ## Bits -/

section Bits

variable (a b c : UInt8)

theorem high_nibble : (b &&& 0xf0) >>> 4 = b >>> 4 := by
  apply UInt8.eq_of_toBitVec_eq
  ext i hi
  interval_cases i <;> simp

theorem high_pair : (c &&& 0xc0) >>> 6 = c >>> 6 := by
  apply UInt8.eq_of_toBitVec_eq
  ext i hi
  interval_cases i <;> simp

theorem first_byte : (a >>> 2) <<< 2 ||| secondBits a b >>> 4 = a := by
  unfold secondBits
  apply UInt8.eq_of_toBitVec_eq
  ext i hi
  interval_cases i <;> simp

theorem second_byte : secondBits a b <<< 4 ||| thirdBits b c >>> 2 = b := by
  unfold secondBits thirdBits
  apply UInt8.eq_of_toBitVec_eq
  ext i hi
  interval_cases i <;> simp

theorem third_byte : thirdBits b c <<< 6 ||| (c &&& 0x3f) = c := by
  unfold thirdBits
  apply UInt8.eq_of_toBitVec_eq
  ext i hi
  interval_cases i <;> simp

/-- Six bits. -/
theorem six_bits {n : UInt8} (h : n &&& 0x3f = n) : n < 64 := by
  have hle : (n &&& 0x3f).toNat ≤ 63 := by
    rw [UInt8.toNat_and]
    exact Nat.and_le_right
  rw [UInt8.lt_iff_toNat_lt, ← h]
  exact Nat.lt_succ_of_le hle

theorem firstBits_lt : a >>> 2 < 64 := by
  apply six_bits
  apply UInt8.eq_of_toBitVec_eq
  ext i hi
  interval_cases i <;> simp

theorem secondBits_lt : secondBits a b < 64 := by
  unfold secondBits
  apply six_bits
  apply UInt8.eq_of_toBitVec_eq
  ext i hi
  interval_cases i <;> simp

theorem thirdBits_lt : thirdBits b c < 64 := by
  unfold thirdBits
  apply six_bits
  apply UInt8.eq_of_toBitVec_eq
  ext i hi
  interval_cases i <;> simp

theorem lastBits_lt : c &&& 0x3f < 64 := by
  apply six_bits
  rw [UInt8.and_assoc, UInt8.and_self]

end Bits

/-- The alphabet is read back, and the padding is not part of it. -/
theorem char_decoded {n : UInt8} (h : n < 64) :
    base64DecodeChar (base64Char n) = n ∧ base64Char n ≠ base64Pad := by
  have all : ∀ k < 64, base64DecodeChar (base64Char (UInt8.ofNat k)) = UInt8.ofNat k ∧
      base64Char (UInt8.ofNat k) ≠ base64Pad := by decide +kernel
  have hn := all n.toNat (UInt8.lt_iff_toNat_lt.1 h)
  rwa [UInt8.ofNat_toNat] at hn

/-! ## Texts -/

theorem textBehind_length (x : UInt8) (s : List UInt8) :
    (textBehind x s).length = 4 * ((s.length + 2) / 3) := by
  induction s using textBehind.induct with
  | case1 => rfl
  | case2 a => simp [textBehind]
  | case3 a b => simp [textBehind]
  | case4 a b c rest ih =>
    simp only [textBehind, List.length_cons, ih]
    omega

/-- A text is that of its quanta. -/
theorem textBehind_append (x : UInt8) {s t : List UInt8} (h : s.length % 3 = 0 ∨ t = []) :
    textBehind x (s ++ t) = textBehind x s ++ textBehind x t := by
  rcases h with h | rfl
  · induction s using textBehind.induct with
    | case1 => rfl
    | case2 a => simp at h
    | case3 a b => simp at h
    | case4 a b c rest ih =>
      simp only [List.length_cons] at h
      simp only [List.cons_append, textBehind, ih (by omega)]
  · rw [List.append_nil]
    exact (List.append_nil _).symm

/-- Where no bits are left over, nothing of `x` is in the text. -/
theorem textBehind_whole (x y : UInt8) {s : List UInt8} (h : s.length % 3 = 0) :
    textBehind x s = textBehind y s := by
  induction s using textBehind.induct with
  | case1 => rfl
  | case2 a => simp at h
  | case3 a b => simp at h
  | case4 a b c rest ih =>
    simp only [List.length_cons] at h
    simp only [textBehind, ih (by omega)]

/-! ## The encoder -/

/-- What the encoder looks at is there: the byte behind the input counts unless the last quantum
is full. -/
def Readable (data : Block) (i : Nat) (s : List UInt8) : Prop :=
  s.length % 3 = 0 ∨ i + s.length < data.size

theorem encodeQuantum_eq {data : Block} {i : Nat} {s : List UInt8} (h : Holds data i s)
    (some : s ≠ []) (readable : Readable data i (s.take 3)) :
    encodeQuantum data i s.length =
      .ok (textBehind (data.byte (i + s.length)) (s.take 3)) := by
  match s, some with
  | [a], _ =>
    have hbehind : data.rd (i + 1) = .ok (data.byte (i + 1)) := by
      exact_mod_cast rd_inside (readable.resolve_left (by simp))
    simp [encodeQuantum, h.rd, hbehind, textBehind, secondBits, high_nibble]
  | [a, b], _ =>
    have hsecond : data.rd (i + 1) = .ok b := by exact_mod_cast h.tail.rd
    have hbehind : data.rd (i + 2) = .ok (data.byte (i + 2)) := by
      exact_mod_cast rd_inside (readable.resolve_left (by simp))
    simp [encodeQuantum, h.rd, hsecond, hbehind, textBehind, secondBits, thirdBits, high_nibble,
      high_pair]
  | a :: b :: c :: rest, _ =>
    have hsecond : data.rd (i + 1) = .ok b := by exact_mod_cast h.tail.rd
    have hthird : data.rd (i + 2) = .ok c := by exact_mod_cast h.tail.tail.rd
    have hone : ¬ (((a :: b :: c :: rest).length : Nat) : Int) ≤ 1 := by
      simp only [List.length_cons]
      omega
    have htwo : ¬ (((a :: b :: c :: rest).length : Nat) : Int) ≤ 2 := by
      simp only [List.length_cons]
      omega
    simp only [encodeQuantum, h.rd, hsecond, hthird, if_neg hone, if_neg htwo, ok_bind, pure_eq_ok,
      high_nibble, high_pair]
    rfl

/-- The loop encodes a first part of the input, which is all of it or fills the room. -/
theorem encodeLoop_eq {data : Block} {turns : Nat} {s : List UInt8} {i o : Nat} {olen : Int}
    {out : Block} (hturns : s.length < turns) (h : Holds data i s) (readable : Readable data i s)
    (hsome : o ≤ out.size) (hroom : o + olen ≤ out.size) :
    ∃ s₁ s₂ t out', s₁ ++ s₂ = s ∧ textBehind (data.byte (i + s.length)) s₁ = t ∧
      encodeLoop data turns ⟨i, s.length, o, olen⟩ out =
        .ok (⟨i + s₁.length, s₂.length, o + t.length, olen - t.length⟩, out') ∧
      Filled out o t out' ∧ (s₂ = [] ∨ s₁.length % 3 = 0 ∧ olen - t.length < 4) := by
  induction turns generalizing s i o olen out with
  | zero => omega
  | succ turns ih =>
    rw [encodeLoop]
    by_cases hgo : 0 < (s.length : Int) ∧ 4 ≤ olen
    · have hne : s ≠ [] := by
        rintro rfl
        exact absurd hgo.1 (by simp)
      have hsplit : s.take 3 ++ s.drop 3 = s := List.take_append_drop 3 s
      have htake : (s.take 3).length = min 3 s.length := List.length_take
      have hquantum := encodeQuantum_eq h hne (by unfold Readable at readable ⊢; omega)
      have hdrop : (s.drop 3).length = s.length - 3 := List.length_drop
      have hfour : (textBehind (data.byte (i + s.length)) (s.take 3)).length = 4 := by
        rw [textBehind_length]
        omega
      obtain ⟨out₁, hwrite, hout₁⟩ := write_filled
        (show o + (textBehind (data.byte (i + s.length)) (s.take 3)).length ≤ out.size by omega)
      have htaken : (if (s.length : Int) < 3 then (s.length : Int) else 3) = (s.take 3).length := by
        split <;> omega
      have hend : i + (s.take 3).length + (s.drop 3).length = i + s.length := by omega
      have hparts := Holds.append_iff.1 (hsplit.symm ▸ h)
      obtain ⟨s₁, s₂, t, out', hs, ht, hloop, hout', hdone⟩ := ih
        (show (s.drop 3).length < turns by omega) hparts.2
        (by unfold Readable at readable ⊢; omega)
        (show o + 4 ≤ out₁.size by rw [hout₁.size]; omega)
        (show ((o + 4 : Nat) : Int) + (olen - 4) ≤ out₁.size by rw [hout₁.size]; omega)
      rw [hend] at ht
      have hfull : (s.take 3).length % 3 = 0 ∨ s₁ = [] ∧ s₂ = [] := by
        by_cases hlt : s.length < 3
        · have hnil : s.drop 3 = [] := List.drop_eq_nil_of_le (by omega)
          exact .inr (List.append_eq_nil_iff.1 (hs.trans hnil))
        · left
          omega
      have happ : textBehind (data.byte (i + s.length)) (s.take 3 ++ s₁) =
          textBehind (data.byte (i + s.length)) (s.take 3) ++ t := by
        rw [textBehind_append _ (hfull.imp_right And.left), ht]
      refine ⟨s.take 3 ++ s₁, s₂, _, out', ?_, happ, ?_, ?_, ?_⟩
      · rw [List.append_assoc, hs, hsplit]
      · rw [if_pos hgo]
        simp only [hquantum, ok_bind, hwrite, htaken]
        have hleft : (s.length : Int) - (s.take 3).length = (s.drop 3).length := by omega
        rw [hleft, Int.toNat_natCast, hloop]
        simp only [List.length_append, hfour]
        congr 3 <;> omega
      · rw [← hfour] at hout'
        exact hout₁.append hout'
      · rcases hfull with hfull | ⟨-, hnil⟩
        · refine hdone.imp_right fun hmore => ?_
          rw [List.length_append, List.length_append, hfour]
          omega
        · exact .inl hnil
    · refine ⟨[], s, [], out, rfl, rfl, ?_, .nil hsome, ?_⟩
      · rw [if_neg hgo]
        simp
      · by_cases hnil : s = []
        · exact .inl hnil
        · have := List.length_pos_iff.2 hnil
          refine .inr ⟨rfl, ?_⟩
          simp only [List.length_nil]
          omega

/-- Where the encoder looks behind the end of the memory, it does not come to the end. -/
theorem encodeLoop_unreadable (turns : Nat) {data : Block} {s : List UInt8} {i o : Nat} {olen : Int}
    {out : Block} (h : Holds data i s) (unreadable : ¬ Readable data i s)
    (hlong : 4 * (((s.length + 2) / 3 : Nat) : Int) ≤ olen) (hroom : o + olen ≤ out.size) :
    ∃ e, encodeLoop data turns ⟨i, s.length, o, olen⟩ out = .error e := by
  induction turns generalizing s i o olen out with
  | zero => exact ⟨.stuck, rfl⟩
  | succ turns ih =>
    have hne : s ≠ [] := by
      rintro rfl
      exact unreadable (.inl rfl)
    have hpos := List.length_pos_iff.2 hne
    rw [encodeLoop, if_pos ⟨by simp only; omega, by simp only; omega⟩]
    by_cases hlt : s.length < 3
    · refine ⟨.read, ?_⟩
      match s, hne, hlt with
      | [a], _, _ =>
        have hbehind : data.rd (i + 1) = .error .read := by
          simp only [Readable, List.length_cons, List.length_nil] at unreadable
          unfold Block.rd
          rw [if_neg (by omega)]
        simp [encodeQuantum, h.rd, hbehind]
      | [a, b], _, _ =>
        have hsecond : data.rd (i + 1) = .ok b := by exact_mod_cast h.tail.rd
        have hbehind : data.rd (i + 2) = .error .read := by
          simp only [Readable, List.length_cons, List.length_nil] at unreadable
          unfold Block.rd
          rw [if_neg (by omega)]
        simp [encodeQuantum, h.rd, hsecond, hbehind]
    · have htake : (s.take 3).length = 3 := by
        rw [List.length_take]
        omega
      have hdrop : (s.drop 3).length = s.length - 3 := List.length_drop
      have hquantum := encodeQuantum_eq h hne (.inl (by rw [htake]))
      have hfour : (textBehind (data.byte (i + s.length)) (s.take 3)).length = 4 := by
        rw [textBehind_length, htake]
      obtain ⟨out₁, hwrite, hout₁⟩ := write_filled
        (show o + (textBehind (data.byte (i + s.length)) (s.take 3)).length ≤ out.size by omega)
      have hparts := Holds.append_iff.1 ((List.take_append_drop 3 s).symm ▸ h)
      rw [htake] at hparts
      obtain ⟨e, he⟩ := ih hparts.2 (by unfold Readable at unreadable ⊢; omega)
        (show 4 * ((((s.drop 3).length + 2) / 3 : Nat) : Int) ≤ olen - 4 by omega)
        (show ((o + 4 : Nat) : Int) + (olen - 4) ≤ out₁.size by rw [hout₁.size]; omega)
      refine ⟨e, ?_⟩
      have hleft : (s.length : Int) - 3 = (s.drop 3).length := by omega
      simp only [hquantum, ok_bind, hwrite]
      rw [if_neg (by omega), hleft]
      exact he

/-- Calls with room for a quantum each come to the whole text. -/
theorem encodeCalls_eq {data : Block} {room : List UInt8 → Block}
    (hroom : ∀ done, 4 ≤ (room done).size) {calls : Nat} {s : List UInt8} {i : Nat}
    (done : List UInt8) (hcalls : s.length < calls) (h : Holds data i s)
    (readable : Readable data i s) :
    encodeCalls data room calls i s.length done =
      .ok (done ++ textBehind (data.byte (i + s.length)) s) := by
  induction calls generalizing s i done with
  | zero => omega
  | succ calls ih =>
    rw [encodeCalls]
    by_cases hnil : s = []
    · subst hnil
      rw [List.length_nil, Nat.cast_zero, if_pos rfl]
      exact congrArg Except.ok (List.append_nil done).symm
    · have hpos := List.length_pos_iff.2 hnil
      obtain ⟨s₁, s₂, t, out, rfl, ht, hloop, hout, hdone⟩ := encodeLoop_eq
        (Nat.lt_succ_self s.length) h readable (Nat.zero_le (room done).size)
        (show ((0 : Nat) : Int) + (room done).size ≤ (room done).size by omega)
      have hfour := hroom done
      have hprogress : 1 ≤ s₁.length := by
        by_contra hzero
        obtain rfl : s₁ = [] := List.length_eq_zero_iff.1 (by omega)
        subst ht
        rcases hdone with rfl | ⟨-, hlt⟩
        · exact hnil rfl
        · simp only [textBehind, List.length_nil] at hlt
          omega
      have hparts := Holds.append_iff.1 h
      have hlen : (s₁ ++ s₂).length = s₁.length + s₂.length := List.length_append
      have hend : i + s₁.length + s₂.length = i + (s₁ ++ s₂).length := by omega
      have hrest := ih (done ++ t) (by omega) hparts.2 (by
        rcases hdone with rfl | ⟨hthree, -⟩
        · exact .inl rfl
        · unfold Readable at readable ⊢
          omega)
      rw [hend] at hrest
      rw [Nat.zero_add] at hloop
      have hzero : ¬ ((s₁ ++ s₂).length : Int) = 0 := by omega
      rw [if_neg hzero]
      simp only [base64Encode, Int.toNat_natCast, hloop, ok_bind, hout.holds.bytes, hrest]
      rw [textBehind_append _ (hdone.symm.imp_left And.left), ht, List.append_assoc]

/-! ## The decoder -/

/-- A quantum is read back, whatever is in its unused bits. -/
theorem decodeQuantum_eq {buf : Block} {j : Nat} {x : UInt8} {s : List UInt8} (hne : s ≠ [])
    (h : Holds buf j (textBehind x s)) :
    decodeQuantum buf j = .ok (s.take 3, ((s.take 3).length : Nat)) := by
  have sixty (n : UInt8) (hn : n < 64) : ¬ 64 ≤ n := UInt8.not_le.2 hn
  match s, hne with
  | [a], _ =>
    have h1 : buf.rd (j + 1) = .ok (base64Char (secondBits a x)) := by exact_mod_cast h.tail.rd
    have h2 : buf.rd (j + 2) = .ok base64Pad := by exact_mod_cast h.tail.tail.rd
    have h3 : buf.rd (j + 3) = .ok base64Pad := by exact_mod_cast h.tail.tail.tail.rd
    simp [decodeQuantum, h.rd, h1, h2, h3, (char_decoded (firstBits_lt a)).1,
      (char_decoded (secondBits_lt a x)).1, sixty _ (firstBits_lt a), sixty _ (secondBits_lt a x),
      first_byte]
  | [a, b], _ =>
    have h1 : buf.rd (j + 1) = .ok (base64Char (secondBits a b)) := by exact_mod_cast h.tail.rd
    have h2 : buf.rd (j + 2) = .ok (base64Char (thirdBits b x)) := by exact_mod_cast h.tail.tail.rd
    have h3 : buf.rd (j + 3) = .ok base64Pad := by exact_mod_cast h.tail.tail.tail.rd
    simp [decodeQuantum, h.rd, h1, h2, h3, (char_decoded (firstBits_lt a)).1,
      (char_decoded (secondBits_lt a b)).1, (char_decoded (thirdBits_lt b x)),
      sixty _ (firstBits_lt a), sixty _ (secondBits_lt a b), sixty _ (thirdBits_lt b x),
      first_byte, second_byte]
  | a :: b :: c :: rest, _ =>
    have h1 : buf.rd (j + 1) = .ok (base64Char (secondBits a b)) := by exact_mod_cast h.tail.rd
    have h2 : buf.rd (j + 2) = .ok (base64Char (thirdBits b c)) := by exact_mod_cast h.tail.tail.rd
    have h3 : buf.rd (j + 3) = .ok (base64Char (c &&& 0x3f)) := by
      exact_mod_cast h.tail.tail.tail.rd
    simp [decodeQuantum, h.rd, h1, h2, h3, (char_decoded (firstBits_lt a)).1,
      (char_decoded (secondBits_lt a b)).1, (char_decoded (thirdBits_lt b c)),
      (char_decoded (lastBits_lt c)),
      sixty _ (firstBits_lt a), sixty _ (secondBits_lt a b), sixty _ (thirdBits_lt b c),
      sixty _ (lastBits_lt c), first_byte, second_byte, third_byte]

/-- A text is a whole number of quanta. -/
theorem textBehind_take {x : UInt8} {s : List UInt8} (hne : s ≠ []) :
    textBehind x s = textBehind x (s.take 3) ++ textBehind x (s.drop 3) ∧
      (textBehind x (s.take 3)).length = 4 := by
  have hpos := List.length_pos_iff.2 hne
  have htake : (s.take 3).length = min 3 s.length := List.length_take
  constructor
  · conv_lhs => rw [← List.take_append_drop 3 s]
    refine textBehind_append x ?_
    by_cases hlt : s.length < 3
    · exact .inr (List.drop_eq_nil_of_le (by omega))
    · left
      omega
  · rw [textBehind_length]
    omega

/-- What base64_decode leaves after a call on the text of `s`: a first part is decoded, and more
would not fit. -/
structure Decoded (buf : Block) (x : UInt8) (s : List UInt8) (j o : Nat) (olen : Int) (out : Block)
    (r : Except Fault (Int × Cursor × Block)) (s₁ s₂ : List UInt8) (out' : Block) : Prop where
  parts : s₁ ++ s₂ = s
  whole : s₁.length % 3 = 0 ∨ s₂ = []
  result : r = .ok (0, ⟨j + (textBehind x s₁).length, (textBehind x s₂).length, o + s₁.length,
    olen - s₁.length⟩, out')
  filled : Filled out o s₁ out'
  more : s₂ ≠ [] → olen - s₁.length < min 3 s₂.length

/-- Nothing is decoded. -/
theorem Decoded.none {buf : Block} {x : UInt8} {s : List UInt8} {j o : Nat} {olen : Int}
    {out : Block} (hsome : o ≤ out.size) (hmore : s ≠ [] → olen < min 3 s.length) :
    Decoded buf x s j o olen out
      (.ok (0, ⟨j, (textBehind x s).length, o, olen⟩, out)) [] s out where
  parts := rfl
  whole := .inl rfl
  result := by simp [textBehind]
  filled := .nil hsome
  more := by simpa using hmore

/-- All of a last quantum is decoded. -/
theorem Decoded.last {buf : Block} {x : UInt8} {s : List UInt8} {j o : Nat} {olen : Int}
    {out out' : Block} (hne : s ≠ []) (hlt : s.length ≤ 3) (hfilled : Filled out o s out') :
    Decoded buf x s j o olen out
      (.ok (0, ⟨j + 4, ((textBehind x s).length : Int) - 4, o + s.length, olen - s.length⟩, out'))
      s [] out' where
  parts := List.append_nil s
  whole := .inr rfl
  result := by
    obtain ⟨-, hfour⟩ := textBehind_take (x := x) hne
    rw [List.take_of_length_le hlt] at hfour
    simp [hfour, textBehind]
  filled := hfilled
  more h := absurd rfl h

theorem decodeTail_eq {buf : Block} {x : UInt8} {s : List UInt8} {j o : Nat} {olen : Int}
    {out : Block} (h : Holds buf j (textBehind x s)) (hsome : o ≤ out.size)
    (hroom : o + olen ≤ out.size) (hend : s ≠ [] → olen < 3) :
    ∃ s₁ s₂ out', Decoded buf x s j o olen out
      (decodeTail buf ⟨j, (textBehind x s).length, o, olen⟩ out) s₁ s₂ out' := by
  unfold decodeTail
  by_cases hnil : s = []
  · subst hnil
    exact ⟨[], [], out, .none hsome fun h => absurd rfl h⟩
  · obtain ⟨hquanta, hfour⟩ := textBehind_take (x := x) hnil
    have hlen := congrArg List.length hquanta
    rw [List.length_append, hfour] at hlen
    have hpos := List.length_pos_iff.2 hnil
    have htake : (s.take 3).length = min 3 s.length := List.length_take
    have hlt := hend hnil
    rw [if_neg (by simp only; omega), if_neg (by simp only; omega)]
    by_cases hsmall : 0 < olen
    · rw [if_pos hsmall]
      simp only [decodeQuantum_eq hnil h, ok_bind]
      rw [if_neg (by omega)]
      by_cases hfit : ((s.take 3).length : Int) ≤ olen
      · rw [if_pos hfit]
        have hall : s.take 3 = s := List.take_of_length_le (by omega)
        rw [hall] at hfit ⊢
        obtain ⟨out', hwrite, hfilled⟩ := write_filled (show o + s.length ≤ out.size by omega)
        simp only [hwrite, ok_bind, pure_eq_ok, Int.toNat_natCast]
        exact ⟨s, [], out', .last hnil (by omega) hfilled⟩
      · rw [if_neg hfit]
        exact ⟨[], s, out, .none hsome fun _ => by omega⟩
    · rw [if_neg hsmall]
      exact ⟨[], s, out, .none hsome fun _ => by omega⟩

theorem decodeLoop_eq {buf : Block} {x : UInt8} {turns : Nat} {s : List UInt8} {j o : Nat}
    {olen : Int} {out : Block} (hturns : s.length < turns) (h : Holds buf j (textBehind x s))
    (hsome : o ≤ out.size) (hroom : o + olen ≤ out.size) :
    ∃ s₁ s₂ out', Decoded buf x s j o olen out
      (decodeLoop buf turns ⟨j, (textBehind x s).length, o, olen⟩ out) s₁ s₂ out' := by
  induction turns generalizing s j o olen out with
  | zero => omega
  | succ turns ih =>
    rw [decodeLoop]
    by_cases hgo : 4 ≤ ((textBehind x s).length : Int) ∧ 3 ≤ olen
    · have hne : s ≠ [] := by
        rintro rfl
        exact absurd hgo.1 (by simp [textBehind])
      obtain ⟨hquanta, hfour⟩ := textBehind_take (x := x) hne
      have hlen := congrArg List.length hquanta
      rw [List.length_append, hfour] at hlen
      have hpos := List.length_pos_iff.2 hne
      have htake : (s.take 3).length = min 3 s.length := List.length_take
      obtain ⟨out₁, hwrite, hout₁⟩ :=
        write_filled (show o + (s.take 3).length ≤ out.size by omega)
      rw [if_pos hgo]
      simp only [decodeQuantum_eq hne h, ok_bind, hwrite, Int.toNat_natCast]
      rw [if_neg (by omega)]
      by_cases hlt : s.length < 3
      · have hall : s.take 3 = s := List.take_of_length_le (by omega)
        rw [hall] at hout₁ ⊢
        rw [if_pos (by omega)]
        exact ⟨s, [], out₁, .last hne (by omega) hout₁⟩
      · have hthree : (s.take 3).length = 3 := by omega
        have hdrop : (s.drop 3).length = s.length - 3 := List.length_drop
        have hrest := h
        rw [hquanta] at hrest
        have hrest := hrest.right
        rw [hfour] at hrest
        obtain ⟨s₁, s₂, out', hdec⟩ := ih (show (s.drop 3).length < turns by omega) hrest
          (show o + 3 ≤ out₁.size by rw [hout₁.size]; omega)
          (show ((o + 3 : Nat) : Int) + (olen - 3) ≤ out₁.size by rw [hout₁.size]; omega)
        have hleft : ((textBehind x s).length : Int) - 4 = (textBehind x (s.drop 3)).length := by
          omega
        have happ : textBehind x (s.take 3 ++ s₁) = textBehind x (s.take 3) ++ textBehind x s₁ :=
          textBehind_append x (.inl (by omega))
        refine ⟨s.take 3 ++ s₁, s₂, out', ?_, ?_, ?_, ?_, ?_⟩
        · rw [List.append_assoc, hdec.parts, List.take_append_drop]
        · refine hdec.whole.imp_left fun hwhole => ?_
          rw [List.length_append]
          omega
        · rw [hthree, if_neg (by decide), hleft]
          have hresult := hdec.result
          rw [Nat.cast_ofNat]
          rw [hresult, happ]
          simp only [List.length_append, hfour, hthree, Nat.add_assoc, Int.sub_sub, Nat.cast_add,
            Nat.cast_ofNat]
        · rw [← hthree] at hdec
          exact hout₁.append hdec.filled
        · intro hmore
          have hlast := hdec.more hmore
          rw [List.length_append]
          omega
    · rw [if_neg hgo]
      refine decodeTail_eq h hsome hroom fun hne => ?_
      obtain ⟨hquanta, hfour⟩ := textBehind_take (x := x) hne
      have hlen := congrArg List.length hquanta
      rw [List.length_append, hfour] at hlen
      omega

/-- Calls with room for the next quantum each decode the whole text. -/
theorem decodeCalls_eq {buf : Block} {x : UInt8} {room : List UInt8 → Block} {calls : Nat}
    {s : List UInt8} {j : Nat} (done : List UInt8) (hcalls : s.length < calls)
    (h : Holds buf j (textBehind x s))
    (hroom : ∀ more rest, more ++ rest = s → min 3 rest.length ≤ (room (done ++ more)).size) :
    decodeCalls buf room calls j (textBehind x s).length done = .ok (some (done ++ s)) := by
  induction calls generalizing s j done with
  | zero => omega
  | succ calls ih =>
    rw [decodeCalls]
    by_cases hnil : s = []
    · subst hnil
      rw [textBehind, List.length_nil, Nat.cast_zero, if_pos rfl, List.append_nil]
      rfl
    · have hpos := List.length_pos_iff.2 hnil
      have hthree := hroom [] s rfl
      rw [List.append_nil] at hthree
      have hlong : s.length ≤ (textBehind x s).length := by
        rw [textBehind_length]
        omega
      obtain ⟨s₁, s₂, out, hdec⟩ := decodeLoop_eq
        (Nat.lt_succ_of_le hlong) h (Nat.zero_le (room done).size)
        (show ((0 : Nat) : Int) + (room done).size ≤ (room done).size by omega)
      have hprogress : 1 ≤ s₁.length := by
        by_contra hzero
        obtain rfl : s₁ = [] := List.length_eq_zero_iff.1 (by omega)
        obtain rfl : s₂ = s := hdec.parts
        have hlt := hdec.more hnil
        rw [List.length_nil] at hlt
        omega
      have hresult := hdec.result
      rw [Nat.zero_add] at hresult
      have hzero : ¬ ((textBehind x s).length : Int) = 0 := by omega
      rw [if_neg hzero]
      simp only [base64Decode, Int.toNat_natCast, ← Nat.succ_eq_add_one, hresult, ok_bind,
        ne_eq, not_true_eq_false, if_false, hdec.filled.holds.bytes]
      have hparts := hdec.parts
      have htext := textBehind_append x hdec.whole
      rw [hparts] at htext
      subst hparts
      have hlen : (s₁ ++ s₂).length = s₁.length + s₂.length := List.length_append
      rw [ih (done ++ s₁) (by omega) (htext ▸ h).right fun more rest hrest => ?_]
      · rw [List.append_assoc]
      · have hsame := hroom (s₁ ++ more) rest (by rw [List.append_assoc, hrest])
        rwa [← List.append_assoc] at hsame
/-! ## What the text depends on -/

/-- With room for all of it, the encoding of RFC 4648 is written, whatever is behind the bytes, also
when nothing is. -/
def BytesOnly (s : List UInt8) : Prop :=
  ∀ (data : Block) (i : Nat), Holds data i s → ∀ (out : Block) (o : Nat) (olen : Int),
    4 * (((s.length + 2) / 3 : Nat) : Int) ≤ olen → o + olen ≤ out.size →
      ∃ out', base64Encode data ⟨i, s.length, o, olen⟩ out =
        .ok (⟨i + s.length, 0, o + (rfc4648 s).length, olen - (rfc4648 s).length⟩, out') ∧
          Filled out o (rfc4648 s) out'

/-- With room for all of it, all of the input is encoded, with what lies behind it in the bits that
are left over. -/
theorem base64Encode_eq {data : Block} {s : List UInt8} {i o : Nat} {olen : Int} {out : Block}
    (h : Holds data i s) (readable : Readable data i s)
    (hlong : 4 * (((s.length + 2) / 3 : Nat) : Int) ≤ olen) (hroom : o + olen ≤ out.size) :
    ∃ t out', textBehind (data.byte (i + s.length)) s = t ∧
      base64Encode data ⟨i, s.length, o, olen⟩ out =
        .ok (⟨i + s.length, 0, o + t.length, olen - t.length⟩, out') ∧ Filled out o t out' := by
  obtain ⟨s₁, s₂, t, out', rfl, ht, hloop, hout, hdone⟩ :=
    encodeLoop_eq (Nat.lt_succ_self s.length) h readable (by omega) hroom
  have hnil : s₂ = [] := by
    rcases hdone with hnil | ⟨hwhole, hlt⟩
    · exact hnil
    · by_contra hne
      have hpos := List.length_pos_iff.2 hne
      rw [← ht, textBehind_length] at hlt
      rw [List.length_append] at hlong
      omega
  subst hnil
  refine ⟨t, out', ?_, ?_, hout⟩
  · rwa [List.append_nil] at ht ⊢
  · simpa only [base64Encode, Int.toNat_natCast, List.append_nil, List.length_nil, Nat.cast_zero]
      using hloop

theorem BytesOnly.whole {s : List UInt8} (h : BytesOnly s) : s.length % 3 = 0 := by
  by_contra hpart
  have hmem := Block.ofList_holds s
  let out : Block := ⟨4 * ((s.length + 2) / 3), fun _ => 0⟩
  have hroom : ((0 : Nat) : Int) + 4 * (((s.length + 2) / 3 : Nat) : Int) ≤ out.size := by
    simp [out]
  obtain ⟨e, he⟩ := encodeLoop_unreadable (s.length + 1) hmem
    (by simp [Readable, hpart, Block.ofList]) (le_refl _) hroom
  obtain ⟨out', hrun, -⟩ := h _ 0 hmem out 0 _ (le_refl _) hroom
  rw [base64Encode, Int.toNat_natCast, he] at hrun
  cases hrun

theorem base64_bytes_only_iff (s : List UInt8) : BytesOnly s ↔ s.length % 3 = 0 := by
  refine ⟨BytesOnly.whole, fun hwhole data i hmem out o olen hlong hroom => ?_⟩
  obtain ⟨t, out', ht, hrun, hout⟩ := base64Encode_eq hmem (.inl hwhole) hlong hroom
  obtain rfl : rfc4648 s = t := (textBehind_whole _ _ hwhole).trans ht
  exact ⟨out', hrun, hout⟩

/-- One byte is encoded in two ways, behind which a NUL and 0xff lie. -/
theorem byte_behind_leaks :
    ¬ BytesOnly (ascii "a") ∧ ∃ c out out',
      base64Encode (.ofList [97, 0]) ⟨0, 1, 0, 4⟩ ⟨4, fun _ => 0⟩ = .ok (c, out) ∧
      base64Encode (.ofList [97, 0xff]) ⟨0, 1, 0, 4⟩ ⟨4, fun _ => 0⟩ = .ok (c, out') ∧
      out.slice 0 4 = ascii "YQ==" ∧ out'.slice 0 4 = ascii "Yf==" := by
  refine ⟨fun h => absurd h.whole (by decide), _, _, _, rfl, rfl, ?_, ?_⟩
  · decide
  · decide

/-! ## There and back -/

/-- The bytes `s` in memory come through call after call of the encoder, with room for a quantum in
each, and of the decoder, with room for the next quantum in each. -/
def Survives (data : Block) (i : Nat) (s : List UInt8) : Prop :=
  ∀ room : List UInt8 → Block, (∀ done, 4 ≤ (room done).size) →
    ∃ calls t, encodeCalls data room calls i s.length [] = .ok t ∧
      t.length = 4 * ((s.length + 2) / 3) ∧
      ∀ (buf : Block) (j : Nat), Holds buf j t → ∀ room' : List UInt8 → Block,
        (∀ done, min 3 (s.length - done.length) ≤ (room' done).size) →
          ∃ calls', decodeCalls buf room' calls' j t.length [] = .ok (some s)

theorem Survives.readable {data : Block} {i : Nat} {s : List UInt8} (survives : Survives data i s)
    (h : Holds data i s) : Readable data i s := by
  by_contra unreadable
  have hroom : ((0 : Nat) : Int) + (4 * (s.length + 2) : Nat) ≤ (4 * (s.length + 2) : Nat) := by
    omega
  obtain ⟨calls, t, hcalls, -⟩ := survives (fun _ => ⟨4 * (s.length + 2), fun _ => 0⟩)
    (fun _ => show 4 ≤ 4 * (s.length + 2) by omega)
  obtain ⟨e, he⟩ := encodeLoop_unreadable (s.length + 1) h unreadable (by omega)
    (show _ ≤ ((⟨4 * (s.length + 2), fun _ => 0⟩ : Block).size : Int) from hroom)
  have hne : ¬ (s.length : Int) = 0 := by
    intro hzero
    exact unreadable (.inl (by omega))
  cases calls with
  | zero => cases hcalls
  | succ calls =>
    rw [encodeCalls, if_neg hne, base64Encode, Int.toNat_natCast, he] at hcalls
    cases hcalls

theorem base64_survives_iff {data : Block} {i : Nat} {s : List UInt8} (h : Holds data i s) :
    Survives data i s ↔ s.length % 3 = 0 ∨ i + s.length < data.size := by
  refine ⟨fun survives => survives.readable h, fun readable room hroom => ?_⟩
  refine ⟨s.length + 1, _, encodeCalls_eq hroom [] (Nat.lt_succ_self s.length) h readable, ?_, ?_⟩
  · rw [List.nil_append, textBehind_length]
  · intro buf j hbuf room' hroom'
    rw [List.nil_append] at hbuf ⊢
    refine ⟨s.length + 1, decodeCalls_eq [] (Nat.lt_succ_self s.length) hbuf ?_⟩
    rintro more rest rfl
    have hmin := hroom' more
    rwa [List.length_append, Nat.add_sub_cancel_left] at hmin

theorem base64_survives_iff_word : Survives (.ofList (ascii "word")) 0 (ascii "wor") ↔
    (ascii "wor").length % 3 = 0 ∨ 0 + (ascii "wor").length < (Block.ofList (ascii "word")).size :=
  base64_survives_iff (Holds.append_iff.1 (Block.ofList_holds (ascii "wor" ++ ascii "d"))).1

/-- One byte that its memory ends with. -/
theorem one_byte_unread : ¬ Survives (.ofList (ascii "a")) 0 (ascii "a") := by
  intro h
  exact absurd (h.readable (Block.ofList_holds (ascii "a"))) (by
    unfold Readable
    decide)

end CassandraApi.Codec
