/-
# `Codec.UrlBuffer` — url_encode_init and url_decode_init in memory

Both functions walk along a C string and write into a buffer of their own, whose size
they compute from strlen(): three bytes for each one of the string, or as many, and a
NUL.  The walk ends at the NUL; the decoder looks at the two bytes behind a `%`, the
second only when the first is not the NUL.

`html5` is whether the file was compiled with SUPPORT_HTML5, where a `+` stands for a
blank.  Without it, what the decoder writes is `urlDecodeInit` of the bytes of the string.
-/
import CassandraApi.Codec.UrlEncode

namespace CassandraApi.Codec.Url

open C

/-! ## The two functions -/

/-- `isalnum(c)` of the C locale, which a negative `char` is not. -/
def isAlnum (c : UInt8) : Bool := isDigit c || (65 ≤ c && c ≤ 90) || (97 ≤ c && c ≤ 122)

/-- The characters that stand for themselves. -/
def isUnreserved (c : UInt8) : Bool := isAlnum c || c = 45 || c = 95 || c = 46 || c = 126

/-- Converts an integer value to its hex character. -/
def toHex (code : UInt8) : UInt8 := (ascii "0123456789abcdef").getD (code &&& 15).toNat 0

/-- What is written for one character.  `*pstr >> 4` shifts a signed number. -/
def encodeChar (html5 : Bool) (c : UInt8) : List UInt8 :=
  if isUnreserved c then [c]
  else if html5 ∧ c = 32 then [43]
  else [37, toHex (toChar (schar c >>> 4)), toHex (c &&& 15)]

/-- `while (*pstr)` of url_encode_init, and where `pstr` and `pbuf` come to. -/
def encodeLoop (html5 : Bool) (str : Block) : Nat → Nat → Block → Nat → Except Fault (Block × Nat)
  | 0, _, _, _ => .error .stuck
  | turns + 1, pstr, buf, pbuf => do
      let c ← str.rd pstr
      if c = 0 then pure (buf, pbuf)
      else do
        let buf ← buf.write pbuf (encodeChar html5 c)
        encodeLoop html5 str turns (pstr + 1) buf (pbuf + (encodeChar html5 c).length)

/-- url_encode_init on the string at `str + i`; `mem` is what the new buffer holds. -/
def urlEncodeInit (html5 : Bool) (mem : Nat → UInt8) (str : Block) (i : Nat) :
    Except Fault Block := do
  let s ← str.cstr i
  let (buf, pbuf) ← encodeLoop html5 str (s.length + 1) i ⟨s.length * 3 + 1, mem⟩ 0
  buf.write pbuf [0]

/-- `while (*pstr)` of url_decode_init. -/
def decodeLoop (html5 : Bool) (str : Block) : Nat → Nat → Block → Nat → Except Fault (Block × Nat)
  | 0, _, _, _ => .error .stuck
  | turns + 1, pstr, buf, pbuf => do
      let c ← str.rd pstr
      if c = 0 then pure (buf, pbuf)
      else if c = 37 then do
        let a ← str.rd (pstr + 1)
        -- `pstr[1] && pstr[2]`
        let b ← if a = 0 then pure 0 else str.rd (pstr + 2)
        if b = 0 then decodeLoop html5 str turns (pstr + 1) buf pbuf
        else do
          let buf ← buf.write pbuf [fromHex a <<< 4 ||| fromHex b]
          decodeLoop html5 str turns (pstr + 3) buf (pbuf + 1)
      else do
        let buf ← buf.write pbuf [if html5 ∧ c = 43 then 32 else c]
        decodeLoop html5 str turns (pstr + 1) buf (pbuf + 1)

/-- url_decode_init on the string at `str + i`. -/
def urlDecodeInit (html5 : Bool) (mem : Nat → UInt8) (str : Block) (i : Nat) :
    Except Fault Block := do
  let s ← str.cstr i
  let (buf, pbuf) ← decodeLoop html5 str (s.length + 1) i ⟨s.length + 1, mem⟩ 0
  buf.write pbuf [0]

/-! ## What they write -/

/-- The encoding of the bytes of a string. -/
def encodedText (html5 : Bool) (s : List UInt8) : List UInt8 := s.flatMap (encodeChar html5)

/-- The decoding of the bytes of a string. -/
def decodedText (html5 : Bool) : List UInt8 → List UInt8
  | [] => []
  | 37 :: a :: b :: rest => (fromHex a <<< 4 ||| fromHex b) :: decodedText html5 rest
  | c :: rest =>
      if c = 37 then decodedText html5 rest
      else (if html5 ∧ c = 43 then 32 else c) :: decodedText html5 rest

/-- A lower-case hexadecimal digit. -/
def LowerHex (c : UInt8) : Prop := 48 ≤ c ∧ c ≤ 57 ∨ 97 ≤ c ∧ c ≤ 102

/-- The texts that the encoding is to keep to. -/
inductive Encoded (html5 : Bool) : List UInt8 → Prop where
  | nil : Encoded html5 []
  | plain {c : UInt8} {rest : List UInt8} : isUnreserved c → Encoded html5 rest →
      Encoded html5 (c :: rest)
  | space {rest : List UInt8} : html5 → Encoded html5 rest → Encoded html5 (43 :: rest)
  | escape {high low : UInt8} {rest : List UInt8} : LowerHex high → LowerHex low →
      Encoded html5 rest → Encoded html5 (37 :: high :: low :: rest)

theorem decodedText_plain (s : List UInt8) : decodedText false s = Codec.urlDecodeInit s := by
  induction s using decodedText.induct with
  | case1 => rfl
  | case2 a b rest ih => rw [decodedText, Codec.urlDecodeInit, ih]
  | case3 rest hno ih =>
    rw [decodedText, Codec.urlDecodeInit, if_pos rfl, if_pos rfl, ih]
    · exact hno
    · exact hno
  | case4 c rest hno hne ih =>
    rw [decodedText, Codec.urlDecodeInit, if_neg hne, if_neg hne, ih]
    · simp
    · exact hno
    · exact hno

/-! ## One character -/

/-- What is written for a character, by the kind of it. -/
inductive Piece (html5 : Bool) (c : UInt8) : List UInt8 → Prop where
  | plain : isUnreserved c → c ≠ 37 → c ≠ 43 → Piece html5 c [c]
  | space : html5 → c = 32 → Piece html5 c [43]
  | escape {high low : UInt8} : LowerHex high → LowerHex low →
      fromHex high <<< 4 ||| fromHex low = c → Piece html5 c [37, high, low]

instance (c : UInt8) : Decidable (LowerHex c) := inferInstanceAs (Decidable (_ ∨ _))

/-- The two digits of a character. -/
theorem hex_digits (c : UInt8) :
    LowerHex (toHex (toChar (schar c >>> 4))) ∧ LowerHex (toHex (c &&& 15)) ∧
      fromHex (toHex (toChar (schar c >>> 4))) <<< 4 ||| fromHex (toHex (c &&& 15)) = c := by
  have all : ∀ n < 256,
      LowerHex (toHex (toChar (schar (UInt8.ofNat n) >>> 4))) ∧
        LowerHex (toHex (UInt8.ofNat n &&& 15)) ∧
        fromHex (toHex (toChar (schar (UInt8.ofNat n) >>> 4))) <<< 4 |||
          fromHex (toHex (UInt8.ofNat n &&& 15)) = UInt8.ofNat n := by
    decide +kernel
  have hc := all c.toNat c.toNat_lt
  rwa [UInt8.ofNat_toNat] at hc

theorem encodeChar_piece (html5 : Bool) (c : UInt8) : Piece html5 c (encodeChar html5 c) := by
  unfold encodeChar
  split
  · rename_i hplain
    refine .plain hplain ?_ ?_
    · rintro rfl
      exact absurd hplain (by decide)
    · rintro rfl
      exact absurd hplain (by decide)
  · split
    · rename_i hspace
      exact .space hspace.1 hspace.2
    · obtain ⟨hhigh, hlow, hvalue⟩ := hex_digits c
      exact .escape hhigh hlow hvalue

theorem LowerHex.ne_zero {c : UInt8} (h : LowerHex c) : c ≠ 0 := by
  rintro rfl
  exact absurd h (by decide)

namespace Piece

variable {html5 : Bool} {c : UInt8} {p : List UInt8}

theorem length_le (h : Piece html5 c p) : p.length ≤ 3 := by
  cases h <;> simp

theorem nulFree (h : Piece html5 c p) (hc : c ≠ 0) : 0 ∉ p := by
  cases h with
  | plain => simpa using hc.symm
  | space => simp
  | escape hhigh hlow => simp [hhigh.ne_zero.symm, hlow.ne_zero.symm]

theorem encoded (h : Piece html5 c p) {rest : List UInt8} (hrest : Encoded html5 rest) :
    Encoded html5 (p ++ rest) := by
  cases h with
  | plain hplain => exact .plain hplain hrest
  | space hhtml => exact .space hhtml hrest
  | escape hhigh hlow => exact .escape hhigh hlow hrest

/-- A character is read back, whatever follows. -/
theorem decoded (h : Piece html5 c p) (rest : List UInt8) :
    decodedText html5 (p ++ rest) = c :: decodedText html5 rest := by
  cases h with
  | plain _ hpercent hplus =>
    rw [List.singleton_append, decodedText, if_neg hpercent, if_neg fun h => hplus h.2]
    rintro _ _ _ rfl
    exact absurd rfl hpercent
  | space hhtml hc =>
    rw [List.singleton_append, decodedText, if_neg (by decide), if_pos ⟨hhtml, rfl⟩, hc]
    rintro _ _ _ h
    exact absurd h (by decide)
  | escape _ _ hvalue =>
    rw [List.cons_append, List.cons_append, List.cons_append, decodedText, hvalue]
    rfl

end Piece

/-! ## Texts -/

section Texts

variable (html5 : Bool)

theorem encodedText_encoded (s : List UInt8) : Encoded html5 (encodedText html5 s) := by
  induction s with
  | nil => exact .nil
  | cons c s ih => exact (encodeChar_piece html5 c).encoded ih

theorem encodedText_length (s : List UInt8) : (encodedText html5 s).length ≤ 3 * s.length := by
  induction s with
  | nil => exact Nat.zero_le _
  | cons c s ih =>
    have hpiece := (encodeChar_piece html5 c).length_le
    rw [encodedText, List.flatMap_cons, List.length_append, List.length_cons]
    rw [encodedText] at ih
    omega

theorem encodedText_nulFree {s : List UInt8} (h : 0 ∉ s) : 0 ∉ encodedText html5 s := by
  intro hmem
  obtain ⟨c, hc, hzero⟩ := List.mem_flatMap.1 hmem
  refine (encodeChar_piece html5 c).nulFree ?_ hzero
  rintro rfl
  exact h hc

theorem decoded_encoded (s : List UInt8) : decodedText html5 (encodedText html5 s) = s := by
  induction s with
  | nil => rfl
  | cons c s ih =>
    rw [encodedText, List.flatMap_cons, (encodeChar_piece html5 c).decoded]
    exact congrArg (c :: ·) ih

theorem decodedText_length (t : List UInt8) : (decodedText html5 t).length ≤ t.length := by
  induction t using decodedText.induct with
  | case1 => exact Nat.zero_le _
  | case2 a b rest ih =>
    simp only [decodedText, List.length_cons]
    omega
  | case3 rest hno ih =>
    rw [decodedText, if_pos rfl, List.length_cons]
    · omega
    · exact hno
  | case4 c rest hno hne ih =>
    rw [decodedText, if_neg hne, List.length_cons, List.length_cons]
    · omega
    · exact hno

end Texts

/-! ## The walks -/

section Walks

variable {html5 : Bool} {str buf : Block}

theorem encodeLoop_eq {turns pstr pbuf : Nat} {s : List UInt8} (hturns : s.length < turns)
    (h : Holds str pstr (s ++ [0])) (nulFree : 0 ∉ s)
    (hroom : pbuf + (encodedText html5 s).length ≤ buf.size) :
    ∃ buf', encodeLoop html5 str turns pstr buf pbuf =
        .ok (buf', pbuf + (encodedText html5 s).length) ∧
      Filled buf pbuf (encodedText html5 s) buf' := by
  induction s generalizing turns pstr buf pbuf with
  | nil =>
    obtain ⟨turns, rfl⟩ := Nat.exists_eq_succ_of_ne_zero (by omega : turns ≠ 0)
    refine ⟨buf, ?_, .nil hroom⟩
    rw [encodeLoop, h.rd, ok_bind, if_pos rfl]
    rfl
  | cons c s ih =>
    obtain ⟨turns, rfl⟩ := Nat.exists_eq_succ_of_ne_zero (by omega : turns ≠ 0)
    rw [List.mem_cons, not_or] at nulFree
    rw [List.length_cons] at hturns
    have hsplit : encodedText html5 (c :: s) = encodeChar html5 c ++ encodedText html5 s := rfl
    rw [hsplit, List.length_append] at hroom ⊢
    obtain ⟨buf₁, hwrite, hfilled⟩ :=
      write_filled (show pbuf + (encodeChar html5 c).length ≤ buf.size by omega)
    obtain ⟨buf₂, hloop, hfilled'⟩ := ih (show s.length < turns by omega) h.tail nulFree.2
      (show pbuf + (encodeChar html5 c).length + (encodedText html5 s).length ≤ buf₁.size by
        rw [hfilled.size]
        omega)
    refine ⟨buf₂, ?_, hfilled.append hfilled'⟩
    rw [encodeLoop, h.rd, ok_bind, if_neg (Ne.symm nulFree.1), hwrite, ok_bind, hloop, Nat.add_assoc]

/-- The next character written, and the walk from there on. -/
theorem decodeLoop_cons {c : UInt8} {turns pstr pbuf : Nat} {d : List UInt8}
    (hroom : pbuf + (c :: d).length ≤ buf.size)
    (hrest : ∀ buf₁, pbuf + 1 + d.length ≤ buf₁.size → ∃ buf',
      decodeLoop html5 str turns pstr buf₁ (pbuf + 1) = .ok (buf', pbuf + 1 + d.length) ∧
        Filled buf₁ (pbuf + 1) d buf') :
    ∃ buf', (buf.write pbuf [c] >>= fun buf => decodeLoop html5 str turns pstr buf (pbuf + 1)) =
        .ok (buf', pbuf + (c :: d).length) ∧ Filled buf pbuf (c :: d) buf' := by
  rw [List.length_cons] at hroom
  obtain ⟨buf₁, hwrite, hfilled⟩ := write_filled (show pbuf + [c].length ≤ buf.size by
    rw [List.length_singleton]
    omega)
  obtain ⟨buf', hloop, hfilled'⟩ := hrest buf₁ (by
    rw [hfilled.size]
    omega)
  refine ⟨buf', ?_, hfilled.append hfilled'⟩
  rw [hwrite, ok_bind, hloop, List.length_cons, Nat.add_assoc, Nat.add_comm 1]

theorem decodeLoop_eq {t : List UInt8} {turns pstr pbuf : Nat} (hturns : t.length < turns)
    (h : Holds str pstr (t ++ [0])) (nulFree : 0 ∉ t)
    (hroom : pbuf + (decodedText html5 t).length ≤ buf.size) :
    ∃ buf', decodeLoop html5 str turns pstr buf pbuf =
        .ok (buf', pbuf + (decodedText html5 t).length) ∧
      Filled buf pbuf (decodedText html5 t) buf' := by
  induction t using decodedText.induct generalizing turns pstr buf pbuf with
  | case1 =>
    obtain ⟨turns, rfl⟩ := Nat.exists_eq_succ_of_ne_zero (by omega : turns ≠ 0)
    refine ⟨buf, ?_, .nil hroom⟩
    rw [decodeLoop, h.rd, ok_bind, if_pos rfl]
    rfl
  | case2 a b rest ih =>
    obtain ⟨turns, rfl⟩ := Nat.exists_eq_succ_of_ne_zero (by omega : turns ≠ 0)
    simp only [List.mem_cons, not_or, List.length_cons] at nulFree hturns
    have ha : str.rd (pstr + 1) = .ok a := by exact_mod_cast h.tail.rd
    have hb : str.rd (pstr + 2) = .ok b := by exact_mod_cast h.tail.tail.rd
    rw [decodeLoop, h.rd, ok_bind, if_neg (by decide), if_pos rfl, ha, ok_bind]
    simp only [if_neg (Ne.symm nulFree.2.1), hb, ok_bind, if_neg (Ne.symm nulFree.2.2.1)]
    rw [decodedText] at hroom ⊢
    exact decodeLoop_cons hroom fun buf₁ hroom₁ =>
      ih (by omega) h.tail.tail.tail nulFree.2.2.2 hroom₁
  | case3 rest hno ih =>
    -- a `%` with fewer than two bytes behind it
    obtain ⟨turns, rfl⟩ := Nat.exists_eq_succ_of_ne_zero (by omega : turns ≠ 0)
    simp only [List.mem_cons, not_or, List.length_cons] at nulFree hturns
    have hskip : decodedText html5 (37 :: rest) = decodedText html5 rest := by
      rw [decodedText, if_pos rfl]
      exact hno
    rw [hskip] at hroom ⊢
    obtain ⟨buf', hloop, hfilled⟩ := ih (show rest.length < turns by omega) h.tail nulFree.2 hroom
    refine ⟨buf', ?_, hfilled⟩
    rw [decodeLoop, h.rd, ok_bind, if_neg (by decide), if_pos rfl]
    match rest, h, hno with
    | [], h, _ =>
      have hend : str.rd (pstr + 1) = .ok 0 := by exact_mod_cast h.tail.rd
      simp only [hend, ok_bind, if_true, pure_eq_ok, hloop]
    | [a], h, _ =>
      have ha : str.rd (pstr + 1) = .ok a := by exact_mod_cast h.tail.rd
      have hend : str.rd (pstr + 2) = .ok 0 := by exact_mod_cast h.tail.tail.rd
      simp only [ha, ok_bind, hend, pure_eq_ok, ite_self, if_true, hloop]
    | a :: b :: rest, _, hno => exact absurd rfl (hno a b rest rfl)
  | case4 c rest hno hne ih =>
    obtain ⟨turns, rfl⟩ := Nat.exists_eq_succ_of_ne_zero (by omega : turns ≠ 0)
    simp only [List.mem_cons, not_or, List.length_cons] at nulFree hturns
    have hplain : decodedText html5 (c :: rest) =
        (if html5 ∧ c = 43 then 32 else c) :: decodedText html5 rest := by
      rw [decodedText, if_neg hne]
      exact hno
    rw [hplain] at hroom ⊢
    rw [decodeLoop, h.rd, ok_bind, if_neg (Ne.symm nulFree.1), if_neg hne]
    exact decodeLoop_cons hroom fun buf₁ hroom₁ => ih (by omega) h.tail nulFree.2 hroom₁

end Walks

/-! ## The functions -/

section Functions

variable (html5 : Bool) (mem : Nat → UInt8) {str : Block} {i : Nat}

theorem urlEncodeInit_eq {s : List UInt8} (h : Holds str i (s ++ [0])) (nulFree : 0 ∉ s) :
    ∃ buf, urlEncodeInit html5 mem str i = .ok buf ∧ buf.size = s.length * 3 + 1 ∧
      Holds buf 0 (encodedText html5 s ++ [0]) := by
  have hlen := encodedText_length html5 s
  obtain ⟨buf, hloop, hfilled⟩ := encodeLoop_eq (Nat.lt_succ_self s.length) h nulFree
    (show 0 + (encodedText html5 s).length ≤ (⟨s.length * 3 + 1, mem⟩ : Block).size by
      simp only
      omega)
  obtain ⟨buf', hwrite, hfilled'⟩ := write_filled
    (show 0 + (encodedText html5 s).length + [(0 : UInt8)].length ≤ buf.size by
      rw [hfilled.size, List.length_singleton]
      simp only
      omega)
  refine ⟨buf', ?_, hfilled'.size.trans hfilled.size, (hfilled.append hfilled').holds⟩
  rw [urlEncodeInit, Block.cstr_eq h nulFree, ok_bind, ← Nat.succ_eq_add_one, hloop]
  exact hwrite

theorem urlDecodeInit_eq {t : List UInt8} (h : Holds str i (t ++ [0])) (nulFree : 0 ∉ t) :
    ∃ buf, urlDecodeInit html5 mem str i = .ok buf ∧ buf.size = t.length + 1 ∧
      Holds buf 0 (decodedText html5 t ++ [0]) := by
  have hlen := decodedText_length html5 t
  obtain ⟨buf, hloop, hfilled⟩ := decodeLoop_eq (Nat.lt_succ_self t.length) h nulFree
    (show 0 + (decodedText html5 t).length ≤ (⟨t.length + 1, mem⟩ : Block).size by
      simp only
      omega)
  obtain ⟨buf', hwrite, hfilled'⟩ := write_filled
    (show 0 + (decodedText html5 t).length + [(0 : UInt8)].length ≤ buf.size by
      rw [hfilled.size, List.length_singleton]
      simp only
      omega)
  refine ⟨buf', ?_, hfilled'.size.trans hfilled.size, (hfilled.append hfilled').holds⟩
  rw [urlDecodeInit, Block.cstr_eq h nulFree, ok_bind, ← Nat.succ_eq_add_one, hloop]
  exact hwrite

end Functions

/-- A string is encoded within the characters of `Encoded` and decoded to itself, and any string is
decoded within its own length; `str` may end with the NUL. -/
theorem url_encoding_reversible (html5 : Bool) :
    (∀ (s : List UInt8) (str : Block) (i : Nat) (mem mem' : Nat → UInt8),
      0 ∉ s → Holds str i (s ++ [0]) →
        ∃ buf text buf', urlEncodeInit html5 mem str i = .ok buf ∧ Holds buf 0 (text ++ [0]) ∧
          Encoded html5 text ∧ text.length ≤ 3 * s.length ∧
          urlDecodeInit html5 mem' buf 0 = .ok buf' ∧ Holds buf' 0 (s ++ [0])) ∧
    ∀ (t : List UInt8) (str : Block) (i : Nat) (mem : Nat → UInt8),
      0 ∉ t → Holds str i (t ++ [0]) →
        ∃ buf, urlDecodeInit html5 mem str i = .ok buf ∧ buf.size = t.length + 1 := by
  constructor
  · intro s str i mem mem' nulFree h
    obtain ⟨buf, hencode, -, hbuf⟩ := urlEncodeInit_eq html5 mem h nulFree
    obtain ⟨buf', hdecode, -, hbuf'⟩ := urlDecodeInit_eq html5 mem' hbuf
      (encodedText_nulFree html5 nulFree)
    rw [decoded_encoded] at hbuf'
    exact ⟨buf, _, buf', hencode, hbuf, encodedText_encoded html5 s, encodedText_length html5 s,
      hdecode, hbuf'⟩
  · intro t str i mem nulFree h
    obtain ⟨buf, hdecode, hsize, -⟩ := urlDecodeInit_eq html5 mem h nulFree
    exact ⟨buf, hdecode, hsize⟩

end CassandraApi.Codec.Url
