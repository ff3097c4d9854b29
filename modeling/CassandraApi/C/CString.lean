/-
# `C.CString` — NUL-terminated strings and the functions of string.h

A C string is read out of a block once, as the list of its bytes before the
first NUL (`Block.cstr`); the string functions are then functions on lists,
and a pointer into the string is the number of bytes before it.

The facts about `strstr` are the ones an incremental reader needs: a match
stays the first match when bytes are added behind it (`strstr_append`), and a
piece of a text that ends before the first match has none (`strstr_take`).
-/
import CassandraApi.C.Memory

namespace CassandraApi.C

/-- The bytes of a string literal. -/
def ascii (s : String) : List UInt8 := s.toList.map fun c => UInt8.ofNat c.toNat

theorem ascii_repr (n : Nat) :
    ascii (toString (n : Int)) = (Nat.toDigits 10 n).map fun c => UInt8.ofNat c.toNat := by
  rw [Int.toString_eq_repr, Int.repr_eq_if, if_pos (Int.natCast_nonneg n), Int.toNat_natCast,
    ascii, Nat.toList_repr]

/-- Bytes as a text, for messages. -/
def text (s : List UInt8) : String := String.ofList (s.map fun b => Char.ofNat b.toNat)

/-! ## Reading a string out of a block -/

namespace Block

/-- The bytes from index `i` up to the first NUL, `left` being the bytes of the block from
there on. -/
def cstrFrom (b : Block) : Nat → Nat → Except Fault (List UInt8)
  | 0, _ => .error .read
  | left + 1, i =>
      if b.byte i = 0 then .ok [] else (b.byte i :: ·) <$> cstrFrom b left (i + 1)

/-- The C string at `b + i`. -/
def cstr (b : Block) (i : Nat) : Except Fault (List UInt8) := b.cstrFrom (b.size - i) i

theorem cstrFrom_eq {b : Block} : ∀ {left i : Nat} {xs : List UInt8},
    Holds b i (xs ++ [0]) → 0 ∉ xs → xs.length < left → b.cstrFrom left i = .ok xs
  | 0, _, _, _, _, h => absurd h (Nat.not_lt_zero _)
  | left + 1, i, [], hb, _, _ => by
    obtain ⟨⟨_, h0⟩, _⟩ := Holds.cons_iff.1 hb
    rw [cstrFrom, if_pos h0]
  | left + 1, i, x :: xs, hb, hx, hlt => by
    obtain ⟨⟨_, hbx⟩, hrest⟩ := Holds.cons_iff.1 hb
    have ih : b.cstrFrom left (i + 1) = .ok xs :=
      cstrFrom_eq hrest (fun h => hx (List.mem_cons_of_mem _ h)) (by simpa using hlt)
    have hne : b.byte i ≠ 0 := by
      rw [hbx]; rintro rfl; exact hx (List.mem_cons_self ..)
    rw [cstrFrom, if_neg hne, ih, hbx]
    rfl

theorem cstr_eq {b : Block} {i : Nat} {xs : List UInt8} (hb : Holds b i (xs ++ [0]))
    (hx : 0 ∉ xs) : b.cstr i = .ok xs := by
  have := hb.inside
  rw [List.length_append, List.length_singleton] at this
  exact cstrFrom_eq hb hx (by omega)

/-- What `cstr` returns lies in the block. -/
theorem cstrFrom_sound {b : Block} : ∀ {left i : Nat} {xs : List UInt8},
    b.cstrFrom left i = .ok xs → i + left ≤ b.size → Holds b i (xs ++ [0]) ∧ 0 ∉ xs
  | 0, _, _, h, _ => by cases h
  | left + 1, i, xs, h, hin => by
    rw [cstrFrom] at h
    split at h
    · rename_i h0
      cases h
      exact ⟨Holds.cons_iff.2 ⟨⟨by omega, h0⟩, .nil (by omega)⟩, by simp⟩
    · rename_i h0
      cases hrec : b.cstrFrom left (i + 1) with
      | error e => rw [hrec] at h; cases h
      | ok ys =>
        rw [hrec] at h
        cases h
        obtain ⟨hy, h0y⟩ := cstrFrom_sound hrec (by omega)
        refine ⟨Holds.cons_iff.2 ⟨⟨by omega, rfl⟩, hy⟩, ?_⟩
        rw [List.mem_cons, not_or]
        exact ⟨fun h => h0 h.symm, h0y⟩

/-- Where a NUL comes somewhere behind bytes that are none, there is a C string, and it starts
with these bytes. -/
theorem cstrFrom_exists {b : Block} {j : Nat} (hz : b.byte j = 0) (hj : j < b.size) :
    ∀ {left i : Nat} {xs : List UInt8}, Holds b i xs → 0 ∉ xs → i + xs.length ≤ j →
      j < i + left → ∃ t, b.cstrFrom left i = .ok (xs ++ t)
  | 0, i, xs, _, _, hle, hlt => by omega
  | left + 1, i, [], hb, h0, hle, hlt => by
    by_cases hi : b.byte i = 0
    · exact ⟨[], by rw [cstrFrom, if_pos hi]; rfl⟩
    · have hne : i ≠ j := by rintro rfl; exact hi hz
      simp only [List.length_nil] at hle
      have hnil : Holds b (i + 1) [] := .nil (by omega)
      obtain ⟨t, ht⟩ : ∃ t, b.cstrFrom left (i + 1) = .ok ([] ++ t) :=
        cstrFrom_exists hz hj hnil (by simp) (by simp only [List.length_nil]; omega) (by omega)
      exact ⟨b.byte i :: t, by rw [cstrFrom, if_neg hi, ht]; rfl⟩
  | left + 1, i, x :: xs, hb, h0, hle, hlt => by
    obtain ⟨⟨_, hbx⟩, hrest⟩ := Holds.cons_iff.1 hb
    simp only [List.length_cons] at hle
    obtain ⟨t, ht⟩ : ∃ t, b.cstrFrom left (i + 1) = .ok (xs ++ t) :=
      cstrFrom_exists hz hj hrest (fun h => h0 (List.mem_cons_of_mem _ h)) (by omega) (by omega)
    have hne : b.byte i ≠ 0 := by
      rw [hbx]; rintro rfl; exact h0 (List.mem_cons_self ..)
    exact ⟨t, by rw [cstrFrom, if_neg hne, ht, hbx]; rfl⟩

end Block

/-- The C string in an array that holds these bytes and a NUL behind them. -/
def beforeNul (s : List UInt8) : List UInt8 := s.takeWhile (· ≠ 0)

theorem beforeNul_eq_self {s : List UInt8} : beforeNul s = s ↔ 0 ∉ s := by
  rw [beforeNul, List.takeWhile_eq_self_iff]
  simp only [decide_eq_true_eq]
  exact ⟨fun h h0 => h 0 h0 rfl, fun h c hc h0 => h (h0 ▸ hc)⟩

theorem not_mem_beforeNul (s : List UInt8) : 0 ∉ beforeNul s := fun h => by
  simpa using List.mem_takeWhile_imp h

theorem beforeNul_length_le (s : List UInt8) : (beforeNul s).length ≤ s.length :=
  (List.takeWhile_prefix _).length_le

/-- What `strtok(s, c)` returns, call after call. -/
def strtok (c : UInt8) (s : List UInt8) : List (List UInt8) := (s.splitOn c).filter (· ≠ [])

/-! ## strstr -/

/-- `strstr(s, needle)`, as the offset of the first match. -/
def strstr : List UInt8 → List UInt8 → Option Nat
  | [], needle => if needle = [] then some 0 else none
  | c :: cs, needle => if needle <+: c :: cs then some 0 else (strstr cs needle).map (· + 1)

theorem strstr_match {needle : List UInt8} : ∀ {s : List UInt8} {k : Nat},
    strstr s needle = some k → needle <+: s.drop k ∧ k + needle.length ≤ s.length
  | [], k, h => by
    rw [strstr] at h
    split at h
    · rename_i hn; cases h; subst hn; simp
    · cases h
  | c :: cs, k, h => by
    rw [strstr] at h
    split at h
    · rename_i hp
      cases h
      exact ⟨hp, by simpa using hp.length_le⟩
    · obtain ⟨k', hk', rfl⟩ := Option.map_eq_some_iff.1 h
      obtain ⟨hp, hle⟩ := strstr_match hk'
      exact ⟨hp, by simp only [List.length_cons]; omega⟩

/-- A match stays the first match when bytes come behind it. -/
theorem strstr_append {needle t : List UInt8} : ∀ {s : List UInt8} {k : Nat},
    strstr s needle = some k → strstr (s ++ t) needle = some k
  | [], k, h => by
    rw [strstr] at h
    split at h
    · rename_i hn
      cases h
      subst hn
      cases t <;> simp [strstr]
    · cases h
  | c :: cs, k, h => by
    rw [strstr] at h
    rw [List.cons_append, strstr]
    split at h
    · rename_i hp
      have hp' : needle <+: c :: (cs ++ t) := hp.trans ⟨t, rfl⟩
      rw [if_pos hp']
      exact h
    · rename_i hp
      obtain ⟨k', hk', rfl⟩ := Option.map_eq_some_iff.1 h
      have hle := (strstr_match hk').2
      -- a match at the front of the longer text would already be one of the shorter
      have hp' : ¬ needle <+: c :: (cs ++ t) := fun hp' => hp <|
        List.prefix_of_prefix_length_le hp' ⟨t, rfl⟩ (by simp only [List.length_cons]; omega)
      rw [if_neg hp', strstr_append hk']
      rfl

/-- The first match of a text is the first match of every piece that contains it, and a piece
that ends earlier has no match. -/
theorem strstr_take {needle s t : List UInt8} {k : Nat} (hn : needle ≠ [])
    (h : strstr (s ++ t) needle = some k) :
    strstr s needle = if k + needle.length ≤ s.length then some k else none := by
  cases hs : strstr s needle with
  | some k' =>
    obtain rfl : k' = k := Option.some.inj ((strstr_append hs).symm.trans h)
    rw [if_pos (strstr_match hs).2]
  | none =>
    symm
    rw [if_neg]
    intro hle
    revert hs h hle
    induction s generalizing k with
    | nil =>
      intro h hs hle
      have := List.length_pos_iff.2 hn
      simp only [List.length_nil] at hle
      omega
    | cons c cs ih =>
      intro h hs hle
      rw [List.cons_append, strstr] at h
      rw [strstr] at hs
      split at hs
      · cases hs
      · rename_i hp
        split at h
        · rename_i hp'
          cases h
          exact hp (List.prefix_of_prefix_length_le hp' ⟨t, rfl⟩ (by omega))
        · obtain ⟨k', hk', rfl⟩ := Option.map_eq_some_iff.1 h
          simp only [List.length_cons] at hle
          exact ih hk' (Option.map_eq_none_iff.1 hs) (by omega)

theorem strstr_zero {s needle : List UInt8} : strstr s needle = some 0 ↔ needle <+: s := by
  refine ⟨fun h => (strstr_match h).1, fun h => ?_⟩
  cases s with
  | nil =>
    rw [strstr, if_pos (List.prefix_nil.1 h)]
  | cons c cs =>
    rw [strstr, if_pos h]

theorem strstr_none_iff {needle : List UInt8} (hne : needle ≠ []) :
    ∀ {s : List UInt8}, strstr s needle = none ↔ ¬ needle <:+: s
  | [] => by
    rw [strstr, if_neg hne, List.infix_nil]
    exact iff_of_true rfl hne
  | c :: cs => by
    rw [strstr, List.infix_cons_iff, not_or, ← strstr_none_iff hne]
    split
    · rename_i hp
      exact iff_of_false (fun h => by cases h) fun h => h.1 hp
    · rename_i hp
      rw [Option.map_eq_none_iff]
      exact ⟨fun h => ⟨hp, h⟩, fun h => h.2⟩

/-- Behind a text without it, a needle whose first byte does not come again is found where it
stands. -/
theorem strstr_behind {c : UInt8} {cs rest : List UInt8} (hc : c ∉ cs) :
    ∀ {s : List UInt8}, ¬ (c :: cs) <:+: s →
      strstr (s ++ (c :: cs ++ rest)) (c :: cs) = some s.length
  | [], _ => strstr_zero.2 ⟨rest, rfl⟩
  | x :: s, h => by
    rw [List.infix_cons_iff, not_or] at h
    have hnot : ¬ c :: cs <+: x :: (s ++ (c :: cs ++ rest)) := by
      rintro ⟨post, hpost⟩
      have hsplit : c :: cs ++ post = x :: s ++ (c :: cs ++ rest) := hpost
      rcases List.append_eq_append_iff.1 hsplit with
        ⟨more, hmore, -⟩ | ⟨more, hmore, hrest⟩
      · -- it ends within the text
        exact h.1 ⟨more, hmore.symm⟩
      · -- its first byte would be one of its others
        cases more with
        | nil =>
          rw [List.append_nil] at hmore
          exact h.1 ⟨[], by rw [List.append_nil, hmore]⟩
        | cons b more =>
          obtain ⟨rfl, -⟩ := List.cons.inj hrest
          cases hmore
          exact hc (List.mem_append_right _ List.mem_cons_self)
    rw [List.cons_append, strstr, if_neg hnot, strstr_behind hc h.2]
    rfl

/-! ## Characters and numbers -/

/-- `isspace` of the C locale. -/
def isSpace (c : UInt8) : Bool := c = 32 || (9 ≤ c && c ≤ 13)

/-- `isdigit`. -/
def isDigit (c : UInt8) : Bool := 48 ≤ c && c ≤ 57

/-- `tolower` of the C locale. -/
def toLower (c : UInt8) : UInt8 := if 65 ≤ c && c ≤ 90 then c + 32 else c

def longMax : Int := 2 ^ 63 - 1
def longMin : Int := -2 ^ 63

/-- The value of a string of decimal digits. -/
def decimal (digits : List UInt8) : Nat := digits.foldl (fun n d => n * 10 + (d.toNat - 48)) 0

/-- `strtol(s, &end, 10)`: the value, clamped to `long`, and the number of bytes before `end`. -/
def strtol (s : List UInt8) : Int × Nat :=
  let spaces := (s.takeWhile isSpace).length
  let s := s.drop spaces
  let (negative, sign) := match s with
    | 45 :: _ => (true, 1)
    | 43 :: _ => (false, 1)
    | _ => (false, 0)
  let digits := (s.drop sign).takeWhile isDigit
  if digits = [] then (0, 0)
  else
    let n : Int := if negative then -(decimal digits : Int) else decimal digits
    (max longMin (min longMax n), spaces + sign + digits.length)

end CassandraApi.C
