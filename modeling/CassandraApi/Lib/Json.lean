/-
# `Lib.Json` — the texts of JSON values

A JSON value is given by the texts that spell it, as bytes.  `str s` are the
texts of the string `s`, `arr vs` those of an array, `obj ms` those of an
object with the members `ms` in this order:

    string   "  (c | \" \\ \/ \b \f \n \r \t | \u00hh)*  "
    array    [  (value (, value)*)?  ]
    object   {  (string : value (, string : value)*)?  }

with whitespace around [ ] { } , and :.  A byte of 0x80 and above belongs to a
longer character and stands for itself.

Bytes that need no escape are `Literal`.  The compact texts (`quoted`, `enclosed`)
are those of a writer that escapes nothing; they are texts of what they quote as
long as it is literal (`quoted_mem`), and too short for it otherwise
(`str_atLeast`).  What kind of value a text spells can be seen from its first byte
behind the whitespace (`Starts`).
-/
import Mathlib

namespace CassandraApi.Lib.Json

abbrev Value := Set (List UInt8)

/-! ## Strings -/

/-- A character of a string that stands for itself: not `"`, not `\`, no control character. -/
def Literal (b : UInt8) : Prop := 0x20 ≤ b ∧ b ≠ 0x22 ∧ b ≠ 0x5c

instance (b : UInt8) : Decidable (Literal b) := inferInstanceAs (Decidable (_ ∧ _))

/-- What may follow a backslash, and what it stands for. -/
def escapes : List (UInt8 × UInt8) :=
  [(0x22, 0x22), (0x5c, 0x5c), (0x2f, 0x2f), (0x62, 0x08), (0x66, 0x0c), (0x6e, 0x0a),
    (0x72, 0x0d), (0x74, 0x09)]

def hexDigit (c : UInt8) : Option Nat :=
  if 0x30 ≤ c ∧ c ≤ 0x39 then some (c.toNat - 0x30)
  else if 0x41 ≤ c ∧ c ≤ 0x46 then some (c.toNat - 0x37)
  else if 0x61 ≤ c ∧ c ≤ 0x66 then some (c.toNat - 0x57)
  else none

/-- The spellings of a character. -/
inductive Spelled : UInt8 → List UInt8 → Prop where
  | literal {b : UInt8} (literal : Literal b) : Spelled b [b]
  | escape {b c : UInt8} (escape : (c, b) ∈ escapes) : Spelled b [0x5c, c]
  | hex {b high low : UInt8} {m n : Nat} (high_eq : hexDigit high = some m)
      (low_eq : hexDigit low = some n) (value : b.toNat = 16 * m + n) (ascii : b.toNat < 128) :
      Spelled b [0x5c, 0x75, 0x30, 0x30, high, low]

/-- The spellings of one character after another. -/
inductive Chars : List UInt8 → List UInt8 → Prop where
  | nil : Chars [] []
  | cons {b : UInt8} {s t rest : List UInt8} (head : Spelled b t) (tail : Chars s rest) :
      Chars (b :: s) (t ++ rest)

def str (s : List UInt8) : Value := {t | ∃ body, Chars s body ∧ t = 0x22 :: (body ++ [0x22])}

/-! ## Arrays and objects -/

def Space (w : List UInt8) : Prop := ∀ b ∈ w, b = 0x20 ∨ b = 0x09 ∨ b = 0x0a ∨ b = 0x0d

/-- A structural character, with whitespace around it. -/
def Token (c : UInt8) (t : List UInt8) : Prop :=
  ∃ w w', Space w ∧ Space w' ∧ t = w ++ c :: w'

/-- Values with commas between them. -/
inductive Items : List Value → List UInt8 → Prop where
  | one {v : Value} {t : List UInt8} (head : t ∈ v) : Items [v] t
  | cons {v : Value} {vs : List Value} {t comma rest : List UInt8} (head : t ∈ v)
      (sep : Token 0x2c comma) (tail : Items vs rest) : Items (v :: vs) (t ++ comma ++ rest)

/-- Values between brackets. -/
def listOf (opening closing : UInt8) (vs : List Value) : Value :=
  {t | ∃ l body r, Token opening l ∧ Token closing r ∧
    (vs = [] ∧ body = [] ∨ Items vs body) ∧ t = l ++ body ++ r}

def arr (vs : List Value) : Value := listOf 0x5b 0x5d vs

def member (m : List UInt8 × Value) : Value :=
  {t | ∃ name colon value, name ∈ str m.1 ∧ Token 0x3a colon ∧ value ∈ m.2 ∧
    t = name ++ colon ++ value}

def obj (ms : List (List UInt8 × Value)) : Value := listOf 0x7b 0x7d (ms.map member)

/-! ## Compact texts -/

/-- `"s"` -/
def quoted (s : List UInt8) : List UInt8 := 0x22 :: (s ++ [0x22])

/-- Texts with commas between them. -/
def commaSep : List (List UInt8) → List UInt8
  | [] => []
  | [t] => t
  | t :: t' :: ts => t ++ 0x2c :: commaSep (t' :: ts)

def enclosed (opening closing : UInt8) (ts : List (List UInt8)) : List UInt8 :=
  opening :: (commaSep ts ++ [closing])

/-- `"k":t` -/
def memberText (k t : List UInt8) : List UInt8 := quoted k ++ 0x3a :: t

theorem Token.compact (c : UInt8) : Token c [c] :=
  ⟨[], [], fun _ h => absurd h List.not_mem_nil, fun _ h => absurd h List.not_mem_nil, rfl⟩

theorem Chars.literal {s : List UInt8} (h : ∀ b ∈ s, Literal b) : Chars s s := by
  induction s with
  | nil => exact .nil
  | cons b s ih =>
    obtain ⟨hb, hs⟩ := List.forall_mem_cons.1 h
    exact .cons (.literal hb) (ih hs)

theorem quoted_mem {s : List UInt8} (h : ∀ b ∈ s, Literal b) : quoted s ∈ str s :=
  ⟨s, Chars.literal h, rfl⟩

theorem memberText_mem {k t : List UInt8} {v : Value} (h : ∀ b ∈ k, Literal b) (ht : t ∈ v) :
    memberText k t ∈ member (k, v) :=
  ⟨quoted k, [0x3a], t, quoted_mem h, Token.compact _, ht, by simp [memberText]⟩

theorem Items.compact {ts : List (List UInt8)} {vs : List Value}
    (h : List.Forall₂ (· ∈ ·) ts vs) (hne : vs ≠ []) : Items vs (commaSep ts) := by
  induction h with
  | nil => exact absurd rfl hne
  | @cons t v ts vs head tail ih =>
    cases tail with
    | nil => exact .one head
    | @cons t' v' ts vs head' tail =>
      have := Items.cons head (Token.compact 0x2c) (ih (List.cons_ne_nil _ _))
      rwa [List.append_assoc] at this

theorem enclosed_mem {l r : UInt8} {ts : List (List UInt8)} {vs : List Value}
    (h : List.Forall₂ (· ∈ ·) ts vs) : enclosed l r ts ∈ listOf l r vs := by
  refine ⟨[l], commaSep ts, [r], Token.compact l, Token.compact r, ?_, rfl⟩
  cases h with
  | nil => exact .inl ⟨rfl, rfl⟩
  | cons head tail => exact .inr (Items.compact (.cons head tail) (List.cons_ne_nil _ _))

/-! ## How they come about -/

/-- Texts that each end with a comma. -/
def commaEnds (ts : List (List UInt8)) : List UInt8 := ts.flatMap (· ++ [0x2c])

theorem commaEnds_cons (t : List UInt8) (ts : List (List UInt8)) :
    commaEnds (t :: ts) = t ++ 0x2c :: commaEnds ts := by
  simp [commaEnds]

theorem commaEnds_append (ts ts' : List (List UInt8)) :
    commaEnds (ts ++ ts') = commaEnds ts ++ commaEnds ts' := List.flatMap_append

theorem commaEnds_eq {ts : List (List UInt8)} (hne : ts ≠ []) :
    commaEnds ts = commaSep ts ++ [0x2c] := by
  induction ts with
  | nil => exact absurd rfl hne
  | cons t ts ih =>
    cases ts with
    | nil => simp [commaEnds, commaSep]
    | cons t' ts =>
      rw [commaEnds_cons, ih (List.cons_ne_nil _ _), commaSep, List.append_assoc]
      rfl

/-- The last comma is taken away again. -/
theorem commaEnds_dropLast (ts : List (List UInt8)) :
    (commaEnds ts).dropLast = commaSep ts := by
  by_cases hne : ts = []
  · rw [hne]
    rfl
  · rw [commaEnds_eq hne, List.dropLast_concat]

/-! ## How long they are -/

theorem quoted_length (s : List UInt8) : (quoted s).length = s.length + 2 := by
  simp [quoted]

theorem memberText_length (k t : List UInt8) :
    (memberText k t).length = k.length + t.length + 3 := by
  simp only [memberText, List.length_append, quoted_length, List.length_cons]
  omega

theorem commaSep_length (ts : List (List UInt8)) :
    (commaSep ts).length = (ts.map List.length).sum + (ts.length - 1) := by
  induction ts with
  | nil => rfl
  | cons t ts ih =>
    cases ts with
    | nil => simp [commaSep]
    | cons t' ts =>
      rw [commaSep, List.length_append, List.length_cons, ih]
      simp only [List.map_cons, List.sum_cons, List.length_cons]
      omega

theorem enclosed_length (l r : UInt8) (ts : List (List UInt8)) :
    (enclosed l r ts).length = (ts.map List.length).sum + (ts.length - 1) + 2 := by
  simp [enclosed, commaSep_length]

/-- No text of `v` is shorter than `n`. -/
def AtLeast (v : Value) (n : Nat) : Prop := ∀ t ∈ v, n ≤ t.length

/-- The bytes which are not written as themselves. -/
def special (s : List UInt8) : Nat := s.countP fun b => ¬ Literal b

theorem Spelled.atLeast {b : UInt8} {t : List UInt8} (h : Spelled b t) :
    special [b] + 1 ≤ t.length := by
  have hle : special [b] ≤ 1 := List.countP_le_length
  cases h with
  | literal hb => simp [special, hb]
  | escape => simpa using hle
  | hex =>
    simp only [List.length_cons, List.length_nil]
    omega

theorem special_cons (b : UInt8) (s : List UInt8) : special (b :: s) = special [b] + special s := by
  rw [← List.singleton_append, special, List.countP_append]
  rfl

theorem Chars.atLeast {s t : List UInt8} (h : Chars s t) : s.length + special s ≤ t.length := by
  induction h with
  | nil => exact Nat.le_refl 0
  | @cons b s t rest head tail ih =>
    have hone := head.atLeast
    rw [List.length_cons, List.length_append, special_cons]
    omega

theorem str_atLeast (s : List UInt8) : AtLeast (str s) (s.length + 2 + special s) := by
  rintro _ ⟨body, hbody, rfl⟩
  have := hbody.atLeast
  simp only [List.length_cons, List.length_append, List.length_nil]
  omega

theorem Token.pos {c : UInt8} {t : List UInt8} (h : Token c t) : 1 ≤ t.length := by
  obtain ⟨w, w', -, -, rfl⟩ := h
  rw [List.length_append, List.length_cons]
  omega

theorem member_atLeast {k : List UInt8} {v : Value} {n : Nat} (h : AtLeast v n) :
    AtLeast (member (k, v)) (k.length + n + 3 + special k) := by
  rintro _ ⟨name, colon, value, hname, hcolon, hvalue, rfl⟩
  have h1 := str_atLeast k name hname
  have h2 := hcolon.pos
  have h3 := h value hvalue
  simp only [List.length_append]
  omega

theorem Items.atLeast {vs : List Value} {ns : List Nat} {t : List UInt8} (h : Items vs t)
    (hle : List.Forall₂ AtLeast vs ns) : ns.sum + (ns.length - 1) ≤ t.length := by
  induction h generalizing ns with
  | one head =>
    cases hle with
    | cons hx tail =>
      cases tail
      simpa using hx _ head
  | cons head sep tail ih =>
    cases hle with
    | @cons _ n _ ns hx hxs =>
      have h1 := hx _ head
      have h2 := sep.pos
      have h3 := ih hxs
      simp only [List.sum_cons, List.length_cons, List.length_append] at h3 ⊢
      omega

theorem listOf_atLeast {l r : UInt8} {vs : List Value} {ns : List Nat}
    (hle : List.Forall₂ AtLeast vs ns) :
    AtLeast (listOf l r vs) (ns.sum + (ns.length - 1) + 2) := by
  rintro _ ⟨left, body, right, hleft, hright, hbody, rfl⟩
  have h1 := hleft.pos
  have h2 := hright.pos
  simp only [List.length_append]
  obtain ⟨rfl, rfl⟩ | hitems := hbody
  · cases hle
    simp only [List.sum_nil, List.length_nil]
    omega
  · have h3 := hitems.atLeast hle
    omega

/-! ## How they start -/

/-- The first byte of `t` that is not whitespace. -/
def Starts (c : UInt8) (t : List UInt8) : Prop :=
  ¬ Space [c] ∧ ∃ w rest, Space w ∧ t = w ++ c :: rest

theorem Space.head {c : UInt8} {w : List UInt8} (h : Space (c :: w)) : Space [c] := by
  intro b hb
  rw [List.mem_singleton.1 hb]
  exact h c List.mem_cons_self

theorem Starts.unique {c d : UInt8} {t : List UInt8} (h : Starts c t) (h' : Starts d t) :
    c = d := by
  obtain ⟨hc, w, rest, hw, rfl⟩ := h
  obtain ⟨hd, w', rest', hw', heq⟩ := h'
  induction w generalizing w' with
  | nil =>
    cases w' with
    | nil => exact (List.cons.inj heq).1
    | cons b w' =>
      obtain ⟨rfl, -⟩ := List.cons.inj heq
      exact absurd hw'.head hc
  | cons b w ih =>
    cases w' with
    | nil =>
      obtain ⟨rfl, -⟩ := List.cons.inj heq
      exact absurd hw.head hd
    | cons b' w' =>
      exact ih (fun c hc => hw c (List.mem_cons_of_mem _ hc)) w'
        (fun c hc => hw' c (List.mem_cons_of_mem _ hc)) (List.cons.inj heq).2

theorem Starts.space {c : UInt8} {w t : List UInt8} (hw : Space w) (h : Starts c t) :
    Starts c (w ++ t) := by
  obtain ⟨hc, w', rest, hw', rfl⟩ := h
  refine ⟨hc, w ++ w', rest, fun b hb => ?_, (List.append_assoc ..).symm⟩
  exact (List.mem_append.1 hb).elim (hw b) (hw' b)

theorem Token.starts {c : UInt8} {t : List UInt8} (h : Token c t) (hc : ¬ Space [c])
    (rest : List UInt8) : Starts c (t ++ rest) := by
  obtain ⟨w, w', hw, -, rfl⟩ := h
  exact ⟨hc, w, w' ++ rest, hw, by simp⟩

theorem str_starts {s t : List UInt8} (h : t ∈ str s) (rest : List UInt8) :
    Starts 0x22 (t ++ rest) := by
  obtain ⟨body, -, rfl⟩ := h
  exact ⟨by simp [Space], [], body ++ [0x22] ++ rest, by simp [Space], rfl⟩

theorem arr_starts {vs : List Value} {t : List UInt8} (h : t ∈ arr vs) : Starts 0x5b t := by
  obtain ⟨l, body, r, hl, -, -, rfl⟩ := h
  rw [List.append_assoc]
  exact hl.starts (by simp [Space]) _

theorem Items.starts {vs : List Value} {c : UInt8} {t : List UInt8} (h : Items vs t)
    (hv : ∀ v ∈ vs, ∀ s ∈ v, ∀ rest, Starts c (s ++ rest)) (rest : List UInt8) :
    Starts c (t ++ rest) := by
  cases h with
  | one head => exact hv _ List.mem_cons_self _ head rest
  | cons head sep tail =>
    rw [List.append_assoc, List.append_assoc]
    exact hv _ List.mem_cons_self _ head _

/-- Behind the brace of an object there is a string or the other brace. -/
theorem obj_starts {ms : List (List UInt8 × Value)} {t : List UInt8} (h : 0x7b :: t ∈ obj ms) :
    Starts 0x22 t ∨ Starts 0x7d t := by
  obtain ⟨l, body, r, ⟨w, w', hw, hw', rfl⟩, hr, hbody, heq⟩ := h
  have hbrace : ¬ Space [(0x7b : UInt8)] := by simp [Space]
  cases w with
  | cons b w =>
    obtain ⟨rfl, -⟩ := List.cons.inj heq
    exact absurd hw.head hbrace
  | nil =>
    have ht : t = w' ++ (body ++ r) := by
      simpa [List.append_assoc] using (List.cons.inj heq).2
    rw [ht]
    obtain ⟨-, rfl⟩ | hitems := hbody
    · have hend := hr.starts (by simp [Space]) []
      rw [List.append_nil] at hend
      exact .inr (hend.space hw')
    · refine .inl ((hitems.starts (fun v hv s hs rest => ?_) r).space hw')
      obtain ⟨m, -, rfl⟩ := List.mem_map.1 hv
      obtain ⟨name, colon, value, hname, -, -, rfl⟩ := hs
      rw [List.append_assoc, List.append_assoc]
      exact str_starts hname _

end CassandraApi.Lib.Json
