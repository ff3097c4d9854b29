/-
# `Lib.Slots` — a table of slots with a count and a last slot

Slots are taken first fit and freed in any order.  Next to the table there are
the number of slots in use and the last one in use, -1 when there is none;
`Agrees` says that they are right.  When the last slot is freed the new last one
is found by scanning down from it (`lastBelow`).
-/
import Mathlib

namespace CassandraApi.Lib

variable {σ : Type}

/-- The last slot in use below index `n`, or -1. -/
def lastBelow (inUse : σ → Bool) (slots : List σ) : Nat → Int
  | 0 => -1
  | n + 1 =>
      match slots[n]? with
      | some x => if inUse x then n else lastBelow inUse slots n
      | none => lastBelow inUse slots n

/-- `last` is the largest index of a slot in use, or -1. -/
structure IsLast (inUse : σ → Bool) (slots : List σ) (last : Int) : Prop where
  low : -1 ≤ last
  used : ∀ i : Nat, last = i → ∃ x, slots[i]? = some x ∧ inUse x = true
  above : ∀ (i : Nat) (x : σ), slots[i]? = some x → inUse x = true → (i : Int) ≤ last

/-- The count and the last slot of a table. -/
structure Agrees (inUse : σ → Bool) (slots : List σ) (count last : Int) : Prop where
  count : count = slots.countP inUse
  last : IsLast inUse slots last

variable {inUse : σ → Bool} {slots : List σ} {count last : Int} {i : Nat} {x y : σ}

theorem lastBelow_isLast (n : Nat) :
    -1 ≤ lastBelow inUse slots n ∧ lastBelow inUse slots n < n ∧
      (∀ i : Nat, lastBelow inUse slots n = i → ∃ x, slots[i]? = some x ∧ inUse x = true) ∧
      ∀ (i : Nat) (x : σ), i < n → slots[i]? = some x → inUse x = true →
        (i : Int) ≤ lastBelow inUse slots n := by
  induction n with
  | zero =>
    refine ⟨le_refl _, neg_one_lt_zero, fun i hi => ?_,
      fun i x hi => absurd hi (Nat.not_lt_zero i)⟩
    simp only [lastBelow] at hi
    omega
  | succ n ih =>
    obtain ⟨hlow, hlt, hused, habove⟩ := ih
    -- below slot `n` the scan is the one from there
    have hskip : (∀ x, slots[n]? = some x → ¬ inUse x = true) →
        lastBelow inUse slots (n + 1) = lastBelow inUse slots n := by
      intro hfree
      rw [lastBelow]
      split
      · rename_i x hx
        rw [if_neg (hfree x hx)]
      · rfl
    by_cases hn : ∃ x, slots[n]? = some x ∧ inUse x = true
    · obtain ⟨x, hx, huse⟩ := hn
      have heq : lastBelow inUse slots (n + 1) = n := by
        rw [lastBelow, hx]
        exact if_pos huse
      rw [heq]
      refine ⟨by omega, by omega, fun i hi => ?_, fun i y hi _ _ => by omega⟩
      obtain rfl : i = n := by omega
      exact ⟨x, hx, huse⟩
    · rw [hskip fun x hx huse => hn ⟨x, hx, huse⟩]
      refine ⟨hlow, by omega, hused, fun i y hi hy huse => ?_⟩
      obtain rfl | hlt' : i = n ∨ i < n := by omega
      · exact absurd ⟨y, hy, huse⟩ hn
      · exact habove i y hlt' hy huse

/-- The scan asks only about the slots it passes. -/
theorem lastBelow_congr {inUse' : σ → Bool} {n : Nat}
    (h : ∀ (i : Nat) (x : σ), i < n → slots[i]? = some x → inUse' x = inUse x) :
    lastBelow inUse' slots n = lastBelow inUse slots n := by
  induction n with
  | zero => rfl
  | succ n ih =>
    have hrest := ih fun i x hi => h i x (Nat.lt_succ_of_lt hi)
    rw [lastBelow, lastBelow, hrest]
    cases hx : slots[n]? with
    | none => rfl
    | some x => simp only [h n x (Nat.lt_succ_self n) hx]

theorem countP_of_set (h : slots[i]? = some y) :
    ((slots.set i x).countP inUse : Int) =
      slots.countP inUse - (if inUse y = true then 1 else 0) + if inUse x = true then 1 else 0 := by
  obtain ⟨hlt, rfl⟩ := List.getElem?_eq_some_iff.1 h
  rw [List.countP_set hlt]
  have hle := List.boole_getElem_le_countP hlt (p := inUse)
  split_ifs at * <;> omega

/-- Slots of the table after one was written. -/
theorem getElem?_set_cases {j : Nat} {z : σ} (h : (slots.set i x)[j]? = some z) :
    j = i ∧ z = x ∨ j ≠ i ∧ slots[j]? = some z := by
  by_cases hj : j = i
  · subst hj
    have hlt : j < slots.length := by
      have := (List.getElem?_eq_some_iff.1 h).1
      simpa using this
    rw [List.getElem?_set_self hlt] at h
    cases h
    exact .inl ⟨rfl, rfl⟩
  · rw [List.getElem?_set_ne (Ne.symm hj)] at h
    exact .inr ⟨hj, h⟩

namespace Agrees

/-- The last slot is a slot of the table. -/
theorem last_lt (h : Agrees inUse slots count last) : last < slots.length := by
  by_contra hge
  obtain ⟨x, hx, -⟩ := h.last.used last.toNat (by omega)
  have := (List.getElem?_eq_some_iff.1 hx).1
  omega

theorem none_used (hfree : ∀ x ∈ slots, inUse x = false) : Agrees inUse slots 0 (-1) := by
  refine ⟨?_, le_refl _, fun i hi => by omega, fun i x hx huse => ?_⟩
  · rw [List.countP_eq_zero.2 fun x hx => by rw [hfree x hx]; exact Bool.false_ne_true]
    rfl
  · rw [hfree x (List.mem_of_getElem? hx)] at huse
    cases huse

/-- A free slot is taken. -/
theorem occupy (h : Agrees inUse slots count last) (hy : slots[i]? = some y)
    (hfree : inUse y = false) (huse : inUse x = true) :
    Agrees inUse (slots.set i x) (count + 1) (if last < i then i else last) := by
  constructor
  · rw [countP_of_set hy, hfree, huse, h.count]
    simp
  · have hlow := h.last.low
    have hset : (slots.set i x)[i]? = some x :=
      List.getElem?_set_self (List.getElem?_eq_some_iff.1 hy).1
    refine ⟨by split <;> omega, fun j hj => ?_, fun j z hz hused => ?_⟩
    · by_cases hji : j = i
      · subst hji
        exact ⟨x, hset, huse⟩
      · obtain ⟨z, hz, hused⟩ := h.last.used j (by split at hj <;> omega)
        exact ⟨z, by rw [List.getElem?_set_ne (Ne.symm hji), hz], hused⟩
    · rcases getElem?_set_cases hz with ⟨rfl, -⟩ | ⟨-, hold⟩
      · split <;> omega
      · have := h.last.above j z hold hused
        split <;> omega

/-- A slot in use is freed. -/
theorem vacate (h : Agrees inUse slots count last) (hy : slots[i]? = some y)
    (hused : inUse y = true) (hfree : inUse x = false) :
    Agrees inUse (slots.set i x) (count - 1) (if last = i then lastBelow inUse slots i else last) := by
  constructor
  · rw [countP_of_set hy, hfree, hused, h.count]
    simp
  · obtain ⟨hlow, hlt, hfound, hbelow⟩ := @lastBelow_isLast σ inUse slots i
    have hle := h.last.above i y hy hused
    refine ⟨by split <;> omega, fun j hj => ?_, fun j z hz huse => ?_⟩
    · have hji : j ≠ i := by
        split at hj <;> omega
      rw [List.getElem?_set_ne (Ne.symm hji)]
      split at hj
      · exact hfound j hj
      · exact h.last.used j hj
    · rcases getElem?_set_cases hz with ⟨-, rfl⟩ | ⟨hji, hold⟩
      · rw [hfree] at huse
        cases huse
      · have := h.last.above j z hold huse
        split
        · exact hbelow j z (by omega) hold huse
        · exact this

/-- A slot that stays in use, or free, is changed. -/
theorem touch (h : Agrees inUse slots count last) (hy : slots[i]? = some y)
    (hsame : inUse x = inUse y) : Agrees inUse (slots.set i x) count last := by
  constructor
  · rw [countP_of_set hy, hsame, h.count]
    split_ifs <;> omega
  · refine ⟨h.last.low, fun j hj => ?_, fun j z hz huse => ?_⟩
    · obtain ⟨z, hz, hused⟩ := h.last.used j hj
      by_cases hji : j = i
      · subst hji
        rw [hy] at hz
        cases hz
        exact ⟨x, List.getElem?_set_self (List.getElem?_eq_some_iff.1 hy).1, hsame.trans hused⟩
      · exact ⟨z, by rw [List.getElem?_set_ne (Ne.symm hji), hz], hused⟩
    · rcases getElem?_set_cases hz with ⟨rfl, rfl⟩ | ⟨-, hold⟩
      · exact h.last.above j y hy (hsame ▸ huse)
      · exact h.last.above j z hold huse

/-- The last slot is not a free one. -/
theorem last_ne (h : Agrees inUse slots count last) (hy : slots[i]? = some y)
    (hfree : inUse y = false) : last ≠ i := by
  intro heq
  obtain ⟨x, hx, hused⟩ := h.last.used i heq
  rw [hy] at hx
  cases hx
  rw [hfree] at hused
  cases hused

/-- No slot is free exactly when as many are in use as there are. -/
theorem full_iff (h : Agrees inUse slots count last) :
    (∀ x ∈ slots, inUse x = true) ↔ count = slots.length := by
  rw [h.count, ← List.countP_eq_length]
  exact_mod_cast Iff.rfl

end Agrees

end CassandraApi.Lib
