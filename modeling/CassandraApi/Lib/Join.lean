/-
# `Lib.Join` — the relational left outer join

Tables are lists of rows with a key.  Every row of the left table is combined with
each of its partners in the right one, or with `none` when it has no partner, so
that no row of the left table is lost.  Two joins with a new key in between are one
nested loop (`join_join`).
-/
import Mathlib

namespace CassandraApi.Lib

variable {κ α β γ : Type} [DecidableEq κ]

/-- The rows with this key. -/
def partners (r : List (κ × β)) (k : κ) : List β := (r.filter (·.1 = k)).map Prod.snd

/-- The rows, or one that stands for their absence. -/
def orNull : List β → List (Option β)
  | [] => [none]
  | bs => bs.map some

def leftOuterJoin (l : List (κ × α)) (r : List (κ × β)) : List (κ × (α × Option β)) :=
  l.flatMap fun p => (orNull (partners r p.1)).map fun b => (p.1, (p.2, b))

/-- Every row of `l` with each of its partners in `r`, and these with each of theirs in `r'`. -/
def nestedRows (l : List (κ × α)) (r : List (κ × β)) (key : α × Option β → κ)
    (r' : List (κ × γ)) : List ((α × Option β) × Option γ) :=
  l.flatMap fun p => (orNull (partners r p.1)).flatMap fun b =>
    (orNull (partners r' (key (p.2, b)))).map fun c => ((p.2, b), c)

theorem none_mem_orNull {bs : List β} : none ∈ orNull bs ↔ bs = [] := by
  cases bs <;> simp [orNull]

theorem some_mem_orNull {bs : List β} {b : β} : some b ∈ orNull bs ↔ b ∈ bs := by
  cases bs <;> simp [orNull]

theorem mem_partners {r : List (κ × β)} {k : κ} {b : β} : b ∈ partners r k ↔ (k, b) ∈ r := by
  simp [partners]

theorem partners_eq_nil {r : List (κ × β)} {k : κ} : partners r k = [] ↔ ∀ q ∈ r, q.1 ≠ k := by
  simp [partners]

theorem mem_leftOuterJoin {l : List (κ × α)} {r : List (κ × β)} {p : κ × (α × Option β)} :
    p ∈ leftOuterJoin l r ↔ (p.1, p.2.1) ∈ l ∧ p.2.2 ∈ orNull (partners r p.1) := by
  obtain ⟨k, a, b⟩ := p
  simp only [leftOuterJoin, List.mem_flatMap, List.mem_map]
  constructor
  · rintro ⟨q, hq, b', hb', heq⟩
    cases heq
    exact ⟨hq, hb'⟩
  · rintro ⟨hq, hb⟩
    exact ⟨(k, a), hq, b, hb, rfl⟩

/-- No partner is missing if and only if every row of the left table has one. -/
theorem all_present {l : List (κ × α)} {r : List (κ × β)} :
    (∀ p ∈ leftOuterJoin l r, p.2.2 ≠ none) ↔ ∀ q ∈ l, ∃ q' ∈ r, q'.1 = q.1 := by
  constructor
  · intro h q hq
    by_contra hno
    push Not at hno
    have hnone := none_mem_orNull.2 (partners_eq_nil.2 hno)
    exact h (q.1, (q.2, none)) (mem_leftOuterJoin.2 ⟨hq, hnone⟩) rfl
  · intro h p hp hnone
    obtain ⟨hl, hb⟩ := mem_leftOuterJoin.1 hp
    rw [hnone, none_mem_orNull, partners_eq_nil] at hb
    obtain ⟨q', hq', hkey⟩ := h _ hl
    exact hb q' hq' hkey

/-- The order of the left table is the order of the join. -/
theorem leftOuterJoin_perm {l l' : List (κ × α)} (h : l.Perm l') (r : List (κ × β)) :
    (leftOuterJoin l r).Perm (leftOuterJoin l' r) := h.flatMap_right _

/-- A join, a new key for its rows, and a join of these. -/
theorem join_join (l : List (κ × α)) (r : List (κ × β)) (key : α × Option β → κ)
    (r' : List (κ × γ)) :
    (leftOuterJoin ((leftOuterJoin l r).map fun p => (key p.2, p.2)) r').map Prod.snd =
      nestedRows l r key r' := by
  simp only [leftOuterJoin, nestedRows, List.map_flatMap, List.flatMap_map, List.flatMap_assoc,
    List.map_map]
  rfl

theorem mem_nestedRows {l : List (κ × α)} {r : List (κ × β)} {key : α × Option β → κ}
    {r' : List (κ × γ)} {f : (α × Option β) × Option γ} :
    f ∈ nestedRows l r key r' ↔ ∃ k, (k, f.1.1) ∈ l ∧ f.1.2 ∈ orNull (partners r k) ∧
      f.2 ∈ orNull (partners r' (key f.1)) := by
  obtain ⟨⟨a, b⟩, c⟩ := f
  simp only [nestedRows, List.mem_flatMap, List.mem_map]
  constructor
  · rintro ⟨q, hq, b', hb', c', hc', heq⟩
    cases heq
    exact ⟨q.1, hq, hb', hc'⟩
  · rintro ⟨k, hk, hb, hc⟩
    exact ⟨(k, a), hk, b, hb, c, hc, rfl⟩

/-- Where the first join leaves nothing empty, the second one does not either if and only if
every combination has a partner there. -/
theorem nestedRows_present {l : List (κ × α)} {r : List (κ × β)} {key : α × Option β → κ}
    {r' : List (κ × γ)} (matched : ∀ q ∈ l, ∃ q' ∈ r, q'.1 = q.1) :
    (∀ f ∈ nestedRows l r key r', f.2 ≠ none) ↔
      ∀ q ∈ l, ∀ p ∈ r, p.1 = q.1 → ∃ q' ∈ r', q'.1 = key (q.2, some p.2) := by
  constructor
  · rintro h ⟨k, a⟩ hq ⟨k', b⟩ hp heq
    obtain rfl : k' = k := heq
    by_contra hno
    push Not at hno
    have hnone := none_mem_orNull.2 (partners_eq_nil.2 hno)
    exact h ((a, some b), none)
      (mem_nestedRows.2 ⟨k', hq, some_mem_orNull.2 (mem_partners.2 hp), hnone⟩) rfl
  · rintro h ⟨⟨a, b⟩, c⟩ hf rfl
    obtain ⟨k, hk, hb, hc⟩ := mem_nestedRows.1 hf
    rw [none_mem_orNull, partners_eq_nil] at hc
    cases b with
    | none =>
      obtain ⟨q', hq', hkey⟩ := matched _ hk
      exact partners_eq_nil.1 (none_mem_orNull.1 hb) q' hq' hkey
    | some b =>
      obtain ⟨q', hq', hkey⟩ := h _ hk _ (mem_partners.1 (some_mem_orNull.1 hb)) rfl
      exact hc q' hq' hkey

end CassandraApi.Lib
