/-
# `Lib.Reduce` — values reduced in some order and grouping

A distributed reduction folds values with a function `f`, but in an order of its own
and with brackets of its own:

    f (f x₂ x₁) (f x₄ x₃)     is a reduction of    [x₁, x₂, x₃, x₄]

`Reduction f xs y` says that `y` is one of those of `xs`.  What `f` hands on from its
first argument is handed on from one of the values, and what `f` adds up is their sum.
`ReducesByKey` is the same for the values of each key of a table.
-/
import CassandraApi.Lib.Join

namespace CassandraApi.Lib

variable {κ β γ M : Type} {f : β → β → β} {x y : β} {xs ys : List β}

/-- `y` is what `f` makes of the values, each of them taken once. -/
inductive Reduction (f : β → β → β) : List β → β → Prop
  | single (x : β) : Reduction f [x] x
  | merge {xs ys : List β} {x y : β} : Reduction f xs x → Reduction f ys y →
      Reduction f (xs ++ ys) (f x y)
  | perm {xs ys : List β} {x : β} : xs.Perm ys → Reduction f xs x → Reduction f ys x

/-- What `f` hands on from its first argument. -/
theorem Reduction.kept {g : β → γ} (hg : ∀ x y, g (f x y) = g x) (h : Reduction f xs y) :
    ∃ x ∈ xs, g y = g x := by
  induction h with
  | single x => exact ⟨x, List.mem_singleton_self x, rfl⟩
  | merge _ _ ih _ =>
    obtain ⟨x, hx, heq⟩ := ih
    exact ⟨x, List.mem_append_left _ hx, (hg ..).trans heq⟩
  | perm hp _ ih =>
    obtain ⟨x, hx, heq⟩ := ih
    exact ⟨x, hp.mem_iff.1 hx, heq⟩

/-- What `f` adds up. -/
theorem Reduction.sum [AddCommMonoid M] {g : β → M} (hg : ∀ x y, g (f x y) = g x + g y)
    (h : Reduction f xs y) : g y = (xs.map g).sum := by
  induction h with
  | single x => simp
  | merge _ _ ih ih' => rw [hg, ih, ih', List.map_append, List.sum_append]
  | perm hp _ ih => rw [ih, (hp.map g).sum_eq]

/-- From left to right. -/
theorem Reduction.foldl (x : β) (xs : List β) : Reduction f (x :: xs) (xs.foldl f x) := by
  induction xs using List.reverseRecOn with
  | nil => exact .single x
  | append_singleton xs z ih =>
    rw [List.foldl_append]
    exact .merge ih (.single z)

/-! ## By key -/

theorem map_fst_filterMap {l : List κ} {g : κ → Option β} (h : ∀ k ∈ l, (g k).isSome) :
    (l.filterMap fun k => (g k).map (k, ·)).map Prod.fst = l := by
  induction l with
  | nil => rfl
  | cons k l ih =>
    obtain ⟨b, hb⟩ := Option.isSome_iff_exists.1 (h k List.mem_cons_self)
    have hrest := ih fun k hk => h k (List.mem_cons_of_mem _ hk)
    simp only [List.filterMap_cons, hb, Option.map_some, List.map_cons, hrest]

section Keys

variable [DecidableEq κ]

/-- One entry for each key of the table, with a reduction of the values of that key. -/
structure ReducesByKey (f : β → β → β) (table out : List (κ × β)) : Prop where
  nodup : (out.map Prod.fst).Nodup
  keys : ∀ k, k ∈ out.map Prod.fst ↔ k ∈ table.map Prod.fst
  values : ∀ p ∈ out, Reduction f (partners table p.1) p.2

def reduceLeft (f : β → β → β) : List β → Option β
  | [] => none
  | x :: xs => some (xs.foldl f x)

/-- The values of each key from left to right. -/
def reduceInOrder (f : β → β → β) (table : List (κ × β)) : List (κ × β) :=
  (table.map Prod.fst).dedup.filterMap fun k => (reduceLeft f (partners table k)).map (k, ·)

theorem reduceInOrder_keys (table : List (κ × β)) :
    (reduceInOrder f table).map Prod.fst = (table.map Prod.fst).dedup := by
  refine map_fst_filterMap fun k hk => ?_
  obtain ⟨⟨k, v⟩, hp, rfl⟩ := List.mem_map.1 (List.mem_dedup.1 hk)
  cases hv : partners table k with
  | nil => exact absurd (mem_partners.2 hp) (by simp [hv])
  | cons => rfl

theorem reduceInOrder_reduces (table : List (κ × β)) :
    ReducesByKey f table (reduceInOrder f table) where
  nodup := by
    rw [reduceInOrder_keys]
    exact List.nodup_dedup _
  keys k := by rw [reduceInOrder_keys, List.mem_dedup]
  values p hp := by
    obtain ⟨k, -, hk⟩ := List.mem_filterMap.1 hp
    obtain ⟨v, hv, rfl⟩ := Option.map_eq_some_iff.1 hk
    cases hvs : partners table k with
    | nil => simp [hvs, reduceLeft] at hv
    | cons x xs =>
      rw [hvs] at hv
      obtain rfl : xs.foldl f x = v := Option.some.inj hv
      exact .foldl x xs

end Keys

end CassandraApi.Lib
