/-
# `Lib.Blocks` — a stream in blocks of one size

The whole blocks of a stream, and the rest that does not fill one.  When more
comes, the rest goes in front of it, and the blocks that are whole now are added
behind the ones before (`wholeBlocks_append`): so the blocks of a stream do not
depend on the pieces in which it comes.
-/
import Mathlib

namespace CassandraApi.Lib

variable {α : Type} {n : Nat} {b xs ys : List α}

/-- The blocks of `n` that are whole. -/
def wholeBlocks (n : Nat) (xs : List α) : List (List α) :=
  (List.range (xs.length / n)).map fun k => (xs.drop (n * k)).take n

/-- What is left behind them. -/
def blockRest (n : Nat) (xs : List α) : List α := xs.drop (n * (xs.length / n))

theorem length_blockRest : (blockRest n xs).length = xs.length % n := by
  rw [blockRest, List.length_drop, Nat.mod_def]

/-- Fewer than a block. -/
theorem wholeBlocks_short (h : xs.length < n) : wholeBlocks n xs = [] := by
  rw [wholeBlocks, Nat.div_eq_of_lt h]
  rfl

theorem blockRest_short (h : xs.length < n) : blockRest n xs = xs := by
  rw [blockRest, Nat.div_eq_of_lt h, Nat.mul_zero, List.drop_zero]

theorem blocks_cons (pos : 0 < n) (hb : b.length = n) :
    (b ++ xs).length / n = xs.length / n + 1 := by
  rw [List.length_append, hb, Nat.add_comm, Nat.add_div_right _ pos]

/-- The first block. -/
theorem wholeBlocks_cons (pos : 0 < n) (hb : b.length = n) :
    wholeBlocks n (b ++ xs) = b :: wholeBlocks n xs := by
  rw [wholeBlocks, blocks_cons pos hb, List.range_succ_eq_map, List.map_cons, List.map_map]
  congr 1
  · rw [Nat.mul_zero, List.drop_zero, ← hb, List.take_left]
  · refine List.map_congr_left fun k _ => ?_
    have hdrop : n * (k + 1) = b.length + n * k := by
      rw [hb, Nat.mul_succ, Nat.add_comm]
    simp only [Function.comp_apply, Nat.succ_eq_add_one]
    rw [hdrop, List.drop_length_add_append]

theorem blockRest_cons (pos : 0 < n) (hb : b.length = n) :
    blockRest n (b ++ xs) = blockRest n xs := by
  have hdrop : n * (xs.length / n + 1) = b.length + n * (xs.length / n) := by
    rw [hb, Nat.mul_succ, Nat.add_comm]
  rw [blockRest, blocks_cons pos hb, hdrop, List.drop_length_add_append, blockRest]

/-- More of the stream, behind the rest of what there was. -/
theorem blocks_append (pos : 0 < n) (xs ys : List α) :
    wholeBlocks n (xs ++ ys) = wholeBlocks n xs ++ wholeBlocks n (blockRest n xs ++ ys) ∧
      blockRest n (xs ++ ys) = blockRest n (blockRest n xs ++ ys) := by
  by_cases hshort : xs.length < n
  · rw [wholeBlocks_short hshort, blockRest_short hshort]
    exact ⟨rfl, rfl⟩
  · have hb : (xs.take n).length = n := List.length_take_of_le (by omega)
    have hlen : (xs.drop n).length < xs.length := by
      rw [List.length_drop]
      omega
    obtain ⟨hblocks, hrest⟩ := blocks_append pos (xs.drop n) ys
    rw [← List.take_append_drop n xs, List.append_assoc, wholeBlocks_cons pos hb,
      wholeBlocks_cons pos hb, blockRest_cons pos hb, blockRest_cons pos hb, hblocks, hrest]
    exact ⟨rfl, rfl⟩
termination_by xs.length

theorem wholeBlocks_append (pos : 0 < n) (xs ys : List α) :
    wholeBlocks n (xs ++ ys) = wholeBlocks n xs ++ wholeBlocks n (blockRest n xs ++ ys) :=
  (blocks_append pos xs ys).1

theorem blockRest_append (pos : 0 < n) (xs ys : List α) :
    blockRest n (xs ++ ys) = blockRest n (blockRest n xs ++ ys) :=
  (blocks_append pos xs ys).2

end CassandraApi.Lib
