/-
# `Lib.Circular` — an array filled round and round

A new item goes into the cell at `index`, whatever is there, and the index goes
on to the next cell, or back to the first.  `view` lists the cells by age, the
one that is replaced next first: a push drops the head of the view and puts the
new item at its end (`view_push`).
-/
import Mathlib

namespace CassandraApi.Lib

/-- Cells, and the one to be filled next. -/
structure Circular (α : Type) where
  cells : List α
  index : Nat
  inside : index < cells.length

namespace Circular

variable {α : Type}

/-- Copies of one item, to be filled from the first cell on. -/
def fresh (n : Nat) (x : α) (hn : 0 < n) : Circular α where
  cells := List.replicate n x
  index := 0
  inside := by simpa using hn

/-- The cell to be filled next. -/
def current (c : Circular α) : α := c.cells.get ⟨c.index, c.inside⟩

def push (c : Circular α) (x : α) : Circular α where
  cells := c.cells.set c.index x
  index := if c.index + 1 ≥ c.cells.length then 0 else c.index + 1
  inside := by
    have := c.inside
    rw [List.length_set]
    split <;> omega

/-- The cells by age. -/
def view (c : Circular α) : List α := c.cells.drop c.index ++ c.cells.take c.index

theorem view_perm (c : Circular α) : c.view.Perm c.cells := by
  have h : c.view.Perm (c.cells.take c.index ++ c.cells.drop c.index) := List.perm_append_comm
  rwa [List.take_append_drop] at h

theorem view_eq_cons (c : Circular α) : c.view = c.current :: c.view.tail := by
  rw [view, List.drop_eq_getElem_cons c.inside]
  rfl

@[simp] theorem fresh_view (n : Nat) (x : α) (hn : 0 < n) :
    (fresh n x hn).view = List.replicate n x := by
  simp [view, fresh]

/-- The oldest cell goes, the new item comes last. -/
theorem view_push (c : Circular α) (x : α) : (c.push x).view = c.view.tail ++ [x] := by
  have hset : c.cells.set c.index x =
      c.cells.take c.index ++ x :: c.cells.drop (c.index + 1) := by
    rw [List.set_eq_take_append_cons_drop, if_pos c.inside]
  have htail : c.view.tail = c.cells.drop (c.index + 1) ++ c.cells.take c.index := by
    rw [view, List.drop_eq_getElem_cons c.inside]
    rfl
  have hlen : (c.cells.take c.index).length = c.index := by
    rw [List.length_take, Nat.min_eq_left c.inside.le]
  have hview : (c.push x).view = (c.cells.set c.index x).drop (c.push x).index ++
      (c.cells.set c.index x).take (c.push x).index := rfl
  rw [hview, htail, push]
  dsimp only
  split_ifs with hend
  · -- the last cell is filled: nothing of the old cells is behind it
    rw [List.drop_zero, List.take_zero, hset, List.drop_eq_nil_of_le hend]
    simp
  · have hnext : c.index + 1 = (c.cells.take c.index ++ [x]).length := by simp [hlen]
    rw [hset, List.append_cons, hnext, List.drop_left, List.take_left, ← hnext,
      List.append_assoc]

end Circular

end CassandraApi.Lib
