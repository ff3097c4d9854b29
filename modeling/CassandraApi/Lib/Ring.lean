/-
# `Lib.Ring` — circular doubly linked lists

A `Heap` maps an address to the `prev` and `next` links of the node there, and
to `none` where nothing is allocated.  `Seg h a xs b` says that one can walk
from `a` through `xs` to `b`, forwards by `next` and backwards by `prev`;
`IsRing h first xs` that `first` is the entry of a ring whose members, from the
entry on, are `xs`.

The lemmas at the end say what a ring looks like in a heap that differs by the
links an insertion or a removal sets.  They do not mention how those links were
set, so any program that sets them can use them.
-/
import Mathlib

namespace CassandraApi.Lib

/-- The links of a node. -/
structure Node (α : Type) where
  prev : Option α := none
  next : Option α := none

abbrev Heap (α : Type) := α → Option (Node α)

variable {α : Type}

namespace Heap

def next (h : Heap α) (a : α) : Option α := (h a).bind Node.next

def prev (h : Heap α) (a : α) : Option α := (h a).bind Node.prev

end Heap

variable {h h' : Heap α} {a b c item l : α} {xs ys zs rest : List α}

/-! ## Segments -/

/-- From `a` through `xs` to `b`. -/
def Seg (h : Heap α) : α → List α → α → Prop
  | a, [], b => h.next a = some b ∧ h.prev b = some a
  | a, x :: xs, b => h.next a = some x ∧ h.prev x = some a ∧ Seg h x xs b

theorem Seg.append_iff : Seg h a (xs ++ c :: ys) b ↔ Seg h a xs c ∧ Seg h c ys b := by
  induction xs generalizing a with
  | nil => simp only [List.nil_append, Seg, and_assoc]
  | cons x xs ih => simp only [List.cons_append, Seg, ih, and_assoc]

theorem Seg.congr (hn : ∀ y ∈ a :: xs, h'.next y = h.next y)
    (hp : ∀ y ∈ xs, h'.prev y = h.prev y) (hb : h'.prev b = h.prev b) (hs : Seg h a xs b) :
    Seg h' a xs b := by
  induction xs generalizing a with
  | nil => exact ⟨(hn a (by simp)).trans hs.1, hb.trans hs.2⟩
  | cons x xs ih =>
    obtain ⟨h1, h2, h3⟩ := hs
    refine ⟨(hn a (by simp)).trans h1, (hp x (by simp)).trans h2, ih ?_ ?_ h3⟩
    · intro y hy
      exact hn y (List.mem_cons_of_mem a hy)
    · intro y hy
      exact hp y (List.mem_cons_of_mem x hy)

/-- The end of a segment is preceded by a node of the segment. -/
theorem Seg.prev_mem (hs : Seg h a xs b) : ∃ l ∈ a :: xs, h.prev b = some l := by
  induction xs generalizing a with
  | nil => exact ⟨a, by simp, hs.2⟩
  | cons x xs ih =>
    obtain ⟨l, hl, hb⟩ := ih hs.2.2
    exact ⟨l, List.mem_cons_of_mem a hl, hb⟩

/-- The last node is made to lead to `c` instead of `b`. -/
theorem Seg.redirect (hs : Seg h a xs b) (nodup : (a :: xs).Nodup) (hl : h.prev b = some l)
    (hn : ∀ y ∈ a :: xs, y ≠ l → h'.next y = h.next y) (hp : ∀ y ∈ xs, h'.prev y = h.prev y)
    (hnext : h'.next l = some c) (hprev : h'.prev c = some l) : Seg h' a xs c := by
  induction xs generalizing a with
  | nil =>
    have : l = a := Option.some.inj (hl.symm.trans hs.2)
    subst this
    exact ⟨hnext, hprev⟩
  | cons x xs ih =>
    obtain ⟨h1, h2, h3⟩ := hs
    obtain ⟨l', hl', hb⟩ := h3.prev_mem
    obtain rfl : l = l' := Option.some.inj (hl.symm.trans hb)
    have ha : a ≠ l := by
      rintro rfl
      exact (List.nodup_cons.1 nodup).1 hl'
    refine ⟨(hn a (by simp) ha).trans h1, (hp x (by simp)).trans h2, ?_⟩
    refine ih h3 (List.nodup_cons.1 nodup).2 ?_ ?_
    · intro y hy
      exact hn y (List.mem_cons_of_mem a hy)
    · intro y hy
      exact hp y (List.mem_cons_of_mem x hy)

/-- There is one way from `a` to a `b` that is not met before. -/
theorem Seg.unique (hs : Seg h a xs b) (hs' : Seg h a ys b) (hx : b ∉ xs) (hy : b ∉ ys) :
    xs = ys := by
  induction xs generalizing a ys with
  | nil =>
    cases ys with
    | nil => rfl
    | cons y ys =>
      have hby : b = y := Option.some.inj (hs.1.symm.trans hs'.1)
      exact absurd (hby ▸ List.mem_cons_self) hy
  | cons x xs ih =>
    cases ys with
    | nil =>
      have hbx : b = x := Option.some.inj (hs'.1.symm.trans hs.1)
      exact absurd (hbx ▸ List.mem_cons_self) hx
    | cons y ys =>
      obtain rfl : x = y := Option.some.inj (hs.1.symm.trans hs'.1)
      rw [ih hs.2.2 hs'.2.2 (fun h => hx (List.mem_cons_of_mem _ h))
        (fun h => hy (List.mem_cons_of_mem _ h))]

/-! ## Cycles -/

/-- `xs` closes to a cycle. -/
def Cycle (h : Heap α) : List α → Prop
  | [] => True
  | a :: rest => Seg h a rest a

theorem Cycle.rotate (hc : Cycle h (xs ++ ys)) : Cycle h (ys ++ xs) := by
  cases xs with
  | nil => simpa using hc
  | cons a xs =>
    cases ys with
    | nil => simpa using hc
    | cons c ys =>
      obtain ⟨h1, h2⟩ := Seg.append_iff.1 hc
      exact Seg.append_iff.2 ⟨h2, h1⟩

theorem Cycle.congr (hc : Cycle h xs)
    (same : ∀ y ∈ xs, h'.next y = h.next y ∧ h'.prev y = h.prev y) : Cycle h' xs := by
  cases xs with
  | nil => trivial
  | cons a rest =>
    refine Seg.congr (fun y hy => (same y hy).1) (fun y hy => ?_) (same a (by simp)).2 hc
    exact (same y (List.mem_cons_of_mem a hy)).2

/-- Every member has its neighbours in the cycle. -/
theorem Cycle.links (hc : Cycle h xs) (ha : a ∈ xs) :
    (∃ n ∈ xs, h.next a = some n) ∧ ∃ p ∈ xs, h.prev a = some p := by
  obtain ⟨ys, zs, rfl⟩ := List.append_of_mem ha
  have hr : Seg h a (zs ++ ys) a := hc.rotate
  have hmem : ∀ y, y ∈ a :: (zs ++ ys) ↔ y ∈ ys ++ a :: zs := fun y => by
    simp only [List.mem_cons, List.mem_append]
    tauto
  constructor
  · cases hz : zs ++ ys with
    | nil => exact ⟨a, by simp, (hz ▸ hr : Seg h a [] a).1⟩
    | cons n ws =>
      refine ⟨n, (hmem n).1 ?_, (hz ▸ hr : Seg h a (n :: ws) a).1⟩
      simp [hz]
  · obtain ⟨p, hp, hpa⟩ := hr.prev_mem
    exact ⟨p, (hmem p).1 hp, hpa⟩

/-! ## Rings -/

/-- `first` is NULL and there are no members, or it is the first of the members `xs`, which
form a cycle. -/
structure IsRing (h : Heap α) (first : Option α) (xs : List α) : Prop where
  head : first = xs.head?
  nodup : xs.Nodup
  cycle : Cycle h xs

namespace IsRing

variable {first : Option α}

theorem empty : IsRing h none [] := ⟨rfl, List.nodup_nil, trivial⟩

/-- The entry and the links determine the members. -/
theorem unique (hr : IsRing h first xs) (hr' : IsRing h first ys) : xs = ys := by
  cases xs with
  | nil =>
    cases ys with
    | nil => rfl
    | cons y ys => exact absurd (hr.head.symm.trans hr'.head) (by simp)
  | cons x xs =>
    cases ys with
    | nil => exact absurd (hr.head.symm.trans hr'.head) (by simp)
    | cons y ys =>
      obtain rfl : x = y := Option.some.inj (hr.head.symm.trans hr'.head)
      rw [Seg.unique hr.cycle hr'.cycle (List.nodup_cons.1 hr.nodup).1
        (List.nodup_cons.1 hr'.nodup).1]

/-- A ring is not affected by changes elsewhere. -/
theorem congr (hr : IsRing h first xs) (same : ∀ y ∈ xs, h' y = h y) : IsRing h' first xs :=
  ⟨hr.head, hr.nodup, hr.cycle.congr fun y hy => by simp [Heap.next, Heap.prev, same y hy]⟩

/-- `item`, which points to itself, is a ring. -/
theorem singleton (hn : h.next item = some item) (hp : h.prev item = some item) :
    IsRing h (some item) [item] :=
  ⟨rfl, List.nodup_singleton item, hn, hp⟩

/-- `item` put between the last member `l` and the first member `a`. -/
theorem insert (hr : IsRing h first (a :: rest)) (new : item ∉ a :: rest)
    (hl : h.prev a = some l) (hnl : h'.next l = some item) (hpi : h'.prev item = some l)
    (hni : h'.next item = some a) (hpa : h'.prev a = some item)
    (hn : ∀ y ∈ a :: rest, y ≠ l → h'.next y = h.next y)
    (hp : ∀ y ∈ rest, h'.prev y = h.prev y) : IsRing h' first (a :: rest ++ [item]) := by
  refine ⟨hr.head, ?_, ?_⟩
  · rw [List.nodup_append]
    refine ⟨hr.nodup, List.nodup_singleton item, ?_⟩
    intro y hy z hz
    rw [List.mem_singleton.1 hz]
    exact fun h => new (h ▸ hy)
  · have hseg : Seg h' a rest item := Seg.redirect hr.cycle hr.nodup hl hn hp hnl hpi
    exact Seg.append_iff.2 ⟨hseg, hni, hpa⟩

/-- A member of a ring can be written as its entry. -/
theorem rotate_entry (hr : IsRing h first (xs ++ ys)) (hne : ys ≠ []) :
    IsRing h ys.head? (ys ++ xs) where
  head := by
    cases ys with
    | nil => exact absurd rfl hne
    | cons => rfl
  nodup := (List.perm_append_comm.nodup_iff).1 hr.nodup
  cycle := hr.cycle.rotate

/-- A member is met once. -/
theorem not_mem (hr : IsRing h first (ys ++ item :: zs)) : item ∉ ys ++ zs :=
  (List.nodup_cons.1 (List.nodup_middle.1 hr.nodup)).1

theorem erase_eq [DecidableEq α] (hr : IsRing h first (ys ++ item :: zs)) :
    (ys ++ item :: zs).erase item = ys ++ zs := by
  rw [List.erase_append_right _ fun hy => hr.not_mem (List.mem_append_left zs hy),
    List.erase_cons_head]

/-- A member that points to itself is the only one. -/
theorem alone (hr : IsRing h first (ys ++ item :: zs))
    (hself : h.next item = some item) : ys = [] ∧ zs = [] := by
  have hrot := hr.rotate_entry (List.cons_ne_nil item zs)
  have hseg : Seg h item (zs ++ ys) item := hrot.cycle
  have hnd : (item :: (zs ++ ys)).Nodup := hrot.nodup
  cases hw : zs ++ ys with
  | nil => exact (List.append_eq_nil_iff.1 hw).symm
  | cons b ws =>
    rw [hw] at hseg hnd
    obtain rfl : b = item := Option.some.inj (hseg.1.symm.trans hself)
    exact absurd List.mem_cons_self (List.nodup_cons.1 hnd).1

/-- `item` is taken out: its neighbours `p` and `n` are made to point to each other. -/
theorem unlink {p n : α} (hr : IsRing h first (xs ++ item :: ys))
    (hpi : h.prev item = some p) (hni : h.next item = some n) (hnp : h'.next p = some n)
    (hpn : h'.prev n = some p)
    (hn : ∀ y ∈ xs ++ ys, y ≠ p → h'.next y = h.next y)
    (hp : ∀ y ∈ xs ++ ys, y ≠ n → h'.prev y = h.prev y) : Cycle h' (xs ++ ys) := by
  have hrot := hr.rotate_entry (List.cons_ne_nil item ys)
  have hmem : ∀ y, y ∈ ys ++ xs ↔ y ∈ xs ++ ys := fun y => by
    simp only [List.mem_append]
    tauto
  suffices Cycle h' (ys ++ xs) from this.rotate
  have hseg : Seg h item (ys ++ xs) item := hrot.cycle
  have hnd : (item :: (ys ++ xs)).Nodup := hrot.nodup
  cases hw : ys ++ xs with
  | nil => trivial
  | cons b ws =>
    rw [hw] at hseg hnd hmem
    obtain ⟨h1, -, h3⟩ := hseg
    obtain rfl : n = b := Option.some.inj (hni.symm.trans h1)
    have hnd' := (List.nodup_cons.1 hnd).2
    refine Seg.redirect h3 hnd' hpi ?_ ?_ hnp hpn
    · intro y hy
      exact hn y ((hmem y).1 hy)
    · intro y hy
      refine hp y ((hmem y).1 (List.mem_cons_of_mem n hy)) ?_
      rintro rfl
      exact (List.nodup_cons.1 hnd').1 hy

end IsRing

/-! ## Reading a ring -/

section Read

variable [DecidableEq α]

/-- The nodes from `a` on, through `next`, up to the one that leads to `first`; `none` if `fuel`
of them are not enough. -/
def Heap.through (h : Heap α) (first : α) : Nat → α → Option (List α)
  | 0, _ => none
  | fuel + 1, a =>
      match h.next a with
      | none => none
      | some n => if n = first then some [a] else (h.through first fuel n).map (a :: ·)

/-- The sequence read from the head through `next`. -/
def Heap.sequence (h : Heap α) (fuel : Nat) : Option α → Option (List α)
  | none => some []
  | some first => h.through first fuel first

theorem Seg.through (hs : Seg h a xs b) (hb : b ∉ xs) {fuel : Nat} (hf : xs.length < fuel) :
    h.through b fuel a = some (a :: xs) := by
  induction xs generalizing a fuel with
  | nil =>
    cases fuel with
    | zero => cases hf
    | succ fuel => simp only [Heap.through, hs.1, if_true]
  | cons x xs ih =>
    cases fuel with
    | zero => cases hf
    | succ fuel =>
      have hx : x ≠ b := fun e => hb (e ▸ List.mem_cons_self)
      have hrest := ih hs.2.2 (fun h => hb (List.mem_cons_of_mem x h)) (Nat.lt_of_succ_lt_succ hf)
      simp only [Heap.through, hs.1, if_neg hx, hrest, Option.map_some]

/-- A ring is read as its members, however much fuel there is beyond them. -/
theorem IsRing.sequence {first : Option α} (hr : IsRing h first xs) {fuel : Nat}
    (hf : xs.length ≤ fuel) : h.sequence fuel first = some xs := by
  obtain ⟨rfl, hnd, hc⟩ := hr
  cases xs with
  | nil => rfl
  | cons a rest => exact Seg.through hc (List.nodup_cons.1 hnd).1 hf

end Read

end CassandraApi.Lib
