/-
# `Rings` — the ring macros as operations on lists

A program has many rings: a variable `first i` for each, and one heap in which
all their nodes lie.  `Lists` is what they stand for, a list for each variable
and a set of nodes that are in none of them and have both links NULL.
`Represents` relates the two, and keeps the rings apart from each other.

A use of a macro takes one ring and one item.  On the list of that ring it is

    LINKEDLIST_APPEND     xs ++ [item]
    LINKEDLIST_PREPEND    item :: xs
    LINKEDLIST_REMOVE     xs without the item
    LINKEDLIST_SHUFFLE    xs without the item, and the item behind it

Every use changes the links of the item and of the members of its ring only, so
the relation is kept use by use, and along every sequence of uses.
-/
import CassandraApi.Lib.Machine
import CassandraApi.Linkedlist

namespace CassandraApi

open C Lib

inductive RingOp where
  | append
  | prepend
  | remove
  | shuffle
  deriving DecidableEq

/-- A use of a macro. -/
structure RingUse (ι α : Type) where
  op : RingOp
  ring : ι
  item : α

variable {ι α : Type}

/-! ## The variables and the heap -/

structure Rings (ι α : Type) where
  first : ι → Option α
  heap : Heap α

section Uses

variable [DecidableEq ι] [DecidableEq α]

def RingOp.run : RingOp → Option α → α → Heap α → Except Fault (Option α × Heap α)
  | .append => linkedlistAppend
  | .prepend => linkedlistPrepend
  | .remove => linkedlistRemove
  | .shuffle => linkedlistShuffle

def Rings.step (s : Rings ι α) (u : RingUse ι α) : Except Fault (Rings ι α) := do
  let (first, heap) ← u.op.run (s.first u.ring) u.item s.heap
  pure ⟨Function.update s.first u.ring first, heap⟩

/-! ## The lists -/

structure Lists (ι α : Type) where
  list : ι → List α
  detached : Set α

def RingOp.onList : RingOp → List α → α → List α
  | .append, xs, item => xs ++ [item]
  | .prepend, xs, item => item :: xs
  | .remove, xs, item => xs.erase item
  | .shuffle, xs, item => xs.erase item ++ [item]

def RingOp.onDetached : RingOp → Set α → α → Set α
  | .append, d, item => d \ {item}
  | .prepend, d, item => d \ {item}
  | .remove, d, item => insert item d
  | .shuffle, d, _ => d

def Lists.apply (ls : Lists ι α) (u : RingUse ι α) : Lists ι α where
  list := Function.update ls.list u.ring (u.op.onList (ls.list u.ring) u.item)
  detached := u.op.onDetached ls.detached u.item

end Uses

/-- What an item has to be. -/
def RingOp.Takes : RingOp → List α → Set α → α → Prop
  | .append, _, d, item => item ∈ d
  | .prepend, _, d, item => item ∈ d
  | .remove, xs, d, item => item ∈ xs ∨ item ∈ d
  | .shuffle, xs, _, item => item ∈ xs

def Lists.Permits (ls : Lists ι α) (u : RingUse ι α) : Prop :=
  u.op.Takes (ls.list u.ring) ls.detached u.item

/-- The rings are the lists, no two of them have a node in common, and the detached nodes have
both links NULL. -/
structure Represents (ls : Lists ι α) (s : Rings ι α) : Prop where
  ring : ∀ i, IsRing s.heap (s.first i) (ls.list i)
  apart : ∀ i j, i ≠ j → (ls.list i).Disjoint (ls.list j)
  detached : ∀ a ∈ ls.detached, s.heap a = some ⟨none, none⟩

/-- Each list is what is read from its variable through `next`. -/
def Rings.ReadsAs [DecidableEq α] (s : Rings ι α) (ls : Lists ι α) : Prop :=
  ∀ i fuel, (ls.list i).length ≤ fuel → s.heap.sequence fuel (s.first i) = some (ls.list i)

theorem Represents.reads [DecidableEq α] {ls : Lists ι α} {s : Rings ι α} (rep : Represents ls s) :
    s.ReadsAs ls :=
  fun i _ hf => (rep.ring i).sequence hf

/-! ## One use -/

section Step

variable {h : Heap α} {first : Option α} {xs : List α} {d : Set α} {item : α}

theorem unlinked_not_mem (hr : IsRing h first xs) (hi : h item = some ⟨none, none⟩) :
    item ∉ xs := by
  intro hx
  obtain ⟨⟨n, -, hn⟩, -⟩ := hr.cycle.links hx
  simp [Heap.next, hi] at hn

variable [DecidableEq α] {op : RingOp} {a : α}

/-- One use, on the ring it is about. -/
theorem RingOp.run_ring (hr : IsRing h first xs)
    (hd : ∀ a ∈ d, h a = some ⟨none, none⟩) (ht : op.Takes xs d item) :
    ∃ first' h', op.run first item h = .ok (first', h') ∧ IsRing h' first' (op.onList xs item) ∧
      (∀ a, a ≠ item → a ∉ xs → h' a = h a) ∧
      (op = .remove → h' item = some ⟨none, none⟩) := by
  have alloc : item ∈ d → (h item).isSome := fun hi => by
    rw [hd item hi]
    rfl
  have outside : ∀ h', SameElse (item :: xs) h h' → ∀ a, a ≠ item → a ∉ xs → h' a = h a :=
    fun h' same a hne hx => same.outside a (by simp [hne, hx])
  cases op with
  | append =>
    obtain ⟨first', h', hrun, hr', same⟩ :=
      linkedlistAppend_ring hr (unlinked_not_mem hr (hd item ht)) (alloc ht)
    exact ⟨first', h', hrun, hr', outside h' same, nofun⟩
  | prepend =>
    obtain ⟨first', h', hrun, hr', same⟩ :=
      linkedlistPrepend_ring hr (unlinked_not_mem hr (hd item ht)) (alloc ht)
    exact ⟨first', h', hrun, hr', outside h' same, nofun⟩
  | remove =>
    by_cases hx : item ∈ xs
    · obtain ⟨first', h', hrun, hr', same, hlinks⟩ := linkedlistRemove_ring hr hx
      exact ⟨first', h', hrun, hr', outside h' (same.mono _ fun _ => List.mem_cons_of_mem item),
        fun _ => hlinks⟩
    · have hlinks := hd item (ht.resolve_left hx)
      refine ⟨first, h, linkedlistRemove_unlinked first hlinks, ?_, fun _ _ _ => rfl,
        fun _ => hlinks⟩
      rw [RingOp.onList, List.erase_of_not_mem hx]
      exact hr
  | shuffle =>
    obtain ⟨first', h', hrun, hr', same⟩ := linkedlistShuffle_ring hr ht
    exact ⟨first', h', hrun, hr', outside h' (same.mono _ fun _ => List.mem_cons_of_mem item),
      nofun⟩

theorem RingOp.onList_mem (ha : a ∈ op.onList xs item) : a = item ∨ a ∈ xs := by
  cases op with
  | append => exact (List.mem_append.1 ha).symm.imp_left List.mem_singleton.1
  | prepend => exact List.mem_cons.1 ha
  | remove => exact .inr (List.mem_of_mem_erase ha)
  | shuffle =>
    exact (List.mem_append.1 ha).symm.imp List.mem_singleton.1 List.mem_of_mem_erase

theorem RingOp.onDetached_mem (ht : op.Takes xs d item) (hd : ∀ a ∈ d, a ∉ xs)
    (ha : a ∈ op.onDetached d item) : (a ∈ d ∧ a ≠ item) ∨ (op = .remove ∧ a = item) := by
  cases op with
  | append => exact .inl ha
  | prepend => exact .inl ha
  | remove =>
    by_cases hai : a = item
    · exact .inr ⟨rfl, hai⟩
    · exact .inl ⟨(Set.mem_insert_iff.1 ha).resolve_left hai, hai⟩
  | shuffle =>
    refine .inl ⟨ha, ?_⟩
    rintro rfl
    exact hd a ha ht

end Step

/-! ## The family -/

section Family

variable [DecidableEq ι] [DecidableEq α] {ls : Lists ι α} {s : Rings ι α} {u : RingUse ι α}

omit [DecidableEq ι] [DecidableEq α] in
theorem Represents.detached_not_mem (rep : Represents ls s) {a : α} (ha : a ∈ ls.detached) (i : ι) :
    a ∉ ls.list i :=
  unlinked_not_mem (rep.ring i) (rep.detached a ha)

omit [DecidableEq ι] [DecidableEq α] in
/-- The item is in no other ring. -/
theorem Represents.item_not_mem (rep : Represents ls s) (hp : ls.Permits u) {i : ι}
    (hi : i ≠ u.ring) : u.item ∉ ls.list i := by
  have hmem : u.item ∈ ls.list u.ring ∨ u.item ∈ ls.detached := by
    unfold Lists.Permits at hp
    cases hop : u.op with
    | append => exact .inr (by rwa [hop] at hp)
    | prepend => exact .inr (by rwa [hop] at hp)
    | remove => rwa [hop] at hp
    | shuffle => exact .inl (by rwa [hop] at hp)
  rcases hmem with hmem | hmem
  · exact rep.apart u.ring i hi.symm hmem
  · exact rep.detached_not_mem hmem i

/-- The relation is kept, and the other rings are not touched. -/
theorem Represents.step (rep : Represents ls s) (hp : ls.Permits u) :
    ∃ s', s.step u = .ok s' ∧ Represents (ls.apply u) s' ∧
      (∀ i, i ≠ u.ring → s'.first i = s.first i ∧ ∀ a ∈ ls.list i, s'.heap a = s.heap a) ∧
      (u.op = .remove → s'.heap u.item = some ⟨none, none⟩) := by
  obtain ⟨first', h', hrun, hr', same, hrem⟩ := RingOp.run_ring (rep.ring u.ring) rep.detached hp
  have others : ∀ i, i ≠ u.ring → ∀ a ∈ ls.list i, h' a = s.heap a := by
    intro i hi a ha
    refine same a ?_ (rep.apart i u.ring hi ha)
    rintro rfl
    exact rep.item_not_mem hp hi ha
  have apart : ∀ i, i ≠ u.ring → (u.op.onList (ls.list u.ring) u.item).Disjoint (ls.list i) := by
    intro i hi a ha ha'
    rcases RingOp.onList_mem ha with rfl | ha
    · exact rep.item_not_mem hp hi ha'
    · exact rep.apart u.ring i hi.symm ha ha'
  refine ⟨⟨Function.update s.first u.ring first', h'⟩, ?_, ⟨?_, ?_, ?_⟩, ?_, hrem⟩
  · simp only [Rings.step, hrun, ok_bind, pure_eq_ok]
  · intro i
    by_cases hi : i = u.ring
    · subst hi
      simpa only [Lists.apply, Function.update_self] using hr'
    · simpa only [Lists.apply, Function.update_of_ne hi] using (rep.ring i).congr (others i hi)
  · intro i j hij
    by_cases hi : i = u.ring
    · subst hi
      simpa only [Lists.apply, Function.update_self, Function.update_of_ne hij.symm] using
        apart j hij.symm
    · by_cases hj : j = u.ring
      · subst hj
        simpa only [Lists.apply, Function.update_self, Function.update_of_ne hi] using
          (apart i hi).symm
      · simpa only [Lists.apply, Function.update_of_ne hi, Function.update_of_ne hj] using
          rep.apart i j hij
  · intro a ha
    have hd : ∀ a ∈ ls.detached, a ∉ ls.list u.ring := fun a ha => rep.detached_not_mem ha u.ring
    rcases RingOp.onDetached_mem hp hd ha with ⟨ha, hne⟩ | ⟨hop, rfl⟩
    · exact (same a hne (hd a ha)).trans (rep.detached a ha)
    · exact hrem hop
  · exact fun i hi => ⟨Function.update_of_ne hi .., others i hi⟩

/-- A use of a macro acts on the sequences that are read as it does on the lists, and so does every
sequence of uses. -/
theorem ring_uses_refine (rep : Represents ls s) :
    (∀ u, ls.Permits u → ∃ s', s.step u = .ok s' ∧
      Represents (ls.apply u) s' ∧ s'.ReadsAs (ls.apply u) ∧
      (∀ i, i ≠ u.ring → s'.first i = s.first i ∧ ∀ a ∈ ls.list i, s'.heap a = s.heap a) ∧
      (u.op = .remove → s'.heap u.item = some ⟨none, none⟩)) ∧
    ∀ us, Permitted Lists.apply Lists.Permits ls us → ∃ s', run Rings.step s us = .ok s' ∧
      Represents (us.foldl Lists.apply ls) s' ∧ s'.ReadsAs (us.foldl Lists.apply ls) := by
  constructor
  · intro u hp
    obtain ⟨s', hstep, rep', others, hrem⟩ := rep.step hp
    exact ⟨s', hstep, rep', rep'.reads, others, hrem⟩
  · intro us hp
    have follow : ∀ ls (s : Rings ι α) u, Represents ls s → Lists.Permits ls u →
        ∃ s', s.step u = .ok s' ∧ Represents (ls.apply u) s' := by
      intro ls s u rep hp
      obtain ⟨s', hstep, rep', -⟩ := rep.step hp
      exact ⟨s', hstep, rep'⟩
    obtain ⟨s', hrun, rep'⟩ := run_refines follow rep hp
    exact ⟨s', hrun, rep', rep'.reads⟩

/-- Two variables, and nodes that are all detached. -/
theorem ring_uses_refine_moves :
    ∃ s', run Rings.step (⟨fun _ => none, fun _ => some ⟨none, none⟩⟩ : Rings Bool Nat)
        [⟨.append, false, 0⟩, ⟨.append, false, 1⟩, ⟨.prepend, false, 2⟩, ⟨.shuffle, false, 0⟩,
          ⟨.remove, false, 2⟩, ⟨.append, true, 2⟩] = .ok s' ∧
      s'.heap.sequence 2 (s'.first false) = some [1, 0] ∧
      s'.heap.sequence 1 (s'.first true) = some [2] := by
  have rep : Represents (⟨fun _ => [], Set.univ⟩ : Lists Bool Nat)
      ⟨fun _ => none, fun _ => some ⟨none, none⟩⟩ :=
    ⟨fun _ => .empty, fun _ _ _ => List.disjoint_nil_left [], fun _ _ => rfl⟩
  obtain ⟨s', hrun, -, reads⟩ := (ring_uses_refine rep).2
    [⟨.append, false, 0⟩, ⟨.append, false, 1⟩, ⟨.prepend, false, 2⟩, ⟨.shuffle, false, 0⟩,
      ⟨.remove, false, 2⟩, ⟨.append, true, 2⟩]
    (by simp [Permitted, Lists.Permits, Lists.apply, RingOp.Takes, RingOp.onList,
      RingOp.onDetached])
  exact ⟨s', hrun, reads false 2 (by decide), reads true 1 (by decide)⟩

end Family

end CassandraApi
