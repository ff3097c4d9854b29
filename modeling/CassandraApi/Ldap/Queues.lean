/-
# `Ldap.Queues` — the two rings of a client

`ready_queue` and `wait_queue` share the links of the connections.  The
operations of the client move a connection from one to the other in three ways:

    toReady    wait_queue to the end of ready_queue
    toWait     ready_queue to the end of wait_queue
    requeue    to the end of ready_queue

`Rings q ready wait` says what the two are; there is one lemma for each way to
change them.  A connection that is on neither ring has both links NULL, and is
not disturbed.
-/
import CassandraApi.Linkedlist

namespace CassandraApi.Ldap

open C Lib

/-- Where an LDAP_CLNT lies. -/
abbrev Ptr := Nat

/-- The links of the connections, and the entries of the two rings. -/
structure Queues where
  links : Heap Ptr := fun _ => none
  readyQueue : Option Ptr := none
  waitQueue : Option Ptr := none

namespace Queues

/-- LINKEDLIST_REMOVE(dc->ready_queue, lc) -/
def removeReady (c : Ptr) (q : Queues) : Except Fault Queues := do
  let (first, links) ← linkedlistRemove q.readyQueue c q.links
  pure { q with readyQueue := first, links := links }

/-- LINKEDLIST_APPEND(dc->ready_queue, lc) -/
def appendReady (c : Ptr) (q : Queues) : Except Fault Queues := do
  let (first, links) ← linkedlistAppend q.readyQueue c q.links
  pure { q with readyQueue := first, links := links }

/-- LINKEDLIST_REMOVE(dc->wait_queue, lc) -/
def removeWait (c : Ptr) (q : Queues) : Except Fault Queues := do
  let (first, links) ← linkedlistRemove q.waitQueue c q.links
  pure { q with waitQueue := first, links := links }

/-- LINKEDLIST_APPEND(dc->wait_queue, lc) -/
def appendWait (c : Ptr) (q : Queues) : Except Fault Queues := do
  let (first, links) ← linkedlistAppend q.waitQueue c q.links
  pure { q with waitQueue := first, links := links }

/-- Out of the ring the state stands for. -/
def leave (c : Ptr) (ready : Prop) [Decidable ready] (q : Queues) : Except Fault Queues :=
  if ready then q.removeReady c else q.removeWait c

def toReady (c : Ptr) (q : Queues) : Except Fault Queues := do
  let q ← q.removeWait c
  q.appendReady c

def toWait (c : Ptr) (q : Queues) : Except Fault Queues := do
  let q ← q.removeReady c
  q.appendWait c

def requeue (c : Ptr) (q : Queues) : Except Fault Queues := do
  let q ← q.removeReady c
  q.appendReady c

end Queues

/-- The walk along wait_queue in search of a connection, from `k` round to `first`. -/
def findInRing (links : Heap Ptr) (c first : Ptr) : Nat → Ptr → Except Fault Bool
  | 0, _ => .error .stuck
  | left + 1, k =>
    if c = k then .ok true
    else do
      let next ← deref (← links.node k).next
      if next = first then .ok false else findInRing links c first left next

/-! ## Well-formed queues -/

/-- Two well-formed rings without a common member. -/
structure Rings (q : Queues) (ready wait : List Ptr) : Prop where
  readyRing : IsRing q.links q.readyQueue ready
  waitRing : IsRing q.links q.waitQueue wait
  once : (ready ++ wait).Nodup

namespace Rings

variable {q : Queues} {ready wait : List Ptr} {c : Ptr}

theorem disjoint (h : Rings q ready wait) (hc : c ∈ ready) : c ∉ wait :=
  fun hw => (List.nodup_append.1 h.once).2.2 c hc c hw rfl

/-- Links of other nodes do not matter. -/
theorem congr {links : Heap Ptr} (h : Rings q ready wait)
    (same : ∀ y ∈ ready ++ wait, links y = q.links y) :
    Rings { q with links := links } ready wait where
  readyRing := h.readyRing.congr fun y hy => same y (List.mem_append_left _ hy)
  waitRing := h.waitRing.congr fun y hy => same y (List.mem_append_right _ hy)
  once := h.once

/-- Members are allocated. -/
theorem alloc (h : Rings q ready wait) (hc : c ∈ ready ++ wait) : (q.links c).isSome := by
  rcases List.mem_append.1 hc with hc | hc
  · obtain ⟨⟨_, -, hn⟩, -⟩ := h.readyRing.cycle.links hc
    exact alloc_of_next hn
  · obtain ⟨⟨_, -, hn⟩, -⟩ := h.waitRing.cycle.links hc
    exact alloc_of_next hn

theorem appendReady (h : Rings q ready wait) (new : c ∉ ready ++ wait)
    (hc : (q.links c).isSome) :
    ∃ q', q.appendReady c = .ok q' ∧ Rings q' (ready ++ [c]) wait ∧
      SameElse (c :: ready) q.links q'.links := by
  have newr : c ∉ ready := fun hm => new (List.mem_append_left _ hm)
  have neww : c ∉ wait := fun hm => new (List.mem_append_right _ hm)
  obtain ⟨first, links, e, ring, same⟩ := linkedlistAppend_ring h.readyRing newr hc
  refine ⟨{ q with readyQueue := first, links := links }, ?_, ⟨ring, ?_, ?_⟩, same⟩
  · simp only [Queues.appendReady, e, ok_bind, pure_eq_ok]
  · refine h.waitRing.congr fun y hy => same.outside y ?_
    rintro hm
    rcases List.mem_cons.1 hm with rfl | hm
    · exact neww hy
    · exact h.disjoint hm hy
  · rw [List.append_assoc, List.singleton_append]
    exact (List.nodup_middle).2 (List.nodup_cons.2 ⟨new, h.once⟩)

theorem appendWait (h : Rings q ready wait) (new : c ∉ ready ++ wait)
    (hc : (q.links c).isSome) :
    ∃ q', q.appendWait c = .ok q' ∧ Rings q' ready (wait ++ [c]) ∧
      SameElse (c :: wait) q.links q'.links := by
  have newr : c ∉ ready := fun hm => new (List.mem_append_left _ hm)
  have neww : c ∉ wait := fun hm => new (List.mem_append_right _ hm)
  obtain ⟨first, links, e, ring, same⟩ := linkedlistAppend_ring h.waitRing neww hc
  refine ⟨{ q with waitQueue := first, links := links }, ?_, ⟨?_, ring, ?_⟩, same⟩
  · simp only [Queues.appendWait, e, ok_bind, pure_eq_ok]
  · refine h.readyRing.congr fun y hy => same.outside y ?_
    rintro hm
    rcases List.mem_cons.1 hm with rfl | hm
    · exact newr hy
    · exact h.disjoint hy hm
  · rw [← List.append_assoc]
    exact (List.nodup_append.2 ⟨h.once, List.nodup_singleton c, fun y hy z hz => by
      rw [List.mem_singleton.1 hz]
      exact fun e => new (e ▸ hy)⟩)

theorem removeReady (h : Rings q ready wait) (hc : c ∈ ready) :
    ∃ q', q.removeReady c = .ok q' ∧ Rings q' (ready.erase c) wait ∧
      SameElse ready q.links q'.links ∧ q'.links c = some {} := by
  obtain ⟨first, links, e, ring, same, clear⟩ := linkedlistRemove_ring h.readyRing hc
  refine ⟨{ q with readyQueue := first, links := links }, ?_, ⟨ring, ?_, ?_⟩, same, clear⟩
  · simp only [Queues.removeReady, e, ok_bind, pure_eq_ok]
  · exact h.waitRing.congr fun y hy => same.outside y fun hm => h.disjoint hm hy
  · rw [← List.erase_append_left _ hc]
    exact h.once.erase c

theorem removeWait (h : Rings q ready wait) (hc : c ∈ wait) :
    ∃ q', q.removeWait c = .ok q' ∧ Rings q' ready (wait.erase c) ∧
      SameElse wait q.links q'.links ∧ q'.links c = some {} := by
  obtain ⟨first, links, e, ring, same, clear⟩ := linkedlistRemove_ring h.waitRing hc
  refine ⟨{ q with waitQueue := first, links := links }, ?_, ⟨?_, ring, ?_⟩, same, clear⟩
  · simp only [Queues.removeWait, e, ok_bind, pure_eq_ok]
  · exact h.readyRing.congr fun y hy => same.outside y fun hm => h.disjoint hy hm
  · rw [← List.erase_append_right _ fun hr => h.disjoint hr hc]
    exact h.once.erase c

variable (h : Rings q ready wait)
include h

theorem toReady (hc : c ∈ wait) :
    ∃ q', q.toReady c = .ok q' ∧ Rings q' (ready ++ [c]) (wait.erase c) ∧
      SameElse (ready ++ wait) q.links q'.links := by
  obtain ⟨q1, e1, r1, s1, l1⟩ := h.removeWait hc
  have new : c ∉ ready ++ wait.erase c := fun hm => by
    rcases List.mem_append.1 hm with hr | hw
    · exact h.disjoint hr hc
    · exact ((List.nodup_append.1 h.once).2.1).not_mem_erase hw
  obtain ⟨q2, e2, r2, s2⟩ := r1.appendReady new (by rw [l1]; rfl)
  refine ⟨q2, ?_, r2, (s1.mono _ ?_).trans (s2.mono _ ?_)⟩
  · simp only [Queues.toReady, e1, e2, ok_bind]
  · exact fun y hy => List.mem_append_right _ hy
  · intro y hy
    rcases List.mem_cons.1 hy with rfl | hy
    · exact List.mem_append_right _ hc
    · exact List.mem_append_left _ hy

theorem toWait (hc : c ∈ ready) :
    ∃ q', q.toWait c = .ok q' ∧ Rings q' (ready.erase c) (wait ++ [c]) ∧
      SameElse (ready ++ wait) q.links q'.links := by
  obtain ⟨q1, e1, r1, s1, l1⟩ := h.removeReady hc
  have new : c ∉ ready.erase c ++ wait := fun hm => by
    rcases List.mem_append.1 hm with hr | hw
    · exact ((List.nodup_append.1 h.once).1).not_mem_erase hr
    · exact h.disjoint hc hw
  obtain ⟨q2, e2, r2, s2⟩ := r1.appendWait new (by rw [l1]; rfl)
  refine ⟨q2, ?_, r2, (s1.mono _ ?_).trans (s2.mono _ ?_)⟩
  · simp only [Queues.toWait, e1, e2, ok_bind]
  · exact fun y hy => List.mem_append_left _ hy
  · intro y hy
    rcases List.mem_cons.1 hy with rfl | hy
    · exact List.mem_append_left _ hc
    · exact List.mem_append_right _ hy

theorem requeue (hc : c ∈ ready) :
    ∃ q', q.requeue c = .ok q' ∧ Rings q' (ready.erase c ++ [c]) wait ∧
      SameElse (ready ++ wait) q.links q'.links := by
  obtain ⟨q1, e1, r1, s1, l1⟩ := h.removeReady hc
  have new : c ∉ ready.erase c ++ wait := fun hm => by
    rcases List.mem_append.1 hm with hr | hw
    · exact ((List.nodup_append.1 h.once).1).not_mem_erase hr
    · exact h.disjoint hc hw
  obtain ⟨q2, e2, r2, s2⟩ := r1.appendReady new (by rw [l1]; rfl)
  refine ⟨q2, ?_, r2, (s1.mono _ ?_).trans (s2.mono _ ?_)⟩
  · simp only [Queues.requeue, e1, e2, ok_bind]
  · exact fun y hy => List.mem_append_left _ hy
  · intro y hy
    rcases List.mem_cons.1 hy with rfl | hy
    · exact List.mem_append_left _ hc
    · exact List.mem_append_left _ (List.mem_of_mem_erase hy)

end Rings

/-! ## The walk -/

/-- Whether the connection is found in wait_queue. -/
def Queues.waits (c : Ptr) (q : Queues) (left : Nat) : Except Fault Bool :=
  match q.waitQueue with
  | none => .ok false
  | some first => findInRing q.links c first left first

end CassandraApi.Ldap
