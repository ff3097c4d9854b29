/-
# `Linkedlist` — the ring macros of linkedlist.h

The macros work on the `prev` and `next` links of the nodes, whatever else a
node holds, and on the variable that points to the first node.  They are
functions of that variable and of the heap of links; a dereference of NULL is
the fault `null`, of a node that is not allocated the fault `freed`.

Each assignment of a macro is one line here, in the order of the source.
-/
import CassandraApi.C.Memory
import CassandraApi.Lib.Ring

namespace CassandraApi

open C Lib

variable {α : Type}

/-! ## Reading the links -/

/-- `*p`. -/
def deref : Option α → Except Fault α
  | none => .error .null
  | some a => .ok a

/-- The node at `a`. -/
def Lib.Heap.node (h : Heap α) (a : α) : Except Fault (Node α) :=
  match h a with
  | none => .error .freed
  | some n => .ok n

/-! ## What a change of links leaves alone -/

section

variable {h h' : Heap α} {a b : α}

/-- `h'` is `h` but for the links of the nodes in `changed`. -/
structure SameElse (changed : List α) (h h' : Heap α) : Prop where
  outside : ∀ y, y ∉ changed → h' y = h y
  alloc : ∀ y, (h' y).isSome = (h y).isSome

theorem SameElse.trans {h'' : Heap α} {changed : List α} (s : SameElse changed h h')
    (t : SameElse changed h' h'') : SameElse changed h h'' :=
  ⟨fun y hy => (t.outside y hy).trans (s.outside y hy), fun y => (t.alloc y).trans (s.alloc y)⟩

theorem SameElse.mono {changed : List α} (more : List α) (s : SameElse changed h h')
    (hc : ∀ y ∈ changed, y ∈ more) : SameElse more h h' :=
  ⟨fun y hy => s.outside y fun hm => hy (hc y hm), s.alloc⟩

theorem alloc_of_next (hn : h.next a = some b) : (h a).isSome := by
  cases ha : h a with
  | none => simp [Heap.next, ha] at hn
  | some => rfl

theorem alloc_of_prev (hp : h.prev a = some b) : (h a).isSome := by
  cases ha : h a with
  | none => simp [Heap.prev, ha] at hp
  | some => rfl

theorem node_eq (ha : (h a).isSome) :
    ∃ n, h.node a = .ok n ∧ n.prev = h.prev a ∧ n.next = h.next a := by
  obtain ⟨n, hn⟩ := Option.isSome_iff_exists.1 ha
  exact ⟨n, by simp [Heap.node, hn], by simp [Heap.prev, hn], by simp [Heap.next, hn]⟩

theorem SameElse.next_eq {changed : List α} (s : SameElse changed h h') {y : α}
    (hy : y ∉ changed) : h'.next y = h.next y := by
  simp [Heap.next, s.outside y hy]

theorem SameElse.prev_eq {changed : List α} (s : SameElse changed h h') {y : α}
    (hy : y ∉ changed) : h'.prev y = h.prev y := by
  simp [Heap.prev, s.outside y hy]

end

/-! ## Writing the links -/

variable [DecidableEq α]

/-- `a->prev = v`. -/
def Lib.Heap.setPrev (h : Heap α) (a : α) (v : Option α) : Except Fault (Heap α) := do
  let n ← h.node a
  pure (Function.update h a (some { n with prev := v }))

/-- `a->next = v`. -/
def Lib.Heap.setNext (h : Heap α) (a : α) (v : Option α) : Except Fault (Heap α) := do
  let n ← h.node a
  pure (Function.update h a (some { n with next := v }))

/-! ## The macros -/

/-- LINKEDLIST_APPEND(_first, _item) -/
def linkedlistAppend (first : Option α) (item : α) (h : Heap α) :
    Except Fault (Option α × Heap α) :=
  match first with
  | none => do
      let h ← h.setNext item (some item)
      let h ← h.setPrev item (some item)
      pure (some item, h)
  | some f => do
      let h ← h.setPrev item (← h.node f).prev
      let h ← h.setNext item (some f)
      let h ← h.setNext (← deref (← h.node f).prev) (some item)
      let h ← h.setPrev f (some item)
      pure (some f, h)

/-- The four assignments that put an item in front of `f`. -/
def linkBefore (f item : α) (h : Heap α) : Except Fault (Heap α) := do
  let h ← h.setPrev item (← h.node f).prev
  let h ← h.setNext item (some f)
  let h ← h.setNext (← deref (← h.node f).prev) (some item)
  h.setPrev f (some item)

/-- LINKEDLIST_PREPEND(_first, _item) -/
def linkedlistPrepend (first : Option α) (item : α) (h : Heap α) :
    Except Fault (Option α × Heap α) :=
  match first with
  | none => do
      let h ← h.setNext item (some item)
      let h ← h.setPrev item (some item)
      pure (some item, h)
  | some f => do
      let h ← linkBefore f item h
      pure (some item, h)

/-- LINKEDLIST_REMOVE up to its last line: `it` are the links of the item. -/
def unlinkItem (first : Option α) (item : α) (it : Node α) (h : Heap α) :
    Except Fault (Option α × Heap α) :=
  match it.prev, it.next with
  | some p, some n =>
      if first = some item ∧ n = item then pure (none, h)
      else do
        let h ← h.setPrev n (some p)
        let h ← h.setNext p (some n)
        pure (if first = some item then some n else first, h)
  | _, _ => pure (first, h)

/-- LINKEDLIST_REMOVE(_first, _item) -/
def linkedlistRemove (first : Option α) (item : α) (h : Heap α) :
    Except Fault (Option α × Heap α) := do
  let it ← h.node item
  let (first, h) ← unlinkItem first item it h
  let h ← h.setNext item none
  let h ← h.setPrev item none
  pure (first, h)

/-- The two assignments that make the neighbours of an item each other's. -/
def bridge (item : α) (h : Heap α) : Except Fault (Heap α) := do
  let h ← h.setPrev (← deref (← h.node item).next) (← h.node item).prev
  h.setNext (← deref (← h.node item).prev) (← h.node item).next

/-- LINKEDLIST_SHUFFLE(_first, _item) -/
def linkedlistShuffle (first : Option α) (item : α) (h : Heap α) :
    Except Fault (Option α × Heap α) :=
  if first = some item then do
    if (← h.node item).next = some item then pure (first, h)
    else do
      let first := (← h.node item).next
      let h ← bridge item h
      let h ← linkBefore (← deref first) item h
      pure (first, h)
  else do
    let h ← bridge item h
    let h ← linkBefore (← deref first) item h
    pure (first, h)

/-! ## What they do to a ring -/

section Spec

variable {h h' : Heap α} {first : Option α} {item a b : α} {xs : List α} {v : Option α}

theorem sameElse_update (ha : (h a).isSome) (n : Node α) :
    SameElse [a] h (Function.update h a (some n)) := by
  constructor
  · intro y hy
    exact Function.update_of_ne (by simpa using hy) _ _
  · intro y
    by_cases hy : y = a
    · subst hy
      rw [Function.update_self, ha]
      rfl
    · rw [Function.update_of_ne hy]

theorem setPrev_eq (ha : (h a).isSome) (v : Option α) :
    ∃ h', h.setPrev a v = .ok h' ∧ SameElse [a] h h' ∧ (∀ y, h'.next y = h.next y) ∧
      h'.prev a = v := by
  obtain ⟨n, hn⟩ := Option.isSome_iff_exists.1 ha
  refine ⟨Function.update h a (some { n with prev := v }),
    by simp only [Heap.setPrev, Heap.node, hn, ok_bind, pure_eq_ok],
    sameElse_update ha _, ?_, by simp [Heap.prev]⟩
  intro y
  by_cases hy : y = a
  · subst hy
    simp [Heap.next, hn]
  · simp [Heap.next, hy]

theorem setNext_eq (ha : (h a).isSome) (v : Option α) :
    ∃ h', h.setNext a v = .ok h' ∧ SameElse [a] h h' ∧ (∀ y, h'.prev y = h.prev y) ∧
      h'.next a = v := by
  obtain ⟨n, hn⟩ := Option.isSome_iff_exists.1 ha
  refine ⟨Function.update h a (some { n with next := v }),
    by simp only [Heap.setNext, Heap.node, hn, ok_bind, pure_eq_ok],
    sameElse_update ha _, ?_, by simp [Heap.next]⟩
  intro y
  by_cases hy : y = a
  · subst hy
    simp [Heap.prev, hn]
  · simp [Heap.prev, hy]

/-- The item becomes the last member; nothing outside the ring changes. -/
theorem linkedlistAppend_ring (hr : IsRing h first xs) (new : item ∉ xs)
    (alloc : (h item).isSome) :
    ∃ first' h', linkedlistAppend first item h = .ok (first', h') ∧
      IsRing h' first' (xs ++ [item]) ∧ SameElse (item :: xs) h h' := by
  cases xs with
  | nil =>
    obtain rfl : first = none := hr.head
    obtain ⟨h1, e1, s1, p1, n1⟩ := setNext_eq alloc (some item)
    obtain ⟨h2, e2, s2, n2, p2⟩ := setPrev_eq (h := h1) (by rw [s1.alloc, alloc]) (some item)
    refine ⟨some item, h2, ?_, IsRing.singleton ((n2 item).trans n1) p2, s1.trans s2⟩
    simp only [linkedlistAppend, e1, e2, ok_bind, pure_eq_ok]
  | cons a rest =>
    obtain rfl : first = some a := hr.head
    have ha := hr.cycle.links (List.mem_cons_self (a := a))
    obtain ⟨⟨_, -, hna⟩, l, hl, hpa⟩ := ha
    have aalloc := alloc_of_next hna
    have lalloc : (h l).isSome := by
      obtain ⟨⟨_, -, hnl⟩, -⟩ := hr.cycle.links hl
      exact alloc_of_next hnl
    have hia : item ≠ a := fun e => new (e ▸ List.mem_cons_self)
    have hil : item ≠ l := fun e => new (e ▸ hl)
    obtain ⟨n, en, enp, -⟩ := node_eq aalloc
    obtain ⟨h1, e1, s1, n1, p1⟩ := setPrev_eq alloc n.prev
    obtain ⟨h2, e2, s2, p2, n2⟩ := setNext_eq (h := h1) (by rw [s1.alloc, alloc]) (some a)
    have hpa2 : h2.prev a = some l := by
      rw [p2, s1.prev_eq (by simpa using hia.symm), hpa]
    obtain ⟨m, em, emp, -⟩ := node_eq (alloc_of_prev hpa2)
    obtain ⟨h3, e3, s3, p3, n3⟩ := setNext_eq (h := h2) (a := l)
      (by rw [s2.alloc, s1.alloc, lalloc]) (some item)
    obtain ⟨h4, e4, s4, n4, p4⟩ := setPrev_eq (h := h3) (a := a)
      (by rw [s3.alloc, s2.alloc, s1.alloc, aalloc]) (some item)
    refine ⟨some a, h4, ?_, ?_, ?_⟩
    · simp only [linkedlistAppend, en, e1, e2, em, emp, hpa2, deref, e3, e4, ok_bind, pure_eq_ok]
    · have hnext : ∀ y, y ≠ l → y ≠ item → h4.next y = h.next y := fun y hyl hyi => by
        rw [n4, s3.next_eq (by simpa using hyl), s2.next_eq (by simpa using hyi), n1]
      have hprev : ∀ y, y ≠ a → y ≠ item → h4.prev y = h.prev y := fun y hya hyi => by
        rw [s4.prev_eq (by simpa using hya), p3, p2, s1.prev_eq (by simpa using hyi)]
      refine hr.insert new hpa (by rw [n4, n3]) ?_ ?_ p4 ?_ ?_
      · rw [s4.prev_eq (by simpa using hia), p3, p2, p1, enp, hpa]
      · rw [n4, s3.next_eq (by simpa using hil), n2]
      · intro y hy hyl
        exact hnext y hyl fun e => new (e ▸ hy)
      · intro y hy
        refine hprev y ?_ fun e => new (e ▸ List.mem_cons_of_mem a hy)
        rintro rfl
        exact (List.nodup_cons.1 hr.nodup).1 hy
    · have m1 := s1.mono (item :: a :: rest) (by simp)
      have m2 := s2.mono (item :: a :: rest) (by simp)
      have m3 := s3.mono (item :: a :: rest) (by
        intro y hy
        rw [List.mem_singleton.1 hy]
        exact List.mem_cons_of_mem item hl)
      have m4 := s4.mono (item :: a :: rest) (by simp)
      exact ((m1.trans m2).trans m3).trans m4

/-- LINKEDLIST_APPEND to a ring that has a first member. -/
theorem linkBefore_iff :
    linkBefore f item h = .ok h' ↔ linkedlistAppend (some f) item h = .ok (some f, h') := by
  simp only [linkBefore, linkedlistAppend, bind_eq_ok, pure_eq_ok, Except.ok.injEq, Prod.mk.injEq,
    true_and, exists_eq_right]

theorem linkBefore_ring (hr : IsRing h first xs) (hf : first = some f) (new : item ∉ xs)
    (alloc : (h item).isSome) :
    ∃ h', linkBefore f item h = .ok h' ∧ IsRing h' first (xs ++ [item]) ∧
      SameElse (item :: xs) h h' := by
  subst hf
  obtain ⟨first', h', happ, hr', same⟩ := linkedlistAppend_ring hr new alloc
  have hhead : first' = some f := by
    rw [hr'.head, List.head?_append, ← hr.head]
    rfl
  subst hhead
  exact ⟨h', linkBefore_iff.2 happ, hr', same⟩

/-- The item becomes the first member; nothing outside the ring changes. -/
theorem linkedlistPrepend_ring (hr : IsRing h first xs) (new : item ∉ xs)
    (alloc : (h item).isSome) :
    ∃ first' h', linkedlistPrepend first item h = .ok (first', h') ∧
      IsRing h' first' (item :: xs) ∧ SameElse (item :: xs) h h' := by
  cases first with
  | none =>
    obtain ⟨first', h', happ, hr', same⟩ := linkedlistAppend_ring hr new alloc
    obtain rfl : xs = [] := List.head?_eq_none_iff.1 hr.head.symm
    exact ⟨first', h', happ, hr', same⟩
  | some f =>
    obtain ⟨h', hlink, hr', same⟩ := linkBefore_ring hr rfl new alloc
    refine ⟨some item, h', ?_, hr'.rotate_entry (List.cons_ne_nil item []), same⟩
    simp only [linkedlistPrepend, hlink, ok_bind, pure_eq_ok]

/-- The only member of a ring, appended once more. -/
theorem linkedlistAppend_again (hr : IsRing h (some item) [item]) :
    ∃ h', linkedlistAppend (some item) item h = .ok (some item, h') ∧
      IsRing h' (some item) [item] := by
  obtain ⟨hnext, hprev⟩ : Seg h item [] item := hr.cycle
  obtain ⟨n, en, enp, -⟩ := node_eq (alloc_of_next hnext)
  obtain ⟨h1, e1, s1, n1, p1⟩ := setPrev_eq (alloc_of_next hnext) n.prev
  obtain ⟨h2, e2, s2, p2, n2⟩ := setNext_eq (h := h1) (a := item)
    (by rw [s1.alloc, alloc_of_next hnext]) (some item)
  have hp2 : h2.prev item = some item := by rw [p2, p1, enp, hprev]
  obtain ⟨m, em, emp, -⟩ := node_eq (alloc_of_prev hp2)
  obtain ⟨h3, e3, s3, p3, n3⟩ := setNext_eq (alloc_of_prev hp2) (some item)
  obtain ⟨h4, e4, -, n4, p4⟩ := setPrev_eq (h := h3) (a := item)
    (by rw [s3.alloc, alloc_of_prev hp2]) (some item)
  refine ⟨h4, ?_, IsRing.singleton ((n4 item).trans n3) p4⟩
  simp only [linkedlistAppend, en, e1, e2, em, emp, hp2, deref, e3, e4, ok_bind, pure_eq_ok]

theorem setPrev_ok (hs : h.setPrev a v = .ok h') :
    h'.prev a = v ∧ ∀ y, y ≠ a → h'.prev y = h.prev y := by
  obtain ⟨n, hn, heq⟩ := bind_eq_ok.1 hs
  cases heq
  exact ⟨by simp [Heap.prev], fun y hy => by simp [Heap.prev, hy]⟩

theorem setNext_ok (hs : h.setNext a v = .ok h') (y : α) : h'.prev y = h.prev y := by
  obtain ⟨n, hn, heq⟩ := bind_eq_ok.1 hs
  cases heq
  by_cases hy : y = a
  · subst hy
    unfold Heap.node at hn
    split at hn
    · cases hn
    · rename_i hnode
      cases hn
      simp [Heap.prev, hnode]
  · simp [Heap.prev, hy]

/-- Behind a first node, an appended item is preceded by what preceded the first node; only these
two have new predecessors. -/
theorem linkedlistAppend_prev {f : α} (hne : item ≠ f)
    (ha : linkedlistAppend (some f) item h = .ok (first, h')) :
    first = some f ∧ h'.prev item = h.prev f ∧ ∀ y, y ≠ item → y ≠ f → h'.prev y = h.prev y := by
  simp only [linkedlistAppend, bind_eq_ok] at ha
  obtain ⟨n, hn, h1, e1, h2, e2, m, -, l, -, h3, e3, h4, e4, heq⟩ := ha
  cases heq
  have hnp : n.prev = h.prev f := by
    unfold Heap.node at hn
    split at hn
    · cases hn
    · rename_i hnode
      cases hn
      simp [Heap.prev, hnode]
  have hrest : ∀ y, y ≠ f → h'.prev y = h1.prev y := fun y hy =>
    ((setPrev_ok e4).2 y hy).trans ((setNext_ok e3 y).trans (setNext_ok e2 y))
  refine ⟨rfl, ?_, fun y hyi hyf => (hrest y hyf).trans ((setPrev_ok e1).2 y hyi)⟩
  rw [hrest item hne, (setPrev_ok e1).1, hnp]

/-- The two assignments that end LINKEDLIST_REMOVE. -/
theorem clear_links (ha : (h a).isSome) :
    ∃ h1, h.setNext a none = .ok h1 ∧
      h1.setPrev a none = .ok (Function.update h a (some ⟨none, none⟩)) := by
  obtain ⟨n, hn⟩ := Option.isSome_iff_exists.1 ha
  refine ⟨Function.update h a (some { n with next := none }),
    by simp only [Heap.setNext, Heap.node, hn, ok_bind, pure_eq_ok], ?_⟩
  simp [Heap.setPrev, Heap.node]

/-- A node that is in no ring, with both links NULL, stays so. -/
theorem linkedlistRemove_unlinked (first : Option α) (hi : h item = some ⟨none, none⟩) :
    linkedlistRemove first item h = .ok (first, h) := by
  obtain ⟨h1, e1, e2⟩ := clear_links (h := h) (a := item) (by rw [hi]; rfl)
  simp only [linkedlistRemove, unlinkItem, Heap.node, hi, ok_bind, pure_eq_ok, e1, e2]
  rw [← hi, Function.update_eq_self]

section Unlink

variable {ys zs : List α} {n p : α} {it : Node α}

/-- The neighbours of a member that is not alone are linked to each other. -/
theorem unlinkItem_between (hr : IsRing h first (ys ++ item :: zs)) (hprev : it.prev = some p)
    (hnext : it.next = some n) (hpi : h.prev item = some p) (hni : h.next item = some n)
    (hpx : p ∈ ys ++ item :: zs) (hnx : n ∈ ys ++ item :: zs)
    (hself : ¬ (first = some item ∧ n = item)) :
    ∃ first' h', unlinkItem first item it h = .ok (first', h') ∧ IsRing h' first' (ys ++ zs) ∧
      SameElse (ys ++ item :: zs) h h' := by
  have hnd : (ys ++ zs).Nodup := (List.nodup_cons.1 (List.nodup_middle.1 hr.nodup)).2
  have nalloc : (h n).isSome := by
    obtain ⟨⟨_, -, hn⟩, -⟩ := hr.cycle.links hnx
    exact alloc_of_next hn
  have palloc : (h p).isSome := by
    obtain ⟨⟨_, -, hn⟩, -⟩ := hr.cycle.links hpx
    exact alloc_of_next hn
  obtain ⟨h1, e1, s1, n1, p1⟩ := setPrev_eq nalloc (some p)
  obtain ⟨h2, e2, s2, p2, n2⟩ := setNext_eq (h := h1) (a := p) (by rw [s1.alloc, palloc]) (some n)
  have m1 := s1.mono (ys ++ item :: zs) (by
    intro y hy
    rwa [List.mem_singleton.1 hy])
  have m2 := s2.mono (ys ++ item :: zs) (by
    intro y hy
    rwa [List.mem_singleton.1 hy])
  have cyc : Cycle h2 (ys ++ zs) := by
    refine hr.unlink hpi hni n2 (by rw [p2, p1]) ?_ ?_
    · intro y _ hyp
      rw [s2.next_eq (by simpa using hyp), n1]
    · intro y _ hyn
      rw [p2, s1.prev_eq (by simpa using hyn)]
  refine ⟨if first = some item then some n else first, h2, ?_, ⟨?_, hnd, cyc⟩, m1.trans m2⟩
  · simp only [unlinkItem, hprev, hnext, if_neg hself, e1, e2, ok_bind, pure_eq_ok]
  · cases ys with
    | cons y ys =>
      have : first ≠ some item := by
        rw [hr.head]
        rintro e
        exact hr.not_mem (Option.some.inj e ▸ List.mem_cons_self)
      rw [if_neg this, hr.head]
      rfl
    | nil =>
      have hf : first = some item := hr.head
      rw [if_pos hf]
      cases zs with
      | nil =>
        have : n = item := by simpa using hnx
        exact absurd ⟨hf, this⟩ hself
      | cons z zs =>
        have hnz : h.next item = some z := hr.cycle.1
        rw [← hni, hnz]
        rfl

theorem unlinkItem_ring (hr : IsRing h first (ys ++ item :: zs)) (hnode : h.node item = .ok it) :
    ∃ first' h', unlinkItem first item it h = .ok (first', h') ∧ IsRing h' first' (ys ++ zs) ∧
      SameElse (ys ++ item :: zs) h h' := by
  obtain ⟨⟨n, hnx, hni⟩, p, hpx, hpi⟩ :=
    hr.cycle.links (List.mem_append_right ys (List.mem_cons_self (a := item) (l := zs)))
  obtain ⟨it', hnode', hprev, hnext⟩ := node_eq (alloc_of_next hni)
  rw [hnode] at hnode'
  cases hnode'
  by_cases hself : first = some item ∧ n = item
  · obtain ⟨hf, rfl⟩ := hself
    obtain ⟨rfl, rfl⟩ := hr.alone hni
    refine ⟨none, h, ?_, IsRing.empty, ⟨fun _ _ => rfl, fun _ => rfl⟩⟩
    simp [unlinkItem, hprev, hnext, hpi, hni, hf]
  · exact unlinkItem_between hr (hprev.trans hpi) (hnext.trans hni) hpi hni hpx hnx hself

end Unlink

/-- The item leaves the ring, with both its links NULL; nothing outside the ring changes. -/
theorem linkedlistRemove_ring (hr : IsRing h first xs) (mem : item ∈ xs) :
    ∃ first' h', linkedlistRemove first item h = .ok (first', h') ∧
      IsRing h' first' (xs.erase item) ∧ SameElse xs h h' ∧ h' item = some ⟨none, none⟩ := by
  obtain ⟨⟨n, -, hni⟩, -⟩ := hr.cycle.links mem
  have ialloc := alloc_of_next hni
  obtain ⟨it, hnode, -, -⟩ := node_eq ialloc
  obtain ⟨ys, zs, rfl⟩ := List.append_of_mem mem
  have hni' : ∀ y ∈ ys ++ zs, y ≠ item := by
    rintro y hy rfl
    exact hr.not_mem hy
  obtain ⟨first₁, h₁, hunlink, hring, same⟩ := unlinkItem_ring hr hnode
  have halloc : (h₁ item).isSome := by rw [same.alloc, ialloc]
  obtain ⟨h₂, e2, e3⟩ := clear_links halloc
  rw [hr.erase_eq]
  refine ⟨first₁, Function.update h₁ item (some ⟨none, none⟩), ?_,
    hring.congr fun y hy => Function.update_of_ne (hni' y hy) .., ?_, Function.update_self ..⟩
  · simp only [linkedlistRemove, hnode, ok_bind, hunlink, e2, e3, pure_eq_ok]
  · exact same.trans ((sameElse_update halloc _).mono _ (by simp))

/-! ## Moving a member to the end -/

section Shuffle

variable {ys zs : List α} {it : Node α}

theorem setPrev_node (hs : h.setPrev a v = .ok h') (hb : b ≠ a) : h'.node b = h.node b := by
  obtain ⟨n, -, heq⟩ := bind_eq_ok.1 hs
  cases heq
  simp only [Heap.node, Function.update_of_ne hb]

/-- LINKEDLIST_REMOVE links the neighbours with the assignments of LINKEDLIST_SHUFFLE. -/
theorem bridge_of_unlink {n : α} {first' : Option α} (hnode : h.node item = .ok it)
    (hprev : it.prev = some a) (hnext : it.next = some n) (hne : n ≠ item)
    (hu : unlinkItem first item it h = .ok (first', h')) :
    bridge item h = .ok h' ∧ first' = if first = some item then some n else first := by
  simp only [unlinkItem, hprev, hnext, if_neg (fun e : first = some item ∧ n = item => hne e.2),
    bind_eq_ok, pure_eq_ok, Except.ok.injEq, Prod.mk.injEq] at hu
  obtain ⟨h1, e1, h2, e2, rfl, rfl⟩ := hu
  have hnode1 : h1.node item = .ok it := (setPrev_node e1 hne.symm).trans hnode
  refine ⟨?_, rfl⟩
  simp only [bridge, hnode, hnext, hprev, deref, ok_bind, e1, hnode1, e2]

/-- The neighbours of a member that is not alone are linked to each other. -/
theorem bridge_ring (hr : IsRing h first (ys ++ item :: zs))
    (hother : ys ++ zs ≠ []) :
    ∃ n h', h.next item = some n ∧ n ≠ item ∧ bridge item h = .ok h' ∧
      IsRing h' (if first = some item then some n else first) (ys ++ zs) ∧
      SameElse (ys ++ item :: zs) h h' := by
  obtain ⟨⟨n, -, hni⟩, p, -, hpi⟩ :=
    hr.cycle.links (List.mem_append_right ys (List.mem_cons_self (a := item) (l := zs)))
  have hne : n ≠ item := by
    rintro rfl
    obtain ⟨rfl, rfl⟩ := hr.alone hni
    exact hother rfl
  obtain ⟨it, hnode, hprev, hnext⟩ := node_eq (alloc_of_next hni)
  obtain ⟨first', h', hu, hr', same⟩ := unlinkItem_ring hr hnode
  obtain ⟨hb, rfl⟩ := bridge_of_unlink hnode (hprev.trans hpi) (hnext.trans hni) hne hu
  exact ⟨n, h', hni, hne, hb, hr', same⟩

/-- A member that is not alone goes to the end. -/
theorem linkedlistShuffle_moved (hr : IsRing h first (ys ++ item :: zs))
    (hother : ys ++ zs ≠ []) :
    ∃ first' h', linkedlistShuffle first item h = .ok (first', h') ∧
      IsRing h' first' (ys ++ zs ++ [item]) ∧ SameElse (ys ++ item :: zs) h h' := by
  obtain ⟨n, h1, hni, hne, hb, hr1, same1⟩ := bridge_ring hr hother
  obtain ⟨it, hnode, -, hnext⟩ := node_eq (alloc_of_next hni)
  obtain ⟨f, hf⟩ : ∃ f, (if first = some item then some n else first) = some f := by
    rw [hr1.head]
    exact Option.isSome_iff_exists.1 (List.isSome_head?.2 hother)
  obtain ⟨h2, hlink, hr2, same2⟩ := linkBefore_ring hr1 hf hr.not_mem
    (by rw [same1.alloc]; exact alloc_of_next hni)
  refine ⟨_, h2, ?_, hr2, same1.trans (same2.mono _ ?_)⟩
  · unfold linkedlistShuffle
    split
    · rename_i hfirst
      obtain rfl : n = f := Option.some.inj (by rwa [if_pos hfirst] at hf)
      simp only [hnode, hnext, hni, ok_bind, if_neg (fun e => hne (Option.some.inj e)), hb, deref,
        hlink, pure_eq_ok]
    · rename_i hfirst
      rw [if_neg hfirst] at hf
      simp only [hb, hf, ok_bind, deref, hlink, pure_eq_ok]
  · intro y hy
    simp only [List.mem_cons, List.mem_append] at hy ⊢
    tauto

/-- The item becomes the last member; nothing outside the ring changes. -/
theorem linkedlistShuffle_ring (hr : IsRing h first xs) (mem : item ∈ xs) :
    ∃ first' h', linkedlistShuffle first item h = .ok (first', h') ∧
      IsRing h' first' (xs.erase item ++ [item]) ∧ SameElse xs h h' := by
  obtain ⟨ys, zs, rfl⟩ := List.append_of_mem mem
  rw [hr.erase_eq]
  by_cases hother : ys ++ zs = []
  · obtain ⟨rfl, rfl⟩ := List.append_eq_nil_iff.1 hother
    obtain rfl : first = some item := hr.head
    obtain ⟨hnext, -⟩ : Seg h item [] item := hr.cycle
    obtain ⟨it, hnode, -, hn⟩ := node_eq (alloc_of_next hnext)
    refine ⟨some item, h, ?_, hr, ⟨fun _ _ => rfl, fun _ => rfl⟩⟩
    simp only [linkedlistShuffle, if_true, hnode, ok_bind, hn, hnext, pure_eq_ok]
  · exact linkedlistShuffle_moved hr hother

end Shuffle

end Spec

end CassandraApi
