/-
# `BaseEpoll` — base_epoll.c, the table of a base and the kernel

A base has an epoll file descriptor and a table of `max_session` elements, one
for each file descriptor.  epoll_event_add and epoll_event_remove change the
table first and tell the kernel then, whatever it answers; and they compare with
the `max_session` of the base that was created last, whichever base they are
called for.

The kernel's interest set of a base stands next to its table.  Each base has an
epoll file descriptor of its own, and so a set of its own.
-/
import CassandraApi.C.Memory
import CassandraApi.Lib.Machine

namespace CassandraApi.Epoll

open C Lib

/-! ## The data -/

/-- epoll_event_element: the callbacks, which nothing here calls, are left out. -/
structure Element where
  fd : Int
  events : UInt32
  deriving DecidableEq

/-- An interest set: the events of the file descriptors in it. -/
abbrev Interest := Nat → Option UInt32

/-- base_epoll.  `interest` is in the kernel: `none` if epoll_create has failed. -/
structure BaseEpoll where
  table : List Element
  interest : Option Interest

/-- The bases, and _EPOLL_MAX_SESSION. -/
structure State where
  maxSession : Int := 0
  bases : List BaseEpoll := []

/-! ## The kernel -/

inductive CtlOp where
  | add
  | mod
  | del
  deriving DecidableEq, Repr

/-- epoll_ctl: the set if it succeeds.  A file descriptor is not added twice, nor changed or taken
out when it is not in the set; `ok` is whether anything else is in the way. -/
def epollCtl (ok : Bool) (interest : Option Interest) (op : CtlOp) (fd : Nat) (events : UInt32) :
    Option Interest :=
  match interest with
  | none => none
  | some k =>
      if ok then
        match op, k fd with
        | .add, none => some (Function.update k fd (some events))
        | .mod, some _ => some (Function.update k fd (some events))
        | .del, some _ => some (Function.update k fd none)
        | _, _ => none
      else none

/-- A call of epoll_ctl, and what it returns. -/
def BaseEpoll.ctl (b : BaseEpoll) (ok : Bool) (op : CtlOp) (fd : Nat) (events : UInt32) :
    Int × BaseEpoll :=
  match epollCtl ok b.interest op fd events with
  | none => (-1, b)
  | some k => (0, { b with interest := some k })

/-! ## The operations -/

def freeElement : Element := ⟨-1, 0⟩

/-- epoll_base_new: the base, if there is memory for it.  That the kernel refuses to watch the
epoll file descriptor by itself is not looked at. -/
def epollBaseNew (alloc created : Bool) (maxSession : Int) : Option BaseEpoll :=
  if alloc = true ∧ 0 ≤ maxSession then
    some {
      table := List.replicate maxSession.toNat freeElement
      interest := if created then some fun _ => none else none }
  else none

/-- `&(poll_event->table[fd])` -/
def BaseEpoll.element (b : BaseEpoll) (fd : Nat) : Except Fault Element :=
  match b.table[fd]? with
  | none => .error .overrun
  | some elem => .ok elem

def BaseEpoll.put (b : BaseEpoll) (fd : Nat) (elem : Element) : BaseEpoll :=
  { b with table := b.table.set fd elem }

/-- epoll_event_add -/
def epollEventAdd (maxSession : Int) (ok : Bool) (b : BaseEpoll) (fd : Int) (flags : UInt32) :
    Except Fault (Int × BaseEpoll) :=
  if fd ≥ maxSession ∨ fd < 0 then .ok (-1, b)
  else do
    let elem ← b.element fd.toNat
    if 0 ≤ elem.fd then
      let elem := { elem with events := elem.events ||| flags }
      pure ((b.put fd.toNat elem).ctl ok .mod fd.toNat elem.events)
    else
      let elem : Element := ⟨fd, flags⟩
      pure ((b.put fd.toNat elem).ctl ok .add fd.toNat elem.events)

/-- epoll_event_remove -/
def epollEventRemove (maxSession : Int) (ok : Bool) (b : BaseEpoll) (fd : Int) :
    Except Fault (Int × BaseEpoll) :=
  if fd ≥ maxSession ∨ fd < 0 then .ok (-1, b)
  else do
    let _ ← b.element fd.toNat
    pure (0, ((b.put fd.toNat freeElement).ctl ok .del fd.toNat 0).2)

/-! ## Runs -/

/-- A call, with what the outside makes of it. -/
inductive Call where
  | baseNew (alloc created : Bool) (maxSession : Int)
  | eventAdd (ok : Bool) (base : Nat) (fd : Int) (flags : UInt32)
  | eventRemove (ok : Bool) (base : Nat) (fd : Int)

/-- A call for the base with this number. -/
def State.atBase (s : State) (base : Nat)
    (f : BaseEpoll → Except Fault (Int × BaseEpoll)) : Except Fault State :=
  match s.bases[base]? with
  | none => .error .null
  | some b => do
      let (_, b) ← f b
      pure { s with bases := s.bases.set base b }

def step (s : State) : Call → Except Fault State
  | .baseNew alloc created maxSession =>
      match epollBaseNew alloc created maxSession with
      | none => .ok s
      | some b => .ok { maxSession := maxSession, bases := s.bases ++ [b] }
  | .eventAdd ok base fd flags =>
      s.atBase base fun b => epollEventAdd s.maxSession ok b fd flags
  | .eventRemove ok base fd => s.atBase base fun b => epollEventRemove s.maxSession ok b fd

/-- A call for a base that there is. -/
def Known (s : State) : Call → Prop
  | .baseNew .. => True
  | .eventAdd _ base .. => base < s.bases.length
  | .eventRemove _ base _ => base < s.bases.length

/-! ## Table and kernel -/

/-- The kernel watches the file descriptor for these events. -/
def BaseEpoll.Watches (b : BaseEpoll) (fd : Nat) (events : UInt32) : Prop :=
  ∃ k, b.interest = some k ∧ k fd = some events

/-- The table says what the kernel watches. -/
def BaseEpoll.Mirrors (b : BaseEpoll) : Prop :=
  ∀ (fd : Nat) (elem : Element), b.table[fd]? = some elem →
    (∀ events, (elem.fd = fd ∧ elem.events = events) ↔ b.Watches fd events) ∧
      (elem.fd = fd ∨ elem.fd = -1)

/-- A file descriptor that is not refused is one of the table's. -/
def BaseEpoll.InTable (b : BaseEpoll) (maxSession fd : Int) : Prop :=
  0 ≤ fd → fd < maxSession → fd < b.table.length

/-- The file descriptor is one of the table's or refused, and what the kernel is asked for is
done. -/
def InStep (s : State) : Call → Prop
  | .baseNew .. => True
  | .eventAdd ok base fd _ => ∀ b, s.bases[base]? = some b →
      b.InTable s.maxSession fd ∧
        (0 ≤ fd → fd < s.maxSession → ok = true ∧ b.interest.isSome)
  | .eventRemove ok base fd => ∀ b, s.bases[base]? = some b →
      b.InTable s.maxSession fd ∧
        (∀ elem, 0 ≤ fd → fd < s.maxSession → b.table[fd.toNat]? = some elem → 0 ≤ elem.fd →
          ok = true)

/-! ## One base -/

section Base

variable {b : BaseEpoll} {k : Interest} {fd : Nat} {elem : Element}

theorem element_eq (h : b.table[fd]? = some elem) : b.element fd = .ok elem := by
  rw [BaseEpoll.element, h]

theorem element_exists (h : fd < b.table.length) : ∃ elem, b.table[fd]? = some elem :=
  ⟨_, List.getElem?_eq_getElem h⟩

/-- The table and the kernel are changed at one file descriptor, in the same way. -/
theorem BaseEpoll.Mirrors.update (h : b.Mirrors) (hk : b.interest = some k) (new : Element)
    (watched : Option UInt32)
    (hnew : (∀ events, (new.fd = fd ∧ new.events = events) ↔ watched = some events) ∧
      (new.fd = fd ∨ new.fd = -1)) :
    BaseEpoll.Mirrors
      { table := b.table.set fd new, interest := some (Function.update k fd watched) } := by
  intro fd' elem' helem'
  by_cases hfd : fd' = fd
  · subst hfd
    have hin : fd' < b.table.length := by
      have hlt := List.getElem?_eq_some_iff.1 helem'
      obtain ⟨hlt, -⟩ := hlt
      simpa using hlt
    rw [List.getElem?_set_self hin] at helem'
    cases helem'
    refine ⟨fun events => ?_, hnew.2⟩
    rw [hnew.1 events]
    constructor
    · intro hw
      exact ⟨_, rfl, by rw [Function.update_self, hw]⟩
    · rintro ⟨k', hk', hw⟩
      cases hk'
      rwa [Function.update_self] at hw
  · rw [List.getElem?_set_ne (Ne.symm hfd)] at helem'
    obtain ⟨hmirror, hfree⟩ := h fd' elem' helem'
    refine ⟨fun events => (hmirror events).trans ?_, hfree⟩
    constructor
    · rintro ⟨k', hk', hw⟩
      rw [hk] at hk'
      cases hk'
      exact ⟨_, rfl, by rw [Function.update_of_ne hfd, hw]⟩
    · rintro ⟨k', hk', hw⟩
      cases hk'
      rw [Function.update_of_ne hfd] at hw
      exact ⟨k, hk, hw⟩

/-- What the table says of an element that is in use. -/
theorem BaseEpoll.Mirrors.used (h : b.Mirrors) (helem : b.table[fd]? = some elem)
    (hfd : 0 ≤ elem.fd) : ∃ k, b.interest = some k ∧ k fd = some elem.events := by
  obtain ⟨hmirror, hfree⟩ := h fd elem helem
  exact (hmirror elem.events).1 ⟨by omega, rfl⟩

/-- And of one that is free. -/
theorem BaseEpoll.Mirrors.unused (h : b.Mirrors) (helem : b.table[fd]? = some elem)
    (hfd : ¬ 0 ≤ elem.fd) (hk : b.interest = some k) : k fd = none := by
  obtain ⟨hmirror, hfree⟩ := h fd elem helem
  cases hw : k fd with
  | none => rfl
  | some events =>
    obtain ⟨heq, -⟩ := (hmirror events).2 ⟨k, hk, hw⟩
    omega

/-- A free element may be cleared again. -/
theorem BaseEpoll.Mirrors.put_free (h : b.Mirrors) (helem : b.table[fd]? = some elem)
    (hfd : ¬ 0 ≤ elem.fd) : (b.put fd freeElement).Mirrors := by
  intro fd' elem' helem'
  by_cases heq : fd' = fd
  · subst heq
    have hin : fd' < b.table.length := (List.getElem?_eq_some_iff.1 helem).1
    rw [BaseEpoll.put, List.getElem?_set_self hin] at helem'
    cases helem'
    obtain ⟨hmirror, -⟩ := h fd' elem helem
    refine ⟨fun events => ?_, .inr rfl⟩
    constructor
    · rintro ⟨hneg, -⟩
      exact absurd hneg (by simp only [freeElement]; omega)
    · intro hw
      obtain ⟨hpos, -⟩ := (hmirror events).2 hw
      omega
  · rw [BaseEpoll.put, List.getElem?_set_ne (Ne.symm heq)] at helem'
    exact h fd' elem' helem'

/-- epoll_event_add keeps table and kernel the same. -/
theorem epollEventAdd_mirrors {maxSession fd : Int} {ok : Bool} {flags : UInt32} (h : b.Mirrors)
    (hin : b.InTable maxSession fd)
    (hok : 0 ≤ fd → fd < maxSession → ok = true ∧ b.interest.isSome) :
    ∃ r b', epollEventAdd maxSession ok b fd flags = .ok (r, b') ∧ b'.Mirrors := by
  unfold epollEventAdd
  split
  · exact ⟨_, b, rfl, h⟩
  · obtain ⟨n, rfl⟩ : ∃ n : Nat, fd = n := ⟨fd.toNat, by omega⟩
    obtain ⟨rfl, hsome⟩ := hok (by omega) (by omega)
    obtain ⟨k, hk⟩ := Option.isSome_iff_exists.1 hsome
    have hlt := hin (by omega) (by omega)
    obtain ⟨elem, helem⟩ := element_exists (show n < b.table.length by omega)
    simp only [Int.toNat_natCast, element_eq helem, ok_bind]
    split
    · rename_i hused
      obtain ⟨k', hk', hw⟩ := h.used helem hused
      rw [hk] at hk'
      cases hk'
      obtain ⟨-, hfree⟩ := h n elem helem
      have hfd : elem.fd = n := by omega
      refine ⟨0, _, by simp only [BaseEpoll.put, BaseEpoll.ctl, hk, epollCtl, hw]; rfl,
        h.update hk ⟨elem.fd, elem.events ||| flags⟩ (some (elem.events ||| flags))
          ⟨fun events => ?_, .inl hfd⟩⟩
      simp [hfd]
    · rename_i hused
      have hw := h.unused helem hused hk
      refine ⟨0, _, by simp only [BaseEpoll.put, BaseEpoll.ctl, hk, epollCtl, hw]; rfl,
        h.update hk ⟨n, flags⟩ (some flags) ⟨fun events => ?_, .inl rfl⟩⟩
      simp

/-- So does epoll_event_remove.  A file descriptor that is not in the table needs no kernel. -/
theorem epollEventRemove_mirrors {maxSession fd : Int} {ok : Bool} (h : b.Mirrors)
    (hin : b.InTable maxSession fd)
    (hok : ∀ elem, 0 ≤ fd → fd < maxSession → b.table[fd.toNat]? = some elem → 0 ≤ elem.fd →
      ok = true) :
    ∃ r b', epollEventRemove maxSession ok b fd = .ok (r, b') ∧ b'.Mirrors := by
  unfold epollEventRemove
  split
  · exact ⟨_, b, rfl, h⟩
  · obtain ⟨n, rfl⟩ : ∃ n : Nat, fd = n := ⟨fd.toNat, by omega⟩
    have hlt := hin (by omega) (by omega)
    obtain ⟨elem, helem⟩ := element_exists (show n < b.table.length by omega)
    rw [Int.toNat_natCast] at hok
    simp only [Int.toNat_natCast, element_eq helem, ok_bind, pure_eq_ok]
    refine ⟨0, _, rfl, ?_⟩
    by_cases hused : 0 ≤ elem.fd
    · obtain ⟨k, hk, hw⟩ := h.used helem hused
      obtain rfl := hok elem (by omega) (by omega) helem hused
      have hnew := @BaseEpoll.Mirrors.update b k n h hk freeElement none
      simp only [BaseEpoll.put, BaseEpoll.ctl, hk, epollCtl, hw, if_true]
      refine hnew ⟨fun events => ?_, .inr rfl⟩
      constructor
      · rintro ⟨hneg, -⟩
        exact absurd hneg (by simp only [freeElement]; omega)
      · intro hw
        cases hw
    · -- the kernel has nothing to take out
      have hkeep : ∀ ok, epollCtl ok b.interest .del n 0 = none := by
        intro ok
        cases hk : b.interest with
        | none => rfl
        | some k =>
          simp only [epollCtl, h.unused helem hused hk, ite_self]
      have hctl : ((b.put n freeElement).ctl ok .del n 0).2 = b.put n freeElement := by
        simp only [BaseEpoll.ctl, BaseEpoll.put, hkeep]
      rw [hctl]
      exact h.put_free helem hused

/-- A new base has nothing in its table, and the kernel watches nothing. -/
theorem epollBaseNew_mirrors {alloc created : Bool} {maxSession : Int}
    (h : epollBaseNew alloc created maxSession = some b) : b.Mirrors := by
  unfold epollBaseNew at h
  split at h
  · cases h
    intro fd elem helem
    obtain ⟨-, rfl⟩ : fd < maxSession.toNat ∧ elem = freeElement := by
      rw [List.getElem?_replicate] at helem
      split at helem
      · cases helem
        exact ⟨by assumption, rfl⟩
      · cases helem
    refine ⟨fun events => ?_, .inr rfl⟩
    constructor
    · rintro ⟨hneg, -⟩
      exact absurd hneg (by simp only [freeElement]; omega)
    · rintro ⟨k, hk, hw⟩
      cases created
      · cases hk
      · cases hk
        cases hw
  · cases h

end Base

/-! ## Whole runs -/

/-- Every base mirrors its set. -/
def Mirrored (s : State) : Prop := ∀ b ∈ s.bases, b.Mirrors

theorem Mirrored.atBase {s : State} (h : Mirrored s) {base : Nat} (hbase : base < s.bases.length)
    {f : BaseEpoll → Except Fault (Int × BaseEpoll)}
    (hf : ∀ b, s.bases[base]? = some b → b.Mirrors → ∃ r b', f b = .ok (r, b') ∧ b'.Mirrors) :
    ∃ s', s.atBase base f = .ok s' ∧ Mirrored s' := by
  have hb : s.bases[base]? = some s.bases[base] := List.getElem?_eq_getElem hbase
  obtain ⟨r, b', hfb, hmirrors⟩ := hf _ hb (h _ (List.getElem_mem hbase))
  refine ⟨{ s with bases := s.bases.set base b' },
    by simp only [State.atBase, hb, hfb, ok_bind, pure_eq_ok], ?_⟩
  intro b hmem
  rcases List.mem_or_eq_of_mem_set hmem with hold | rfl
  · exact h b hold
  · exact hmirrors

theorem step_mirrored {s : State} {c : Call} (h : Mirrored s) (known : Known s c)
    (instep : InStep s c) : ∃ s', step s c = .ok s' ∧ Mirrored s' := by
  cases c with
  | baseNew alloc created maxSession =>
    simp only [step]
    cases hnew : epollBaseNew alloc created maxSession with
    | none => exact ⟨s, rfl, h⟩
    | some b =>
      refine ⟨_, rfl, fun b' hmem => ?_⟩
      rcases List.mem_append.1 hmem with hold | hlast
      · exact h b' hold
      · rw [List.mem_singleton.1 hlast]
        exact epollBaseNew_mirrors hnew
  | eventAdd ok base fd flags =>
    refine h.atBase known fun b hb hmirrors => ?_
    obtain ⟨hin, hok⟩ := instep b hb
    exact epollEventAdd_mirrors hmirrors hin hok
  | eventRemove ok base fd =>
    refine h.atBase known fun b hb hmirrors => ?_
    obtain ⟨hin, hok⟩ := instep b hb
    exact epollEventRemove_mirrors hmirrors hin hok

/-- In a run in which no call reaches beyond a table or fails in the kernel, nothing is accessed
outside a table and the tables are what the kernel has. -/
theorem mirrored_of_inStep {calls : List Call}
    (known : Along step (fun _ => Known) {} calls) (instep : Along step (fun _ => InStep) {} calls) :
    ∃ s, run step {} calls = .ok s ∧ ∀ b ∈ s.bases, b.Mirrors := by
  have hstart : Mirrored {} := fun b hmem => absurd hmem List.not_mem_nil
  have hkeep : ∀ s c, Mirrored s → (Known s c ∧ InStep s c) →
      ∃ s', step s c = .ok s' ∧ Mirrored s' :=
    fun s c h hc => step_mirrored h hc.1 hc.2
  exact run_total hstart hkeep (known.and instep)

/-- A base for four file descriptors, of which one is watched. -/
def oneWatched : List Call := [.baseNew true true 4, .eventAdd true 0 2 1]

theorem mirrored_of_inStep_one : ∃ s, run step {} oneWatched = .ok s ∧ ∀ b ∈ s.bases, b.Mirrors := by
  refine mirrored_of_inStep (along_cons trivial fun s hs => ?_)
    (along_cons trivial fun s hs => ?_)
  · cases hs
    exact along_cons (by decide : 0 < 1) fun s _ => along_nil s
  · cases hs
    refine along_cons (fun b hb => ?_) fun s _ => along_nil s
    cases hb
    exact ⟨fun _ _ => by decide, fun _ _ => ⟨rfl, rfl⟩⟩

/-- After a larger base was created, the smaller one is accessed beyond its table. -/
theorem smaller_base_overrun :
    Along step (fun _ => Known) {}
        [.baseNew true true 4, .baseNew true true 8, .eventAdd true 0 5 1] ∧
      ¬ ∃ s, run step {} [.baseNew true true 4, .baseNew true true 8, .eventAdd true 0 5 1] =
        .ok s ∧ ∀ b ∈ s.bases, b.Mirrors := by
  constructor
  · refine along_cons trivial fun s hs => ?_
    cases hs
    refine along_cons trivial fun s hs => ?_
    cases hs
    exact along_cons (by decide : 0 < 2) fun s _ => along_nil s
  · rintro ⟨s, hrun, -⟩
    cases hrun

end CassandraApi.Epoll
