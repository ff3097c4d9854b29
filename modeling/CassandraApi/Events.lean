/-
# `Events` — epoll_event_process and the callbacks

epoll_event_process walks over the events that epoll_wait returned and calls the
callbacks of the elements they are for.  A callback is any code: it removes and
adds file descriptors and sets the callbacks of elements, its own among them, and
returns an int.  It is called at most once for an event, so what it does stands
with the event (`Behaviour`).

Not in the source is `registered`, which registration of its file descriptor an
element has: the number it got when epoll_event_add took the element into use.
-/
import CassandraApi.BaseEpoll
import CassandraApi.Lib.Slots

namespace CassandraApi.Epoll.Events

open C Lib

/-! ## The data -/

/-- epoll_event_element with its callbacks, which are functions by number or NULL. -/
structure Entry extends Element where
  writeCallback : Option Nat := none
  readCallback : Option Nat := none
  closeCallback : Option Nat := none
  data : Option Nat := none
  registered : Option Nat := none
  deriving DecidableEq

/-- base_epoll and _EPOLL_MAX_SESSION.  `count` registrations were made so far. -/
structure Base where
  maxSession : Int
  table : List Entry
  interest : Option Interest
  count : Nat := 0

/-- What BaseEpoll says of the base. -/
def Base.toBaseEpoll (b : Base) : BaseEpoll := ⟨b.table.map Entry.toElement, b.interest⟩

def freeEntry : Entry := { freeElement with }

/-- epoll_base_new -/
def baseNew (created : Bool) (maxSession : Nat) : Base where
  maxSession := maxSession
  table := List.replicate maxSession freeEntry
  interest := if created then some fun _ => none else none

/-- `&(poll_event->table[fd])` -/
def Base.entry (b : Base) (fd : Nat) : Except Fault Entry :=
  match b.table[fd]? with
  | none => .error .overrun
  | some elem => .ok elem

def Base.put (b : Base) (fd : Nat) (elem : Entry) : Base :=
  { b with table := b.table.set fd elem }

def Base.ctl (b : Base) (ok : Bool) (op : CtlOp) (fd : Nat) (events : UInt32) : Int × Base :=
  match epollCtl ok b.interest op fd events with
  | none => (-1, b)
  | some k => (0, { b with interest := some k })

/-! ## What a callback may do -/

/-- epoll_event_add.  epoll_element_new leaves the callbacks of the element as they are. -/
def Base.eventAdd (b : Base) (ok : Bool) (fd : Int) (flags : UInt32) :
    Except Fault (Int × Base) :=
  if fd ≥ b.maxSession ∨ fd < 0 then .ok (-1, b)
  else do
    let elem ← b.entry fd.toNat
    if 0 ≤ elem.fd then
      let elem := { elem with events := elem.events ||| flags }
      pure ((b.put fd.toNat elem).ctl ok .mod fd.toNat elem.events)
    else
      let elem := { elem with fd := fd, events := flags, registered := some b.count }
      pure (({ b with count := b.count + 1 }.put fd.toNat elem).ctl ok .add fd.toNat elem.events)

/-- epoll_event_remove -/
def Base.eventRemove (b : Base) (ok : Bool) (fd : Int) : Except Fault (Int × Base) :=
  if fd ≥ b.maxSession ∨ fd < 0 then .ok (-1, b)
  else do
    let _ ← b.entry fd.toNat
    pure (0, ((b.put fd.toNat freeEntry).ctl ok .del fd.toNat 0).2)

/-- _E_BASE_EPOLL_EVENT_OPTION, with the value that is set. -/
inductive EventOption where
  | setReadCallback (f : Option Nat)
  | setWriteCallback (f : Option Nat)
  | setCloseCallback (f : Option Nat)
  | setUserData (data : Option Nat)

def Entry.setOption (elem : Entry) : EventOption → Entry
  | .setReadCallback f => { elem with readCallback := f }
  | .setWriteCallback f => { elem with writeCallback := f }
  | .setCloseCallback f => { elem with closeCallback := f }
  | .setUserData data => { elem with data := data }

/-- epoll_events_set_option, on the element of a file descriptor. -/
def Base.eventsSetOption (b : Base) (fd : Nat) (option : EventOption) : Except Fault Base := do
  let elem ← b.entry fd
  pure (b.put fd (elem.setOption option))

/-- A call that changes the table. -/
inductive Op where
  | add (ok : Bool) (fd : Int) (flags : UInt32)
  | remove (ok : Bool) (fd : Int)
  | setOption (fd : Nat) (option : EventOption)

def perform (b : Base) : Op → Except Fault Base
  | .add ok fd flags => do
      let (_, b) ← b.eventAdd ok fd flags
      pure b
  | .remove ok fd => do
      let (_, b) ← b.eventRemove ok fd
      pure b
  | .setOption fd option => b.eventsSetOption fd option

/-- What a callback does, and what it returns. -/
structure Behaviour where
  ops : List Op := []
  ret : Int := 0

/-! ## epoll_event_process -/

def epollin : UInt32 := 0x001
def epollout : UInt32 := 0x004
def epollerr : UInt32 := 0x008
def epollhup : UInt32 := 0x010
def epollrdhup : UInt32 := 0x2000

/-- An event, and what the callbacks do that are called for it. -/
structure Event where
  fd : Int
  events : UInt32
  onWrite : Behaviour := {}
  onRead : Behaviour := {}
  onClose : Behaviour := {}

def Event.has (ev : Event) (flag : UInt32) : Bool := ev.events &&& flag ≠ 0

/-- EPOLLRDHUP, EPOLLERR or EPOLLHUP -/
def Event.closing (ev : Event) : Bool := ev.has epollrdhup || ev.has epollerr || ev.has epollhup

/-- A call of a callback: the event's file descriptor, and the registration of the element. -/
structure Invocation where
  fd : Int
  registered : Option Nat
  deriving DecidableEq

/-- `if (value->callback) _callback_ret = value->callback(…)`, when the test on the event has let it
through: `ret` is what _callback_ret was. -/
def invoke (wanted : Bool) (callback : Entry → Option Nat) (does : Behaviour) (fd : Int) (ret : Int)
    (b : Base) : Except Fault (Int × Base × List Invocation) :=
  if wanted then do
    let value ← b.entry fd.toNat
    match callback value with
    | none => pure (ret, b, [])
    | some _ => do
        let b ← run perform b does.ops
        pure (does.ret, b, [⟨fd, value.registered⟩])
  else .ok (ret, b, [])

/-- One turn of the loop. -/
def processEvent (b : Base) (ev : Event) : Except Fault (Base × List Invocation) :=
  if ev.fd ≥ b.maxSession ∨ ev.fd < 0 then .ok (b, [])
  else do
    let (ret, b, wrote) ← invoke (ev.has epollout) Entry.writeCallback ev.onWrite ev.fd 0 b
    let (ret, b, read) ←
      invoke (ev.has epollin && ret = 0) Entry.readCallback ev.onRead ev.fd ret b
    let (_, b, closed) ←
      invoke (ev.closing && ret ≠ 0) Entry.closeCallback ev.onClose ev.fd ret b
    pure (b, wrote ++ read ++ closed)

/-- epoll_event_process, from what epoll_wait has returned. -/
def epollEventProcess (b : Base) : List Event → Except Fault (Base × List Invocation)
  | [] => .ok (b, [])
  | ev :: rest => do
      let (b, called) ← processEvent b ev
      let (b, later) ← epollEventProcess b rest
      pure (b, called ++ later)

/-! ## The base is that of BaseEpoll -/

section Refines

variable {b : Base} {fd : Nat}

theorem entry_toBaseEpoll (b : Base) (fd : Nat) :
    b.toBaseEpoll.element fd = (b.entry fd).map Entry.toElement := by
  simp only [BaseEpoll.element, Base.entry, Base.toBaseEpoll, List.getElem?_map]
  cases b.table[fd]? <;> rfl

theorem put_toBaseEpoll (b : Base) (fd : Nat) (elem : Entry) :
    (b.put fd elem).toBaseEpoll = b.toBaseEpoll.put fd elem.toElement := by
  simp only [Base.put, Base.toBaseEpoll, BaseEpoll.put, List.map_set]

theorem ctl_toBaseEpoll (b : Base) (ok : Bool) (op : CtlOp) (fd : Nat) (events : UInt32) :
    ((b.ctl ok op fd events).1, (b.ctl ok op fd events).2.toBaseEpoll) =
      b.toBaseEpoll.ctl ok op fd events := by
  simp only [Base.ctl, BaseEpoll.ctl, Base.toBaseEpoll]
  cases epollCtl ok b.interest op fd events <;> rfl

theorem eventAdd_toBaseEpoll (b : Base) (ok : Bool) (fd : Int) (flags : UInt32) :
    (b.eventAdd ok fd flags).map (fun r => (r.1, r.2.toBaseEpoll)) =
      epollEventAdd b.maxSession ok b.toBaseEpoll fd flags := by
  unfold Base.eventAdd epollEventAdd
  split
  · rfl
  · rw [entry_toBaseEpoll]
    cases b.entry fd.toNat with
    | error f => rfl
    | ok elem =>
      have hctl := fun b' op events => ctl_toBaseEpoll b' ok op fd.toNat events
      by_cases hused : 0 ≤ elem.fd
      · simp only [ok_bind, if_pos hused, Except.map, pure_eq_ok, hctl]
        rw [put_toBaseEpoll]
      · simp only [ok_bind, if_neg hused, Except.map, pure_eq_ok, hctl]
        rw [put_toBaseEpoll]
        rfl

theorem eventRemove_toBaseEpoll (b : Base) (ok : Bool) (fd : Int) :
    (b.eventRemove ok fd).map (fun r => (r.1, r.2.toBaseEpoll)) =
      epollEventRemove b.maxSession ok b.toBaseEpoll fd := by
  unfold Base.eventRemove epollEventRemove
  split
  · rfl
  · rw [entry_toBaseEpoll]
    cases b.entry fd.toNat with
    | error f => rfl
    | ok elem =>
      have hctl := ctl_toBaseEpoll (b.put fd.toNat freeEntry) ok .del fd.toNat 0
      rw [put_toBaseEpoll] at hctl
      simp only [ok_bind, Except.map, pure_eq_ok]
      exact congrArg (fun r => (Except.ok (0, r.2) : Except Fault (Int × BaseEpoll))) hctl

end Refines

/-! ## The main program -/

/-- What the program does in turn: it creates another base, uses this one, or waits for events. -/
inductive Turn where
  | baseNew (maxSession : Int)
  | op (o : Op)
  | process (batch : List Event)

/-- The base, and the invocations so far with the base as it was when epoll_wait returned. -/
structure Loop where
  base : Base
  calls : List (Base × Invocation) := []

def turn (s : Loop) : Turn → Except Fault Loop
  | .baseNew maxSession => .ok { s with base := { s.base with maxSession := maxSession } }
  | .op o => do
      let b ← perform s.base o
      pure { s with base := b }
  | .process batch => do
      let (b, called) ← epollEventProcess s.base batch
      pure { base := b, calls := s.calls ++ called.map fun inv => (s.base, inv) }

/-- The element the callback is called for is registered as it was then. -/
def Fresh (waited : Base) (inv : Invocation) : Prop :=
  ∃ elem n, waited.table[inv.fd.toNat]? = some elem ∧ elem.registered = some n ∧
    inv.registered = some n

/-! ## What a callback must not do -/

/-- No element that is free gets a callback, and no file descriptor that is due is registered
anew. -/
def Op.Allowed (due : List Int) (b : Base) : Op → Prop
  | .add _ fd _ => fd ∈ due → fd < b.maxSession →
      ∀ elem, b.table[fd.toNat]? = some elem → 0 ≤ elem.fd
  | .remove .. => True
  | .setOption fd _ => ∃ elem, b.table[fd]? = some elem ∧ 0 ≤ elem.fd

/-- Nor does a callback that is called. -/
def InvokeQuiet (due : List Int) (wanted : Bool) (callback : Entry → Option Nat)
    (does : Behaviour) (fd : Int) (b : Base) : Prop :=
  wanted = true → ∀ elem, b.table[fd.toNat]? = some elem → (callback elem).isSome →
    Along perform (fun _ => Op.Allowed due) b does.ops

/-- The event's own file descriptor is due while another of its callbacks is wanted. -/
def dueAfter (again : Bool) (fd : Int) (due : List Int) : List Int :=
  if again then fd :: due else due

def EventQuiet (b : Base) (ev : Event) (due : List Int) : Prop :=
  InvokeQuiet (dueAfter (if ev.onWrite.ret = 0 then ev.has epollin else ev.closing) ev.fd due)
    (ev.has epollout) Entry.writeCallback ev.onWrite ev.fd b ∧
  ∀ ret b₁ wrote,
    invoke (ev.has epollout) Entry.writeCallback ev.onWrite ev.fd 0 b = .ok (ret, b₁, wrote) →
    InvokeQuiet (dueAfter (ev.closing && ev.onRead.ret ≠ 0) ev.fd due)
      (ev.has epollin && ret = 0) Entry.readCallback ev.onRead ev.fd b₁ ∧
    ∀ ret' b₂ read,
      invoke (ev.has epollin && ret = 0) Entry.readCallback ev.onRead ev.fd ret b₁ =
        .ok (ret', b₂, read) →
      InvokeQuiet due (ev.closing && ret' ≠ 0) Entry.closeCallback ev.onClose ev.fd b₂

/-- In the whole batch: the file descriptors of the events to come are due. -/
def Quiet : Base → List Event → Prop
  | _, [] => True
  | b, ev :: rest =>
      (0 ≤ ev.fd → ev.fd < b.maxSession → EventQuiet b ev (rest.map Event.fd)) ∧
        ∀ b' called, processEvent b ev = .ok (b', called) → Quiet b' rest

/-- The condition on a turn. -/
def TurnQuiet (s : Loop) : Turn → Prop
  | .baseNew maxSession => maxSession ≤ s.base.table.length
  | .op o => o.Allowed [] s.base
  | .process batch => Quiet s.base batch

/-! ## The invariant -/

/-- An element that is free has no callbacks. -/
structure Entry.Sound (elem : Entry) : Prop where
  free : elem.registered = none ↔ elem.fd < 0
  callbacks : elem.registered = none →
    elem.writeCallback = none ∧ elem.readCallback = none ∧ elem.closeCallback = none

structure Base.Sound (b : Base) : Prop where
  small : b.maxSession ≤ b.table.length
  entries : ∀ elem ∈ b.table, elem.Sound

/-- File descriptors that are due are as they were, or free. -/
structure Held (waited : Base) (due : List Int) (b : Base) : Prop where
  sound : b.Sound
  size : b.table.length = waited.table.length
  max : b.maxSession = waited.maxSession
  due : ∀ fd ∈ due, 0 ≤ fd → ∀ elem, b.table[fd.toNat]? = some elem → elem.registered = none ∨
    ∃ elem₀, waited.table[fd.toNat]? = some elem₀ ∧ elem₀.registered = elem.registered

section

variable {b b' waited : Base} {fd : Nat} {elem new : Entry} {due due' : List Int}

theorem entry_eq (h : b.table[fd]? = some elem) : b.entry fd = .ok elem := by
  rw [Base.entry, h]

theorem entry_exists (h : b.Sound) {n : Int} (h0 : 0 ≤ n) (hmax : n < b.maxSession) :
    ∃ elem, b.table[n.toNat]? = some elem ∧ elem.Sound := by
  have hlt : n.toNat < b.table.length := by
    have := h.small
    omega
  exact ⟨_, List.getElem?_eq_getElem hlt, h.entries _ (List.getElem_mem hlt)⟩

theorem freeEntry_sound : freeEntry.Sound := ⟨by decide, fun _ => ⟨rfl, rfl, rfl⟩⟩

@[simp] theorem ctl_table (b : Base) (ok : Bool) (op : CtlOp) (fd : Nat) (events : UInt32) :
    (b.ctl ok op fd events).2.table = b.table := by
  simp only [Base.ctl]
  split <;> rfl

@[simp] theorem ctl_maxSession (b : Base) (ok : Bool) (op : CtlOp) (fd : Nat) (events : UInt32) :
    (b.ctl ok op fd events).2.maxSession = b.maxSession := by
  simp only [Base.ctl]
  split <;> rfl

/-- One element is written: what is due stays as it was, or becomes free. -/
theorem Held.write (h : Held waited due b) (hnew : new.Sound)
    (hdue : ∀ n ∈ due, n.toNat = fd → 0 ≤ n → ∀ elem, b.table[fd]? = some elem →
      new.registered = none ∨ new.registered = elem.registered)
    (htable : b'.table = b.table.set fd new) (hmax : b'.maxSession = b.maxSession) :
    Held waited due b' := by
  refine ⟨⟨?_, fun elem hmem => ?_⟩, ?_, hmax.trans h.max, fun n hn hpos elem hget => ?_⟩
  · rw [hmax, htable, List.length_set]
    exact h.sound.small
  · rw [htable] at hmem
    rcases List.mem_or_eq_of_mem_set hmem with hold | rfl
    · exact h.sound.entries elem hold
    · exact hnew
  · rw [htable, List.length_set]
    exact h.size
  · rw [htable] at hget
    rcases getElem?_set_cases hget with ⟨heq, rfl⟩ | ⟨-, hold⟩
    · -- the element that was written
      have hlt : fd < b.table.length := by
        have := (List.getElem?_eq_some_iff.1 hget).1
        rw [List.length_set] at this
        omega
      have hold := List.getElem?_eq_getElem hlt
      rcases hdue n hn heq hpos _ hold with hnone | hsame
      · exact .inl hnone
      · have hwas := h.due n hn hpos _ (by rw [heq]; exact hold)
        rw [← hsame] at hwas
        exact hwas
    · exact h.due n hn hpos elem hold

section Perform

variable {flags : UInt32} {ok : Bool} {fd : Int}

theorem perform_add_used (hin : ¬ (fd ≥ b.maxSession ∨ fd < 0))
    (hget : b.table[fd.toNat]? = some elem) (hused : 0 ≤ elem.fd) :
    perform b (.add ok fd flags) =
      .ok ((b.put fd.toNat { elem with events := elem.events ||| flags }).ctl ok .mod fd.toNat
        (elem.events ||| flags)).2 := by
  simp only [perform, Base.eventAdd, if_neg hin, entry_eq hget, ok_bind, if_pos hused, pure_eq_ok]

theorem perform_add_free (hin : ¬ (fd ≥ b.maxSession ∨ fd < 0))
    (hget : b.table[fd.toNat]? = some elem) (hfree : ¬ 0 ≤ elem.fd) :
    perform b (.add ok fd flags) =
      .ok (({ b with count := b.count + 1 }.put fd.toNat
        { elem with fd := fd, events := flags, registered := some b.count }).ctl ok .add fd.toNat
        flags).2 := by
  simp only [perform, Base.eventAdd, if_neg hin, entry_eq hget, ok_bind, if_neg hfree, pure_eq_ok]

theorem perform_remove (hin : ¬ (fd ≥ b.maxSession ∨ fd < 0))
    (hget : b.table[fd.toNat]? = some elem) :
    perform b (.remove ok fd) = .ok ((b.put fd.toNat freeEntry).ctl ok .del fd.toNat 0).2 := by
  simp only [perform, Base.eventRemove, if_neg hin, entry_eq hget, ok_bind, pure_eq_ok]

/-- A file descriptor out of range is refused. -/
theorem perform_out (hout : fd ≥ b.maxSession ∨ fd < 0) :
    perform b (.add ok fd flags) = .ok b ∧ perform b (.remove ok fd) = .ok b := by
  simp only [perform, Base.eventAdd, Base.eventRemove, if_pos hout, ok_bind, pure_eq_ok, and_self]

end Perform

/-- What a call does to the table: it keeps it, or writes one element that stays sound and, when it
is due, is not registered anew. -/
theorem perform_cases {op : Op} (h : b.Sound) (allowed : op.Allowed due b) :
    ∃ b', perform b op = .ok b' ∧ b'.maxSession = b.maxSession ∧
      (b'.table = b.table ∨ ∃ (fd : Nat) (new : Entry), b'.table = b.table.set fd new ∧ new.Sound ∧
        ∀ n ∈ due, n.toNat = fd → 0 ≤ n → ∀ elem, b.table[fd]? = some elem →
          new.registered = none ∨ new.registered = elem.registered) := by
  cases op with
  | add ok fd flags =>
    by_cases hout : fd ≥ b.maxSession ∨ fd < 0
    · exact ⟨b, (perform_out hout).1, rfl, .inl rfl⟩
    · obtain ⟨elem, hget, hsound⟩ := entry_exists h (show 0 ≤ fd by omega) (by omega)
      by_cases hused : 0 ≤ elem.fd
      · refine ⟨_, perform_add_used hout hget hused, ctl_maxSession .., .inr ⟨fd.toNat,
          { elem with events := elem.events ||| flags }, ctl_table ..,
          ⟨hsound.free, hsound.callbacks⟩, ?_⟩⟩
        intro n _ _ _ elem' hget'
        rw [hget] at hget'
        cases hget'
        exact .inr rfl
      · refine ⟨_, perform_add_free hout hget hused, ctl_maxSession .., .inr ⟨fd.toNat,
          { elem with fd := fd, events := flags, registered := some b.count },
          ctl_table .., ?_, ?_⟩⟩
        · refine ⟨⟨fun hnone => (by cases hnone), fun hneg => ?_⟩, fun hnone => (by cases hnone)⟩
          have : 0 ≤ fd := by omega
          exact absurd hneg (not_lt.2 this)
        · -- a registration: the file descriptor is not due
          intro n hn heq hpos elem' hget'
          have hnfd : n = fd := by omega
          exact absurd (allowed (hnfd ▸ hn) (by omega) elem hget) hused
  | remove ok fd =>
    by_cases hout : fd ≥ b.maxSession ∨ fd < 0
    · exact ⟨b, (@perform_out b 0 ok fd hout).2, rfl, .inl rfl⟩
    · obtain ⟨elem, hget, -⟩ := entry_exists h (show 0 ≤ fd by omega) (by omega)
      exact ⟨_, perform_remove hout hget, ctl_maxSession .., .inr ⟨fd.toNat, freeEntry,
        ctl_table .., freeEntry_sound, fun _ _ _ _ _ _ => .inl rfl⟩⟩
  | setOption fd option =>
    obtain ⟨elem, hget, hused⟩ := allowed
    have hsound := h.entries elem (List.mem_of_getElem? hget)
    refine ⟨b.put fd (elem.setOption option),
      by simp only [perform, Base.eventsSetOption, entry_eq hget, ok_bind, pure_eq_ok],
      rfl, .inr ⟨fd, elem.setOption option, rfl, ?_, ?_⟩⟩
    · have hsome : ¬ elem.registered = none := fun hnone => by
        have := hsound.free.1 hnone
        omega
      cases option <;>
        exact ⟨hsound.free, fun hnone => absurd hnone hsome⟩
    · intro n _ _ _ elem' hget'
      rw [hget] at hget'
      cases hget'
      cases option <;> exact .inr rfl

/-- A call that is allowed leaves what is due alone. -/
theorem Held.perform (h : Held waited due b) {op : Op}
    (allowed : op.Allowed due b) :
    ∃ b', perform b op = .ok b' ∧ Held waited due b' := by
  obtain ⟨b', hperform, hmax, htable | ⟨fd, new, htable, hnew, hdue⟩⟩ :=
    perform_cases h.sound allowed
  · exact ⟨b', hperform, ⟨⟨by rw [hmax, htable]; exact h.sound.small, htable ▸ h.sound.entries⟩,
      htable ▸ h.size, hmax.trans h.max, htable ▸ h.due⟩⟩
  · exact ⟨b', hperform, h.write hnew hdue htable hmax⟩

theorem Held.run (h : Held waited due b) {ops : List Op}
    (along : Along Events.perform (fun _ => Op.Allowed due) b ops) :
    ∃ b', run Events.perform b ops = .ok b' ∧ Held waited due b' :=
  run_total h (fun _ _ hheld allowed => hheld.perform allowed) along

/-- Less may be due. -/
theorem Held.mono (h : Held waited due b) (hsub : ∀ n ∈ due', n ∈ due) : Held waited due' b :=
  ⟨h.sound, h.size, h.max, fun n hn => h.due n (hsub n hn)⟩

/-! ## One event -/

theorem mem_dueAfter {again : Bool} {n fd : Int} (h : n ∈ dueAfter again fd due) :
    n = fd ∨ n ∈ due := by
  unfold dueAfter at h
  split at h
  · exact List.mem_cons.1 h
  · exact .inr h

theorem self_mem_dueAfter {again : Bool} {fd : Int} (h : again = true) :
    fd ∈ dueAfter again fd due := by
  rw [dueAfter, if_pos h]
  exact List.mem_cons_self

theorem due_sub_dueAfter {again : Bool} {n fd : Int} (h : n ∈ due) : n ∈ dueAfter again fd due := by
  unfold dueAfter
  split
  · exact List.mem_cons_of_mem _ h
  · exact h

/-- A callback is not called, or it is called for an element that is registered as it was. -/
theorem invoke_cases {wanted : Bool} {callback : Entry → Option Nat} {does : Behaviour} {fd : Int}
    (hcallback : ∀ elem : Entry, elem.Sound → elem.registered = none → callback elem = none)
    (h : Held waited due b) (h0 : 0 ≤ fd) (hmax : fd < b.maxSession)
    (hdue : wanted = true → fd ∈ due ∧ ∀ n ∈ due', n ∈ due)
    (quiet : InvokeQuiet due' wanted callback does fd b) (ret : Int) :
    invoke wanted callback does fd ret b = .ok (ret, b, []) ∨
      wanted = true ∧ ∃ b' inv, invoke wanted callback does fd ret b = .ok (does.ret, b', [inv]) ∧
        Held waited due' b' ∧ Fresh waited inv := by
  cases wanted with
  | false => exact .inl rfl
  | true =>
    obtain ⟨hmem, hsub⟩ := hdue rfl
    obtain ⟨elem, hget, hsound⟩ := entry_exists h.sound h0 hmax
    cases hcall : callback elem with
    | none =>
      left
      simp only [invoke, if_true, entry_eq hget, ok_bind, hcall, pure_eq_ok]
    | some f =>
      right
      have along := quiet rfl elem hget (by rw [hcall]; rfl)
      obtain ⟨b', hrun, hheld⟩ := (h.mono hsub).run along
      refine ⟨rfl, b', ⟨fd, elem.registered⟩, ?_, hheld, ?_⟩
      · simp only [invoke, if_true, entry_eq hget, ok_bind, hcall, hrun, pure_eq_ok]
      · -- it has a callback, and so it is registered
        cases hreg : elem.registered with
        | none =>
          rw [hcallback elem hsound hreg] at hcall
          cases hcall
        | some n =>
          rcases h.due fd hmem h0 elem hget with hnone | ⟨elem₀, hget₀, hsame⟩
          · rw [hreg] at hnone
            cases hnone
          · exact ⟨elem₀, n, hget₀, hsame.trans hreg, rfl⟩

theorem processEvent_held {ev : Event} {rest : List Int} (h : Held waited (ev.fd :: rest) b)
    (quiet : 0 ≤ ev.fd → ev.fd < b.maxSession → EventQuiet b ev rest) :
    ∃ b' called, processEvent b ev = .ok (b', called) ∧ Held waited rest b' ∧
      ∀ inv ∈ called, Fresh waited inv := by
  by_cases hout : ev.fd ≥ b.maxSession ∨ ev.fd < 0
  · exact ⟨b, [], by rw [processEvent, if_pos hout], h.mono fun n hn => List.mem_cons_of_mem _ hn,
      fun _ hmem => absurd hmem List.not_mem_nil⟩
  have h0 : 0 ≤ ev.fd := by omega
  have hmax : ev.fd < b.maxSession := by omega
  obtain ⟨quietWrite, quietRest⟩ := quiet h0 hmax
  -- the write callback, after which `due` has the file descriptor if another one is wanted
  obtain ⟨ret, b₁, wrote, due, hwrite, hheld, hwrote, hsub, hread, hclose⟩ :
      ∃ ret b₁ wrote due,
        invoke (ev.has epollout) Entry.writeCallback ev.onWrite ev.fd 0 b = .ok (ret, b₁, wrote) ∧
        Held waited due b₁ ∧ (∀ inv ∈ wrote, Fresh waited inv) ∧ (∀ n ∈ rest, n ∈ due) ∧
        ((ev.has epollin && decide (ret = 0)) = true → ev.fd ∈ due) ∧
        ((ev.closing && decide (ret ≠ 0)) = true → ev.fd ∈ due) := by
    rcases invoke_cases (fun elem hsound hnone => (hsound.callbacks hnone).1) h h0 hmax
      (fun _ => ⟨List.mem_cons_self, fun n hn => List.mem_cons.2 (mem_dueAfter hn)⟩)
      quietWrite 0 with heq | ⟨-, b₁, inv, heq, hheld, hfresh⟩
    · exact ⟨0, b, [], _, heq, h, fun _ hmem => absurd hmem List.not_mem_nil,
        fun n hn => List.mem_cons_of_mem _ hn, fun _ => List.mem_cons_self,
        fun _ => List.mem_cons_self⟩
    · refine ⟨_, b₁, [inv], _, heq, hheld, fun i hmem => List.mem_singleton.1 hmem ▸ hfresh,
        fun n hn => due_sub_dueAfter hn, fun hwanted => self_mem_dueAfter ?_,
        fun hwanted => self_mem_dueAfter ?_⟩
      · obtain ⟨hin, hzero⟩ := Bool.and_eq_true_iff.1 hwanted
        rw [if_pos (of_decide_eq_true hzero)]
        exact hin
      · obtain ⟨hhup, hret⟩ := Bool.and_eq_true_iff.1 hwanted
        rw [if_neg (of_decide_eq_true hret)]
        exact hhup
  obtain ⟨quietRead, quietClose⟩ := quietRest ret b₁ wrote hwrite
  have hmax₁ : ev.fd < b₁.maxSession := by
    rw [hheld.max, ← h.max]
    exact hmax
  -- the read callback
  obtain ⟨ret', b₂, read, due₂, hreads, hheld₂, hfresh₂, hsub₂, hclose₂⟩ :
      ∃ ret' b₂ read due₂,
        invoke (ev.has epollin && ret = 0) Entry.readCallback ev.onRead ev.fd ret b₁ =
          .ok (ret', b₂, read) ∧
        Held waited due₂ b₂ ∧ (∀ inv ∈ read, Fresh waited inv) ∧ (∀ n ∈ rest, n ∈ due₂) ∧
        ((ev.closing && decide (ret' ≠ 0)) = true → ev.fd ∈ due₂) := by
    rcases invoke_cases (fun elem hsound hnone => (hsound.callbacks hnone).2.1) hheld h0 hmax₁
      (fun hwanted => ⟨hread hwanted, fun n hn => (mem_dueAfter hn).elim
        (fun heq => heq ▸ hread hwanted) (hsub n)⟩)
      quietRead ret with heq | ⟨-, b₂, inv, heq, hheld₂, hfresh⟩
    · exact ⟨ret, b₁, [], due, heq, hheld, fun _ hmem => absurd hmem List.not_mem_nil, hsub, hclose⟩
    · exact ⟨_, b₂, [inv], _, heq, hheld₂, fun i hmem => List.mem_singleton.1 hmem ▸ hfresh,
        fun n hn => due_sub_dueAfter hn, self_mem_dueAfter⟩
  have hmax₂ : ev.fd < b₂.maxSession := by
    rw [hheld₂.max, ← h.max]
    exact hmax
  -- the close callback, the last
  obtain ⟨ret'', b₃, closed, hcloses, hheld₃, hfresh₃⟩ :
      ∃ ret'' b₃ closed,
        invoke (ev.closing && ret' ≠ 0) Entry.closeCallback ev.onClose ev.fd ret' b₂ =
          .ok (ret'', b₃, closed) ∧
        Held waited rest b₃ ∧ ∀ inv ∈ closed, Fresh waited inv := by
    rcases invoke_cases (fun elem hsound hnone => (hsound.callbacks hnone).2.2) hheld₂ h0 hmax₂
      (fun hwanted => ⟨hclose₂ hwanted, hsub₂⟩)
      (quietClose ret' b₂ read hreads) ret' with heq | ⟨-, b₃, inv, heq, hheld₃, hfresh⟩
    · exact ⟨ret', b₂, [], heq, hheld₂.mono hsub₂, fun _ hmem => absurd hmem List.not_mem_nil⟩
    · exact ⟨_, b₃, [inv], heq, hheld₃, fun i hmem => List.mem_singleton.1 hmem ▸ hfresh⟩
  refine ⟨b₃, wrote ++ read ++ closed, ?_, hheld₃, fun inv hmem => ?_⟩
  · simp only [processEvent, if_neg hout, hwrite, ok_bind, hreads, hcloses, pure_eq_ok]
  · rcases List.mem_append.1 hmem with hmem | hmem
    · rcases List.mem_append.1 hmem with hmem | hmem
      · exact hwrote inv hmem
      · exact hfresh₂ inv hmem
    · exact hfresh₃ inv hmem

/-- A batch, event by event. -/
theorem epollEventProcess_held {batch : List Event}
    (h : Held waited (batch.map Event.fd) b) (quiet : Quiet b batch) :
    ∃ b' called, epollEventProcess b batch = .ok (b', called) ∧ Held waited [] b' ∧
      ∀ inv ∈ called, Fresh waited inv := by
  induction batch generalizing b with
  | nil => exact ⟨b, [], rfl, h, fun _ hmem => absurd hmem List.not_mem_nil⟩
  | cons ev rest ih =>
    obtain ⟨quietFirst, quietRest⟩ := quiet
    obtain ⟨b₁, called, hevent, hheld, hfresh⟩ := processEvent_held h quietFirst
    obtain ⟨b₂, later, hprocess, hend, hfresh'⟩ := ih hheld (quietRest b₁ called hevent)
    refine ⟨b₂, called ++ later, ?_, hend, fun inv hmem => ?_⟩
    · simp only [epollEventProcess, hevent, ok_bind, hprocess, pure_eq_ok]
    · rcases List.mem_append.1 hmem with hmem | hmem
      · exact hfresh inv hmem
      · exact hfresh' inv hmem

end

/-! ## Whole runs -/

/-- What the program's turns keep. -/
structure Loop.Sound (s : Loop) : Prop where
  base : s.base.Sound
  calls : ∀ p ∈ s.calls, Fresh p.1 p.2

/-- A base is held as it is. -/
theorem Base.Sound.held {b : Base} (h : b.Sound) (due : List Int) : Held b due b :=
  ⟨h, rfl, rfl, fun _ _ _ elem hget => .inr ⟨elem, hget, rfl⟩⟩

theorem turn_sound {s : Loop} {t : Turn} (h : s.Sound) (quiet : TurnQuiet s t) :
    ∃ s', turn s t = .ok s' ∧ s'.Sound := by
  cases t with
  | baseNew maxSession => exact ⟨_, rfl, ⟨quiet, h.base.entries⟩, h.calls⟩
  | op o =>
    obtain ⟨b, hperform, hheld⟩ := (h.base.held []).perform quiet
    exact ⟨{ s with base := b }, by simp only [turn, hperform, ok_bind, pure_eq_ok],
      hheld.sound, h.calls⟩
  | process batch =>
    obtain ⟨b, called, hprocess, hheld, hfresh⟩ :=
      epollEventProcess_held (h.base.held (batch.map Event.fd)) quiet
    refine ⟨⟨b, s.calls ++ called.map fun inv => (s.base, inv)⟩,
      by simp only [turn, hprocess, ok_bind, pure_eq_ok], hheld.sound, fun p hmem => ?_⟩
    rcases List.mem_append.1 hmem with hold | hnew
    · exact h.calls p hold
    · obtain ⟨inv, hinv, rfl⟩ := List.mem_map.1 hnew
      exact hfresh inv hinv

theorem baseNew_sound (created : Bool) (maxSession : Nat) : (baseNew created maxSession).Sound := by
  refine ⟨by simp [baseNew], fun elem hmem => ?_⟩
  obtain ⟨-, rfl⟩ := List.mem_replicate.1 hmem
  exact freeEntry_sound

/-- In a run in which no callback registers a file descriptor anew that an event of the batch is
still to be handled for, every callback is called for the registration its event was raised for. -/
theorem events_reach_registration (created : Bool) (maxSession : Nat) {turns : List Turn}
    (quiet : Along turn (fun _ => TurnQuiet) { base := baseNew created maxSession } turns) :
    ∃ s, run turn { base := baseNew created maxSession } turns = .ok s ∧
      ∀ p ∈ s.calls, Fresh p.1 p.2 := by
  have hstart : Loop.Sound { base := baseNew created maxSession } :=
    ⟨baseNew_sound created maxSession, fun p hmem => absurd hmem List.not_mem_nil⟩
  obtain ⟨s, hrun, hsound⟩ := run_total hstart (fun _ _ h hquiet => turn_sound h hquiet) quiet
  exact ⟨s, hrun, hsound.calls⟩

/-- Two file descriptors with a read callback, and an event for the first of them. -/
def twoReaders : List Turn :=
  [.op (.add true 1 epollin), .op (.setOption 1 (.setReadCallback (some 0))),
    .op (.add true 2 epollin), .op (.setOption 2 (.setReadCallback (some 0)))]

/-- The first callback removes the second file descriptor. -/
def removing : Event := { fd := 1, events := epollin, onRead := ⟨[.remove true 2], 0⟩ }

theorem events_reach_registration_removed :
    ∃ s, run turn { base := baseNew true 4 } (twoReaders ++
        [.process [removing, { fd := 2, events := epollin }]]) = .ok s ∧
      ∀ p ∈ s.calls, Fresh p.1 p.2 := by
  refine events_reach_registration true 4 ?_
  refine along_cons (fun hmem => absurd hmem List.not_mem_nil) fun s hs => ?_
  cases hs
  refine along_cons ⟨_, rfl, by decide⟩ fun s hs => ?_
  cases hs
  refine along_cons (fun hmem => absurd hmem List.not_mem_nil) fun s hs => ?_
  cases hs
  refine along_cons ⟨_, rfl, by decide⟩ fun s hs => ?_
  cases hs
  refine along_cons ⟨fun _ _ => ⟨?_, ?_⟩, ?_⟩ fun s _ => along_nil s
  · intro hwanted
    cases hwanted
  · intro ret b₁ wrote hwrite
    cases hwrite
    refine ⟨fun _ _ _ _ => along_cons trivial fun s _ => along_nil s, ?_⟩
    intro ret' b₂ read _ hwanted
    cases hwanted
  · intro b' called hevent
    cases hevent
    refine ⟨fun _ _ => ⟨?_, ?_⟩, fun b' called hevent => trivial⟩
    · intro hwanted
      cases hwanted
    · intro ret b₁ wrote hwrite
      cases hwrite
      refine ⟨fun _ _ _ _ => along_nil _, ?_⟩
      intro ret' b₂ read _ hwanted
      cases hwanted

/-- The first callback closes the second file descriptor and registers its number for a new
connection. -/
def replacing : Event :=
  { fd := 1, events := epollin
    onRead := ⟨[.remove true 2, .add true 2 epollin, .setOption 2 (.setReadCallback (some 1))], 0⟩ }

/-- The event that is left was raised for the old connection, and reaches the new one. -/
theorem replaced_descriptor_called :
    ∃ s, run turn { base := baseNew true 4 } (twoReaders ++
        [.process [replacing, { fd := 2, events := epollin }]]) = .ok s ∧
      ¬ ∀ p ∈ s.calls, Fresh p.1 p.2 := by
  refine ⟨_, rfl, fun h => ?_⟩
  obtain ⟨elem, n, hget, hreg, hcalled⟩ := h _ (List.mem_cons_of_mem _ List.mem_cons_self)
  cases hget
  cases hreg
  cases hcalled

end CassandraApi.Epoll.Events
