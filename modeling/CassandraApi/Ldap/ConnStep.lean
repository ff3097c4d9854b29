/-
# `Ldap.ConnStep` — what an event of the pool does

`Pool.step` is a machine with a case for each event.  Seen from one connection an
event is about that connection or leaves it alone (`Event.about`), it makes of it
what `Conn.after` says, and it can happen when `Event.Enabled` holds; the queue of
BERs is touched by two events only, the slots by three.  `step_spec` has all of this at
once, so an invariant of the pool never looks into `Pool.step` itself.
-/
import CassandraApi.Ldap.Agreement

namespace CassandraApi.Ldap

open C Ber Lib

/-! ## Events and connections -/

/-- The connection whose fields an event changes. -/
def Event.about : Event → Option Ptr
  | .opened _ c => some c
  | .leaked _ c => some c
  | .closed _ _ => none
  | .bindSent c => some c
  | .established c => some c
  | .direct c _ => some c
  | .queued _ => none
  | .flushed c _ => some c
  | .keepaliveId c _ => some c
  | .keepaliveCopied c _ => some c
  | .sent c _ => some c
  | .entry c _ => some c
  | .keepaliveEntry _ _ => none
  | .answered c _ => some c
  | .unexpected c _ => some c
  | .keptAlive c _ _ => some c
  | .consumed c => some c

/-- A BER behind what there is to send, and one request more outstanding. -/
def Conn.requested (cn : Conn) (ber : BER) : Conn :=
  { cn with
    wBuffer := cn.wBuffer.map (· ++ ber.berval)
    concurrentCount := int32 (cn.concurrentCount + 1) }

/-- What an event makes of the connection that it is about. -/
def Conn.after (max : Int) (cn : Conn) : Event → Conn
  | .opened i _ => { no := i }
  | .leaked i _ => { no := i, wBuffer := none }
  | .bindSent _ => { cn with state := .stateConnecting }
  | .established _ => { cn with state := .stateReady }
  | .direct _ ber => cn.requested ber
  | .flushed _ ber =>
      if (cn.requested ber).concurrentCount ≥ max then
        { cn.requested ber with state := .stateWaiting }
      else cn.requested ber
  | .keepaliveId _ ktid => { cn with ktid := ktid }
  | .keepaliveCopied _ ber => { cn with wBuffer := cn.wBuffer.map (· ++ ber.berval) }
  | .sent _ bytes =>
      if cn.wCurr + bytes.length < (cn.wBuffer.getD []).length then
        { cn with wCurr := cn.wCurr + bytes.length }
      else { cn with wCurr := 0, wBuffer := some [] }
  | .entry _ resp => { cn with received := cn.received ++ resp.kept cn.ktid }
  | .answered _ resp =>
      let cn := { cn with
        concurrentCount := cn.concurrentCount - 1
        received := cn.received ++ resp.kept cn.ktid }
      if cn.state = .stateWaiting ∧ cn.concurrentCount < max then { cn with state := .stateReady }
      else cn
  | .unexpected _ resp => { cn with received := cn.received ++ resp.kept cn.ktid }
  | .keptAlive _ _ waiting =>
      if waiting then { cn with ktid := 0, wBuffer := cn.wBuffer.map fun _ => [], wCurr := 0 }
      else { cn with ktid := 0 }
  | .consumed _ => { cn with received := [] }
  | _ => cn

/-- When an event can happen, as far as its connection and the queue go. -/
def Event.Enabled (k : Pool) : Event → Prop
  | .bindSent c => (k.conns c).state = .stateOpen
  | .established c => (k.conns c).state = .stateConnecting
  | .direct c _ => (k.conns c).wBuffer.isSome
  | .flushed c ber =>
      k.readyQueue = some c ∧ k.sendMsgQueue.head? = some ber ∧ (k.conns c).wBuffer.isSome
  | .keepaliveCopied c _ => (k.conns c).wBuffer.isSome
  | .sent c bytes =>
      (k.conns c).wBuffer.isSome ∧ (k.conns c).pending.take bytes.length = bytes
  | .answered c _ => 0 < (k.conns c).concurrentCount
  | .unexpected c _ => ¬ 0 < (k.conns c).concurrentCount
  | _ => True

/-- What an event makes of the queue. -/
def queueAfter (bers : List BER) : Event → List BER
  | .queued ber => bers ++ [ber]
  | .flushed _ _ => bers.tail
  | _ => bers

/-- And of its counter. -/
def countAfter (n : Int) : Event → Int
  | .queued _ => n + 1
  | .flushed _ _ => n - 1
  | _ => n

/-- What an event makes of client_array. -/
def slotsAfter (slots : Nat → Option Ptr) : Event → Nat → Option Ptr
  | .opened i c => Function.update slots i (some c)
  | .leaked i c => Function.update slots i (some c)
  | .closed i _ => Function.update slots i none
  | _ => slots

/-- The connections after an event. -/
def connsAfter (k : Pool) (e : Event) : Ptr → Conn :=
  match e.about with
  | none => k.conns
  | some c => Function.update k.conns c ((k.conns c).after k.maxConcurrent e)

/-- Everything an event does, the rings apart. -/
structure Stepped (k : Pool) (e : Event) (k' : Pool) : Prop where
  enabled : e.Enabled k
  conns : k'.conns = connsAfter k e
  queue : k'.sendMsgQueue = queueAfter k.sendMsgQueue e
  queueCount : k'.queueCount = countAfter k.queueCount e
  max : k'.maxConcurrent = k.maxConcurrent
  slots : k'.clientArray = slotsAfter k.clientArray e

/-! ## One step -/

section Step

variable {k k' : Pool} {c : Ptr} {cn cn' : Conn}

theorem conn_here (h : k.conn c = .ok cn) : cn = k.conns c := by
  unfold Pool.conn at h
  split at h
  · exact (Except.ok.inj h).symm
  · cases h

theorem copy_spec {ber : BER} (h : Pool.copy ber cn = .ok cn') :
    cn.wBuffer.isSome ∧ cn' = { cn with wBuffer := cn.wBuffer.map (· ++ ber.berval) } := by
  unfold Pool.copy at h
  split at h
  · cases h
  · rename_i buf hbuf
    cases h
    exact ⟨by rw [hbuf]; rfl, by rw [hbuf]; rfl⟩

theorem alloc_spec {i : Nat} {k₁ : Pool} (h : k.alloc i c cn = .ok k₁) :
    k₁.conns = Function.update k.conns c cn ∧ k₁.sendMsgQueue = k.sendMsgQueue ∧
      k₁.queueCount = k.queueCount ∧ k₁.maxConcurrent = k.maxConcurrent ∧
      k₁.clientArray = Function.update k.clientArray i (some c) := by
  obtain ⟨_, -, h⟩ := bind_eq_ok.1 h
  cases h
  exact ⟨rfl, rfl, rfl, rfl, rfl⟩

theorem step_spec {e : Event} (h : k.step e = .ok k') : Stepped k e k' := by
  cases e with
  | opened i c =>
    obtain ⟨k₁, halloc, h⟩ := bind_eq_ok.1 h
    obtain ⟨q, -, h⟩ := bind_eq_ok.1 h
    obtain ⟨hconns, hqueue, hcount, hmax, hslots⟩ := alloc_spec halloc
    cases h
    exact ⟨trivial, hconns, hqueue, hcount, hmax, hslots⟩
  | leaked i c =>
    obtain ⟨hconns, hqueue, hcount, hmax, hslots⟩ := alloc_spec h
    exact ⟨trivial, hconns, hqueue, hcount, hmax, hslots⟩
  | closed i c =>
    obtain ⟨_, -, h⟩ := bind_eq_ok.1 h
    obtain ⟨cn, -, h⟩ := bind_eq_ok.1 h
    obtain ⟨q, -, h⟩ := bind_eq_ok.1 h
    cases h
    exact ⟨trivial, rfl, rfl, rfl, rfl, rfl⟩
  | bindSent c =>
    obtain ⟨cn, hcn, h⟩ := bind_eq_ok.1 h
    obtain ⟨_, hguard, h⟩ := bind_eq_ok.1 h
    obtain rfl := conn_here hcn
    have henabled := Pool.require_eq_ok.1 hguard
    cases h
    exact ⟨henabled, rfl, rfl, rfl, rfl, rfl⟩
  | established c =>
    obtain ⟨cn, hcn, h⟩ := bind_eq_ok.1 h
    obtain ⟨_, hguard, h⟩ := bind_eq_ok.1 h
    obtain ⟨q, -, h⟩ := bind_eq_ok.1 h
    obtain rfl := conn_here hcn
    have henabled := Pool.require_eq_ok.1 hguard
    cases h
    exact ⟨henabled, rfl, rfl, rfl, rfl, rfl⟩
  | direct c ber =>
    obtain ⟨cn, hcn, h⟩ := bind_eq_ok.1 h
    obtain ⟨cn', hcopy, h⟩ := bind_eq_ok.1 h
    obtain rfl := conn_here hcn
    obtain ⟨hsome, rfl⟩ := copy_spec hcopy
    cases h
    exact ⟨hsome, rfl, rfl, rfl, rfl, rfl⟩
  | queued ber =>
    cases h
    exact ⟨trivial, rfl, rfl, rfl, rfl, rfl⟩
  | flushed c ber =>
    obtain ⟨_, hguard, h⟩ := bind_eq_ok.1 h
    obtain ⟨cn, hcn, h⟩ := bind_eq_ok.1 h
    obtain ⟨cn', hcopy, h⟩ := bind_eq_ok.1 h
    obtain rfl := conn_here hcn
    obtain ⟨hsome, rfl⟩ := copy_spec hcopy
    obtain ⟨hready, hhead⟩ := Pool.require_eq_ok.1 hguard
    -- full, it goes to wait_queue; else to the end of ready_queue
    by_cases hfull : int32 ((k.conns c).concurrentCount + 1) ≥ k.maxConcurrent
    · simp only at h
      rw [if_pos hfull] at h
      obtain ⟨q, -, h⟩ := bind_eq_ok.1 h
      cases h
      exact ⟨⟨hready, hhead, hsome⟩, congrArg (Function.update k.conns c) (if_pos hfull).symm,
        rfl, rfl, rfl, rfl⟩
    · simp only at h
      rw [if_neg hfull] at h
      obtain ⟨q, -, h⟩ := bind_eq_ok.1 h
      cases h
      exact ⟨⟨hready, hhead, hsome⟩, congrArg (Function.update k.conns c) (if_neg hfull).symm,
        rfl, rfl, rfl, rfl⟩
  | keepaliveId c ktid =>
    obtain ⟨cn, hcn, h⟩ := bind_eq_ok.1 h
    obtain rfl := conn_here hcn
    cases h
    exact ⟨trivial, rfl, rfl, rfl, rfl, rfl⟩
  | keepaliveCopied c ber =>
    obtain ⟨cn, hcn, h⟩ := bind_eq_ok.1 h
    obtain ⟨cn', hcopy, h⟩ := bind_eq_ok.1 h
    obtain rfl := conn_here hcn
    obtain ⟨hsome, rfl⟩ := copy_spec hcopy
    cases h
    exact ⟨hsome, rfl, rfl, rfl, rfl, rfl⟩
  | sent c bytes =>
    obtain ⟨cn, hcn, h⟩ := bind_eq_ok.1 h
    obtain ⟨_, hguard, h⟩ := bind_eq_ok.1 h
    obtain rfl := conn_here hcn
    have henabled := Pool.require_eq_ok.1 hguard
    by_cases hmore : (k.conns c).wCurr + bytes.length < ((k.conns c).wBuffer.getD []).length
    · simp only at h
      rw [if_pos hmore] at h
      cases h
      exact ⟨henabled, congrArg (Function.update k.conns c) (if_pos hmore).symm, rfl, rfl, rfl, rfl⟩
    · simp only at h
      rw [if_neg hmore] at h
      cases h
      exact ⟨henabled, congrArg (Function.update k.conns c) (if_neg hmore).symm, rfl, rfl, rfl, rfl⟩
  | entry c resp =>
    obtain ⟨cn, hcn, h⟩ := bind_eq_ok.1 h
    obtain ⟨_, -, h⟩ := bind_eq_ok.1 h
    obtain rfl := conn_here hcn
    cases h
    exact ⟨trivial, rfl, rfl, rfl, rfl, rfl⟩
  | keepaliveEntry c resp =>
    obtain ⟨cn, -, h⟩ := bind_eq_ok.1 h
    obtain ⟨_, -, h⟩ := bind_eq_ok.1 h
    cases h
    exact ⟨trivial, rfl, rfl, rfl, rfl, rfl⟩
  | answered c resp =>
    obtain ⟨cn, hcn, h⟩ := bind_eq_ok.1 h
    obtain ⟨_, hguard, h⟩ := bind_eq_ok.1 h
    obtain rfl := conn_here hcn
    have henabled := (Pool.require_eq_ok.1 hguard).2
    by_cases hagain : (k.conns c).state = .stateWaiting ∧
        (k.conns c).concurrentCount - 1 < k.maxConcurrent
    · simp only at h
      rw [if_pos hagain] at h
      obtain ⟨q, -, h⟩ := bind_eq_ok.1 h
      cases h
      exact ⟨henabled, congrArg (Function.update k.conns c) (if_pos hagain).symm, rfl, rfl, rfl, rfl⟩
    · simp only at h
      rw [if_neg hagain] at h
      cases h
      exact ⟨henabled, congrArg (Function.update k.conns c) (if_neg hagain).symm, rfl, rfl, rfl, rfl⟩
  | unexpected c resp =>
    obtain ⟨cn, hcn, h⟩ := bind_eq_ok.1 h
    obtain ⟨_, hguard, h⟩ := bind_eq_ok.1 h
    obtain rfl := conn_here hcn
    have henabled := (Pool.require_eq_ok.1 hguard).2
    cases h
    exact ⟨henabled, rfl, rfl, rfl, rfl, rfl⟩
  | keptAlive c resp waiting =>
    obtain ⟨cn, hcn, h⟩ := bind_eq_ok.1 h
    obtain ⟨_, -, h⟩ := bind_eq_ok.1 h
    obtain ⟨found, -, h⟩ := bind_eq_ok.1 h
    obtain ⟨_, hguard, h⟩ := bind_eq_ok.1 h
    obtain rfl := conn_here hcn
    have hwaiting := Pool.require_eq_ok.1 hguard
    by_cases hfound : found = true
    · have hwait : waiting = true := hwaiting.symm.trans hfound
      simp only at h
      rw [if_pos hfound] at h
      obtain ⟨q, -, h⟩ := bind_eq_ok.1 h
      cases h
      exact ⟨trivial, congrArg (Function.update k.conns c) (if_pos hwait).symm, rfl, rfl, rfl, rfl⟩
    · have hwait : ¬ waiting = true := fun hw => hfound (hwaiting.trans hw)
      simp only at h
      rw [if_neg hfound] at h
      cases h
      exact ⟨trivial, congrArg (Function.update k.conns c) (if_neg hwait).symm, rfl, rfl, rfl, rfl⟩
  | consumed c =>
    obtain ⟨cn, hcn, h⟩ := bind_eq_ok.1 h
    obtain rfl := conn_here hcn
    cases h
    exact ⟨trivial, rfl, rfl, rfl, rfl, rfl⟩

/-- The connection that an event is about. -/
theorem Stepped.conn {e : Event} (h : Stepped k e k') (about : e.about = some c) :
    k'.conns c = (k.conns c).after k.maxConcurrent e := by
  rw [h.conns, connsAfter, about]
  exact Function.update_self ..

/-- The others. -/
theorem Stepped.other {e : Event} (h : Stepped k e k') (about : e.about ≠ some c) :
    k'.conns c = k.conns c := by
  rw [h.conns, connsAfter]
  cases habout : e.about with
  | none => rfl
  | some c' =>
    have hne : c ≠ c' := by
      rintro rfl
      exact about habout
    exact Function.update_of_ne hne ..

end Step

end CassandraApi.Ldap
