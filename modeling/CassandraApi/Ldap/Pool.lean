/-
# `Ldap.Pool` — the client as a pool of connections

What is left of the client when clocks, buffers sizes, parsing and error texts
are taken away: the slots, the two rings, the queue of BERs, and for every
connection what it has to send, how many answers it waits for, the id of its
keepalive, and what it has received.

The pool is a machine whose events are the `Event`s the operations report:
`Pool.step` says when an event can happen and what it does.  An operation of
the client is a run of the pool (`perform_refines`), so what holds along all
runs of the pool holds for the client after any sequence of calls.
-/
import CassandraApi.Ldap.Client
import CassandraApi.Lib.Machine

namespace CassandraApi.Ldap

open C Ber Lib

/-! ## The machine -/

structure Conn where
  no : Int
  state : ClntState := .stateOpen
  wBuffer : Option (List UInt8) := some []
  wCurr : Nat := 0
  concurrentCount : Int := 0
  ktid : UInt32 := 0
  received : List UInt8 := []

/-- What `send` has not taken yet: `w_buffer[w_curr .. w_len)`. -/
def Conn.pending (cn : Conn) : List UInt8 := (cn.wBuffer.getD []).drop cn.wCurr

structure Pool extends Queues where
  maxConcurrent : Int
  clientCount : Int
  queueCount : Int
  clientArray : Nat → Option Ptr
  conns : Ptr → Conn
  sendMsgQueue : List BER

namespace Pool

/-- A guard. -/
def require (p : Prop) [Decidable p] : Except Fault Unit := if p then .ok () else .error .stuck

@[simp] theorem require_eq_ok {p : Prop} [Decidable p] {u : Unit} : require p = .ok u ↔ p := by
  unfold require
  split <;> simp_all

theorem require_bind {α : Type} {p : Prop} [Decidable p] (hp : p)
    (f : Unit → Except Fault α) : (require p >>= f) = f () := by
  rw [require, if_pos hp]
  rfl

def put (k : Pool) (c : Ptr) (cn : Conn) : Pool :=
  { k with conns := Function.update k.conns c cn }

/-- The connection at `c`, which must be allocated. -/
def conn (k : Pool) (c : Ptr) : Except Fault Conn :=
  if (k.links c).isSome then .ok (k.conns c) else .error .freed

/-- Space for a connection in a free slot. -/
def alloc (k : Pool) (i : Nat) (c : Ptr) (cn : Conn) : Except Fault Pool := do
  require (i < ldapMaxClient ∧ k.clientArray i = none ∧ (k.links c).isNone)
  pure (Pool.put { k with
    clientArray := Function.update k.clientArray i (some c)
    links := Function.update k.links c (some {}) } c cn)

/-- The BER goes behind what the connection has to send. -/
def copy (ber : BER) (cn : Conn) : Except Fault Conn :=
  match cn.wBuffer with
  | none => .error .null
  | some buf => .ok { cn with wBuffer := some (buf ++ ber.berval) }

/-- The event of a pool, and the pool after it. -/
def step (k : Pool) : Event → Except Fault Pool
  | .opened i c => do
      let k ← k.alloc i c { no := i }
      let q ← k.appendWait c
      pure { k with toQueues := q, clientCount := k.clientCount + 1 }
  | .leaked i c => k.alloc i c { no := i, wBuffer := none }
  | .closed i c => do
      require (i < ldapMaxClient ∧ k.clientArray i = some c)
      let cn ← k.conn c
      let q ← k.leave c (cn.state = .stateReady)
      pure { k with
        toQueues := { q with links := Function.update q.links c none }
        clientArray := Function.update k.clientArray i none
        clientCount := k.clientCount - 1 }
  | .bindSent c => do
      let cn ← k.conn c
      require (cn.state = .stateOpen)
      pure (k.put c { cn with state := .stateConnecting })
  | .established c => do
      let cn ← k.conn c
      require (cn.state = .stateConnecting)
      let q ← k.toReady c
      pure (Pool.put { k with toQueues := q } c { cn with state := .stateReady })
  | .direct c ber => do
      let cn ← k.conn c
      let cn ← copy ber cn
      pure (k.put c { cn with concurrentCount := int32 (cn.concurrentCount + 1) })
  | .queued ber => pure { k with
      sendMsgQueue := k.sendMsgQueue ++ [ber], queueCount := k.queueCount + 1 }
  | .flushed c ber => do
      require (k.readyQueue = some c ∧ k.sendMsgQueue.head? = some ber)
      let cn ← k.conn c
      let cn ← copy ber cn
      let cn := { cn with concurrentCount := int32 (cn.concurrentCount + 1) }
      let k := { k with sendMsgQueue := k.sendMsgQueue.tail, queueCount := k.queueCount - 1 }
      if cn.concurrentCount ≥ k.maxConcurrent then
        let q ← k.toWait c
        pure (Pool.put { k with toQueues := q } c { cn with state := .stateWaiting })
      else
        let q ← k.requeue c
        pure (Pool.put { k with toQueues := q } c cn)
  | .keepaliveId c ktid => do
      let cn ← k.conn c
      pure (k.put c { cn with ktid := ktid })
  | .keepaliveCopied c ber => do
      let cn ← k.conn c
      let cn ← copy ber cn
      pure (k.put c cn)
  | .sent c bytes => do
      let cn ← k.conn c
      require (cn.wBuffer.isSome ∧ cn.pending.take bytes.length = bytes)
      let wCurr := cn.wCurr + bytes.length
      if wCurr < (cn.wBuffer.getD []).length then pure (k.put c { cn with wCurr := wCurr })
      else pure (k.put c { cn with wCurr := 0, wBuffer := some [] })
  | .entry c resp => do
      let cn ← k.conn c
      require (resp.ret cn.ktid = .waitMoreData ∧ ¬ resp.Own cn.ktid)
      pure (k.put c { cn with received := cn.received ++ resp.kept cn.ktid })
  | .keepaliveEntry c resp => do
      let cn ← k.conn c
      require (resp.ret cn.ktid = .waitMoreData ∧ resp.Own cn.ktid)
      pure k
  | .answered c resp => do
      let cn ← k.conn c
      require (resp.ret cn.ktid = .dataAvailable ∧ 0 < cn.concurrentCount)
      let cn := { cn with
        concurrentCount := cn.concurrentCount - 1
        received := cn.received ++ resp.kept cn.ktid }
      if cn.state = .stateWaiting ∧ cn.concurrentCount < k.maxConcurrent then
        let q ← k.toReady c
        pure (Pool.put { k with toQueues := q } c { cn with state := .stateReady })
      else pure (k.put c cn)
  | .unexpected c resp => do
      let cn ← k.conn c
      require (resp.ret cn.ktid = .dataAvailable ∧ ¬ 0 < cn.concurrentCount)
      pure (k.put c { cn with received := cn.received ++ resp.kept cn.ktid })
  | .keptAlive c resp waiting => do
      let cn ← k.conn c
      require (resp.ret cn.ktid = .keepalive)
      let found ← k.waits c (ldapMaxClient + 1)
      require (found = waiting)
      let cn := { cn with ktid := 0 }
      if found then
        let q ← k.toReady c
        pure (Pool.put { k with toQueues := q } c
          { cn with wBuffer := cn.wBuffer.map fun _ => [], wCurr := 0 })
      else pure (k.put c cn)
  | .consumed c => do
      let cn ← k.conn c
      pure (k.put c { cn with received := [] })

end Pool

/-! ## The pool of a client -/

def LdapClnt.conn (lc : LdapClnt) : Conn where
  no := lc.no
  state := lc.state
  wBuffer := lc.wBuffer
  wCurr := lc.wCurr
  concurrentCount := lc.concurrentCount
  ktid := lc.ktid
  received := BER.bytes lc.rber

def LdapT.pool (dc : LdapT) : Pool where
  toQueues := dc.toQueues
  maxConcurrent := dc.maxConcurrent
  clientCount := dc.clientCount
  queueCount := dc.queueCount
  clientArray := dc.clientArray
  conns c := (dc.clients c).conn
  sendMsgQueue := dc.sendMsgQueue

/-- The log is a run of the pool from `dc` to `dc'`. -/
def Refines (dc : LdapT) (log : List Event) (dc' : LdapT) : Prop :=
  run Pool.step dc.pool log = .ok dc'.pool

theorem Refines.refl {dc dc' : LdapT} (h : dc'.pool = dc.pool) : Refines dc [] dc' := by
  rw [Refines, h]
  rfl

theorem Refines.single {dc dc' : LdapT} {e : Event} (h : dc.pool.step e = .ok dc'.pool) :
    Refines dc [e] dc' := run_single h

theorem Refines.trans {dc dc' dc'' : LdapT} {log log' : List Event} (h : Refines dc log dc')
    (h' : Refines dc' log' dc'') : Refines dc (log ++ log') dc'' := run_append_ok h h'

theorem Refines.cons {dc dc' dc'' : LdapT} {e : Event} {log : List Event}
    (h : dc.pool.step e = .ok dc'.pool) (h' : Refines dc' log dc'') : Refines dc (e :: log) dc'' :=
  run_cons_ok h h'

/-- Only what the pool does not have is changed. -/
theorem Refines.idle {dc dc' dc'' : LdapT} {log : List Event} (h : dc'.pool = dc.pool)
    (h' : Refines dc' log dc'') : Refines dc log dc'' := by
  rw [Refines, ← h]
  exact h'

theorem LdapT.pool_put (dc : LdapT) (c : Ptr) (lc : LdapClnt) :
    (dc.put c lc).pool = dc.pool.put c lc.conn := by
  simp only [LdapT.pool, LdapT.put, Pool.put, Pool.mk.injEq, true_and, and_true]
  funext y
  by_cases h : y = c
  · subst h
    simp
  · simp [h]

theorem LdapT.pool_put_same (dc : LdapT) {c : Ptr} {lc : LdapClnt}
    (h : lc.conn = (dc.clients c).conn) : (dc.put c lc).pool = dc.pool := by
  rw [LdapT.pool_put, Pool.put, h]
  simp only [LdapT.pool, Pool.mk.injEq, true_and, and_true]
  exact Function.update_eq_self c _

theorem LdapT.clnt_ok {dc : LdapT} {c : Ptr} {lc : LdapClnt} (h : dc.clnt c = .ok lc) :
    lc = dc.clients c ∧ dc.pool.conn c = .ok lc.conn := by
  unfold LdapT.clnt at h
  split at h
  · rename_i hl
    cases h
    exact ⟨rfl, if_pos hl⟩
  · cases h

end CassandraApi.Ldap
