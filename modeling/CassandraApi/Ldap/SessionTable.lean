/-
# `Ldap.SessionTable` — the sessions of an LDAP server

DS_t has an array of sessions, of which the first `max_session` are used.
LDAP_sess_open takes the first slot whose socket is negative, LDAP_sess_close
frees one, LDAP_sess_examine closes the first that has timed out, and
LDAP_svr_close frees all.  `last_session` and `session_count` are kept up to date
on the way, so that sweeps need not go through the whole array.

A slot is in use when its socket is not negative.  What the other operations do
with a session between these calls is any change of it that keeps its socket.
The callbacks for file descriptors are left out: nothing comes back from them.
-/
import CassandraApi.Lib.Slots
import CassandraApi.Ldap.Session
import CassandraApi.Rauthen

namespace CassandraApi.Ldap.SessionTable

open C Lib Rauthen

/-! ## The data -/

/-- An element of `ds->session`. -/
structure Slot where
  no : Nat
  sess : DsSession
  version : UInt32 := 0
  remoteIp : String := ""
  remotePort : UInt16 := 0
  readTime : Int := 0
  writeTime : Int := 0
  activeTime : Int := 0
  errorResponse : Int := 0

/-- DS_t, as far as its sessions go. -/
structure Ds where
  maxSession : Int
  session : List Slot
  sessionCount : Int := 0
  lastSession : Int := -1
  version : UInt32
  listenSock : Int := 0
  readTimeout : Int := 0
  writeTimeout : Int := 0
  idleTimeout : Int := 0

def Slot.inUse (s : Slot) : Bool := 0 ≤ s.sess.sock

def ldapMaxSession : Int := 1024

/-- LDAP_svr_init.  `version` is random. -/
def ldapSvrInit (version : UInt32) (maxSession : Int) : Ds :=
  let maxSession := if maxSession < ldapMaxSession then maxSession else ldapMaxSession
  { maxSession := maxSession
    session := (List.range maxSession.toNat).map fun i => { no := i, sess := { sock := -1 } }
    version := version }

/-- `&(ds->session[no])` -/
def Ds.slot (ds : Ds) (no : Nat) : Except Fault Slot :=
  match ds.session[no]? with
  | none => .error .overrun
  | some s => .ok s

/-! ## Opening -/

/-- The slot of a session that starts. -/
def Slot.opened (s : Slot) (version : UInt32) (p : Peer) : Slot :=
  { s with
    sess := { s.sess with
      sock := p.sock, state := .stateOpen, concurrentCount := 0, wBuffer := none, wCurr := 0
      rb := { s.sess.rb with rBuffer := none, rBerBody := -1, rBerBodyLength := -1 }, rdata := [] }
    version := version, remoteIp := p.ip, remotePort := p.port
    readTime := 0, writeTime := 0, activeTime := p.now, errorResponse := 0 }

/-- What is returned when there is no new session. -/
def refusedCode : Refused → RetCode
  | .gone => .ok
  | .failed _ => .errConnect
  | .denied _ => .errAuthen

/-- The slot `i` is taken by the peer. -/
def Ds.take (ds : Ds) (i : Nat) (s : Slot) (p : Peer) : Ds :=
  { ds with
    session := ds.session.set i (s.opened (ds.version + 1) p)
    version := ds.version + 1
    lastSession := if ds.lastSession < i then i else ds.lastSession
    sessionCount := ds.sessionCount + 1 }

/-- The first slot that is free. -/
def Ds.freeSlot (ds : Ds) : Option (Nat × Slot) :=
  (ds.session.findIdx? fun s => ! s.inUse).bind fun i => ds.session[i]?.map fun s => (i, s)

/-- LDAP_sess_open: the reply, the slot handed out, and the server. -/
def ldapSessOpen (accept : Accept) (ds : Ds) : ServOutcome × Option Nat × Ds :=
  match ds.freeSlot with
  | none => (⟨some .errMaxSession, some "too many sessions"⟩, none, ds)
  | some (i, s) =>
      match accept.admit with
      | .error r => (⟨some (refusedCode r), r.error⟩, none, ds)
      | .ok p => (⟨some .ok, p.error⟩, some i, ds.take i s p)

/-! ## Closing -/

/-- A slot whose buffers are freed and whose socket is closed. -/
def Slot.closed (s : Slot) : Slot :=
  { s with sess := { s.sess with
    sock := -1, wBuffer := none, rb := { s.sess.rb with rBuffer := none } } }

def closeError (e : String) : String := s!"close socket return error [{e}]"

/-- What closing a socket comes to. -/
def closeReply (close : Option String) : ServOutcome :=
  match close with
  | some e => ⟨some .errUnknown, some (closeError e)⟩
  | none => ⟨some .ok, none⟩

/-- LDAP_sess_close.  `close` is the error of closing the socket, if there is one. -/
def ldapSessClose (close : Option String) (ds : Ds) (no : Nat) :
    Except Fault (ServOutcome × Ds) := do
  let ds := { ds with
    lastSession :=
      if ds.lastSession = no then lastBelow Slot.inUse ds.session no else ds.lastSession }
  let s ← ds.slot no
  if ¬ s.inUse then pure (⟨some .errUnavailable, some s!"connection not used ({no})"⟩, ds)
  else
    pure (closeReply close, { ds with
      session := ds.session.set no s.closed, sessionCount := ds.sessionCount - 1 })

/-- The loop of LDAP_svr_close, from index `i` on: the slots, and the last error of a socket. -/
def closeSlots (close : Nat → Option String) (last : Int) : Nat → List Slot →
    List Slot × Option String
  | _, [] => ([], none)
  | i, s :: slots =>
      if i ≤ last then
        let (rest, e) := closeSlots close last (i + 1) slots
        (s.closed :: rest, e <|> if s.inUse then close i else none)
      else (s :: slots, none)

/-- LDAP_svr_close.  `listener` is the error of closing the listener. -/
def ldapSvrClose (close : Nat → Option String) (listener : Option String) (ds : Ds) :
    ServOutcome × Ds :=
  let (slots, e) := closeSlots close ds.lastSession 0 ds.session
  let e' := if 0 ≤ ds.listenSock then listener else none
  let text := (e'.map fun e => s!"close listen socket return error [{e}]") <|> e.map closeError
  (⟨if text.isSome then none else some .ok, text⟩,
    { ds with session := slots, lastSession := -1, sessionCount := 0, listenSock := -1 })

/-! ## Examining -/

/-- DS_IS_SESSION_IDLE -/
def Slot.idle (s : Slot) : Bool := s.sess.wBuffer.isNone && s.sess.rb.rBuffer.isNone

/-- What a session has timed out by, at the time `ct`. -/
def Ds.timedOut (ds : Ds) (ct : Int) (s : Slot) : Option String :=
  if s.readTime > 0 ∧ ds.readTimeout > 0 ∧ ct - s.readTime ≥ ds.readTimeout then
    some "HTTP server read timeout (disconnected)"
  else if s.writeTime > 0 ∧ ds.writeTimeout > 0 ∧ ct - s.writeTime ≥ ds.writeTimeout then
    some "HTTP server write timeout (disconnected)"
  else if s.idle ∧ ds.idleTimeout > 0 ∧ ct - s.activeTime ≥ ds.idleTimeout then
    some "HTTP server idle timeout (disconnected)"
  else none

/-- The loop of LDAP_sess_examine at index `i`, `left` being the slots up to the last. -/
def examineFrom (ct : Int) (close : Option String) (ds : Ds) :
    Nat → Nat → Except Fault (ServOutcome × Ds)
  | 0, _ => .ok (⟨some .ok, none⟩, ds)
  | left + 1, i => do
      let s ← ds.slot i
      if s.inUse = true ∧ s.sess.state = .stateReady then
        match ds.timedOut ct s with
        | some text => do
            let (_, ds) ← ldapSessClose close ds s.no
            pure (⟨some .errIdleTimeout, some s!"session({i}), {text}"⟩, ds)
        | none => examineFrom ct close ds left (i + 1)
      else examineFrom ct close ds left (i + 1)

/-- LDAP_sess_examine -/
def ldapSessExamine (ct : Int) (close : Option String) (ds : Ds) : Except Fault (ServOutcome × Ds) :=
  examineFrom ct close ds (ds.lastSession + 1).toNat 0

/-! ## Runs -/

/-- A call, with what the outside does during it. -/
inductive Call where
  | sessOpen (accept : Accept)
  | sessClose (close : Option String) (no : Nat)
  | sessExamine (ct : Int) (close : Option String)
  | svrClose (close : Nat → Option String) (listener : Option String)
  /-- other operations on a session: `change` says what they leave of it -/
  | used (no : Nat) (change : Slot → Slot)
  /-- LDAP_svr_set_option and LDAP_svr_open -/
  | setTimeouts (read write idle : Int)
  | svrOpen (sock : Nat)

/-- The session after operations that keep its socket and its number. -/
def Slot.usedBy (s : Slot) (change : Slot → Slot) : Slot :=
  { change s with no := s.no, sess := { (change s).sess with sock := s.sess.sock } }

def step (ds : Ds) : Call → Except Fault Ds
  | .sessOpen accept => .ok (ldapSessOpen accept ds).2.2
  | .sessClose close no => do
      let (_, ds) ← ldapSessClose close ds no
      pure ds
  | .sessExamine ct close => do
      let (_, ds) ← ldapSessExamine ct close ds
      pure ds
  | .svrClose close listener => .ok (ldapSvrClose close listener ds).2
  | .used no change => do
      let s ← ds.slot no
      pure { ds with session := ds.session.set no (s.usedBy change) }
  | .setTimeouts read write idle =>
      .ok { ds with readTimeout := read, writeTimeout := write, idleTimeout := idle }
  | .svrOpen sock => .ok { ds with listenSock := sock }

/-- A call for one of the `max_session` slots. -/
def Known (ds : Ds) : Call → Prop
  | .sessClose _ no => (no : Int) < ds.maxSession
  | .used no _ => (no : Int) < ds.maxSession
  | _ => True

/-! ## The invariant -/

/-- The table has its slots, and the count and the last session are right. -/
structure Ds.Consistent (ds : Ds) : Prop where
  size : ds.session.length = ds.maxSession.toNat
  numbers : ∀ (i : Nat) (s : Slot), ds.session[i]? = some s → s.no = i
  agrees : Agrees Slot.inUse ds.session ds.sessionCount ds.lastSession

section

variable {ds ds' : Ds} {s : Slot} {no i : Nat} {reply : ServOutcome}

theorem slot_eq (h : ds.session[no]? = some s) : ds.slot no = .ok s := by
  rw [Ds.slot, h]

theorem slot_exists (h : no < ds.session.length) : ∃ s, ds.session[no]? = some s :=
  ⟨_, List.getElem?_eq_getElem h⟩

@[simp] theorem closed_inUse (s : Slot) : s.closed.inUse = false := rfl

@[simp] theorem closed_no (s : Slot) : s.closed.no = s.no := rfl

@[simp] theorem opened_inUse (s : Slot) (version : UInt32) (p : Peer) :
    (s.opened version p).inUse = true := by
  simp [Slot.inUse, Slot.opened]

@[simp] theorem opened_no (s : Slot) (version : UInt32) (p : Peer) :
    (s.opened version p).no = s.no := rfl

@[simp] theorem usedBy_inUse (s : Slot) (change : Slot → Slot) :
    (s.usedBy change).inUse = s.inUse := rfl

@[simp] theorem usedBy_no (s : Slot) (change : Slot → Slot) : (s.usedBy change).no = s.no := rfl

/-- A slot keeps its number. -/
theorem numbers_set (h : ∀ (i : Nat) (s : Slot), ds.session[i]? = some s → s.no = i)
    {new : Slot} (hs : ds.session[no]? = some s) (hno : new.no = s.no) :
    ∀ (i : Nat) (s : Slot), (ds.session.set no new)[i]? = some s → s.no = i := by
  intro i t ht
  rcases getElem?_set_cases ht with ⟨rfl, rfl⟩ | ⟨-, hold⟩
  · exact hno.trans (h i s hs)
  · exact h i t hold

/-! ## One call -/

theorem ldapSvrInit_consistent (version : UInt32) (maxSession : Int) :
    (ldapSvrInit version maxSession).Consistent := by
  refine ⟨by simp [ldapSvrInit], fun i s hs => ?_, Agrees.none_used fun s hs => ?_⟩
  · simp only [ldapSvrInit, List.getElem?_map, Option.map_eq_some_iff] at hs
    obtain ⟨j, hj, rfl⟩ := hs
    obtain ⟨_, rfl⟩ := List.getElem?_eq_some_iff.1 hj
    simp
  · simp only [ldapSvrInit, List.mem_map] at hs
    obtain ⟨i, -, rfl⟩ := hs
    rfl

theorem freeSlot_some (h : ds.freeSlot = some (i, s)) :
    ds.session[i]? = some s ∧ s.inUse = false := by
  obtain ⟨j, hj, hmap⟩ := Option.bind_eq_some_iff.1 h
  obtain ⟨t, ht, heq⟩ := Option.map_eq_some_iff.1 hmap
  cases heq
  obtain ⟨hlt, hfree, -⟩ := List.findIdx?_eq_some_iff_getElem.1 hj
  obtain ⟨_, rfl⟩ := List.getElem?_eq_some_iff.1 ht
  exact ⟨ht, by simpa using hfree⟩

theorem freeSlot_none_iff : ds.freeSlot = none ↔ ∀ s ∈ ds.session, s.inUse = true := by
  constructor
  · intro h
    cases hj : ds.session.findIdx? fun s => ! s.inUse with
    | none =>
      intro s hs
      simpa using List.findIdx?_eq_none_iff.1 hj s hs
    | some j =>
      obtain ⟨hlt, -⟩ := List.findIdx?_eq_some_iff_getElem.1 hj
      simp [Ds.freeSlot, hj, List.getElem?_eq_getElem hlt] at h
  · intro h
    have hnone : (ds.session.findIdx? fun s => ! s.inUse) = none :=
      List.findIdx?_eq_none_iff.2 fun s hs => by simp [h s hs]
    rw [Ds.freeSlot, hnone]
    rfl

theorem Ds.Consistent.sessOpen (h : ds.Consistent) (accept : Accept) :
    (ldapSessOpen accept ds).2.2.Consistent := by
  unfold ldapSessOpen
  split
  · exact h
  · rename_i i s hfree
    obtain ⟨hs, hunused⟩ := freeSlot_some hfree
    split
    · exact h
    · rename_i p _
      exact ⟨(List.length_set ..).trans h.size, numbers_set h.numbers hs (opened_no s _ p),
        h.agrees.occupy hs hunused (opened_inUse s _ p)⟩

/-- A slot that is handed out was free, and the others stay. -/
theorem ldapSessOpen_free {accept : Accept}
    (h : ldapSessOpen accept ds = (reply, some i, ds')) :
    (∃ s, ds.session[i]? = some s ∧ s.inUse = false) ∧
      ∀ j, j ≠ i → ds'.session[j]? = ds.session[j]? := by
  unfold ldapSessOpen at h
  split at h
  · cases h
  · rename_i k s hfree
    split at h
    · cases h
    · cases h
      exact ⟨⟨s, freeSlot_some hfree⟩, fun j hj => List.getElem?_set_ne (Ne.symm hj)⟩

/-- LDAP_sess_open refuses for lack of room when all slots are in use. -/
theorem Ds.Consistent.full_iff (h : ds.Consistent) (accept : Accept) :
    (ldapSessOpen accept ds).1.code = some .errMaxSession ↔
      ds.sessionCount = max ds.maxSession 0 := by
  have hcount : (∀ s ∈ ds.session, s.inUse = true) ↔ ds.sessionCount = max ds.maxSession 0 := by
    rw [h.agrees.full_iff, h.size, Int.toNat_eq_max]
  rw [← hcount, ← freeSlot_none_iff]
  unfold ldapSessOpen
  split
  · rename_i hfree
    simp [hfree]
  · rename_i k s hfree
    cases accept.admit with
    | error r => cases r <;> simp [hfree, refusedCode]
    | ok p => simp [hfree]

theorem ldapSessClose_used (close : Option String) (hs : ds.session[no]? = some s)
    (huse : s.inUse = true) :
    ldapSessClose close ds no = .ok (closeReply close, { ds with
      session := ds.session.set no s.closed
      sessionCount := ds.sessionCount - 1
      lastSession :=
        if ds.lastSession = no then lastBelow Slot.inUse ds.session no else ds.lastSession }) := by
  simp only [ldapSessClose, Ds.slot, hs, ok_bind, huse, not_true_eq_false, if_false, pure_eq_ok]

theorem ldapSessClose_unused (close : Option String) (hs : ds.session[no]? = some s)
    (huse : s.inUse = false) (hlast : ds.lastSession ≠ no) :
    ldapSessClose close ds no =
      .ok (⟨some .errUnavailable, some s!"connection not used ({no})"⟩, ds) := by
  simp only [ldapSessClose, Ds.slot, hs, ok_bind, huse, if_neg hlast, Bool.false_eq_true,
    not_false_eq_true, if_true, pure_eq_ok]

theorem Ds.Consistent.sessClose (h : ds.Consistent) (close : Option String)
    (hno : no < ds.session.length) :
    ∃ reply ds', ldapSessClose close ds no = .ok (reply, ds') ∧ ds'.Consistent ∧
      ds'.maxSession = ds.maxSession := by
  obtain ⟨s, hs⟩ := slot_exists hno
  cases huse : s.inUse with
  | true =>
    refine ⟨_, _, ldapSessClose_used close hs huse, ⟨?_, ?_, ?_⟩, rfl⟩
    · exact (List.length_set ..).trans h.size
    · exact numbers_set h.numbers hs (closed_no s)
    · exact h.agrees.vacate hs huse (closed_inUse s)
  | false =>
    have hlast := h.agrees.last_ne hs huse
    exact ⟨_, ds, ldapSessClose_unused close hs huse hlast, h, rfl⟩

/-- Closing a slot leaves the others as they are. -/
theorem ldapSessClose_alone {close : Option String}
    (h : ldapSessClose close ds no = .ok (reply, ds')) :
    ∀ j, j ≠ no → ds'.session[j]? = ds.session[j]? := by
  obtain ⟨s, -, h⟩ := bind_eq_ok.1 h
  intro j hj
  split at h
  · cases h
    rfl
  · cases h
    exact List.getElem?_set_ne (Ne.symm hj)

/-- LDAP_svr_close frees the slots up to the last, and no slot behind them is in use. -/
theorem closeSlots_spec (close : Nat → Option String) (last : Int) (slots : List Slot) (i : Nat) :
    (closeSlots close last i slots).1.length = slots.length ∧
      ∀ (k : Nat) (s' : Slot), (closeSlots close last i slots).1[k]? = some s' →
        ∃ s, slots[k]? = some s ∧ s'.no = s.no ∧
          (s'.inUse = false ∨ s' = s ∧ last < ((i + k : Nat) : Int)) := by
  induction slots generalizing i with
  | nil => exact ⟨rfl, fun k s' hs => by simp [closeSlots] at hs⟩
  | cons s slots ih =>
    obtain ⟨hlen, hspec⟩ := ih (i + 1)
    unfold closeSlots
    split
    · refine ⟨by simp [hlen], fun k s' hs => ?_⟩
      cases k with
      | zero =>
        simp only [List.getElem?_cons_zero, Option.some.injEq] at hs ⊢
        subst hs
        exact ⟨s, rfl, rfl, .inl rfl⟩
      | succ k =>
        simp only [List.getElem?_cons_succ] at hs ⊢
        obtain ⟨t, ht, hno, hrest⟩ := hspec k s' hs
        refine ⟨t, ht, hno, hrest.imp_right fun ⟨heq, hlt⟩ => ⟨heq, by omega⟩⟩
    · refine ⟨rfl, fun k s' hs => ⟨s', hs, rfl, .inr ⟨rfl, by omega⟩⟩⟩

theorem Ds.Consistent.svrClose (h : ds.Consistent) (close : Nat → Option String)
    (listener : Option String) : (ldapSvrClose close listener ds).2.Consistent := by
  obtain ⟨hlen, hspec⟩ := closeSlots_spec close ds.lastSession ds.session 0
  refine ⟨hlen.trans h.size, fun i s' hs => ?_, Agrees.none_used fun s' hs => ?_⟩
  · obtain ⟨s, hold, hno, -⟩ := hspec i s' hs
    rw [hno]
    exact h.numbers i s hold
  · obtain ⟨k, hk⟩ := List.getElem?_of_mem hs
    obtain ⟨s, hold, -, hfree | ⟨rfl, hlt⟩⟩ := hspec k s' hk
    · exact hfree
    · by_contra huse
      have := h.agrees.last.above k s' hold (by simpa using huse)
      omega

/-- The sweep stays within the table: it ends at the last session. -/
theorem Ds.Consistent.examineFrom (h : ds.Consistent) (ct : Int) (close : Option String)
    {left : Nat} (hleft : i + left ≤ ds.session.length) :
    ∃ reply ds', examineFrom ct close ds left i = .ok (reply, ds') ∧ ds'.Consistent ∧
      ds'.maxSession = ds.maxSession := by
  induction left generalizing i with
  | zero => exact ⟨_, ds, rfl, h, rfl⟩
  | succ left ih =>
    obtain ⟨s, hs⟩ := slot_exists (show i < ds.session.length by omega)
    obtain ⟨reply, ds', hnext, hrest⟩ := @ih (i + 1) (by omega)
    have hno := h.numbers i s hs
    unfold SessionTable.examineFrom
    simp only [slot_eq hs, ok_bind]
    split
    · split
      · obtain ⟨reply', ds'', hclose, hkept, hmax⟩ := h.sessClose close
          (show s.no < ds.session.length by omega)
        simp only [hclose, ok_bind, pure_eq_ok]
        exact ⟨_, ds'', rfl, hkept, hmax⟩
      · exact ⟨reply, ds', hnext, hrest⟩
    · exact ⟨reply, ds', hnext, hrest⟩

theorem step_consistent {c : Call} (h : ds.Consistent) (known : Known ds c) :
    ∃ ds', step ds c = .ok ds' ∧ ds'.Consistent := by
  have hsize := h.size
  cases c with
  | sessOpen accept => exact ⟨_, rfl, h.sessOpen accept⟩
  | sessClose close no =>
    have hlt : (no : Int) < ds.maxSession := known
    obtain ⟨reply, ds', hclose, hkept, -⟩ := h.sessClose close (show no < _ by omega)
    exact ⟨ds', by simp only [step, hclose, ok_bind, pure_eq_ok], hkept⟩
  | sessExamine ct close =>
    have hlast := h.agrees.last_lt
    obtain ⟨reply, ds', hexamine, hkept, -⟩ := @Ds.Consistent.examineFrom ds 0 h ct close
      (ds.lastSession + 1).toNat (by omega)
    exact ⟨ds', by simp only [step, ldapSessExamine, hexamine, ok_bind, pure_eq_ok], hkept⟩
  | svrClose close listener => exact ⟨_, rfl, h.svrClose close listener⟩
  | used no change =>
    have hlt : (no : Int) < ds.maxSession := known
    obtain ⟨s, hs⟩ := slot_exists (show no < ds.session.length by omega)
    refine ⟨{ ds with session := ds.session.set no (s.usedBy change) },
      by simp only [step, slot_eq hs, ok_bind, pure_eq_ok], ⟨?_, ?_, ?_⟩⟩
    · exact (List.length_set ..).trans h.size
    · exact numbers_set h.numbers hs (usedBy_no s change)
    · exact h.agrees.touch hs (usedBy_inUse s change)
  | setTimeouts read write idle => exact ⟨_, rfl, h.size, h.numbers, h.agrees⟩
  | svrOpen sock => exact ⟨_, rfl, h.size, h.numbers, h.agrees⟩

end

/-! ## Whole runs -/

/-- In every state the table is consistent; only a free slot is ever handed out, none exactly when
all are in use, and closing a slot leaves the others alone. -/
theorem session_table_consistent (version : UInt32) (maxSession : Int) {calls : List Call}
    (known : Along step (fun _ => Known) (ldapSvrInit version maxSession) calls) :
    ∃ ds, run step (ldapSvrInit version maxSession) calls = .ok ds ∧
      ds.Consistent ∧
      (∀ accept reply i ds', ldapSessOpen accept ds = (reply, some i, ds') →
        (∃ s, ds.session[i]? = some s ∧ s.inUse = false) ∧
          ∀ j, j ≠ i → ds'.session[j]? = ds.session[j]?) ∧
      (∀ accept, (ldapSessOpen accept ds).1.code = some .errMaxSession ↔
        ds.sessionCount = max ds.maxSession 0) ∧
      ∀ close no reply ds', ldapSessClose close ds no = .ok (reply, ds') →
        ∀ j, j ≠ no → ds'.session[j]? = ds.session[j]? := by
  obtain ⟨ds, hrun, hinv⟩ := run_total (ldapSvrInit_consistent version maxSession)
    (fun ds c h hc => step_consistent h hc) known
  exact ⟨ds, hrun, hinv, fun _ _ _ _ => ldapSessOpen_free, hinv.full_iff,
    fun _ _ _ _ => ldapSessClose_alone⟩

/-- Two sessions, of which the first is closed. -/
def openTwice : List Call :=
  [.sessOpen (.peer ⟨5, "10.0.0.1", 1, none, ⟨.pass, none⟩, 0⟩),
    .sessOpen (.peer ⟨6, "10.0.0.2", 1, none, ⟨.pass, none⟩, 0⟩), .sessClose none 0]

theorem session_table_consistent_two :
    ∃ ds, run step (ldapSvrInit 0 2) openTwice = .ok ds ∧
      ds.Consistent ∧
      (∀ accept reply i ds', ldapSessOpen accept ds = (reply, some i, ds') →
        (∃ s, ds.session[i]? = some s ∧ s.inUse = false) ∧
          ∀ j, j ≠ i → ds'.session[j]? = ds.session[j]?) ∧
      (∀ accept, (ldapSessOpen accept ds).1.code = some .errMaxSession ↔
        ds.sessionCount = max ds.maxSession 0) ∧
      ∀ close no reply ds', ldapSessClose close ds no = .ok (reply, ds') →
        ∀ j, j ≠ no → ds'.session[j]? = ds.session[j]? := by
  refine session_table_consistent 0 2 (along_cons trivial fun s hs => ?_)
  cases hs
  refine along_cons trivial fun s hs => ?_
  cases hs
  exact along_cons (by decide : (0 : Int) < 2) fun s _ => along_nil s

end CassandraApi.Ldap.SessionTable
