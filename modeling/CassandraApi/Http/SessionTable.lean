/-
# `Http.SessionTable` — the sessions of an HTTP server

HTTP_t has an array of HTTP_MAX_SESSION sessions.  HTTP_svr_init makes the first
`max_session` of them ready: a socket of -1 and memory for the request's URI.  The
others keep what `memset` left, a socket of 0 and no memory.  The option
HTTP_OPTION_MAX_SESSION moves the bound that HTTP_sess_open uses, and does not
make any slot ready.

`accepted` is not in the source: it is the socket that HTTP_sess_open accepted for
the slot, until the slot is closed.
-/
import CassandraApi.Http.Session
import CassandraApi.Lib.Machine
import CassandraApi.Lib.Slots
import CassandraApi.Rauthen

namespace CassandraApi.Http.SessionTable

open C Lib Rauthen

/-! ## The data -/

/-- An element of `hs->session`. -/
structure Slot extends Request where
  sock : Int
  accepted : Option Nat := none
  version : UInt32 := 0
  rBuffer : Option HSDATA := none
  wBuffer : List (List UInt8) := []
  wCurr : Int := 0
  readTime : Int := 0
  writeTime : Int := 0
  activeTime : Int := 0
  remoteIp : String := ""
  remotePort : UInt16 := 0
  blockRequest : Int := 0

/-- HTTP_t, as far as its sessions go. -/
structure Hs where
  maxSession : Int
  session : List Slot
  sessionCount : Int := 0
  lastSession : Int := -1
  version : UInt32
  listenSock : Int := 0
  idleTimeout : Int := 0
  readTimeout : Int := 0
  writeTimeout : Int := 0

def httpMaxSession : Nat := 4096

/-- What `memset` leaves of a slot. -/
def zeroedSlot : Slot :=
  { no := 0, headerLength := 0, bodyLength := 0, requestUri := none, sock := 0 }

/-- A slot that HTTP_svr_init has made ready. -/
def readySlot (no : Nat) : Slot :=
  { zeroedSlot with no := no, sock := -1, requestUri := some [] }

/-- How many slots HTTP_svr_init makes ready. -/
def readyCount (maxSession : Int) : Nat := min maxSession.toNat httpMaxSession

/-- HTTP_svr_init, when there is memory for it.  `version` is random. -/
def httpSvrInit (version : UInt32) (maxSession : Int) : Hs where
  maxSession := if maxSession < httpMaxSession then maxSession else httpMaxSession
  session := (List.range httpMaxSession).map fun i =>
    if i < readyCount maxSession then readySlot i else zeroedSlot
  version := version

/-- `&(hs->session[no])` -/
def Hs.slot (hs : Hs) (no : Nat) : Except Fault Slot :=
  match hs.session[no]? with
  | none => .error .overrun
  | some s => .ok s

/-- HTTP_svr_set_option with HTTP_OPTION_MAX_SESSION -/
def httpSvrSetMaxSession (n : Int) (hs : Hs) : RetCode × Hs :=
  if n > httpMaxSession then (.errParameter, hs) else (.ok, { hs with maxSession := n })

/-! ## Opening -/

/-- What is returned when there is no new session. -/
def refusedCode : Refused → RetCode
  | .gone => .ok
  | .failed _ => .errConnect
  | .denied _ => .errAuthen

/-- The slot of a session that starts, with the read buffer it gets. -/
def Slot.opened (s : Slot) (version : UInt32) (rBuffer : Option HSDATA) (p : Peer) : Slot :=
  { s with
    sock := p.sock, accepted := some p.sock, version := version, rBuffer := rBuffer, wBuffer := []
    wCurr := 0, activeTime := p.now, readTime := 0, writeTime := 0
    headerLength := -1, bodyLength := -1, remoteIp := p.ip, remotePort := p.port
    requestUri := s.requestUri.map fun _ => [], httpMethod := .post, errorResponse := 0
    blockRequest := 0 }

/-- The first slot below `max_session` with a negative socket. -/
def Hs.freeSlot (hs : Hs) : Option (Nat × Slot) :=
  ((hs.session.take hs.maxSession.toNat).findIdx? fun s => s.sock < 0).bind fun i =>
    hs.session[i]?.map fun s => (i, s)

/-- HTTP_sess_open: the reply, the slot handed out, and the server.  That there is no memory for
the read buffer is not looked at. -/
def httpSessOpen (accept : Accept) (alloc : Alloc) (hs : Hs) :
    Except Fault (Outcome × Option Nat × Hs) :=
  match hs.freeSlot with
  | none => .ok (⟨.maxSession, some "too many sessions"⟩, none, hs)
  | some (i, s) =>
      match accept.admit with
      | .error r => .ok (⟨refusedCode r, r.error⟩, none, hs)
      | .ok p => do
          let grown ← httpAllocBuffer alloc s.rBuffer httpDataBuffer
          let s := s.opened (hs.version + 1) (grown <|> s.rBuffer) p
          pure (⟨.ok, p.error⟩, some i, { hs with
            session := hs.session.set i s
            version := hs.version + 1
            lastSession := if hs.lastSession < i then i else hs.lastSession
            sessionCount := hs.sessionCount + 1 })

/-! ## Closing -/

/-- A slot whose buffers are freed and whose socket is closed. -/
def Slot.closed (s : Slot) : Slot :=
  { s with sock := -1, accepted := none, rBuffer := none, wBuffer := [] }

def Slot.hasSock (s : Slot) : Bool := 0 ≤ s.sock

def closeError (e : String) : String := s!"close socket return error [{e}]"

/-- What closing a socket comes to. -/
def closeReply (close : Option String) : Outcome :=
  match close with
  | some e => ⟨.errUnknown, some (closeError e)⟩
  | none => ⟨.ok, none⟩

/-- HTTP_sess_close.  `close` is the error of closing the socket, if there is one. -/
def httpSessClose (close : Option String) (hs : Hs) (no : Nat) : Except Fault (Outcome × Hs) := do
  let hs := { hs with
    lastSession :=
      if hs.lastSession = no then lastBelow Slot.hasSock hs.session no else hs.lastSession }
  let s ← hs.slot no
  if ¬ s.hasSock then pure (⟨.errUnavailable, some s!"connection not used ({no})"⟩, hs)
  else
    pure (closeReply close, { hs with
      session := hs.session.set no { s.closed with blockRequest := 0 }
      sessionCount := hs.sessionCount - 1 })

/-- The loop of HTTP_svr_close, from index `i` on: the slots, and the last error of a socket. -/
def closeSlots (close : Nat → Option String) (last : Int) : Nat → List Slot →
    List Slot × Option String
  | _, [] => ([], none)
  | i, s :: slots =>
      if i ≤ last then
        let (rest, e) := closeSlots close last (i + 1) slots
        if s.hasSock then (s.closed :: rest, e <|> close i)
        else ({ s with rBuffer := none, wBuffer := [] } :: rest, e)
      else (s :: slots, none)

/-- HTTP_svr_close.  `listener` is the error of closing the listener. -/
def httpSvrClose (close : Nat → Option String) (listener : Option String) (hs : Hs) :
    Option RetCode × Option String × Hs :=
  let (slots, e) := closeSlots close hs.lastSession 0 hs.session
  let e' := if 0 ≤ hs.listenSock then listener else none
  let text := (e'.map fun e => s!"close listen socket return error [{e}]") <|> e.map closeError
  (if text.isSome then none else some .ok, text,
    { hs with session := slots, lastSession := -1, sessionCount := 0, listenSock := -1 })

/-! ## Timeouts -/

/-- HS_IS_SESSION_IDLE -/
def Slot.idle (s : Slot) : Bool :=
  s.wBuffer.isEmpty && s.headerLength < 0 && s.rBuffer.all fun d => d.len ≤ 0

/-- What a session has timed out by, at the time `ct`. -/
def Hs.timedOut (hs : Hs) (ct : Int) (s : Slot) : Option String :=
  if s.readTime > 0 ∧ hs.readTimeout > 0 ∧ ct - s.readTime ≥ hs.readTimeout then
    some "HTTP server read timeout (disconnected)"
  else if s.writeTime > 0 ∧ hs.writeTimeout > 0 ∧ ct - s.writeTime ≥ hs.writeTimeout then
    some "HTTP server write timeout (disconnected)"
  else if s.idle ∧ hs.idleTimeout > 0 ∧ ct - s.activeTime ≥ hs.idleTimeout then
    some "HTTP server idle timeout (disconnected)"
  else none

/-- The loop of HTTP_verify_connection at index `i`, `left` being the slots up to the last. -/
def verifyFrom (ct : Int) (close : Option String) (hs : Hs) :
    Nat → Nat → Except Fault (Outcome × Hs)
  | 0, _ => .ok (⟨.ok, none⟩, hs)
  | left + 1, i => do
      let s ← hs.slot i
      if s.hasSock then
        match hs.timedOut ct s with
        | some text => do
            let (_, hs) ← httpSessClose close hs s.no.toNat
            pure (⟨.timeout, some s!"session({i}), {text}"⟩, hs)
        | none => verifyFrom ct close hs left (i + 1)
      else verifyFrom ct close hs left (i + 1)

/-- HTTP_verify_connection -/
def httpVerifyConnection (ct : Int) (close : Option String) (hs : Hs) : Except Fault (Outcome × Hs) :=
  verifyFrom ct close hs (hs.lastSession + 1).toNat 0

/-! ## Runs -/

/-- A call, with what the outside does during it. -/
inductive Call where
  | setMaxSession (n : Int)
  | sessOpen (accept : Accept) (alloc : Alloc)
  | sessClose (close : Option String) (no : Nat)
  | verifyConnection (ct : Int) (close : Option String)
  | svrClose (close : Nat → Option String) (listener : Option String)
  /-- other operations on a session: `change` says what they leave of it -/
  | used (no : Nat) (change : Slot → Slot)
  /-- the other options, and HTTP_svr_open -/
  | setTimeouts (read write idle : Int)
  | svrOpen (sock : Nat)

/-- The session after operations that keep its socket, its number and its memory. -/
def Slot.usedBy (s : Slot) (change : Slot → Slot) : Slot :=
  { change s with
    no := s.no, sock := s.sock, accepted := s.accepted
    requestUri := s.requestUri.bind fun uri => some ((change s).requestUri.getD uri) }

def step (hs : Hs) : Call → Except Fault Hs
  | .setMaxSession n => .ok (httpSvrSetMaxSession n hs).2
  | .sessOpen accept alloc => do
      let (_, _, hs) ← httpSessOpen accept alloc hs
      pure hs
  | .sessClose close no => do
      let (_, hs) ← httpSessClose close hs no
      pure hs
  | .verifyConnection ct close => do
      let (_, hs) ← httpVerifyConnection ct close hs
      pure hs
  | .svrClose close listener => .ok (httpSvrClose close listener hs).2.2
  | .used no change => do
      let s ← hs.slot no
      if s.accepted.isSome then pure { hs with session := hs.session.set no (s.usedBy change) }
      else pure hs
  | .setTimeouts read write idle =>
      .ok { hs with readTimeout := read, writeTimeout := write, idleTimeout := idle }
  | .svrOpen sock => .ok { hs with listenSock := sock }

/-- A call for a slot of the array. -/
def Known (_ : Hs) : Call → Prop
  | .sessClose _ no => no < httpMaxSession
  | .used no _ => no < httpMaxSession
  | _ => True

/-- A call that makes no use of slots behind the first `ready`. -/
def Within (ready : Nat) (_ : Hs) : Call → Prop
  | .setMaxSession n => n ≤ ready ∨ httpMaxSession < n
  | .sessClose _ no => no < ready
  | _ => True

/-! ## The invariant -/

def Slot.inUse (s : Slot) : Bool := s.accepted.isSome

/-- The slot has an accepted socket. -/
def Slot.Holds (s : Slot) : Prop := ∃ k, s.accepted = some k ∧ s.sock = k

/-- The slot is free, and can be used. -/
def Slot.Free (s : Slot) : Prop := s.sock = -1 ∧ s.requestUri.isSome

/-- What holds of the table: the count, the slots below the bound, and the last slot in use. -/
structure Hs.Sound (hs : Hs) : Prop where
  count : hs.sessionCount = hs.session.countP Slot.inUse
  held : ∀ s ∈ hs.session, s.inUse = true → s.Holds
  slots : ∀ (i : Nat) (s : Slot), (i : Int) < hs.maxSession → hs.session[i]? = some s →
    s.Holds ∨ s.Free
  last : ∀ (i : Nat) (s : Slot), hs.session[i]? = some s → s.inUse = true →
    (i : Int) ≤ hs.lastSession

/-- There is no free slot below the bound. -/
def Hs.Full (hs : Hs) : Prop :=
  ∀ (i : Nat) (s : Slot), (i : Int) < hs.maxSession → hs.session[i]? = some s → ¬ s.Free

/-- A slot that was made ready. -/
structure Slot.Ready (s : Slot) (i : Nat) : Prop where
  number : s.no = i
  memory : s.requestUri.isSome
  state : s.Holds ∨ s.accepted = none ∧ s.sock = -1 ∧ s.rBuffer = none

/-- The table, of which the first `ready` slots were made ready. -/
structure Hs.Consistent (ready : Nat) (hs : Hs) : Prop where
  size : hs.session.length = httpMaxSession
  bound : ready ≤ httpMaxSession
  max : hs.maxSession ≤ ready
  front : ∀ (i : Nat) (s : Slot), hs.session[i]? = some s → i < ready → s.Ready i
  back : ∀ (i : Nat) (s : Slot), hs.session[i]? = some s → ready ≤ i → s = zeroedSlot
  agrees : Agrees Slot.inUse hs.session hs.sessionCount hs.lastSession

section

variable {hs hs' : Hs} {s new : Slot} {no i ready : Nat} {reply : Outcome}

theorem slot_eq (h : hs.session[no]? = some s) : hs.slot no = .ok s := by
  rw [Hs.slot, h]

theorem slot_exists (h : no < hs.session.length) : ∃ s, hs.session[no]? = some s :=
  ⟨_, List.getElem?_eq_getElem h⟩

/-- In a ready slot the socket says whether the slot is in use. -/
theorem Slot.Ready.hasSock_eq (h : s.Ready i) : s.hasSock = s.inUse := by
  rcases h.state with ⟨k, hk, hsock⟩ | ⟨hnone, hsock, -⟩
  · simp [hasSock, inUse, hk, hsock]
  · simp [hasSock, inUse, hnone, hsock]

/-- A ready slot is written, and stays ready. -/
theorem Hs.Consistent.put (h : hs.Consistent ready) (hno : no < ready) (hnew : new.Ready no)
    {version : UInt32} {count last : Int}
    (hagrees : Agrees Slot.inUse (hs.session.set no new) count last) :
    Hs.Consistent ready { hs with
      session := hs.session.set no new, version := version, sessionCount := count
      lastSession := last } := by
  refine ⟨(List.length_set ..).trans h.size, h.bound, h.max, fun i t ht hi => ?_,
    fun i t ht hi => ?_, hagrees⟩
  · rcases getElem?_set_cases ht with ⟨rfl, rfl⟩ | ⟨-, hold⟩
    · exact hnew
    · exact h.front i t hold hi
  · rcases getElem?_set_cases ht with ⟨rfl, -⟩ | ⟨-, hold⟩
    · omega
    · exact h.back i t hold hi

/-! ## One call -/

theorem httpSvrInit_slot {version : UInt32} {maxSession : Int}
    (h : (httpSvrInit version maxSession).session[i]? = some s) :
    s = if i < readyCount maxSession then readySlot i else zeroedSlot := by
  simp only [httpSvrInit, List.getElem?_map, Option.map_eq_some_iff] at h
  obtain ⟨j, hj, rfl⟩ := h
  obtain ⟨_, rfl⟩ := List.getElem?_eq_some_iff.1 hj
  simp

theorem httpSvrInit_consistent (version : UInt32) (maxSession : Int) :
    (httpSvrInit version maxSession).Consistent (readyCount maxSession) := by
  refine ⟨by simp [httpSvrInit], Nat.min_le_right _ _, ?_, fun i s hget hi => ?_,
    fun i s hget hi => ?_, Agrees.none_used fun s hmem => ?_⟩
  · have hmax : (httpMaxSession : Int) = 4096 := rfl
    have hnat : httpMaxSession = 4096 := rfl
    simp only [httpSvrInit, readyCount]
    split <;> omega
  · rw [httpSvrInit_slot hget, if_pos hi]
    exact ⟨rfl, rfl, .inr ⟨rfl, rfl, rfl⟩⟩
  · rw [httpSvrInit_slot hget, if_neg (by omega)]
  · obtain ⟨k, hget⟩ := List.getElem?_of_mem hmem
    rw [httpSvrInit_slot hget]
    split <;> rfl

theorem freeSlot_some (h : hs.freeSlot = some (i, s)) :
    hs.session[i]? = some s ∧ s.sock < 0 ∧ (i : Int) < hs.maxSession := by
  obtain ⟨j, hj, hmap⟩ := Option.bind_eq_some_iff.1 h
  obtain ⟨t, ht, heq⟩ := Option.map_eq_some_iff.1 hmap
  cases heq
  obtain ⟨hlt, hfree, -⟩ := List.findIdx?_eq_some_iff_getElem.1 hj
  rw [List.length_take] at hlt
  obtain ⟨_, rfl⟩ := List.getElem?_eq_some_iff.1 ht
  refine ⟨ht, by simpa using hfree, by omega⟩

theorem freeSlot_none_iff :
    hs.freeSlot = none ↔
      ∀ (i : Nat) (s : Slot), (i : Int) < hs.maxSession → hs.session[i]? = some s → 0 ≤ s.sock := by
  constructor
  · intro h i s hi hget
    cases hj : (hs.session.take hs.maxSession.toNat).findIdx? fun s => s.sock < 0 with
    | none =>
      have hmem : s ∈ hs.session.take hs.maxSession.toNat := by
        refine List.mem_of_getElem? (i := i) ?_
        rw [List.getElem?_take_of_lt (by omega)]
        exact hget
      simpa using List.findIdx?_eq_none_iff.1 hj s hmem
    | some j =>
      obtain ⟨hlt, -⟩ := List.findIdx?_eq_some_iff_getElem.1 hj
      rw [List.length_take] at hlt
      have hj' : j < hs.session.length := by omega
      simp [Hs.freeSlot, hj, List.getElem?_eq_getElem hj'] at h
  · intro h
    have hnone : ((hs.session.take hs.maxSession.toNat).findIdx? fun s => s.sock < 0) = none := by
      refine List.findIdx?_eq_none_iff.2 fun s hmem => ?_
      obtain ⟨k, hk⟩ := List.getElem?_of_mem hmem
      have hlt := (List.getElem?_eq_some_iff.1 hk).1
      rw [List.length_take] at hlt
      rw [List.getElem?_take_of_lt (by omega)] at hk
      simpa using h k s (by omega) hk
    rw [Hs.freeSlot, hnone]
    rfl

theorem Hs.Consistent.sessOpen (h : hs.Consistent ready) (accept : Accept) (alloc : Alloc) :
    ∃ reply i hs', httpSessOpen accept alloc hs = .ok (reply, i, hs') ∧ hs'.Consistent ready ∧
      (reply.code = .maxSession ↔ hs.freeSlot = none) := by
  unfold httpSessOpen
  cases hfree : hs.freeSlot with
  | none => exact ⟨_, _, _, rfl, h, by simp⟩
  | some found =>
    obtain ⟨i, s⟩ := found
    obtain ⟨hget, hsock, hi⟩ := freeSlot_some hfree
    have hlt : i < ready := by
      have := h.max
      omega
    have hready := h.front i s hget hlt
    cases accept.admit with
    | error r => exact ⟨_, _, _, rfl, h, by cases r <;> simp [refusedCode]⟩
    | ok p =>
      have hunused : s.inUse = false := by
        rw [← hready.hasSock_eq]
        simpa [Slot.hasSock] using hsock
      have hnone : s.rBuffer = none := by
        rcases hready.state with ⟨k, hk, hpos⟩ | ⟨-, -, hnone⟩
        · omega
        · exact hnone
      obtain ⟨grown, hgrown⟩ : ∃ d, httpAllocBuffer alloc s.rBuffer httpDataBuffer = .ok d := by
        rw [hnone]
        unfold httpAllocBuffer
        simp only
        split
        · exact ⟨_, rfl⟩
        · cases alloc <;> exact ⟨_, rfl⟩
      have hopened : (s.opened (hs.version + 1) (grown <|> s.rBuffer) p).Ready i := by
        refine ⟨hready.number, ?_, .inl ⟨p.sock, rfl, rfl⟩⟩
        obtain ⟨uri, huri⟩ := Option.isSome_iff_exists.1 hready.memory
        simp [Slot.opened, huri]
      simp only [hgrown, ok_bind, pure_eq_ok]
      exact ⟨_, _, _, rfl, h.put hlt hopened (h.agrees.occupy hget hunused rfl), by simp⟩

theorem closed_ready (h : s.Ready i) (blockRequest : Int) :
    Slot.Ready { s.closed with blockRequest := blockRequest } i :=
  ⟨h.number, h.memory, .inr ⟨rfl, rfl, rfl⟩⟩

theorem httpSessClose_used (close : Option String) (hget : hs.session[no]? = some s)
    (hsock : s.hasSock = true) :
    httpSessClose close hs no = .ok (closeReply close, { hs with
      session := hs.session.set no { s.closed with blockRequest := 0 }
      sessionCount := hs.sessionCount - 1
      lastSession :=
        if hs.lastSession = no then lastBelow Slot.hasSock hs.session no
        else hs.lastSession }) := by
  simp only [httpSessClose, Hs.slot, hget, ok_bind, hsock, not_true_eq_false, if_false, pure_eq_ok]

theorem httpSessClose_unused (close : Option String) (hget : hs.session[no]? = some s)
    (hsock : s.hasSock = false) (hlast : hs.lastSession ≠ no) :
    httpSessClose close hs no =
      .ok (⟨.errUnavailable, some s!"connection not used ({no})"⟩, hs) := by
  simp only [httpSessClose, Hs.slot, hget, ok_bind, hsock, if_neg hlast, Bool.false_eq_true,
    not_false_eq_true, if_true, pure_eq_ok]

theorem Hs.Consistent.sessClose (h : hs.Consistent ready) (close : Option String)
    (hno : no < ready) :
    ∃ reply hs', httpSessClose close hs no = .ok (reply, hs') ∧ hs'.Consistent ready := by
  have hlen : no < hs.session.length := by
    rw [h.size]
    exact hno.trans_le h.bound
  obtain ⟨s, hget⟩ := slot_exists hlen
  have hready := h.front no s hget hno
  have hscan : lastBelow Slot.hasSock hs.session no = lastBelow Slot.inUse hs.session no :=
    lastBelow_congr fun i t hi ht => (h.front i t ht (hi.trans hno)).hasSock_eq
  cases huse : s.inUse with
  | true =>
    refine ⟨_, _, httpSessClose_used close hget (hready.hasSock_eq.trans huse), ?_⟩
    rw [hscan]
    exact h.put hno (closed_ready hready 0) (h.agrees.vacate hget huse rfl)
  | false =>
    have hlast := h.agrees.last_ne hget huse
    exact ⟨_, hs, httpSessClose_unused close hget (hready.hasSock_eq.trans huse) hlast, h⟩

/-- A slot in use is one that was made ready. -/
theorem Hs.Consistent.used_lt (h : hs.Consistent ready) (hget : hs.session[i]? = some s)
    (huse : s.inUse = true) : i < ready := by
  by_contra hge
  rw [h.back i s hget (Nat.le_of_not_lt hge)] at huse
  cases huse

theorem Hs.Consistent.last_lt (h : hs.Consistent ready) : hs.lastSession < ready := by
  by_contra hge
  obtain ⟨s, hget, huse⟩ := h.agrees.last.used hs.lastSession.toNat (by omega)
  have := h.used_lt hget huse
  omega

/-- HTTP_svr_close goes up to the last slot: open slots are closed, free ones lose their buffers. -/
theorem closeSlots_spec (close : Nat → Option String) (last : Int) (slots : List Slot) (i : Nat) :
    (closeSlots close last i slots).1.length = slots.length ∧
      ∀ (k : Nat) (new : Slot), (closeSlots close last i slots).1[k]? = some new →
        ∃ s, slots[k]? = some s ∧
          (new = s ∧ last < ((i + k : Nat) : Int) ∨ ((i + k : Nat) : Int) ≤ last ∧
            (s.hasSock = true ∧ new = s.closed ∨
              s.hasSock = false ∧ new = { s with rBuffer := none, wBuffer := [] })) := by
  induction slots generalizing i with
  | nil => exact ⟨rfl, fun k new hget => by simp [closeSlots] at hget⟩
  | cons s slots ih =>
    obtain ⟨hlen, hspec⟩ := ih (i + 1)
    by_cases hi : (i : Int) ≤ last
    · -- the rest of the list is that of the loop one index on
      have hrest : ∃ new, (closeSlots close last i (s :: slots)).1 =
          new :: (closeSlots close last (i + 1) slots).1 ∧
          (s.hasSock = true ∧ new = s.closed ∨
            s.hasSock = false ∧ new = { s with rBuffer := none, wBuffer := [] }) := by
        cases hsock : s.hasSock with
        | true => exact ⟨s.closed, by simp [closeSlots, hi, hsock], .inl ⟨rfl, rfl⟩⟩
        | false => exact ⟨_, by simp [closeSlots, hi, hsock], .inr ⟨rfl, rfl⟩⟩
      obtain ⟨new, heq, hnew⟩ := hrest
      rw [heq]
      refine ⟨by simp [hlen], fun k t hget => ?_⟩
      cases k with
      | zero =>
        cases hget
        exact ⟨s, rfl, .inr ⟨hi, hnew⟩⟩
      | succ k =>
        obtain ⟨t', hold, hcase⟩ := hspec k t hget
        rw [Nat.add_right_comm] at hcase
        exact ⟨t', hold, hcase⟩
    · rw [closeSlots, if_neg hi]
      exact ⟨rfl, fun k new hget => ⟨new, hget, .inl ⟨rfl, by omega⟩⟩⟩

theorem Hs.Consistent.svrClose (h : hs.Consistent ready) (close : Nat → Option String)
    (listener : Option String) : (httpSvrClose close listener hs).2.2.Consistent ready := by
  obtain ⟨hlen, hspec⟩ := closeSlots_spec close hs.lastSession hs.session 0
  have hlast := h.last_lt
  -- what is left of a slot: it stays ready, and is not in use
  have hfree : ∀ (k : Nat) (new : Slot),
      (closeSlots close hs.lastSession 0 hs.session).1[k]? = some new → k < ready →
        new.Ready k ∧ new.inUse = false := by
    intro k new hget hk
    obtain ⟨s, hold, hcase⟩ := hspec k new hget
    have hready := h.front k s hold hk
    rw [Nat.zero_add] at hcase
    rcases hcase with ⟨rfl, hlt⟩ | ⟨-, ⟨-, rfl⟩ | ⟨hsock, rfl⟩⟩
    · refine ⟨hready, Bool.eq_false_iff.2 fun huse => ?_⟩
      have := h.agrees.last.above k new hold huse
      omega
    · exact ⟨⟨hready.number, hready.memory, .inr ⟨rfl, rfl, rfl⟩⟩, rfl⟩
    · have huse : s.accepted = none := by
        rw [hready.hasSock_eq] at hsock
        simpa [Slot.inUse] using hsock
      rcases hready.state with ⟨sock, hsome, -⟩ | ⟨-, hneg, -⟩
      · rw [huse] at hsome
        cases hsome
      · exact ⟨⟨hready.number, hready.memory, .inr ⟨huse, hneg, rfl⟩⟩, by simp [Slot.inUse, huse]⟩
  have hkept : ∀ (k : Nat) (new : Slot),
      (closeSlots close hs.lastSession 0 hs.session).1[k]? = some new → ready ≤ k →
        new = zeroedSlot := by
    intro k new hget hk
    obtain ⟨s, hold, ⟨rfl, -⟩ | ⟨hle, -⟩⟩ := hspec k new hget
    · exact h.back k new hold hk
    · omega
  refine ⟨hlen.trans h.size, h.bound, h.max, fun k new hget hk => (hfree k new hget hk).1, hkept,
    Agrees.none_used fun new hmem => ?_⟩
  obtain ⟨k, hget⟩ := List.getElem?_of_mem hmem
  rcases Nat.lt_or_ge k ready with hk | hk
  · exact (hfree k new hget hk).2
  · rw [hkept k new hget hk]
    rfl

/-- The sweep goes through slots that were made ready. -/
theorem Hs.Consistent.verifyFrom (h : hs.Consistent ready) (ct : Int) (close : Option String)
    {left : Nat} (hleft : i + left ≤ ready) :
    ∃ reply hs', verifyFrom ct close hs left i = .ok (reply, hs') ∧ hs'.Consistent ready := by
  induction left generalizing i with
  | zero => exact ⟨_, hs, rfl, h⟩
  | succ left ih =>
    have hlt : i < ready := by omega
    have hlen : i < hs.session.length := by
      rw [h.size]
      exact hlt.trans_le h.bound
    obtain ⟨s, hget⟩ := slot_exists hlen
    obtain ⟨reply, hs', hnext, hrest⟩ := @ih (i + 1) (by omega)
    have hno : s.no.toNat = i := by simp [(h.front i s hget hlt).number]
    unfold SessionTable.verifyFrom
    simp only [slot_eq hget, ok_bind]
    split
    · split
      · obtain ⟨reply', hs'', hclose, hkept⟩ := h.sessClose close (hno.trans_lt hlt)
        simp only [hclose, ok_bind, pure_eq_ok]
        exact ⟨_, hs'', rfl, hkept⟩
      · exact ⟨reply, hs', hnext, hrest⟩
    · exact ⟨reply, hs', hnext, hrest⟩

theorem step_consistent {c : Call} (h : hs.Consistent ready) (known : Known hs c)
    (within : Within ready hs c) : ∃ hs', step hs c = .ok hs' ∧ hs'.Consistent ready := by
  cases c with
  | setMaxSession n =>
    refine ⟨_, rfl, ?_⟩
    unfold httpSvrSetMaxSession
    split
    · exact h
    · rename_i hle
      exact ⟨h.size, h.bound, Or.resolve_right within hle, h.front, h.back, h.agrees⟩
  | sessOpen accept alloc =>
    obtain ⟨reply, i, hs', hopen, hkept, -⟩ := h.sessOpen accept alloc
    exact ⟨hs', by simp only [step, hopen, ok_bind, pure_eq_ok], hkept⟩
  | sessClose close no =>
    obtain ⟨reply, hs', hclose, hkept⟩ := h.sessClose close within
    exact ⟨hs', by simp only [step, hclose, ok_bind, pure_eq_ok], hkept⟩
  | verifyConnection ct close =>
    have hlast := h.last_lt
    obtain ⟨reply, hs', hverify, hkept⟩ := @Hs.Consistent.verifyFrom hs 0 ready h ct close
      (hs.lastSession + 1).toNat (by omega)
    exact ⟨hs', by simp only [step, httpVerifyConnection, hverify, ok_bind, pure_eq_ok], hkept⟩
  | svrClose close listener => exact ⟨_, rfl, h.svrClose close listener⟩
  | used no change =>
    have hlt : no < httpMaxSession := known
    obtain ⟨s, hget⟩ := slot_exists (show no < hs.session.length from h.size ▸ hlt)
    simp only [step, slot_eq hget, ok_bind]
    split
    · rename_i huse
      have hready := h.front no s hget (h.used_lt hget huse)
      obtain ⟨uri, huri⟩ := Option.isSome_iff_exists.1 hready.memory
      obtain ⟨sock, hsock, hpos⟩ | ⟨hnone, -, -⟩ := hready.state
      · have hnew : (s.usedBy change).Ready no :=
          ⟨hready.number, by simp [Slot.usedBy, huri], .inl ⟨sock, hsock, hpos⟩⟩
        exact ⟨_, rfl, h.put (h.used_lt hget huse) hnew (h.agrees.touch hget rfl)⟩
      · simp [hnone] at huse
    · exact ⟨hs, rfl, h⟩
  | setTimeouts read write idle =>
    exact ⟨_, rfl, h.size, h.bound, h.max, h.front, h.back, h.agrees⟩
  | svrOpen sock => exact ⟨_, rfl, h.size, h.bound, h.max, h.front, h.back, h.agrees⟩

/-! ## What a consistent table is good for -/

theorem Hs.Consistent.sound (h : hs.Consistent ready) : hs.Sound := by
  refine ⟨h.agrees.count, fun s hmem huse => ?_, fun i s hi hget => ?_, h.agrees.last.above⟩
  · obtain ⟨i, hget⟩ := List.getElem?_of_mem hmem
    rcases (h.front i s hget (h.used_lt hget huse)).state with hholds | ⟨hnone, -, -⟩
    · exact hholds
    · simp [Slot.inUse, hnone] at huse
  · have hmax := h.max
    have hready := h.front i s hget (by omega)
    exact hready.state.imp_right fun ⟨_, hsock, _⟩ => ⟨hsock, hready.memory⟩

theorem Hs.Consistent.full_iff (h : hs.Consistent ready) : hs.freeSlot = none ↔ hs.Full := by
  rw [freeSlot_none_iff]
  constructor
  · intro hused i s hi hget hfree
    have := hused i s hi hget
    have := hfree.1
    omega
  · intro hfull i s hi hget
    obtain ⟨k, -, hsock⟩ := (h.sound.slots i s hi hget).resolve_right (hfull i s hi hget)
    omega

end

/-! ## Whole runs -/

/-- While the bound stays within the slots that were made ready, the table is sound in every state,
and a session is refused for lack of room when no slot below the bound is free. -/
theorem session_slots_sound (version : UInt32) (maxSession : Int) {calls : List Call}
    (known : Along step (fun _ => Known) (httpSvrInit version maxSession) calls)
    (within : Along step (fun _ => Within (readyCount maxSession))
      (httpSvrInit version maxSession) calls) :
    ∃ hs, run step (httpSvrInit version maxSession) calls = .ok hs ∧
      hs.Sound ∧
      ∀ accept alloc, ∃ reply i hs', httpSessOpen accept alloc hs = .ok (reply, i, hs') ∧
        (reply.code = .maxSession ↔ hs.Full) := by
  have hkeep : ∀ hs c, hs.Consistent (readyCount maxSession) →
      Known hs c ∧ Within (readyCount maxSession) hs c →
      ∃ hs', step hs c = .ok hs' ∧ hs'.Consistent (readyCount maxSession) :=
    fun hs c h hc => step_consistent h hc.1 hc.2
  obtain ⟨hs, hrun, hinv⟩ := run_total (httpSvrInit_consistent version maxSession) hkeep
    (known.and within)
  refine ⟨hs, hrun, hinv.sound, fun accept alloc => ?_⟩
  obtain ⟨reply, i, hs', hopen, -, hcode⟩ := hinv.sessOpen accept alloc
  exact ⟨reply, i, hs', hopen, hcode.trans hinv.full_iff⟩

/-- A session is opened, the bound is lowered below it, and the session is closed. -/
def shrinkOpen : List Call :=
  [.sessOpen (.peer ⟨5, "10.0.0.1", 1, none, ⟨.pass, none⟩, 0⟩) (some fun _ => 0), .setMaxSession 0,
    .sessClose none 0]

theorem session_slots_sound_shrunk :
    ∃ hs, run step (httpSvrInit 0 1) shrinkOpen = .ok hs ∧
      hs.Sound ∧
      ∀ accept alloc, ∃ reply i hs', httpSessOpen accept alloc hs = .ok (reply, i, hs') ∧
        (reply.code = .maxSession ↔ hs.Full) := by
  refine session_slots_sound 0 1 ?_ ?_
  · exact along_cons trivial fun _ _ => along_cons trivial fun _ _ =>
      along_cons (by decide : 0 < httpMaxSession) fun hs _ => along_nil hs
  · exact along_cons trivial fun _ _ => along_cons (.inl (by decide)) fun _ _ =>
      along_cons (by decide : 0 < readyCount 1) fun hs _ => along_nil hs

/-- A server made for one session whose bound is raised to two: the second slot has the socket 0 and
no memory. -/
theorem raised_slot_unready :
    Along step (fun _ => Known) (httpSvrInit 0 1) [.setMaxSession 2] ∧
      ∃ hs, run step (httpSvrInit 0 1) [.setMaxSession 2] = .ok hs ∧ ¬ hs.Sound := by
  have hrun : run step (httpSvrInit 0 1) [.setMaxSession 2] =
      .ok { httpSvrInit 0 1 with maxSession := 2 } := rfl
  refine ⟨along_cons trivial fun hs _ => along_nil hs, _, hrun, fun sound => ?_⟩
  obtain ⟨s, hget⟩ : ∃ s, (httpSvrInit 0 1).session[1]? = some s :=
    slot_exists (by simp [httpSvrInit, httpMaxSession])
  have hzero : s = zeroedSlot := (httpSvrInit_slot hget).trans (if_neg (by decide))
  subst hzero
  have hslots := sound.slots 1 zeroedSlot
  generalize httpSvrInit 0 1 = hs at hslots hget
  rcases hslots one_lt_two hget with ⟨k, hk, -⟩ | ⟨hsock, -⟩
  · cases hk
  · cases hsock

end CassandraApi.Http.SessionTable
