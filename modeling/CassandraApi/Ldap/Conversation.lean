/-
# `Ldap.Conversation` — a client and a server, and the bytes between them

The client has opened a connection and a session of the server is at the other end
of it.  Either side is called at any time and in any order; what one of them sends is
on its way until the other reads it, in pieces of any size (`System.step`).

    copied ─ w_buffer ─ on their way ─ r_buffer ─ delivered      requests
    decoded ─ r_buffer ─ on their way ─ w_buffer ─ accepted      responses

Nothing is made up on the way and nothing comes twice, so in every state

    answered ≤ accepted        delivered ≤ copied

and with the window of the client (`Ldap.Window`) the session never has more requests
outstanding than the client lets it have: it refuses none when it allows as many as the
client does (`requests_never_refused`).  When its application answers no request twice,
the client receives no response that it did not wait for (`responses_never_unexpected`).
-/
import CassandraApi.Ldap.Inbound
import CassandraApi.Ldap.Responses

namespace CassandraApi.Ldap

open C Ber Lib

/-! ## The system -/

/-- A client and a session; what the operations of each have reported since the connection was
opened; and the bytes that are on their way. -/
structure System where
  dc : LdapT
  sess : DsSession
  log : List Event := []
  served : List SessEvent := []
  up : List UInt8 := []
  down : List UInt8 := []

/-- A call on one of the sides. -/
inductive Move where
  | client (call : Call)
  | server (call : SessCall)

/-- The connection `c` reads.  Before it is bound it reads the response to its bind request, which
is not a part of the stream. -/
def Call.receive (c : Ptr) (dc : LdapT) : Call → Receive
  | .read _ _ _ alloc recv a => if a = c ∧ (dc.clients c).Bound then some (alloc, recv) else none
  | _ => none

/-- The session reads. -/
def SessCall.receive : SessCall → Receive
  | .read alloc recv => some (alloc, recv)
  | _ => none

/-- A call on a system. -/
def System.step (c : Ptr) (ds : DsT) (sys : System) : Move → Except Fault System
  | .client call =>
      if Possible (sys.dc.clients c).rb sys.down (call.receive c sys.dc) then do
        let (out, dc, log) ← call.perform sys.dc
        pure { sys with
          dc, log := sys.log ++ log, up := sys.up ++ sentBytes c log
          down := remaining sys.down out.code (call.receive c sys.dc) }
      else throw .stuck
  | .server call =>
      if Possible sys.sess.rb sys.up call.receive then do
        let (out, sess, log) ← call.perform ds sys.sess
        pure { sys with
          sess, served := sys.served ++ log, down := sys.down ++ log.flatMap SessEvent.wire
          up := remaining sys.up (out.code.getD .errConnect) call.receive }
      else throw .stuck

/-- The connection is opened and the session is bound. -/
def System.start (dc : LdapT) (sock : Int) (user : DsUser) : System where
  dc := dc
  sess := boundSession sock user

/-- The request that was delivered. -/
def SessEvent.delivery : SessEvent → Option LdapMessage
  | .delivered msg => some msg
  | _ => none

/-- The requests that were delivered. -/
def deliveries (served : List SessEvent) : List LdapMessage := served.filterMap SessEvent.delivery

/-- The messages that were accepted from the application. -/
def accepted (served : List SessEvent) : List (List UInt8) := served.filterMap SessEvent.accepted

/-! ## Responses -/

/-- A message id and an operation. -/
def IsAnswer (m : List UInt8) : Prop :=
  ∃ (tid : Int) (op : UInt8) (body : List UInt8), 0 ≤ tid ∧ tid < 2 ^ 31 ∧
    (midTlv tid ++ op :: body).length < 2 ^ 24 ∧ m = tlv 0x30 (midTlv tid ++ op :: body)

/-- ldap_decode_response finds a search entry. -/
def isEntry (m : List UInt8) : Bool :=
  match responseHeader (.ofList m) 0 with
  | .ok (some (_, op, _)) => op = 0x64
  | _ => false

section Response

variable {m : List UInt8}

theorem IsAnswer.isWritten (h : IsAnswer m) : IsWritten m := by
  obtain ⟨tid, op, body, h0, hlt, hlen, rfl⟩ := h
  obtain ⟨os, hmid, -⟩ := midTlv_octets h0 hlt
  refine ⟨_, ?_, hlen, rfl⟩
  rw [hmid, List.length_append, List.length_cons, List.length_cons, List.length_cons]
  omega

/-- The decoder ends a request with a response that is no entry. -/
theorem not_entry_of_gives {now : Int} {alloc : Bool} (h : IsAnswer m)
    (gives : (clntDecoder now alloc).Gives m .dataAvailable) : isEntry m = false := by
  obtain ⟨tid, op, body, h0, hlt, hlen, rfl⟩ := h
  obtain ⟨⟨lc, seen⟩, rb, behind, ret, s', hbuffered, hmeasured, hcall, hcode⟩ := gives
  obtain ⟨⟨code, resp, lc'⟩, hframe, hcall⟩ := bind_eq_ok.1 hcall
  cases hcall
  obtain rfl : code = .dataAvailable := hcode
  have hret := (decodeFrame_spec hframe).1
  obtain ⟨buf, hbuf, -, -, hbytes⟩ := hbuffered.block
  obtain ⟨k, -, -, hheader⟩ := responseHeader_eq h0 hlt hlen hbytes.left
  obtain ⟨k', -, -, hown⟩ := responseHeader_eq (p := 0) h0 hlt hlen (Block.ofList_holds _)
  obtain ⟨a, rfl, hop⟩ : ∃ a, resp = some a ∧ a.op = op := by
    simp only [decodeFrame, bind_eq_ok] at hframe
    obtain ⟨dn, -, text, -, ⟨ret', resp', lc₁⟩, hdecode, c, -, hend⟩ := hframe
    have hsame : resp' = resp := by
      split at hend
      · obtain ⟨_, -, hend⟩ := bind_eq_ok.1 hend
        cases hend
        rfl
      · cases hend
        rfl
    subst hsame
    unfold ldapDecodeResponse at hdecode
    rw [hbuf] at hdecode
    obtain ⟨header, hfound, hdecode⟩ := bind_eq_ok.1 hdecode
    rw [hmeasured.body] at hfound
    obtain rfl := Except.ok.inj (hheader.symm.trans hfound)
    obtain ⟨⟨ret₂, lc₂⟩, -, hdecode⟩ := bind_eq_ok.1 hdecode
    cases hdecode
    exact ⟨_, rfl, rfl⟩
  have hnot : op ≠ 0x64 := by
    rintro rfl
    rw [Response.ret, if_pos hop] at hret
    cases hret
  have hzero : ((0 : Nat) : Int) = 0 := rfl
  rw [hzero] at hown
  rw [isEntry, hown]
  simpa using hnot

end Response

/-! ## One call on one side -/

theorem remaining_failed {way : List UInt8} {code : RetCode} (h : code ≠ .ok) (r : Receive) :
    remaining way code r = way := by
  unfold remaining
  split
  · rw [if_neg h]
  · rfl

section Sides

variable {ds : DsT} {dc dc' : LdapT} {sess sess' : DsSession} {log : List Event} {c : Ptr}
  {msgs done : List (List UInt8)} {sent way : List UInt8}

/-- A call of the client takes responses off its read buffer, one at least that is no entry if it
reports a final response. -/
theorem client_takes {call : Call} {out : Outcome} (h : call.perform dc = .ok (out, dc', log))
    (old : OldAt c log) (carried : Carried msgs sent way (dc.clients c).rb done)
    (front : sent <+: msgs.flatten) (answers : ∀ m ∈ msgs, IsAnswer m)
    (possible : Possible (dc.clients c).rb way (call.receive c dc)) :
    ∃ more, Carried msgs sent (remaining way out.code (call.receive c dc)) (dc'.clients c).rb
      (done ++ more) ∧ (finals c log).length ≤ (more.filter fun m => !isEntry m).length := by
  have kept : InputKept c dc dc' log → remaining way out.code (call.receive c dc) = way →
      ∃ more, Carried msgs sent (remaining way out.code (call.receive c dc)) (dc'.clients c).rb
        (done ++ more) ∧ (finals c log).length ≤ (more.filter fun m => !isEntry m).length := by
    intro hkept hway
    refine ⟨[], ?_, ?_⟩
    · rw [hkept.rb, hway, List.append_nil]
      exact carried
    · rw [hkept.finals]
      exact Nat.zero_le _
  have written : ∀ m ∈ msgs, IsWritten m := fun m hm => (answers m hm).isWritten
  cases call with
  | «open» now connect mem wbuf =>
    have hopen : ldapClntOpen now connect mem wbuf dc = .ok (out, dc', log) := h
    exact kept (.open hopen old) rfl
  | close closeErr no => exact kept (.close h) rfl
  | write now sockErr send a => exact kept (.write h) rfl
  | sendMessage now clock env target ber => exact kept (.sendMessage h) rfl
  | keepAlive now env => exact kept (.keepAliveFrom h) rfl
  | checkConnection now closeErr => exact kept (.checkFrom h) rfl
  | consume a => exact kept (.consume h) rfl
  | read now sockErr stack alloc recv a =>
    by_cases hc : a = c
    · subst hc
      obtain ⟨hcode, hkept⟩ | ⟨rb, bound, hread, rfl, -, rfl⟩ := ldapClntRead_input h a
      · exact kept hkept (remaining_failed hcode _)
      · have hreceive : (Call.read now sockErr stack alloc recv a).receive a dc =
            some (alloc, recv) := if_pos ⟨rfl, bound⟩
        rw [hreceive] at possible ⊢
        refine ⟨[], ?_, Nat.zero_le _⟩
        rw [List.append_nil]
        exact carried.read front (by decide) possible hread
    · exact kept (.read h (Ne.symm hc)) (by simp [Call.receive, hc, remaining])
  | decode now clock grow alloc a =>
    by_cases hc : a = c
    · subst hc
      obtain ⟨o, s, rb, entries, last, hdecode, rfl, -, rfl, hentries, hlast⟩ :=
        ldapClntDecode_input h
      obtain ⟨more, carried', hcode⟩ := carried.decode written hdecode
      refine ⟨more, carried', (finals_decoded hentries hlast old).trans ?_⟩
      split
      · rename_i hdata
        obtain hloop | ⟨first, m, rfl, gives⟩ := hcode
        · rw [hdata] at hloop
          obtain hloop | hloop | hloop := hloop <;> cases hloop
        · rw [hdata] at gives
          have hm : m ∈ msgs := carried'.sublist.subset (by simp)
          have hfinal := not_entry_of_gives (answers m hm) gives
          simp [List.filter_append, hfinal]
      · exact Nat.zero_le _
    · exact kept (.decode h (Ne.symm hc)) rfl

theorem sessWrite_rb {send : Send} {callback : Option Int} {out : ServOutcome}
    {events : List SessEvent} (h : ldapSessWrite send callback sess = .ok (out, sess', events)) :
    sess'.rb = sess.rb := by
  unfold ldapSessWrite at h
  split at h
  · cases h
    rfl
  · cases h
    rfl
  split at h
  · cases h
    rfl
  cases send with
  | failed e =>
    cases h
    rfl
  | wrote r =>
    simp only at h
    split at h
    · split at h
      · cases h
        rfl
      · cases h
        rfl
    · cases h
      rfl

theorem sessSendMessage_rb {malloc realloc : Bool} {callback : Option Int} {ber : BER}
    {out : ServOutcome} {events : List SessEvent}
    (h : ldapSessSendMessage malloc realloc callback ber sess = .ok (out, sess', events)) :
    sess'.rb = sess.rb := by
  unfold ldapSessSendMessage at h
  split at h
  · cases h
    rfl
  simp only at h
  split at h
  · cases h
  split at h
  · split at h
    · obtain ⟨⟨o, s, log⟩, hdone, heq⟩ := map_eq_ok h
      cases heq
      split at hdone
      · cases hdone
        rfl
      · cases hdone
        rfl
    · cases h
      rfl
  · split at h
    · cases h
      rfl
    · cases h
      rfl

/-- A call of the session takes requests off its read buffer, one at least if it delivers or
refuses one. -/
theorem server_takes {call : SessCall} {out : ServOutcome} {events : List SessEvent}
    (ready : sess.state = .stateReady) (h : call.perform ds sess = .ok (out, sess', events))
    (carried : Carried msgs sent way sess.rb done) (front : sent <+: msgs.flatten)
    (written : ∀ m ∈ msgs, IsWritten m) (possible : Possible sess.rb way call.receive) :
    ∃ more, Carried msgs sent (remaining way (out.code.getD .errConnect) call.receive) sess'.rb
      (done ++ more) ∧
      (deliveries events).length + (events.filterMap SessEvent.refusal).length ≤ more.length := by
  cases call with
  | read alloc recv =>
    obtain ⟨⟨o, s⟩, hread, heq⟩ := bind_eq_ok.1 h
    cases heq
    unfold ldapSessRead at hread
    rw [ready] at hread
    obtain ⟨⟨o', rb⟩, hbuffer, heq⟩ := bind_eq_ok.1 hread
    cases heq
    refine ⟨[], ?_, Nat.le_refl 0⟩
    rw [List.append_nil]
    exact carried.read front (by decide) possible hbuffer
  | write send callback =>
    refine ⟨[], ?_, ?_⟩
    · rw [List.append_nil, sessWrite_rb h]
      exact carried
    · obtain ⟨rfl, -⟩ | ⟨bytes, rfl, -⟩ := ldapSessWrite_cases h <;> exact Nat.le_refl 0
  | sendMessage malloc realloc callback ber =>
    refine ⟨[], ?_, ?_⟩
    · rw [List.append_nil, sessSendMessage_rb h]
      exact carried
    · obtain ⟨rfl, -⟩ | ⟨rfl, -, -⟩ := ldapSessSendMessage_cases h <;> exact Nat.le_refl 0
  | decode grow env alloc send =>
    obtain ⟨⟨o, rdata, rb⟩, hdecode, h⟩ := bind_eq_ok.1 h
    obtain ⟨more, carried', hcode⟩ := carried.decode written hdecode
    simp only at h
    split at h
    · rename_i hdata
      have hmore : 0 < more.length := by
        obtain hloop | ⟨first, m, rfl, -⟩ := hcode
        · rw [hdata] at hloop
          obtain hloop | hloop | hloop := hloop <;> cases hloop
        · simp
      unfold countRequest at h
      split at h
      · cases h
        refine ⟨more, carried', ?_⟩
        cases rdata.getLast? with
        | none => exact Nat.zero_le _
        | some msg => exact hmore
      · obtain ⟨msg, ber, -, -, rfl, rfl⟩ := refuse_eq_ok h
        exact ⟨more, carried', hmore⟩
    · cases h
      exact ⟨more, carried', Nat.zero_le _⟩

end Sides

/-! ## Since the connection was opened -/

/-- The last thing that the client did was to open `c`; `past` is what it had reported by then. -/
def JustOpened (s : Setup) (c : Ptr) (dc : LdapT) (past : List Event) : Prop :=
  ∃ calls before dc₁ now connect mem wbuf out i,
    runCalls calls s.start = .ok (dc₁, before) ∧
    ldapClntOpen now connect mem wbuf dc₁ = .ok (out, dc, [.opened i c]) ∧
    past = before ++ [.opened i c]

section Opened

variable {s : Setup} {c : Ptr} {dc : LdapT} {past log log' : List Event} {k : Pool}

theorem JustOpened.ran (h : JustOpened s c dc past) :
    run Pool.step s.start.pool past = .ok dc.pool := by
  obtain ⟨calls, before, dc₁, now, connect, mem, wbuf, out, i, hrun, hopen, rfl⟩ := h
  exact (runCalls_refines hrun).trans (ldapClntOpen_refines hopen)

theorem JustOpened.fresh (h : JustOpened s c dc past) : (dc.clients c).rb = {} := by
  obtain ⟨calls, before, dc₁, now, connect, mem, wbuf, out, i, -, hopen, rfl⟩ := h
  unfold ldapClntOpen at hopen
  split at hopen
  · cases hopen
  split at hopen
  · cases hopen
  split at hopen
  · cases hopen
  split at hopen
  · cases hopen
  split at hopen
  · cases hopen
  split at hopen
  · obtain ⟨q, -, hopen⟩ := bind_eq_ok.1 hopen
    cases hopen
    rw [put_clients]
  · cases hopen

/-- Nothing is left of what was collected before. -/
theorem JustOpened.since (h : JustOpened s c dc past) {α : Type} (f : Event → List α)
    (log : List Event) :
    (past ++ log).foldl (sinceOpened f c) [] = log.foldl (sinceOpened f c) [] := by
  obtain ⟨calls, before, dc₁, now, connect, mem, wbuf, out, i, -, -, rfl⟩ := h
  simp [List.foldl_append, sinceOpened, Event.about, Event.opens]

theorem JustOpened.unanswered (h : JustOpened s c dc past) (log : List Event) :
    unanswered c (past ++ log) = log.foldl (unansweredStep c) 0 := by
  obtain ⟨calls, before, dc₁, now, connect, mem, wbuf, out, i, -, -, rfl⟩ := h
  simp [Ldap.unanswered, List.foldl_append, unansweredStep, Event.about, Event.opens]

theorem copies_append (old : OldAt c log') :
    copies c (log ++ log') = copies c log ++ copies c log' := since_append old

theorem sentBytes_append (old : OldAt c log') :
    sentBytes c (log ++ log') = sentBytes c log ++ sentBytes c log' := since_append old

theorem finals_append (old : OldAt c log') :
    finals c (log ++ log') = finals c log ++ finals c log' := since_append old

/-- What the client does leaves room in its windows, it does not open `c` once more and copies no
keepalive to it. -/
structure Steady (s : Setup) (c : Ptr) (past log : List Event) : Prop where
  window : Along Pool.step (fun _ => KeepsWindow) s.start.pool (past ++ log)
  old : OldAt c log
  requests : ∀ e ∈ log, ∀ ber, e ≠ .keepaliveCopied c ber

theorem Steady.left (h : Steady s c past (log ++ log')) : Steady s c past log where
  window := by
    have along := h.window
    rw [← List.append_assoc] at along
    exact along.left
  old := h.old.left
  requests e he := h.requests e (List.mem_append_left _ he)

/-- Of the requests copied so many have no final response yet, at most. -/
theorem Steady.waiting (h : Steady s c past log) (opened : JustOpened s c dc past)
    (one : 1 ≤ s.start.maxConcurrent) (int : s.start.maxConcurrent < 2 ^ 31)
    (ran : run Pool.step s.start.pool (past ++ log) = .ok k) :
    ((copies c log).length : Int) ≤ (k.conns c).concurrentCount + (finals c log).length := by
  have hwindow := (stateWindows_of_run one int h.window ran).windows c
  have hcount := hwindow.count
  have hge := unanswered_ge h.old h.requests 0
  rw [opened.unanswered] at hcount
  omega

/-- The bytes sent are the first of the requests copied. -/
theorem Steady.front (h : Steady s c past log) (opened : JustOpened s c dc past)
    (ran : run Pool.step s.start.pool (past ++ log) = .ok k) :
    sentBytes c log <+: ((copies c log).map BER.berval).flatten := by
  have keep : Along Pool.step (fun _ k e => ¬ Drops k e) s.start.pool (past ++ log) :=
    h.window.mono fun _ _ _ keeps => keeps_of_clean keeps.clean
  have intact : sentBytes c (past ++ log) ++ (k.conns c).pending =
      bytesOf (copies c (past ++ log)) := intact_of_run keep ran
  rw [sentBytes, copies, opened.since, opened.since] at intact
  exact ⟨_, intact.trans List.flatMap_def⟩

end Opened

/-! ## What holds in every state -/

/-- The sides keep to the rules: the client is steady, the messages that it copies are written as
the generators do, and those that the application of the server gives are responses.  There are
not so many of them that the counter of the session is less than any `int`. -/
structure Regular (s : Setup) (c : Ptr) (past : List Event) (sys : System) : Prop where
  client : Steady s c past sys.log
  copied : ∀ ber ∈ copies c sys.log, IsWritten ber.berval
  answers : ∀ m ∈ accepted sys.served, IsAnswer m
  few : (accepted sys.served).length ≤ 2 ^ 31

/-- Both streams are intact and every message is decoded once at most; the session has refused
nothing. -/
structure Conversing (s : Setup) (c : Ptr) (past : List Event) (sys : System) : Prop where
  ran : run Pool.step s.start.pool (past ++ sys.log) = .ok sys.dc.pool
  requests : ∃ done, Carried ((copies c sys.log).map BER.berval) (sentBytes c sys.log) sys.up
    sys.sess.rb done ∧ (deliveries sys.served).length ≤ done.length
  stream : ∃ waiting cut, Streaming sys.sess sys.served [] waiting cut
  responses : ∃ done, Carried (accepted sys.served) (sys.served.flatMap SessEvent.wire) sys.down
    (sys.dc.clients c).rb done ∧
    (finals c sys.log).length ≤ (done.filter fun m => !isEntry m).length
  count : sys.sess.concurrentCount =
    (deliveries sys.served).length - (accepted sys.served).length

section Invariant

variable {s : Setup} {c : Ptr} {past : List Event} {sys sys' : System} {ds : DsT}
  {dc : LdapT} {sess sess' : DsSession} {served events : List SessEvent}

theorem deliveries_append (served events : List SessEvent) :
    deliveries (served ++ events) = deliveries served ++ deliveries events :=
  List.filterMap_append ..

theorem accepted_append (served events : List SessEvent) :
    accepted (served ++ events) = accepted served ++ accepted events :=
  List.filterMap_append ..

theorem Conversing.start (opened : JustOpened s c dc past) (sock : Int) (user : DsUser) :
    Conversing s c past (System.start dc sock user) where
  ran := by
    rw [System.start, List.append_nil]
    exact opened.ran
  requests := ⟨[], ⟨[], [], rfl, rfl, .fresh rfl ⟨rfl, rfl⟩ rfl⟩, Nat.le_refl 0⟩
  stream := ⟨[], [], rfl, Nat.le_refl 0, rfl, rfl, rfl, rfl, rfl⟩
  responses := by
    refine ⟨[], ⟨[], [], rfl, rfl, ?_⟩, Nat.le_refl 0⟩
    have hrb : ((System.start dc sock user).dc.clients c).rb = {} := opened.fresh
    rw [hrb]
    exact .fresh rfl ⟨rfl, rfl⟩ rfl
  count := rfl

theorem Conversing.delivered_le (inv : Conversing s c past sys) :
    (deliveries sys.served).length ≤ (copies c sys.log).length := by
  obtain ⟨done, carried, hle⟩ := inv.requests
  have hlen := carried.length_le
  rw [List.length_map] at hlen
  exact hle.trans hlen

theorem Conversing.finals_le (inv : Conversing s c past sys) :
    (finals c sys.log).length ≤ ((accepted sys.served).filter fun m => !isEntry m).length := by
  obtain ⟨done, carried, hle⟩ := inv.responses
  exact hle.trans (carried.sublist.filter _).length_le

/-- The session has as many requests outstanding as the client, at most. -/
theorem Conversing.outstanding_le (inv : Conversing s c past sys) (regular : Regular s c past sys)
    (opened : JustOpened s c dc past) (one : 1 ≤ s.start.maxConcurrent)
    (int : s.start.maxConcurrent < 2 ^ 31) :
    sys.sess.concurrentCount ≤ (sys.dc.clients c).concurrentCount := by
  have hcount := inv.count
  have hdelivered := inv.delivered_le
  have hfinals := inv.finals_le.trans (List.length_filter_le ..)
  have hwaiting := regular.client.waiting opened one int inv.ran
  have hconn : (sys.dc.pool.conns c).concurrentCount = (sys.dc.clients c).concurrentCount := rfl
  omega

/-- What the session has sent are the first of the messages that it accepted. -/
theorem Conversing.front (inv : Conversing s c past sys) :
    sys.served.flatMap SessEvent.wire <+: (accepted sys.served).flatten := by
  obtain ⟨waiting, cut, h⟩ := inv.stream
  have hwire : sys.served.flatMap SessEvent.wire = cut := h.wire
  have haccepted : accepted sys.served = waiting := h.accepted
  rw [hwire, haccepted, h.pending]
  exact List.prefix_append _ _

/-- The counter goes up with a request delivered and down with a message accepted. -/
theorem server_counts {call : SessCall} {out : ServOutcome} (ready : sess.state = .stateReady)
    (h : call.perform ds sess = .ok (out, sess', events))
    (low : ((accepted events).length : Int) ≤ sess.concurrentCount + 2 ^ 31)
    (high : sess.concurrentCount < 2 ^ 31) :
    sess'.concurrentCount =
      sess.concurrentCount + (deliveries events).length - (accepted events).length := by
  have same : sess.concurrentCount = sess.concurrentCount + (0 : Nat) - (0 : Nat) := by omega
  cases call with
  | read alloc recv =>
    obtain ⟨⟨o, s⟩, hread, heq⟩ := bind_eq_ok.1 h
    cases heq
    obtain ⟨rb, rfl⟩ := ldapSessRead_bound ready hread
    exact same
  | write send callback =>
    obtain ⟨rfl, rfl⟩ | ⟨bytes, rfl, w⟩ := ldapSessWrite_cases h
    · exact same
    · exact w.count.trans same
  | sendMessage malloc realloc callback ber =>
    obtain ⟨rfl, w⟩ | ⟨rfl, q, -⟩ := ldapSessSendMessage_cases h
    · exact w.count.trans same
    · have hone : ((accepted [SessEvent.queued ber]).length : Int) = 1 := rfl
      have hnone : ((deliveries [SessEvent.queued ber]).length : Int) = 0 := rfl
      rw [q.count, hone, hnone, int32_of_range (by omega) (by omega)]
      omega
  | decode grow env alloc send =>
    obtain ⟨rb, rfl, rfl⟩ | ⟨rb, msg, -, rfl, rfl⟩ |
      ⟨rb, msg, ber, o, -, -, -, -, rfl, rfl⟩ := ldapSessDecode_cases h
    · exact same
    · have hone : ((deliveries [SessEvent.delivered msg]).length : Int) = 1 := rfl
      have hnone : ((accepted [SessEvent.delivered msg]).length : Int) = 0 := rfl
      rw [hone, hnone, Int.sub_zero]
    · exact same

/-- A call adds to what its own side has reported. -/
theorem step_client {call : Call} (h : sys.step c ds (.client call) = .ok sys') :
    (∃ log, sys'.log = sys.log ++ log) ∧ sys'.served = sys.served := by
  rw [System.step] at h
  split at h
  · obtain ⟨⟨out, dc', log⟩, -, heq⟩ := bind_eq_ok.1 h
    cases heq
    exact ⟨⟨log, rfl⟩, rfl⟩
  · cases h

theorem step_server {call : SessCall} (h : sys.step c ds (.server call) = .ok sys') :
    sys'.log = sys.log ∧ ∃ events, sys'.served = sys.served ++ events := by
  rw [System.step] at h
  split at h
  · obtain ⟨⟨out, sess', events⟩, -, heq⟩ := bind_eq_ok.1 h
    cases heq
    exact ⟨rfl, events, rfl⟩
  · cases h

theorem step_grows {move : Move} (h : sys.step c ds move = .ok sys') :
    ∃ log events, sys'.log = sys.log ++ log ∧ sys'.served = sys.served ++ events := by
  cases move with
  | client call =>
    obtain ⟨⟨log, hlog⟩, hserved⟩ := step_client h
    exact ⟨log, [], hlog, hserved.trans (List.append_nil _).symm⟩
  | server call =>
    obtain ⟨hlog, events, hserved⟩ := step_server h
    exact ⟨[], events, hlog.trans (List.append_nil _).symm, hserved⟩

/-- What is regular after a call was so before it. -/
theorem Regular.before {move : Move} (h : Regular s c past sys')
    (hstep : sys.step c ds move = .ok sys') : Regular s c past sys := by
  obtain ⟨log, events, hlog, hserved⟩ := step_grows hstep
  have steady := h.client
  rw [hlog] at steady
  refine ⟨steady.left, fun ber hber => h.copied ber ?_, fun m hm => h.answers m ?_, ?_⟩
  · rw [hlog, copies_append steady.old.right]
    exact List.mem_append_left _ hber
  · rw [hserved, accepted_append]
    exact List.mem_append_left _ hm
  · have hfew := h.few
    rw [hserved, accepted_append, List.length_append] at hfew
    omega

/-- The client is called. -/
theorem Conversing.client (inv : Conversing s c past sys) {call : Call}
    (h : sys.step c ds (.client call) = .ok sys') (regular : Regular s c past sys') :
    Conversing s c past sys' := by
  rw [System.step] at h
  split at h
  · rename_i possible
    obtain ⟨⟨out, dc', log⟩, hcall, heq⟩ := bind_eq_ok.1 h
    cases heq
    have old : OldAt c log := regular.client.old.right
    refine ⟨?_, ?_, inv.stream, ?_, inv.count⟩
    · rw [← List.append_assoc]
      exact run_append_ok inv.ran (perform_refines hcall)
    · obtain ⟨done, carried, hle⟩ := inv.requests
      refine ⟨done, ?_, hle⟩
      rw [copies_append old, sentBytes_append old, List.map_append]
      exact carried.write _ _
    · obtain ⟨done, carried, hle⟩ := inv.responses
      obtain ⟨more, carried', hmore⟩ :=
        client_takes hcall old carried inv.front regular.answers possible
      refine ⟨done ++ more, carried', ?_⟩
      rw [finals_append old, List.length_append, List.filter_append, List.length_append]
      exact Nat.add_le_add hle hmore
  · cases h

/-- The session is called: it has room for what it decodes. -/
theorem Conversing.server (inv : Conversing s c past sys) {call : SessCall}
    (opened : JustOpened s c dc past) (one : 1 ≤ s.start.maxConcurrent)
    (int : s.start.maxConcurrent < 2 ^ 31) (allows : s.start.maxConcurrent ≤ ds.maxConcurrent)
    (h : sys.step c ds (.server call) = .ok sys') (regular : Regular s c past sys') :
    Conversing s c past sys' := by
  rw [System.step] at h
  split at h
  · rename_i possible
    obtain ⟨⟨out, sess', events⟩, hcall, heq⟩ := bind_eq_ok.1 h
    cases heq
    have steady : Steady s c past sys.log := regular.client
    obtain ⟨waiting, cut, streaming⟩ := inv.stream
    obtain ⟨done, carried, hle⟩ := inv.requests
    have written : ∀ m ∈ (copies c sys.log).map BER.berval, IsWritten m := by
      intro m hm
      obtain ⟨ber, hber, rfl⟩ := List.mem_map.1 hm
      exact regular.copied ber hber
    obtain ⟨more, carried', hmore⟩ :=
      server_takes streaming.ready hcall carried (steady.front opened inv.ran) written possible
    -- the request at hand is one of those that the client waits for
    have hlen := carried'.length_le
    have hwaiting := steady.waiting opened one int inv.ran
    have hhigh := ((stateWindows_of_run one int steady.window inv.ran).windows c).high
    have hfinals := inv.finals_le.trans (List.length_filter_le ..)
    have hcount := inv.count
    rw [List.length_append, List.length_map] at hlen
    have none : events.filterMap SessEvent.refusal = [] := by
      obtain none | ⟨_, _, _, _, _, _, _, _, -, hfull, -, -, -, -, rfl⟩ := refusal_cases hcall
      · exact none
      · have hone : 0 + 1 ≤ more.length := hmore
        omega
    have hfew := regular.few
    have haccepted : accepted (sys.served ++ events) = accepted sys.served ++ accepted events :=
      accepted_append ..
    simp only [haccepted, List.length_append] at hfew
    refine ⟨inv.ran, ⟨done ++ more, carried', ?_⟩, streaming.unrefused hcall none, ?_, ?_⟩
    · rw [deliveries_append, List.length_append, List.length_append]
      omega
    · obtain ⟨taken, carriedBack, hback⟩ := inv.responses
      refine ⟨taken, ?_, hback⟩
      rw [accepted_append, List.flatMap_append]
      exact carriedBack.write _ _
    · rw [deliveries_append, accepted_append, List.length_append, List.length_append]
      have hafter := server_counts streaming.ready hcall (by omega) (by omega)
      rw [hafter]
      omega
  · cases h

theorem conversing_of_run {sock : Int} {user : DsUser} {moves : List Move}
    (opened : JustOpened s c dc past) (one : 1 ≤ s.start.maxConcurrent)
    (int : s.start.maxConcurrent < 2 ^ 31) (allows : s.start.maxConcurrent ≤ ds.maxConcurrent)
    (h : run (System.step c ds) (System.start dc sock user) moves = .ok sys) :
    Regular s c past sys → Conversing s c past sys := by
  refine run_invariant (I := fun _ sys => Regular s c past sys → Conversing s c past sys)
    (fun _ => .start opened sock user) ?_
    (show Along _ (fun _ _ _ => True) _ moves from fun _ _ _ _ _ _ => trivial) h
  intro _ sys move sys' hold _ hstep regular
  have inv := hold (regular.before hstep)
  cases move with
  | client call => exact inv.client hstep regular
  | server call => exact inv.server opened one int allows hstep regular

end Invariant

/-- The application gives no more responses, entries apart, than requests were delivered to it. -/
def Behind (served : List SessEvent) : Prop :=
  ∀ first, first <+: served →
    ((accepted first).filter fun m => !isEntry m).length ≤ (deliveries first).length

/-! ## One request and its response -/

/-- A delete request goes from one side to the other in two pieces, and its response back. -/
def exchange : List Move :=
  [.client (.write 1 .none (.wrote 14) 1),
    .client (.read 1 .none (fun _ => 0) (some fun _ => 0)
      (.data [0x30, 12, 2, 1, 1, 0x61, 7, 0x0a, 1, 0, 4, 0, 4, 0]) 1),
    .client (.sendMessage 1 {} ⟨fun _ => true, none⟩ none (some ⟨512, deleteRoot 1⟩)),
    .client (.write 1 .none (.wrote 7) 1),
    .server (.read (some fun _ => 0) (.data [0x30, 5, 2])),
    .server (.read (some fun _ => 0) (.data [1, 1, 0x4a, 0])),
    .server (.decode none { depth := 0 } true (.wrote 100)),
    .server (.sendMessage true true none deleteDone),
    .server (.write (.wrote 14) none),
    .client (.read 1 .none (fun _ => 0) (some fun _ => 0) (.data deleteDone.berval) 1),
    .client (.decode 1 {} none true 1)]

/-- What the client reports. -/
def exchanged : List Event :=
  [.bindSent 1, .established 1, .queued ⟨512, deleteRoot 1⟩, .flushed 1 ⟨512, deleteRoot 1⟩,
    .sent 1 (deleteRoot 1), .answered 1 (some ⟨0x6b, 1, [0x6b, 7, 0x0a, 1, 0, 4, 0, 4, 0]⟩)]

theorem exchanged_steady : Steady oneAtATime 1 [.opened 0 1] exchanged where
  window := by
    refine along_cons trivial fun k₁ h₁ => along_cons trivial fun k₂ h₂ =>
      along_cons ?_ fun _ _ => along_cons trivial fun _ _ => along_cons trivial fun _ _ =>
      along_cons trivial fun _ _ => along_cons trivial fun _ _ => along_nil _
    -- the bind response finds the connection without a request
    have hroom : (fun k => decide ((k.conns 1).concurrentCount < k.maxConcurrent)) <$>
        run Pool.step oneAtATime.start.pool [.opened 0 1, .bindSent 1] = .ok true := by
      decide +kernel
    rw [run_cons_ok h₁ (run_single h₂)] at hroom
    have hlt : (k₂.conns 1).concurrentCount < k₂.maxConcurrent :=
      of_decide_eq_true (Except.ok.inj hroom)
    exact hlt
  old := show ∀ e ∈ exchanged, e.about = some 1 → e.opens = false by decide
  requests e he ber heq := by
    subst heq
    simp [exchanged] at he

theorem exchange_runs : ∃ dc sys, JustOpened oneAtATime 1 dc [.opened 0 1] ∧
    run (System.step 1 (server 1 [])) (System.start dc 5 {}) exchange = .ok sys ∧
    Regular oneAtATime 1 [.opened 0 1] sys ∧ Behind sys.served := by
  have hend : (do
      let (_, dc, log) ← ldapClntOpen 1 .connected (some 1) true oneAtATime.start
      let sys ← run (System.step 1 (server 1 [])) (System.start dc 5 {}) exchange
      pure (log, sys.log, accepted sys.served, (List.range (sys.served.length + 1)).all fun n =>
        ((accepted (sys.served.take n)).filter fun m => !isEntry m).length ≤
          (deliveries (sys.served.take n)).length)) =
      Except.ok ([.opened 0 1], exchanged, [deleteDone.berval], true) := by decide +kernel
  obtain ⟨⟨out, dc, log⟩, hopen, hend⟩ := bind_eq_ok.1 hend
  obtain ⟨sys, hrun, hend⟩ := bind_eq_ok.1 hend
  simp only [pure_eq_ok, Except.ok.injEq, Prod.mk.injEq] at hend
  obtain ⟨rfl, hlog, haccepted, hbehind⟩ := hend
  refine ⟨dc, sys, ⟨[], [], _, _, _, _, _, _, _, rfl, hopen, rfl⟩, hrun, ⟨?_, ?_, ?_, ?_⟩, ?_⟩
  · rw [hlog]
    exact exchanged_steady
  · intro ber hber
    rw [hlog] at hber
    obtain rfl : ber = ⟨512, deleteRoot 1⟩ := List.mem_singleton.1 hber
    exact ⟨[2, 1, 1, 0x4a, 0], by decide, by decide, rfl⟩
  · intro m hm
    rw [haccepted] at hm
    obtain rfl : m = deleteDone.berval := List.mem_singleton.1 hm
    exact ⟨1, 0x6b, [7, 0x0a, 1, 0, 4, 0, 4, 0], by decide, by decide, by decide +kernel,
      by decide +kernel⟩
  · rw [haccepted]
    decide
  · intro first hfirst
    rw [List.prefix_iff_eq_take.1 hfirst]
    have hle := List.all_eq_true.1 hbehind first.length
      (List.mem_range.2 (Nat.lt_succ_of_le hfirst.length_le))
    exact of_decide_eq_true hle

/-! ## Both ways -/

section Results

variable {s : Setup} {c : Ptr} {past : List Event} {sys sys' : System} {dc : LdapT}
  {served events : List SessEvent}

/-- Whatever both sides are called for in whatever order, and however the bytes arrive: a server
that allows as many requests at a time as the client does refuses none of them, and its session
counts no more of them than the client does, which are at most as many as were allowed. -/
theorem requests_never_refused (s : Setup) (c : Ptr) (dc : LdapT) (past : List Event) (ds : DsT)
    (sock : Int) (user : DsUser) (moves : List Move) (sys : System)
    (one : 1 ≤ s.start.maxConcurrent) (int : s.start.maxConcurrent < 2 ^ 31)
    (allows : s.start.maxConcurrent ≤ ds.maxConcurrent) (opened : JustOpened s c dc past)
    (h : run (System.step c ds) (System.start dc sock user) moves = .ok sys)
    (regular : Regular s c past sys) :
    sys.served.filterMap SessEvent.refusal = [] ∧
      sys.sess.concurrentCount ≤ (sys.dc.clients c).concurrentCount ∧
      (sys.dc.clients c).concurrentCount ≤ s.start.maxConcurrent := by
  have inv := conversing_of_run opened one int allows h regular
  obtain ⟨waiting, cut, streaming⟩ := inv.stream
  have hwindow := (stateWindows_of_run one int regular.client.window inv.ran).windows c
  exact ⟨streaming.refusals, inv.outstanding_le regular opened one int, hwindow.high⟩

/-- One request at a time is allowed, and one is sent. -/
theorem requests_never_refused_one : ∃ dc sys,
    run (System.step 1 (server 1 [])) (System.start dc 5 {}) exchange = .ok sys ∧
      sys.served.filterMap SessEvent.refusal = [] := by
  obtain ⟨dc, sys, opened, hrun, regular, -⟩ := exchange_runs
  exact ⟨dc, sys, hrun, (requests_never_refused oneAtATime 1 dc _ (server 1 []) 5 {} exchange sys
    (by decide) (by decide) (by decide) opened hrun regular).1⟩

/-- A response that is not expected does not come from a session that is behind. -/
theorem Conversing.expected (inv : Conversing s c past sys) (inv' : Conversing s c past sys')
    (opened : JustOpened s c dc past) (one : 1 ≤ s.start.maxConcurrent)
    (int : s.start.maxConcurrent < 2 ^ 31) (regular : Regular s c past sys')
    (behind : Behind sys'.served) {log : List Event} (hlog : sys'.log = sys.log ++ log)
    (hserved : sys'.served = sys.served) (resp : Response) : Event.unexpected c resp ∉ log := by
  intro hmem
  obtain ⟨before, after, rfl⟩ := List.append_of_mem hmem
  have hsplit : sys'.log = (sys.log ++ before) ++ ([.unexpected c resp] ++ after) := by
    rw [hlog, List.append_assoc]
    rfl
  have steady := regular.client
  rw [hsplit] at steady
  have old := steady.old.right
  -- at that event the connection has no request without a response
  have ran := inv'.ran
  rw [hsplit, ← List.append_assoc] at ran
  obtain ⟨k, hbefore, hrest⟩ := run_append ran
  obtain ⟨k', hstep, -⟩ := run_cons hrest
  have hnone : ¬ 0 < (k.conns c).concurrentCount := (step_spec hstep).enabled
  have hwaiting := steady.left.waiting opened one int hbefore
  -- and yet it has had fewer of them than it sent requests
  have hfinals := inv'.finals_le
  rw [hsplit, finals_append old, finals_append old.right] at hfinals
  have hone : finals c [.unexpected c resp] = [resp] := by
    simp [finals, sinceOpened, Event.about, Event.opens, Event.final]
  rw [hone] at hfinals
  simp only [List.length_append, List.length_singleton] at hfinals
  have hbehind := behind _ (List.prefix_refl _)
  rw [hserved] at hbehind hfinals
  have hdelivered := inv.delivered_le
  have hcopies : copies c (sys.log ++ before) = copies c sys.log ++ copies c before :=
    copies_append steady.left.old.right
  rw [hcopies, List.length_append] at hwaiting
  omega

theorem Behind.left (h : Behind (served ++ events)) : Behind served :=
  fun first hfirst => h first (hfirst.trans (List.prefix_append _ _))

/-- Neither does the client receive a response that it does not wait for, as long as the
application of the server is behind its requests. -/
theorem responses_never_unexpected (s : Setup) (c : Ptr) (dc : LdapT) (past : List Event)
    (ds : DsT) (sock : Int) (user : DsUser) (moves : List Move) (sys : System)
    (one : 1 ≤ s.start.maxConcurrent) (int : s.start.maxConcurrent < 2 ^ 31)
    (allows : s.start.maxConcurrent ≤ ds.maxConcurrent) (opened : JustOpened s c dc past)
    (h : run (System.step c ds) (System.start dc sock user) moves = .ok sys)
    (regular : Regular s c past sys) (behind : Behind sys.served) :
    ∀ resp, Event.unexpected c resp ∉ sys.log := by
  refine (run_invariant (I := fun _ sys => Regular s c past sys → Behind sys.served →
      Conversing s c past sys ∧ ∀ resp, Event.unexpected c resp ∉ sys.log)
    (fun _ _ => ⟨.start opened sock user, fun _ => List.not_mem_nil⟩) ?_
    (show Along _ (fun _ _ _ => True) _ moves from fun _ _ _ _ _ _ => trivial) h
    regular behind).2
  intro _ sys move sys' hold _ hstep regular behind
  cases move with
  | client call =>
    obtain ⟨⟨log, hlog⟩, hserved⟩ := step_client hstep
    obtain ⟨inv, hnone⟩ := hold (regular.before hstep) (hserved ▸ behind)
    have inv' := inv.client hstep regular
    refine ⟨inv', fun resp hmem => ?_⟩
    rw [hlog, List.mem_append] at hmem
    exact hmem.elim (hnone resp)
      (inv.expected inv' opened one int regular behind hlog hserved resp)
  | server call =>
    obtain ⟨hlog, events, hserved⟩ := step_server hstep
    rw [hserved] at behind
    obtain ⟨inv, hnone⟩ := hold (regular.before hstep) behind.left
    refine ⟨inv.server opened one int allows hstep regular, ?_⟩
    rw [hlog]
    exact hnone

/-- The response is one that the client waits for. -/
theorem responses_never_unexpected_one : ∃ dc sys,
    run (System.step 1 (server 1 [])) (System.start dc 5 {}) exchange = .ok sys ∧
      ∀ resp, Event.unexpected 1 resp ∉ sys.log := by
  obtain ⟨dc, sys, opened, hrun, regular, behind⟩ := exchange_runs
  exact ⟨dc, sys, hrun, responses_never_unexpected oneAtATime 1 dc _ (server 1 []) 5 {} exchange sys
    (by decide) (by decide) (by decide) opened hrun regular behind⟩

end Results

end CassandraApi.Ldap
