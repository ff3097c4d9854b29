/-
# `Ldap.FailedSend` — who owns a BER that could not be sent

LDAP_clnt_send_message and LDAP_sess_send_message store a BER in a write buffer and
free it, or put it into send_msg_queue, and go on: the callback is called, and the
client flushes its queue.  An error code for what comes behind is the same as one
for the BER itself, so the caller of a call that failed cannot know whether the BER
is still his (`failed_send_iff`).
-/
import CassandraApi.Ldap.Outbound

namespace CassandraApi.Ldap

open C Ber Lib

/-! ## The client -/

/-- Nothing has happened: the BER was neither stored nor freed, and queues, counters and write
buffers are as before. -/
structure Untouched (dc dc' : LdapT) (log : List Event) : Prop where
  ber : log = []
  queues : dc'.toQueues = dc.toQueues
  waiting : dc'.sendMsgQueue = dc.sendMsgQueue
  queueCount : dc'.queueCount = dc.queueCount
  clients : ∀ c, (dc'.clients c).wBuffer = (dc.clients c).wBuffer ∧
    (dc'.clients c).concurrentCount = (dc.clients c).concurrentCount

/-- A BER that LDAP_clnt_send_message returns an error code for stays with the caller. -/
def ClntKeeps (now : Int) (clock : Timeval) (env : SendEnv) (lc : Option Ptr) (ber : BER)
    (dc : LdapT) : Prop :=
  ∀ out dc' log, ldapClntSendMessage now clock env lc (some ber) dc = .ok (out, dc', log) →
    out.code ≠ .ok → Untouched dc dc' log

/-- There is no write buffer, or it is too small and `realloc` does not make it larger. -/
def LdapClnt.LacksRoom (alloc : Bool) (ber : BER) (lc : LdapClnt) : Prop :=
  match lc.wBuffer with
  | none => True
  | some buf =>
      let len := buf.length + ber.berval.length
      len < 2 ^ 31 ∧ lc.wSize < len ∧ ¬ (alloc = true ∧ adjustSize len ldapWriteBuffer < 2 ^ 31)

/-- One turn of the loop that flushes send_msg_queue, up to the callback; `none` when there is no
room. -/
def LdapT.flushTurn (now : Int) (clock : Timeval) (alloc : Bool) (ber : BER) (bers : List BER)
    (c : Ptr) (dc : LdapT) : Except Fault (Option LdapT) := do
  let lc ← dc.clnt c
  match ← lc.copyBer now alloc ber with
  | none => pure none
  | some lc => do
      let dc ← dc.rotate c { lc with
        timestampWrite := clock, concurrentCount := int32 (lc.concurrentCount + 1) }
      pure (some { dc with sendMsgQueue := bers, queueCount := dc.queueCount - 1 })

/-- No turn of the loop lacks room, and the callback refuses none. -/
def FlushesAll (now : Int) (clock : Timeval) (env : SendEnv) : Nat → List BER → LdapT → Prop
  | _, [], _ => True
  | k, ber :: bers, dc => ∀ c, dc.readyQueue = some c →
      (∀ lc, dc.clnt c = .ok lc → ¬ lc.LacksRoom (env.alloc k) ber) ∧
      ∀ dc', dc.flushTurn now clock (env.alloc k) ber bers c = .ok (some dc') →
        env.refused k = false ∧ FlushesAll now clock env (k + 1) bers dc'

/-- The client once the BER is stored, in the buffer of the connection that was named or in
send_msg_queue. -/
def LdapT.stored (now : Int) (env : SendEnv) (lc : Option Ptr) (ber : BER) (dc : LdapT) :
    Except Fault (Option LdapT) :=
  match lc with
  | some c => do
      let lc ← dc.clnt c
      match ← lc.copyBer now (env.alloc 0) ber with
      | none => pure none
      | some lc =>
          pure (some (dc.put c { lc with concurrentCount := int32 (lc.concurrentCount + 1) }))
  | none => pure (some { dc with
      sendMsgQueue := dc.sendMsgQueue ++ [ber], queueCount := dc.queueCount + 1 })

/-- What has happened then. -/
def storedEvent (lc : Option Ptr) (ber : BER) : Event :=
  match lc with
  | some c => .direct c ber
  | none => .queued ber

/-- Once the BER is stored nothing fails any more. -/
def ClntSafe (now : Int) (clock : Timeval) (env : SendEnv) (lc : Option Ptr) (ber : BER)
    (dc : LdapT) : Prop :=
  ∀ dc₁, dc.stored now env lc ber = .ok (some dc₁) →
    (lc.isSome = true → env.refused 0 = false) ∧
      FlushesAll now clock env 1 dc₁.sendMsgQueue dc₁

section

variable {now : Int} {clock : Timeval} {env : SendEnv} {ber : BER} {dc : LdapT}

variable (now) in
theorem lacksRoom_iff {alloc : Bool} {lc : LdapClnt} :
    lc.LacksRoom alloc ber ↔ lc.copyBer now alloc ber = .ok none := by
  cases hbuf : lc.wBuffer with
  | none => simp only [LdapClnt.LacksRoom, LdapClnt.copyBer, hbuf]
  | some buf =>
    simp only [LdapClnt.LacksRoom, LdapClnt.copyBer, hbuf]
    by_cases hint : buf.length + ber.berval.length ≥ 2 ^ 31
    · rw [if_pos hint]
      exact ⟨fun h => absurd h.1 (not_lt.2 hint), fun h => (nomatch h)⟩
    · rw [if_neg hint]
      by_cases hlarge : buf.length + ber.berval.length > lc.wSize
      · rw [if_pos hlarge]
        split
        · rename_i hmem
          exact ⟨fun h => absurd hmem h.2.2, fun h => (nomatch h)⟩
        · rename_i hmem
          exact ⟨fun _ => rfl, fun _ => ⟨not_le.1 hint, hlarge, hmem⟩⟩
      · rw [if_neg hlarge]
        exact ⟨fun h => absurd h.2.1 hlarge, fun h => (nomatch h)⟩

/-- A turn stores nothing exactly when there is no room. -/
theorem flushTurn_none_iff {alloc : Bool} {bers : List BER} {c : Ptr} :
    dc.flushTurn now clock alloc ber bers c = .ok none ↔
      ∃ lc, dc.clnt c = .ok lc ∧ lc.LacksRoom alloc ber := by
  simp only [LdapT.flushTurn, bind_eq_ok, lacksRoom_iff now]
  refine exists_congr fun lc => and_congr_right fun _ => ⟨?_, fun h => ⟨none, h, rfl⟩⟩
  rintro ⟨copied, hcopy, h⟩
  cases copied with
  | none => exact hcopy
  | some lc' =>
    obtain ⟨dc', -, h⟩ := bind_eq_ok.1 h
    cases h

theorem flushQueue_cons {k : Nat} {bers : List BER} {c : Ptr} (hready : dc.readyQueue = some c) :
    flushQueue now clock env k (ber :: bers) dc = (do
      match ← dc.flushTurn now clock (env.alloc k) ber bers c with
      | none => pure (⟨.errMemory, some "memory error"⟩, dc, [])
      | some dc =>
          if env.refused k then pure (⟨.errSend, none⟩, dc, [.flushed c ber])
          else do
            let (out, dc, log) ← flushQueue now clock env (k + 1) bers dc
            pure (out, dc, .flushed c ber :: log)) := by
  rw [flushQueue, hready]
  simp only [LdapT.flushTurn, bind_assoc]
  refine bind_congr fun lc => bind_congr fun copied => ?_
  cases copied with
  | none => rfl
  | some lc' =>
    simp only [bind_assoc]
    rfl

/-- The loop comes to no error exactly when no turn does. -/
theorem flushes_iff {k : Nat} {bers : List BER} :
    (∀ out dc' log, flushQueue now clock env k bers dc = .ok (out, dc', log) → out.code = .ok) ↔
      FlushesAll now clock env k bers dc := by
  induction bers generalizing k dc with
  | nil =>
    refine ⟨fun _ => trivial, fun _ out dc' log h => ?_⟩
    cases h
    rfl
  | cons ber bers ih =>
    rw [FlushesAll]
    cases hready : dc.readyQueue with
    | none =>
      refine ⟨fun _ c hc => (nomatch hc), fun _ out dc' log h => ?_⟩
      rw [flushQueue, hready] at h
      cases h
      rfl
    | some c =>
      simp only [Option.some.injEq, forall_eq']
      rw [flushQueue_cons hready]
      have hroom : (∀ lc, dc.clnt c = .ok lc → ¬ lc.LacksRoom (env.alloc k) ber) ↔
          dc.flushTurn now clock (env.alloc k) ber bers c ≠ .ok none := by
        rw [Ne, flushTurn_none_iff, not_exists]
        exact forall_congr' fun lc => not_and.symm
      rw [hroom]
      cases hturn : dc.flushTurn now clock (env.alloc k) ber bers c with
      | error e => simp
      | ok turn =>
        cases turn with
        | none => simp
        | some dc₁ =>
          cases hrefused : env.refused k with
          | true => simp
          | false =>
            simp only [ne_eq, Except.ok.injEq, reduceCtorEq, not_false_eq_true, true_and,
              Option.some.injEq, forall_eq', ← ih, ok_bind, Bool.false_eq_true, if_false]
            refine ⟨fun h out dc' log hrest => ?_, fun h out dc' log hrun => ?_⟩
            · rw [hrest] at h
              exact h out dc' _ rfl
            · obtain ⟨⟨out₁, dc₂, rest⟩, hrest, heq⟩ := bind_eq_ok.1 hrun
              cases heq
              exact h _ dc₂ rest hrest

/-- The call: the BER is stored, the callback is asked about the connection that was named, and
the queue is flushed. -/
theorem ldapClntSendMessage_eq {lc : Option Ptr} :
    ldapClntSendMessage now clock env lc (some ber) dc = (do
      match ← dc.stored now env lc ber with
      | none => pure (⟨.errMemory, some "memory error"⟩, dc, [])
      | some dc =>
          if lc.isSome ∧ env.refused 0 then pure (⟨.errSend, none⟩, dc, [storedEvent lc ber])
          else do
            let (out, dc, log) ← flushQueue now clock env 1 dc.sendMsgQueue dc
            pure (out, dc, storedEvent lc ber :: log)) := by
  cases lc with
  | none => rfl
  | some c =>
    simp only [ldapClntSendMessage, sendDirect, LdapT.stored, bind_assoc]
    refine bind_congr fun lc => bind_congr fun copied => ?_
    cases copied with
    | none => rfl
    | some lc' =>
      cases hrefused : env.refused 0 with
      | true => rfl
      | false => simp [storedEvent]

/-- A call that fails has stored the BER or has done nothing. -/
theorem clntKeeps_iff {lc : Option Ptr} :
    ClntKeeps now clock env lc ber dc ↔ ClntSafe now clock env lc ber dc := by
  rw [ClntKeeps, ClntSafe, ldapClntSendMessage_eq]
  cases hstored : dc.stored now env lc ber with
  | error e => simp
  | ok stored =>
    cases stored with
    | none =>
      refine ⟨fun _ dc₁ h => (nomatch h), fun _ out dc' log h _ => ?_⟩
      cases h
      exact ⟨rfl, rfl, rfl, rfl, fun c => ⟨rfl, rfl⟩⟩
    | some dc₁ =>
      simp only [Except.ok.injEq, Option.some.injEq, forall_eq', ← flushes_iff, ok_bind]
      by_cases hrefused : lc.isSome = true ∧ env.refused 0 = true
      · simp only [if_pos hrefused]
        refine ⟨fun keeps => ?_, fun safe => ?_⟩
        · cases (keeps _ dc₁ [storedEvent lc ber] rfl (by decide)).ber
        · exact absurd (safe.1 hrefused.1) (Bool.not_eq_false _ ▸ hrefused.2)
      · simp only [if_neg hrefused]
        refine ⟨fun keeps => ⟨fun hlc => ?_, fun out dc' log hflush => ?_⟩,
          fun safe out dc' log hcall hcode => ?_⟩
        · exact Bool.eq_false_iff.2 fun h => hrefused ⟨hlc, h⟩
        · by_contra hcode
          rw [hflush] at keeps
          cases (keeps out dc' (storedEvent lc ber :: log) rfl hcode).ber
        · obtain ⟨⟨out₁, dc₂, rest⟩, hrest, heq⟩ := bind_eq_ok.1 hcall
          cases heq
          exact absurd (safe.2 _ dc₂ rest hrest) hcode

end

/-! ## The server -/

/-- Nothing has happened: the BER was neither stored nor freed, and the counter and what the write
buffer holds are as before. -/
structure DsSession.Untouched (sess sess' : DsSession) (log : List SessEvent) : Prop where
  ber : log = []
  buffer : sess'.wBuffer.getD [] = sess.wBuffer.getD []
  sent : sess'.wCurr = sess.wCurr
  count : sess'.concurrentCount = sess.concurrentCount

/-- A BER that LDAP_sess_send_message returns an error code for stays with the caller. -/
def SessKeeps (malloc realloc : Bool) (callback : Option Int) (ber : BER) (sess : DsSession) :
    Prop :=
  ∀ out sess' log, ldapSessSendMessage malloc realloc callback ber sess = .ok (out, sess', log) →
    out.code ≠ some .ok → sess.Untouched sess' log

/-- When the BER is stored, the callback does not refuse it. -/
def SessSafe (malloc realloc : Bool) (callback : Option Int) (ber : BER) (sess : DsSession) :
    Prop :=
  sess.HasRoom malloc realloc ber →
    (sess.wBuffer.getD []).length + ber.berval.length < 2 ^ 31 → callback.getD 0 = 0

section

variable {malloc realloc : Bool} {callback : Option Int} {ber : BER} {sess : DsSession}

/-- With room for the BER only the callback can fail, and the BER is stored by then. -/
theorem ldapSessSendMessage_stores (callback : Option Int)
    (room : sess.HasRoom malloc realloc ber)
    (hint : (sess.wBuffer.getD []).length + ber.berval.length < 2 ^ 31) :
    ∃ out sess', ldapSessSendMessage malloc realloc callback ber sess =
      .ok (out, sess', [.queued ber]) ∧ (out.code = some .ok ↔ callback.getD 0 = 0) := by
  obtain ⟨buf, wSize, hbuf, hfits⟩ := room
  rw [← firstBuffer_eq_some hbuf] at hint
  rw [ldapSessSendMessage, hbuf]
  simp only [if_neg (not_le.2 hint)]
  by_cases hcallback : callback.getD 0 = 0
  · simp only [hcallback, ne_eq, not_true_eq_false, if_false]
    split
    · rename_i hlarge
      rw [if_pos (hfits.resolve_left (not_le.2 hlarge))]
      exact ⟨_, _, rfl, by simp⟩
    · exact ⟨_, _, rfl, by simp⟩
  · simp only [hcallback, ne_eq, not_false_eq_true, if_true]
    split
    · rename_i hlarge
      rw [if_pos (hfits.resolve_left (not_le.2 hlarge))]
      exact ⟨_, _, rfl, by simp⟩
    · exact ⟨_, _, rfl, by simp⟩

/-- Without it the call fails and leaves everything as it was. -/
theorem ldapSessSendMessage_lacks (lacks : ¬ (sess.HasRoom malloc realloc ber ∧
    (sess.wBuffer.getD []).length + ber.berval.length < 2 ^ 31)) {out : ServOutcome}
    {sess' : DsSession} {log : List SessEvent}
    (h : ldapSessSendMessage malloc realloc callback ber sess = .ok (out, sess', log)) :
    sess.Untouched sess' log := by
  rw [ldapSessSendMessage] at h
  split at h
  · cases h
    exact ⟨rfl, rfl, rfl, rfl⟩
  · rename_i buf wSize hbuf
    have heq := firstBuffer_eq_some hbuf
    simp only at h
    split at h
    · cases h
    · rename_i hint
      rw [heq, ge_iff_le, not_le] at hint
      split at h
      · split at h
        · rename_i hmem
          exact absurd ⟨⟨buf, wSize, hbuf, .inr hmem⟩, hint⟩ lacks
        · cases h
          exact ⟨rfl, heq, rfl, rfl⟩
      · rename_i hsmall
        exact absurd ⟨⟨buf, wSize, hbuf, .inl (not_lt.1 hsmall)⟩, hint⟩ lacks

theorem sessKeeps_iff :
    SessKeeps malloc realloc callback ber sess ↔ SessSafe malloc realloc callback ber sess := by
  constructor
  · intro keeps room hint
    obtain ⟨out, sess', hcall, hcode⟩ := ldapSessSendMessage_stores callback room hint
    by_contra hcallback
    cases (keeps out sess' _ hcall (mt hcode.1 hcallback)).ber
  · intro safe out sess' log hcall hcode
    by_cases hroom : sess.HasRoom malloc realloc ber ∧
      (sess.wBuffer.getD []).length + ber.berval.length < 2 ^ 31
    · obtain ⟨out₁, sess₁, hstored, hok⟩ :=
        ldapSessSendMessage_stores callback hroom.1 hroom.2
      rw [hstored] at hcall
      cases hcall
      exact absurd (hok.2 (safe hroom.1 hroom.2)) hcode
    · exact ldapSessSendMessage_lacks hroom hcall

end

/-! ## Runs -/

/-- A call in a run of the client. -/
def Call.step (dc : LdapT) (call : Call) : Except Fault LdapT :=
  (fun r => r.2.1) <$> call.perform dc

/-- When the call is a send that fails, its BER stays with the caller. -/
def Call.KeepsBer (dc : LdapT) : Call → Prop
  | .sendMessage now clock env lc (some ber) => ClntKeeps now clock env lc ber dc
  | _ => True

/-- When the call is a send, nothing fails once the BER is stored. -/
def Call.SafeSend (dc : LdapT) : Call → Prop
  | .sendMessage now clock env lc (some ber) => ClntSafe now clock env lc ber dc
  | _ => True

def SessCall.KeepsBer (sess : DsSession) : SessCall → Prop
  | .sendMessage malloc realloc callback ber => SessKeeps malloc realloc callback ber sess
  | _ => True

def SessCall.SafeSend (sess : DsSession) : SessCall → Prop
  | .sendMessage malloc realloc callback ber => SessSafe malloc realloc callback ber sess
  | _ => True

theorem Call.keepsBer_iff {dc : LdapT} {call : Call} : call.KeepsBer dc ↔ call.SafeSend dc := by
  cases call with
  | sendMessage now clock env lc ber =>
    cases ber with
    | none => exact Iff.rfl
    | some ber => exact clntKeeps_iff
  | _ => exact Iff.rfl

theorem SessCall.keepsBer_iff {sess : DsSession} {call : SessCall} :
    call.KeepsBer sess ↔ call.SafeSend sess := by
  cases call with
  | sendMessage => exact sessKeeps_iff
  | _ => exact Iff.rfl

/-- In a run, every BER that a call failed for is still the caller's exactly when no call fails
behind the point where its BER is stored. -/
theorem failed_send_iff (s : Setup) (calls : List Call) (ds : DsT) (sess : DsSession)
    (sessCalls : List SessCall) :
    (Along Call.step (fun _ => Call.KeepsBer) s.start calls ↔
      Along Call.step (fun _ => Call.SafeSend) s.start calls) ∧
    (Along (SessCall.step ds) (fun _ st => SessCall.KeepsBer st.1) (sess, []) sessCalls ↔
      Along (SessCall.step ds) (fun _ st => SessCall.SafeSend st.1) (sess, []) sessCalls) :=
  ⟨⟨fun h => h.mono fun _ _ _ => Call.keepsBer_iff.1,
      fun h => h.mono fun _ _ _ => Call.keepsBer_iff.2⟩,
    ⟨fun h => h.mono fun _ _ _ => SessCall.keepsBer_iff.1,
      fun h => h.mono fun _ _ _ => SessCall.keepsBer_iff.2⟩⟩

/-- The callback refuses a bound session whose first message is in the write buffer already. -/
theorem refused_is_stored :
    ¬ Along (SessCall.step (server 1 [])) (fun _ st => SessCall.KeepsBer st.1)
      (boundSession 5 {}, []) [.sendMessage true true (some 1) deleteDone] := by
  intro keeps
  have room : (boundSession 5 {}).HasRoom true true deleteDone :=
    ⟨[], ldapWriteBuffer, rfl, .inl (by decide)⟩
  obtain ⟨out, sess', hcall, hcode⟩ := ldapSessSendMessage_stores (some 1) room (by decide)
  cases (keeps [] _ [] _ rfl rfl out sess' _ hcall (mt hcode.1 (by decide))).ber

end CassandraApi.Ldap
