/-
# `Ldap.Outbound` — the stream of bytes that a session sends

Two writers share a socket.  LDAP_sess_write sends what LDAP_sess_send_message
has put into `w_buffer`, as far as the socket takes it; ldap_send_generic_resp
sends the response to a request that is refused at once, and does not look
whether the socket took all of it.

So the stream consists of whole messages as long as a refusal meets no message
that is half written and the socket takes the whole response.
-/
import CassandraApi.Ldap.Outstanding

namespace CassandraApi.Ldap

open C Ber Lib

/-! ## What a run has done -/

/-- The bytes that `send` took. -/
def SessEvent.wire : SessEvent → List UInt8
  | .sent bytes => bytes
  | .refused _ _ taken => taken
  | _ => []

/-- The BERs that LDAP_sess_send_message accepted. -/
def SessEvent.accepted : SessEvent → Option (List UInt8)
  | .queued ber => some ber.berval
  | _ => none

/-- The responses to refused requests. -/
def SessEvent.refusal : SessEvent → Option (List UInt8)
  | .refused _ response _ => some response
  | _ => none

/-- The bytes that LDAP_sess_write handed over. -/
def SessEvent.written : SessEvent → List UInt8
  | .sent bytes => bytes
  | _ => []

/-- A message in the stream. -/
inductive Item where
  | message (bytes : List UInt8)
  | refusal (bytes : List UInt8)

namespace Item

def bytes : Item → List UInt8
  | .message bs => bs
  | .refusal bs => bs

def isMessage : Item → Option (List UInt8)
  | .message bs => some bs
  | .refusal _ => none

def isRefusal : Item → Option (List UInt8)
  | .message _ => none
  | .refusal bs => some bs

end Item

/-- What was sent and what is still to be sent are whole messages: every accepted BER and every
response to a refused request, once and in order. -/
def WholeMessages (st : DsSession × List SessEvent) : Prop :=
  ∃ items : List Item,
    st.2.flatMap SessEvent.wire ++ st.1.pending = items.flatMap Item.bytes ∧
    items.filterMap Item.isMessage = st.2.filterMap SessEvent.accepted ∧
    items.filterMap Item.isRefusal = st.2.filterMap SessEvent.refusal

/-- No message is half written: LDAP_sess_write has handed over the first so many BERs. -/
def BetweenMessages (log : List SessEvent) : Prop :=
  ∃ k, log.flatMap SessEvent.written = ((log.filterMap SessEvent.accepted).take k).flatten

/-- When a call of LDAP_sess_decode is going to refuse a request, no message is half written and
the socket takes the whole response. -/
def RefusesCleanly (ds : DsT) (st : DsSession × List SessEvent) : SessCall → Prop
  | .decode grow env alloc send => ds.maxConcurrent ≤ st.1.concurrentCount →
      ∀ out rdata msg rb ber, (sessDecoder (ldapDecodeRequest env)).decode grow st.1.rdata st.1.rb =
        .ok (out, rdata ++ [msg], rb) → out.code = .dataAvailable →
      genericResp alloc 0 msg = .ok (some ber) →
      send.taken ber.berval = ber.berval ∧ BetweenMessages st.2
  | _ => True

/-! ## One call -/

/-- The stream while a message may be half written: `placed` and a first part `cut` of `waiting`
were sent. -/
structure Streaming (sess : DsSession) (log : List SessEvent) (placed : List Item)
    (waiting : List (List UInt8)) (cut : List UInt8) : Prop where
  ready : sess.state = .stateReady
  fits : sess.Fits
  wire : log.flatMap SessEvent.wire = placed.flatMap Item.bytes ++ cut
  pending : waiting.flatten = cut ++ sess.pending
  accepted : log.filterMap SessEvent.accepted = placed.filterMap Item.isMessage ++ waiting
  refusals : log.filterMap SessEvent.refusal = placed.filterMap Item.isRefusal
  written : log.flatMap SessEvent.written = (placed.filterMap Item.isMessage).flatten ++ cut

section Step

variable {ds : DsT} {sess sess' : DsSession} {log : List SessEvent} {placed : List Item}
  {waiting : List (List UInt8)} {cut : List UInt8}

theorem flatMap_bytes_messages (waiting : List (List UInt8)) :
    (waiting.map Item.message).flatMap Item.bytes = waiting.flatten := by
  rw [List.flatMap_map]
  exact List.flatMap_id

theorem isMessage_messages (waiting : List (List UInt8)) :
    (waiting.map Item.message).filterMap Item.isMessage = waiting := by
  rw [List.filterMap_map]
  exact List.filterMap_some

theorem isRefusal_messages (waiting : List (List UInt8)) :
    (waiting.map Item.message).filterMap Item.isRefusal = [] := by
  rw [List.filterMap_map]
  exact List.filterMap_eq_nil_iff.2 fun _ _ => rfl

theorem Streaming.wholeMessages (inv : Streaming sess log placed waiting cut) :
    WholeMessages (sess, log) := by
  refine ⟨placed ++ waiting.map .message, ?_, ?_, ?_⟩
  · rw [inv.wire, List.append_assoc, ← inv.pending, List.flatMap_append, flatMap_bytes_messages]
  · rw [inv.accepted, List.filterMap_append, isMessage_messages]
  · rw [inv.refusals, List.filterMap_append, isRefusal_messages, List.append_nil]

/-- A call that sends nothing and accepts nothing. -/
theorem Streaming.same (inv : Streaming sess log placed waiting cut) (sess' : DsSession)
    (events : List SessEvent) (hstate : sess'.state = sess.state) (hfits : sess'.Fits)
    (hpending : sess'.pending = sess.pending) (hevents : events.flatMap SessEvent.wire = [] ∧
      events.filterMap SessEvent.accepted = [] ∧ events.filterMap SessEvent.refusal = [] ∧
      events.flatMap SessEvent.written = []) :
    Streaming sess' (log ++ events) placed waiting cut := by
  obtain ⟨hwire, haccepted, hrefusal, hwritten⟩ := hevents
  refine ⟨hstate.trans inv.ready, hfits, ?_, ?_, ?_, ?_, ?_⟩
  · rw [List.flatMap_append, hwire, List.append_nil, inv.wire]
  · rw [hpending, inv.pending]
  · rw [List.filterMap_append, haccepted, List.append_nil, inv.accepted]
  · rw [List.filterMap_append, hrefusal, List.append_nil, inv.refusals]
  · rw [List.flatMap_append, hwritten, List.append_nil, inv.written]

/-- A write moves bytes from what is pending to what was sent. -/
theorem Streaming.sent {bytes : List UInt8} (inv : Streaming sess log placed waiting cut)
    (w : Wrote sess sess' bytes) :
    Streaming sess' (log ++ [.sent bytes]) placed waiting (cut ++ bytes) where
  ready := w.state.trans inv.ready
  fits := w.fits inv.fits
  wire := by simp [inv.wire, SessEvent.wire]
  pending := by rw [inv.pending, w.pending, List.append_assoc]
  accepted := by simp [inv.accepted, SessEvent.accepted]
  refusals := by simp [inv.refusals, SessEvent.refusal]
  written := by simp [inv.written, SessEvent.written]

/-- A BER that is accepted waits behind the others. -/
theorem Streaming.queued {ber : BER} (inv : Streaming sess log placed waiting cut)
    (q : Queued sess sess' ber) :
    Streaming sess' (log ++ [.queued ber]) placed (waiting ++ [ber.berval]) cut where
  ready := q.state.trans inv.ready
  fits := q.fits inv.fits
  wire := by simp [inv.wire, SessEvent.wire]
  pending := by rw [List.flatten_concat, inv.pending, q.pending inv.fits, List.append_assoc]
  accepted := by simp [inv.accepted, SessEvent.accepted]
  refusals := by simp [inv.refusals, SessEvent.refusal]
  written := by simp [inv.written, SessEvent.written]

/-- Between messages, what was cut off `waiting` are whole messages. -/
theorem Streaming.cut_whole (inv : Streaming sess log placed waiting cut)
    (between : BetweenMessages log) : ∃ first rest, waiting = first ++ rest ∧ cut = first.flatten := by
  obtain ⟨k, hk⟩ := between
  rw [inv.written, inv.accepted, List.take_append, List.flatten_append] at hk
  by_cases hle : (placed.filterMap Item.isMessage).length ≤ k
  · rw [List.take_of_length_le hle] at hk
    exact ⟨_, _, (List.take_append_drop _ waiting).symm, List.append_cancel_left hk⟩
  · refine ⟨[], waiting, rfl, ?_⟩
    have hzero : k - (placed.filterMap Item.isMessage).length = 0 := by omega
    rw [hzero, List.take_zero, List.flatten_nil, List.append_nil] at hk
    have hsplit := congrArg List.length
      (congrArg List.flatten (List.take_append_drop k (placed.filterMap Item.isMessage)))
    have hlen := congrArg List.length hk
    rw [List.flatten_append, List.length_append] at hsplit
    rw [List.length_append] at hlen
    rw [List.flatten_nil]
    exact List.length_eq_zero_iff.1 (by omega)

/-- A refusal between messages is one more of them. -/
theorem Streaming.refused {msg : LdapMessage} {response : List UInt8}
    (inv : Streaming sess log placed waiting cut) (sess' : DsSession) (between : BetweenMessages log)
    (hstate : sess'.state = sess.state) (hfits : sess'.Fits)
    (hpending : sess'.pending = sess.pending) :
    ∃ placed waiting,
      Streaming sess' (log ++ [.refused msg response response]) placed waiting [] := by
  obtain ⟨first, rest, rfl, rfl⟩ := inv.cut_whole between
  refine ⟨placed ++ first.map .message ++ [.refusal response], rest,
    hstate.trans inv.ready, hfits, ?_, ?_, ?_, ?_, ?_⟩
  · simp [inv.wire, SessEvent.wire, flatMap_bytes_messages, Item.bytes]
  · have hrest := inv.pending
    rw [List.flatten_append] at hrest
    rw [List.nil_append, hpending]
    exact List.append_cancel_left hrest
  · have haccepted : [SessEvent.refused msg response response].filterMap SessEvent.accepted = [] :=
      rfl
    have hmessage : [Item.refusal response].filterMap Item.isMessage = [] := rfl
    simp only [List.filterMap_append, inv.accepted, isMessage_messages, haccepted, hmessage,
      List.append_nil, List.append_assoc]
  · simp only [List.filterMap_append, inv.refusals, isRefusal_messages, List.append_nil]
    rfl
  · simp only [List.flatMap_append, inv.written, List.filterMap_append, isMessage_messages,
      List.flatten_append, List.append_assoc]
    simp [SessEvent.written, Item.isMessage]

/-- A call refuses nothing, or is one of LDAP_sess_decode that finds the counter at the limit. -/
theorem refusal_cases {call : SessCall} {out : ServOutcome} {events : List SessEvent}
    (h : call.perform ds sess = .ok (out, sess', events)) :
    events.filterMap SessEvent.refusal = [] ∨
    ∃ grow env alloc send rb msg ber o, call = .decode grow env alloc send ∧
      ds.maxConcurrent ≤ sess.concurrentCount ∧
      (sessDecoder (ldapDecodeRequest env)).decode grow sess.rdata sess.rb =
        .ok (o, sess.rdata ++ [msg], rb) ∧ o.code = .dataAvailable ∧
      genericResp alloc 0 msg = .ok (some ber) ∧ sess' = { sess with rb := rb } ∧
      events = [.refused msg ber.berval (send.taken ber.berval)] := by
  cases call with
  | read alloc recv =>
    obtain ⟨_, -, heq⟩ := bind_eq_ok.1 h
    cases heq
    exact .inl rfl
  | write send callback =>
    obtain ⟨rfl, -⟩ | ⟨bytes, rfl, -⟩ := ldapSessWrite_cases h <;> exact .inl rfl
  | sendMessage malloc realloc callback ber =>
    obtain ⟨rfl, -⟩ | ⟨rfl, -, -⟩ := ldapSessSendMessage_cases h <;> exact .inl rfl
  | decode grow env alloc send =>
    obtain ⟨rb, -, rfl⟩ | ⟨rb, msg, -, -, rfl⟩ |
      ⟨rb, msg, ber, o, hfull, hdec, hreq, hgen, hsess, hlog⟩ := ldapSessDecode_cases h
    · exact .inl rfl
    · exact .inl rfl
    · exact .inr ⟨grow, env, alloc, send, rb, msg, ber, o, rfl, hfull, hdec, hreq, hgen, hsess,
        hlog⟩

/-- A call that refuses nothing. -/
theorem Streaming.unrefused {call : SessCall} {out : ServOutcome} {events : List SessEvent}
    (inv : Streaming sess log placed waiting cut)
    (h : call.perform ds sess = .ok (out, sess', events))
    (none : events.filterMap SessEvent.refusal = []) :
    ∃ waiting cut, Streaming sess' (log ++ events) placed waiting cut := by
  cases call with
  | read alloc recv =>
    obtain ⟨⟨o, s⟩, hread, heq⟩ := bind_eq_ok.1 h
    cases heq
    obtain ⟨rb, rfl⟩ := ldapSessRead_bound inv.ready hread
    exact ⟨waiting, cut, inv.same _ _ rfl inv.fits rfl ⟨rfl, rfl, rfl, rfl⟩⟩
  | write send callback =>
    obtain ⟨rfl, rfl⟩ | ⟨bytes, rfl, w⟩ := ldapSessWrite_cases h
    · exact ⟨waiting, cut, inv.same _ _ rfl inv.fits rfl ⟨rfl, rfl, rfl, rfl⟩⟩
    · exact ⟨waiting, cut ++ bytes, inv.sent w⟩
  | sendMessage malloc realloc callback ber =>
    obtain ⟨rfl, w⟩ | ⟨rfl, q, -⟩ := ldapSessSendMessage_cases h
    · exact ⟨waiting, cut,
        inv.same _ _ w.state (w.fits inv.fits) w.pending.symm ⟨rfl, rfl, rfl, rfl⟩⟩
    · exact ⟨waiting ++ [ber.berval], cut, inv.queued q⟩
  | decode grow env alloc send =>
    obtain ⟨rb, rfl, rfl⟩ | ⟨rb, msg, -, rfl, rfl⟩ |
      ⟨rb, msg, ber, o, -, -, -, -, rfl, rfl⟩ := ldapSessDecode_cases h
    · exact ⟨waiting, cut, inv.same _ _ rfl inv.fits rfl ⟨rfl, rfl, rfl, rfl⟩⟩
    · exact ⟨waiting, cut, inv.same _ _ rfl inv.fits rfl ⟨rfl, rfl, rfl, rfl⟩⟩
    · cases none

/-- A call that refuses cleanly, if it refuses. -/
theorem Streaming.step {call : SessCall} {st' : DsSession × List SessEvent}
    (inv : Streaming sess log placed waiting cut) (ok : RefusesCleanly ds (sess, log) call)
    (h : call.step ds (sess, log) = .ok st') :
    ∃ placed waiting cut, Streaming st'.1 st'.2 placed waiting cut := by
  obtain ⟨⟨out, sess', events⟩, hcall, heq⟩ := bind_eq_ok.1 h
  cases heq
  obtain none | ⟨grow, env, alloc, send, rb, msg, ber, o, rfl, hfull, hdec, hreq, hgen, rfl, rfl⟩ :=
    refusal_cases hcall
  · obtain ⟨waiting, cut, inv'⟩ := inv.unrefused hcall none
    exact ⟨placed, waiting, cut, inv'⟩
  · obtain ⟨hall, between⟩ := ok hfull o sess.rdata msg rb ber hdec hreq hgen
    rw [hall]
    obtain ⟨placed, waiting, inv'⟩ := inv.refused { sess with rb := rb } between rfl inv.fits rfl
    exact ⟨placed, waiting, [], inv'⟩

end Step

/-! ## Runs -/

/-- When every refusal meets a message boundary and is taken whole, the stream of a bound session
consists of whole messages. -/
theorem wholeMessages_of_refusesCleanly {ds : DsT} {sock : Int} {user : DsUser}
    {calls : List SessCall} {st : DsSession × List SessEvent}
    (clean : Along (SessCall.step ds) (fun _ => RefusesCleanly ds) (boundSession sock user, [])
      calls)
    (hrun : run (SessCall.step ds) (boundSession sock user, []) calls = .ok st) :
    WholeMessages st := by
  have start : Streaming (boundSession sock user) [] [] [] [] :=
    ⟨rfl, Nat.le_refl 0, rfl, rfl, rfl, rfl, rfl⟩
  obtain ⟨placed, waiting, cut, inv⟩ :=
    run_invariant (I := fun _ st => ∃ placed waiting cut, Streaming st.1 st.2 placed waiting cut)
      ⟨[], [], [], start⟩
      (fun _ _ _ _ ⟨_, _, _, inv⟩ ok h => inv.step ok h) clean hrun
  exact inv.wholeMessages

/-! ## Three delete requests at a limit of one -/

/-- The response to the first. -/
def deleteDone : BER := ⟨131072, [0x30, 12, 2, 1, 1, 0x6b, 7, 0x0a, 1, 0, 4, 0, 4, 0]⟩

/-- The first is answered, but only two bytes of the answer are taken before the second is
delivered and the third refused. -/
def threeDeletes : List SessCall :=
  [.read (some fun _ => 0) (.data (deleteRoot 1 ++ deleteRoot 2 ++ deleteRoot 3)),
    .decode none { depth := 0 } true (.wrote 100), .sendMessage true true none deleteDone,
    .write (.wrote 2) none, .decode none { depth := 0 } true (.wrote 100),
    .decode none { depth := 0 } true (.wrote 100)]

/-- The stream with what is pending, the BERs and the responses. -/
def streamOf (st : DsSession × List SessEvent) :
    List UInt8 × List (List UInt8) × List (List UInt8) :=
  (st.2.flatMap SessEvent.wire ++ st.1.pending, st.2.filterMap SessEvent.accepted,
    st.2.filterMap SessEvent.refusal)

/-- The stream of whole messages starts with one of them. -/
theorem WholeMessages.starts {st : DsSession × List SessEvent} (h : WholeMessages st)
    (hne : (streamOf st).1 ≠ []) :
    ∃ m, (m ∈ (streamOf st).2.1 ∨ m ∈ (streamOf st).2.2) ∧ m <+: (streamOf st).1 := by
  obtain ⟨items, hstream, hmessages, hrefusals⟩ := h
  simp only [streamOf] at hne ⊢
  rw [← hmessages, ← hrefusals, hstream]
  rw [hstream] at hne
  cases items with
  | nil => exact absurd rfl hne
  | cons item items =>
    refine ⟨item.bytes, ?_, List.prefix_append _ _⟩
    cases item with
    | message bs => exact .inl (List.mem_filterMap.2 ⟨.message bs, List.mem_cons_self, rfl⟩)
    | refusal bs => exact .inr (List.mem_filterMap.2 ⟨.refusal bs, List.mem_cons_self, rfl⟩)

/-- The refusal stands in the middle of the answer. -/
theorem refusal_inside_message :
    ¬ ∀ st, run (SessCall.step (server 1 [])) (boundSession 5 {}, []) threeDeletes = .ok st →
      WholeMessages st := by
  intro h
  have hend : streamOf <$> run (SessCall.step (server 1 [])) (boundSession 5 {}, []) threeDeletes =
      .ok ([0x30, 12] ++ [0x30, 12, 2, 1, 3, 0x6b, 7, 0x0a, 1, 0, 4, 0, 4, 0] ++
          [2, 1, 1, 0x6b, 7, 0x0a, 1, 0, 4, 0, 4, 0],
        [[0x30, 12, 2, 1, 1, 0x6b, 7, 0x0a, 1, 0, 4, 0, 4, 0]],
        [[0x30, 12, 2, 1, 3, 0x6b, 7, 0x0a, 1, 0, 4, 0, 4, 0]]) := by decide +kernel
  obtain ⟨st, hrun, hstream⟩ := map_eq_ok hend
  have whole := h st hrun
  obtain ⟨m, hm, hstart⟩ := whole.starts (by rw [hstream]; decide)
  rw [hstream] at hm hstart
  obtain hm | hm := hm
  · cases List.mem_singleton.1 hm
    exact absurd hstart (by decide)
  · cases List.mem_singleton.1 hm
    exact absurd hstart (by decide)

/-- The answer to the second of two. -/
theorem refusesCleanly_second {st : DsSession × List SessEvent}
    (hrun : run (SessCall.step (server 1 [])) (boundSession 5 {}, []) twoDeletes = .ok st) :
    RefusesCleanly (server 1 []) st (.decode none { depth := 0 } true (.wrote 100)) := by
  intro _ out rdata msg rb ber hdec _ hgen
  have hnext : (do
      let st ← run (SessCall.step (server 1 [])) (boundSession 5 {}, []) twoDeletes
      let r ← (sessDecoder (ldapDecodeRequest { depth := 0 })).decode none st.1.rdata st.1.rb
      pure (st.2.flatMap SessEvent.written, r.2.1.getLast?.map fun msg => (msg.choice, msg.mid))) =
        Except.ok ([], some (.deleteRequest, 2)) := by decide +kernel
  rw [hrun, ok_bind, hdec] at hnext
  simp only [ok_bind, pure_eq_ok, List.getLast?_append, List.getLast?_singleton, Option.some_or,
    Option.map_some] at hnext
  obtain ⟨hwritten, hmsg⟩ := Prod.mk.inj (Except.ok.inj hnext)
  obtain ⟨hchoice, hmid⟩ := Prod.mk.inj (Option.some.inj hmsg)
  unfold genericResp at hgen
  rw [hchoice, hmid] at hgen
  have hresp : ldapGenDeleteResponse true none 2 0 none none =
      .ok ⟨131072, [0x30, 12, 2, 1, 2, 0x6b, 7, 0x0a, 1, 0, 4, 0, 4, 0]⟩ := by decide +kernel
  have hber := (map_some_eq_ok hgen).symm.trans hresp
  cases hber
  exact ⟨rfl, 0, hwritten⟩

/-- Two delete requests, the second of which is refused with a whole response. -/
theorem wholeMessages_of_refusesCleanly_second :
    ∃ st, run (SessCall.step (server 1 [])) (boundSession 5 {}, [])
      (twoDeletes ++ [.decode none { depth := 0 } true (.wrote 100)]) = .ok st ∧
      WholeMessages st := by
  have hend : streamOf <$> run (SessCall.step (server 1 [])) (boundSession 5 {}, [])
      (twoDeletes ++ [.decode none { depth := 0 } true (.wrote 100)]) =
        .ok ([0x30, 12, 2, 1, 2, 0x6b, 7, 0x0a, 1, 0, 4, 0, 4, 0], [],
          [[0x30, 12, 2, 1, 2, 0x6b, 7, 0x0a, 1, 0, 4, 0, 4, 0]]) := by decide +kernel
  obtain ⟨st, hrun, -⟩ := map_eq_ok hend
  refine ⟨st, hrun, wholeMessages_of_refusesCleanly ?_ hrun⟩
  refine along_cons trivial fun s₁ h₁ => along_cons ?_ fun s₂ h₂ =>
    along_cons (refusesCleanly_second (run_cons_ok h₁ (run_single h₂))) fun _ _ => along_nil _
  intro hfull
  have hcount : (fun st => st.1.concurrentCount) <$> SessCall.step (server 1 [])
      (boundSession 5 {}, [])
      (.read (some fun _ => 0) (.data (deleteRoot 1 ++ deleteRoot 2))) = .ok 0 := by decide +kernel
  rw [h₁] at hcount
  have hzero : s₁.1.concurrentCount = 0 := Except.ok.inj hcount
  rw [hzero] at hfull
  exact absurd hfull (by decide)

end CassandraApi.Ldap
