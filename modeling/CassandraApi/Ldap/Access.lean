/-
# `Ldap.Access` — who is served

LDAP_sess_decode and LDAP_sess_send_message do not look at the state of a session,
and a slot keeps its user when it is closed and taken again.  What keeps a peer
that has not bound from being served is that LDAP_sess_open clears the state and
the read buffer, that LDAP_sess_read allocates one only in state READY, and that
this state is reached by a bind alone.  So over every run, and over all sessions
at once, a request that is decoded comes from a peer that has bound as one of the
users since it was accepted (`requests_bound`).
-/
import CassandraApi.Ldap.Idle

namespace CassandraApi.Ldap.Access

open C Ber Lib Rauthen SessionTable

/-! ## What a run comes to -/

/-- What happens in a run, as far as access goes. -/
inductive AccessEvent where
  /-- LDAP_sess_open took the slot for a peer -/
  | opened (no : Nat)
  /-- LDAP_sess_read returned READY, for this user -/
  | bound (no : Nat) (user : DsUser)
  /-- LDAP_sess_decode decoded a request, and delivered or refused it -/
  | request (no : Nat) (msg : LdapMessage)

/-- The request that an operation reports. -/
def requestOf (no : Nat) : SessEvent → Option AccessEvent
  | .delivered msg => some (.request no msg)
  | .refused msg _ _ => some (.request no msg)
  | _ => none

/-- What a read of the session reports. -/
def readEvents (no : Nat) : Except Fault (ServOutcome × DsSession) → List AccessEvent
  | .ok (out, sess) => if out.code = some .ready then [.bound no sess.user] else []
  | .error _ => []

/-- And a call of its decoder. -/
def decodeEvents (no : Nat) : SessStep → List AccessEvent
  | .ok (_, _, log) => log.filterMap (requestOf no)
  | .error _ => []

def events (conf : DsT) (ds : Ds) : Idle.Call → List AccessEvent
  | .sessOpen accept => ((ldapSessOpen accept ds).2.1.map AccessEvent.opened).toList
  | .sessRead no sockErr stack send alloc recv _ =>
      readEvents no (ds.slot no >>= fun s => ldapSessRead sockErr stack send alloc recv conf s.sess)
  | .sessDecode no grow env alloc send =>
      decodeEvents no (ds.slot no >>= fun s => ldapSessDecode grow env alloc send conf s.sess)
  | _ => []

/-- A call of a run: the table, and what has happened so far. -/
def step (conf : DsT) (st : Ds × List AccessEvent) (call : Idle.Call) :
    Except Fault (Ds × List AccessEvent) := do
  let ds ← Idle.step conf st.1 call
  pure (ds, st.2 ++ events conf st.1 call)

/-- The peer of the slot has bound as this registered user, and the slot was not taken since. -/
def BoundSince (conf : DsT) (log : List AccessEvent) (no : Nat) (user : DsUser) : Prop :=
  ∃ earlier later, log = earlier ++ .bound no user :: later ∧
    Matches conf.userList user.name user.password ∧ .opened no ∉ later

/-- Every request comes behind the bind of a user. -/
def Justified (conf : DsT) (log : List AccessEvent) : Prop :=
  ∀ before no msg after, log = before ++ .request no msg :: after →
    ∃ user, BoundSince conf before no user

section

variable {conf : DsT} {log evs : List AccessEvent} {no : Nat} {user : DsUser}

theorem BoundSince.append (h : BoundSince conf log no user) (hevs : .opened no ∉ evs) :
    BoundSince conf (log ++ evs) no user := by
  obtain ⟨earlier, later, rfl, known, hnew⟩ := h
  refine ⟨earlier, later ++ evs, by rw [List.append_assoc, List.cons_append], known, ?_⟩
  rw [List.mem_append, not_or]
  exact ⟨hnew, hevs⟩

theorem Justified.append (h : Justified conf log)
    (hevs : ∀ before no msg after, evs = before ++ .request no msg :: after →
      ∃ user, BoundSince conf (log ++ before) no user) : Justified conf (log ++ evs) := by
  intro before no msg after heq
  obtain ⟨front, rfl, hrest⟩ | ⟨rest, hlog, hrest⟩ := List.append_eq_append_iff.1 heq
  · exact hevs front no msg after hrest
  · cases rest with
    | nil =>
      rw [List.append_nil] at hlog
      obtain ⟨user, hbound⟩ := hevs [] no msg after hrest.symm
      rw [List.append_nil, hlog] at hbound
      exact ⟨user, hbound⟩
    | cons e rest =>
      obtain ⟨rfl, -⟩ := List.cons.inj hrest
      exact h before no msg rest hlog

end

/-! ## The bind -/

section

variable {conf : DsT} {users : List DsUser} {sess sess' : DsSession} {buff : Block} {i : Int}
  {r : BindRet}

/-- The parser leaves the session in its state, and says OK of registered users only. -/
structure Parsed (users : List DsUser) (sess sess' : DsSession) (r : BindRet) : Prop where
  state : sess'.state = sess.state
  known : r = some .ok → Matches users sess'.user.name sess'.user.password

theorem Parsed.refused (sess : DsSession) (h : r ≠ some .ok) : Parsed users sess sess r :=
  ⟨rfl, fun hok => absurd hok h⟩

theorem recvBindPassword_parsed (h : recvBindPassword users buff i sess = .ok (r, sess')) :
    Parsed users sess sess' r := by
  obtain ⟨c, -, h⟩ := bind_eq_ok.1 h
  split at h
  · cases h
    exact .refused sess (by decide)
  · obtain ⟨⟨password, i'⟩, -, h⟩ := bind_eq_ok.1 h
    obtain ⟨known, hknown, h⟩ := bind_eq_ok.1 h
    have hmatches := (authenticate_iff hknown).2
    split at h
    · rename_i htrue
      cases h
      exact ⟨rfl, fun _ => hmatches.1 htrue⟩
    · cases h
      exact ⟨rfl, fun hok => absurd hok (by decide)⟩

theorem recvBindOp_parsed (h : recvBindOp users buff i sess = .ok (r, sess')) :
    Parsed users sess sess' r := by
  obtain ⟨c, -, h⟩ := bind_eq_ok.1 h
  split at h
  · cases h
    exact .refused sess (by decide)
  · obtain ⟨c, -, h⟩ := bind_eq_ok.1 h
    split at h
    · cases h
      exact .refused sess (by decide)
    · obtain ⟨c, -, h⟩ := bind_eq_ok.1 h
      split at h
      · cases h
        exact .refused sess (by decide)
      · obtain ⟨⟨name, i'⟩, -, h⟩ := bind_eq_ok.1 h
        obtain ⟨hstate, hknown⟩ := recvBindPassword_parsed h
        exact ⟨hstate, hknown⟩

theorem recvBindMsg_parsed (h : recvBindMsg users buff sess = .ok (r, sess')) :
    Parsed users sess sess' r := by
  obtain ⟨c, -, h⟩ := bind_eq_ok.1 h
  split at h
  · cases h
    exact .refused sess (by decide)
  · obtain ⟨c, -, h⟩ := bind_eq_ok.1 h
    split at h
    · cases h
      exact .refused sess (by decide)
    · obtain ⟨c, -, h⟩ := bind_eq_ok.1 h
      simp only at h
      split at h
      · cases h
      · obtain ⟨id, -, h⟩ := bind_eq_ok.1 h
        obtain ⟨hstate, hknown⟩ := recvBindOp_parsed h
        exact ⟨hstate, hknown⟩

theorem recvBind_parsed {stack : Nat → UInt8} {recv : Recv}
    (h : ldapRecvBindRqt stack recv conf sess = .ok (r, sess')) :
    Parsed conf.userList sess sess' r := by
  unfold ldapRecvBindRqt at h
  split at h
  · cases h
    exact .refused sess (by decide)
  · cases h
    exact .refused sess (by decide)
  · obtain ⟨buff, -, h⟩ := bind_eq_ok.1 h
    exact recvBindMsg_parsed h

theorem sendBindResp_user (resultCode : Int) (send : Send) (sess : DsSession) :
    (ldapSendBindResp resultCode send sess).2.1.user = sess.user := by
  unfold ldapSendBindResp
  split
  · rfl
  · split <;> rfl

/-- LDAP_sess_read before the bind: the session stays OPEN, or READY is returned for a registered
user. -/
theorem sessRead_open_cases {sockErr : SockErr} {stack : Nat → UInt8} {send : Send} {alloc : Alloc}
    {recv : Recv} {out : ServOutcome} (hopen : sess.state = .stateOpen)
    (h : ldapSessRead sockErr stack send alloc recv conf sess = .ok (out, sess')) :
    sess'.state = .stateOpen ∨ (out.code = some .ready ∧ sess'.state = .stateReady ∧
      Matches conf.userList sess'.user.name sess'.user.password) := by
  unfold ldapSessRead at h
  rw [hopen] at h
  simp only at h
  split at h
  · cases h
    exact .inl hopen
  · obtain ⟨⟨r, sess₁⟩, hrecv, h⟩ := bind_eq_ok.1 h
    obtain ⟨hstate, hknown⟩ := recvBind_parsed hrecv
    simp only at h
    split at h
    · cases h
      exact .inl ((sendBindResp_state ..).trans (hstate.trans hopen))
    · rename_i hok
      have huser := sendBindResp_user 0 send sess₁
      have hstate' := sendBindResp_state 0 send sess₁
      split at h
      · rename_i heq
        rw [heq] at huser
        cases h
        refine .inr ⟨rfl, rfl, ?_⟩
        rw [huser]
        exact hknown (not_not.1 hok)
      · rename_i heq
        rw [heq] at hstate'
        cases h
        exact .inl (hstate'.trans (hstate.trans hopen))

end

/-! ## The other operations -/

section

variable {conf : DsT} {sess sess' : DsSession} {out : ServOutcome} {log : List SessEvent}

/-- The state and the user stay, and there is no read buffer where there was none. -/
structure Kept (sess sess' : DsSession) : Prop where
  state : sess'.state = sess.state
  user : sess'.user = sess.user
  blank : sess.rb.rBuffer = none → sess'.rb.rBuffer = none

theorem sessWrite_kept {send : Send} {callback : Option Int}
    (h : ldapSessWrite send callback sess = .ok (out, sess', log)) : Kept sess sess' := by
  have hrb := (Idle.sessWrite_same h).rb
  suffices hboth : sess'.state = sess.state ∧ sess'.user = sess.user from
    ⟨hboth.1, hboth.2, fun hnone => by rw [hrb, hnone]⟩
  unfold ldapSessWrite at h
  split at h
  · cases h
    exact ⟨rfl, rfl⟩
  · cases h
    exact ⟨rfl, rfl⟩
  · split at h
    · cases h
      exact ⟨rfl, rfl⟩
    · cases send with
      | failed e =>
        cases h
        exact ⟨rfl, rfl⟩
      | wrote r =>
        simp only at h
        split at h
        · split at h <;> cases h <;> exact ⟨rfl, rfl⟩
        · cases h
          exact ⟨rfl, rfl⟩

theorem sessSendMessage_kept {malloc realloc : Bool} {callback : Option Int} {ber : BER}
    (h : ldapSessSendMessage malloc realloc callback ber sess = .ok (out, sess', log)) :
    Kept sess sess' := by
  have hrb := (Idle.sessSendMessage_same h).rb
  suffices hboth : sess'.state = sess.state ∧ sess'.user = sess.user from
    ⟨hboth.1, hboth.2, fun hnone => by rw [hrb, hnone]⟩
  unfold ldapSessSendMessage at h
  split at h
  · cases h
    exact ⟨rfl, rfl⟩
  · simp only at h
    split at h
    · cases h
    · split at h
      · split at h
        · obtain ⟨⟨o, s, l⟩, hdone, hmap⟩ := map_eq_ok h
          cases hmap
          split at hdone <;> cases hdone <;> exact ⟨rfl, rfl⟩
        · cases h
          exact ⟨rfl, rfl⟩
      · split at h <;> cases h <;> exact ⟨rfl, rfl⟩

/-- Without a read buffer there is nothing to decode. -/
theorem decode_blank {σ : Type} {D : Decoder σ} {grow : Alloc} {t : σ} {rb : ReadBuffer}
    (hnone : rb.rBuffer = none) : D.decode grow t rb = .ok (⟨.ok, none⟩, t, rb) := by
  simp only [Decoder.decode, Decoder.loop, nextFrame, hnone, ok_bind, pure_eq_ok]

theorem sessDecode_kept {grow : Alloc} {env : DecodeEnv} {alloc : Bool} {send : Send}
    (h : ldapSessDecode grow env alloc send conf sess = .ok (out, sess', log)) :
    Kept sess sess' ∧ (sess.rb.rBuffer = none → log = []) := by
  have hblank : sess.rb.rBuffer = none → sess'.rb.rBuffer = none ∧ log = [] := by
    intro hnone
    rw [ldapSessDecode, decode_blank hnone, ok_bind] at h
    cases h
    exact ⟨hnone, rfl⟩
  refine ⟨⟨?_, ?_, fun hnone => (hblank hnone).1⟩, fun hnone => (hblank hnone).2⟩
  · obtain ⟨rb, rfl, -⟩ | ⟨rb, msg, -, rfl, -⟩ | ⟨rb, msg, ber, o, -, -, -, -, rfl, -⟩ :=
      ldapSessDecode_cases h <;> rfl
  · obtain ⟨rb, rfl, -⟩ | ⟨rb, msg, -, rfl, -⟩ | ⟨rb, msg, ber, o, -, -, -, -, rfl, -⟩ :=
      ldapSessDecode_cases h <;> rfl

end

/-! ## The invariant -/

/-- A slot is READY after a bind since it was taken, and OPEN without a read buffer. -/
structure SlotSafe (conf : DsT) (log : List AccessEvent) (no : Nat) (s : Slot) : Prop where
  ready : s.sess.state = .stateReady → BoundSince conf log no s.sess.user
  blank : s.sess.state = .stateOpen → s.sess.rb.rBuffer = none

structure Safe (conf : DsT) (ds : Ds) (log : List AccessEvent) : Prop where
  slots : ∀ (no : Nat) (s : Slot), ds.session[no]? = some s → SlotSafe conf log no s
  justified : Justified conf log

section

variable {conf : DsT} {ds : Ds} {log evs : List AccessEvent} {no : Nat} {s s' : Slot}

theorem SlotSafe.append (h : SlotSafe conf log no s) (hevs : .opened no ∉ evs) :
    SlotSafe conf (log ++ evs) no s :=
  ⟨fun hready => (h.ready hready).append hevs, h.blank⟩

theorem SlotSafe.kept (h : SlotSafe conf log no s) (kept : Kept s.sess s'.sess) :
    SlotSafe conf log no s' where
  ready hready := by
    rw [kept.user]
    exact h.ready (kept.state ▸ hready)
  blank hopen := kept.blank (h.blank (kept.state ▸ hopen))

theorem SlotSafe.closed (h : SlotSafe conf log no s) : SlotSafe conf log no s.closed :=
  ⟨h.ready, fun _ => rfl⟩

/-- One slot changes; the others go on as they were. -/
theorem Safe.set {ds' : Ds} (h : Safe conf ds log) (hsession : ds'.session = ds.session.set no s')
    (hslot : SlotSafe conf (log ++ evs) no s') (hevs : ∀ k, k ≠ no → .opened k ∉ evs)
    (hjust : Justified conf (log ++ evs)) : Safe conf ds' (log ++ evs) := by
  refine ⟨fun k t ht => ?_, hjust⟩
  rw [hsession, List.getElem?_set] at ht
  split at ht
  · rename_i heq
    split at ht
    · cases ht
      exact heq ▸ hslot
    · cases ht
  · rename_i hne
    exact (h.slots k t ht).append (hevs k (Ne.symm hne))

/-- Nothing to be seen happens. -/
theorem Safe.quiet {ds' : Ds} (h : Safe conf ds log) (hsession : ds'.session = ds.session.set no s')
    (hslot : SlotSafe conf log no s') : Safe conf ds' (log ++ []) := by
  refine h.set hsession ?_ (fun k _ => List.not_mem_nil) ?_
  · rwa [List.append_nil]
  · rw [List.append_nil]
    exact h.justified

theorem Safe.same {ds' : Ds} (h : Safe conf ds log) (hsession : ds'.session = ds.session) :
    Safe conf ds' (log ++ []) := by
  rw [List.append_nil]
  exact ⟨fun no s hs => h.slots no s (hsession ▸ hs), h.justified⟩

/-- Closing a session. -/
theorem Safe.sessClose {ds' : Ds} {close : Option String} {out : ServOutcome}
    (h : Safe conf ds log) (hclose : ldapSessClose close ds no = .ok (out, ds')) :
    Safe conf ds' (log ++ []) := by
  obtain ⟨s, hslot, hclose⟩ := bind_eq_ok.1 hclose
  have hs := Idle.slot_get hslot
  split at hclose
  · cases hclose
    exact h.same rfl
  · cases hclose
    exact h.quiet rfl (h.slots no s hs).closed

theorem Safe.examineFrom {ds' : Ds} {ct : Int} {close : Option String} {left i : Nat}
    {out : ServOutcome} (h : Safe conf ds log)
    (hrun : examineFrom ct close ds left i = .ok (out, ds')) : Safe conf ds' (log ++ []) := by
  induction left generalizing i with
  | zero =>
    cases hrun
    exact h.same rfl
  | succ left ih =>
    obtain ⟨t, -, hrun⟩ := bind_eq_ok.1 hrun
    split at hrun
    · split at hrun
      · obtain ⟨⟨out₁, ds₁⟩, hclose, hrun⟩ := bind_eq_ok.1 hrun
        cases hrun
        exact h.sessClose hclose
      · exact ih hrun
    · exact ih hrun

theorem Safe.sessOpen (h : Safe conf ds log) (accept : Accept) :
    Safe conf (ldapSessOpen accept ds).2.2
      (log ++ ((ldapSessOpen accept ds).2.1.map AccessEvent.opened).toList) := by
  rw [ldapSessOpen]
  cases hfree : ds.freeSlot with
  | none => exact h.same rfl
  | some is =>
    obtain ⟨i, s⟩ := is
    cases hadmit : accept.admit with
    | error r => exact h.same rfl
    | ok p =>
      have hopened : SlotSafe conf (log ++ [.opened i]) i (s.opened (ds.version + 1) p) :=
        ⟨fun hready => absurd hready (by simp [Slot.opened]), fun _ => rfl⟩
      refine h.set rfl hopened (fun k hk hmem => ?_) (h.justified.append ?_)
      · obtain heq := List.mem_singleton.1 hmem
        cases heq
        exact hk rfl
      · intro before no msg after heq
        have hone : [AccessEvent.opened i] = before ++ .request no msg :: after := heq
        have hmem : AccessEvent.request no msg ∈ [AccessEvent.opened i] :=
          hone ▸ List.mem_append_right before List.mem_cons_self
        cases List.mem_singleton.1 hmem

/-- A read reports no request, and takes no slot. -/
theorem readEvents_bound {call : Except Fault (ServOutcome × DsSession)} {e : AccessEvent}
    (he : e ∈ readEvents no call) : ∃ user, e = .bound no user := by
  unfold readEvents at he
  split at he
  · split at he
    · exact ⟨_, List.mem_singleton.1 he⟩
    · cases he
  · cases he

theorem Safe.sessRead {sockErr : SockErr} {stack : Nat → UInt8} {send : Send} {alloc : Alloc}
    {recv : Recv} {out : ServOutcome} {sess' : DsSession} {ds' : Ds} (h : Safe conf ds log)
    (hs : ds.session[no]? = some s)
    (hread : ldapSessRead sockErr stack send alloc recv conf s.sess = .ok (out, sess'))
    (hsess : s'.sess = sess') (hsession : ds'.session = ds.session.set no s') :
    Safe conf ds' (log ++ readEvents no (.ok (out, sess'))) := by
  have hslot := h.slots no s hs
  have hbound : ∀ e ∈ readEvents no (.ok (out, sess')), ∃ user, e = .bound no user :=
    fun e he => readEvents_bound he
  have hnew : ∀ k, .opened k ∉ readEvents no (.ok (out, sess')) := fun k hk => by
    obtain ⟨user, heq⟩ := hbound _ hk
    cases heq
  refine h.set hsession ?_ (fun k _ => hnew k) (h.justified.append ?_)
  · cases hstate : s.sess.state with
    | stateReady =>
      obtain ⟨rb, rfl⟩ := ldapSessRead_bound hstate hread
      constructor
      · intro _
        rw [hsess]
        exact (hslot.ready hstate).append (hnew no)
      · intro hopen
        rw [hsess] at hopen
        cases hstate.symm.trans hopen
    | stateOpen =>
      have hrb := (Idle.sessRead_same hstate hread).rb
      obtain hopen | ⟨hcode, hready, known⟩ := sessRead_open_cases hstate hread
      · constructor
        · intro hready
          rw [hsess, hopen] at hready
          cases hready
        · intro _
          rw [hsess, hrb]
          exact hslot.blank hstate
      · constructor
        · intro _
          rw [hsess]
          exact ⟨log, [], by rw [readEvents, if_pos hcode], known, List.not_mem_nil⟩
        · intro hopen
          rw [hsess, hready] at hopen
          cases hopen
  · intro before k msg after heq
    have hmem : AccessEvent.request k msg ∈ readEvents no (.ok (out, sess')) :=
      heq ▸ List.mem_append_right before List.mem_cons_self
    obtain ⟨user, hne⟩ := hbound _ hmem
    cases hne

/-- A call of the decoder reports requests of its slot. -/
theorem requestOf_mem {slog : List SessEvent} {e : AccessEvent}
    (he : e ∈ slog.filterMap (requestOf no)) : ∃ msg, e = .request no msg := by
  obtain ⟨x, -, hx⟩ := List.mem_filterMap.1 he
  cases x with
  | delivered msg =>
    cases hx
    exact ⟨msg, rfl⟩
  | refused msg response taken =>
    cases hx
    exact ⟨msg, rfl⟩
  | queued ber => cases hx
  | sent bytes => cases hx

theorem Safe.sessDecode {grow : Alloc} {env : DecodeEnv} {alloc : Bool} {send : Send}
    {out : ServOutcome} {sess' : DsSession} {slog : List SessEvent} {ds' : Ds}
    (h : Safe conf ds log) (hs : ds.session[no]? = some s)
    (hdecode : ldapSessDecode grow env alloc send conf s.sess = .ok (out, sess', slog))
    (hsess : s'.sess = sess') (hsession : ds'.session = ds.session.set no s') :
    Safe conf ds' (log ++ decodeEvents no (.ok (out, sess', slog))) := by
  have hslot := h.slots no s hs
  obtain ⟨kept, hblank⟩ := sessDecode_kept hdecode
  have hnew : ∀ k, .opened k ∉ decodeEvents no (.ok (out, sess', slog)) := fun k hk => by
    obtain ⟨msg, heq⟩ := requestOf_mem hk
    cases heq
  refine h.set hsession ?_ (fun k _ => hnew k) (h.justified.append ?_)
  · rw [← hsess] at kept
    exact (hslot.append (hnew no)).kept kept
  · intro before k msg after heq
    have hevs : slog.filterMap (requestOf no) = before ++ .request k msg :: after := heq
    have hmem : AccessEvent.request k msg ∈ slog.filterMap (requestOf no) :=
      hevs ▸ List.mem_append_right before List.mem_cons_self
    obtain ⟨msg', hsame⟩ := requestOf_mem hmem
    cases hsame
    -- the session is READY, since something was decoded
    cases hstate : s.sess.state with
    | stateOpen =>
      rw [hblank (hslot.blank hstate)] at hmem
      cases hmem
    | stateReady =>
      refine ⟨_, (hslot.ready hstate).append fun hopened => hnew no ?_⟩
      have hfront := List.mem_append_left (AccessEvent.request no msg :: after) hopened
      rw [← heq] at hfront
      exact hfront

theorem step_safe {st st' : Ds × List AccessEvent} {call : Idle.Call} (h : Safe conf st.1 st.2)
    (hstep : step conf st call = .ok st') : Safe conf st'.1 st'.2 := by
  obtain ⟨ds', hds, hstep⟩ := bind_eq_ok.1 hstep
  cases hstep
  cases call with
  | setTimeouts read write idle =>
    cases hds
    exact h.same rfl
  | sessOpen accept =>
    cases hds
    exact h.sessOpen accept
  | sessClose close no =>
    obtain ⟨⟨out, ds₁⟩, hclose, hds⟩ := bind_eq_ok.1 hds
    cases hds
    exact h.sessClose hclose
  | sessExamine ct close =>
    obtain ⟨⟨out, ds₁⟩, hexamine, hds⟩ := bind_eq_ok.1 hds
    cases hds
    exact h.examineFrom hexamine
  | sessRead no sockErr stack send alloc recv now =>
    obtain ⟨s, hslot, hds⟩ := bind_eq_ok.1 hds
    obtain ⟨s', hs', hds⟩ := bind_eq_ok.1 hds
    obtain ⟨⟨out, sess'⟩, hread, hs'⟩ := bind_eq_ok.1 hs'
    cases hds
    cases hs'
    rw [events, hslot, ok_bind, hread]
    exact h.sessRead (Idle.slot_get hslot) hread rfl rfl
  | sessDecode no grow env alloc send =>
    obtain ⟨s, hslot, hds⟩ := bind_eq_ok.1 hds
    obtain ⟨s', hs', hds⟩ := bind_eq_ok.1 hds
    obtain ⟨⟨out, sess', slog⟩, hdecode, hs'⟩ := bind_eq_ok.1 hs'
    cases hds
    cases hs'
    rw [events, hslot, ok_bind, hdecode]
    exact h.sessDecode (Idle.slot_get hslot) hdecode rfl rfl
  | sessSendMessage no malloc realloc callback ber now =>
    obtain ⟨s, hslot, hds⟩ := bind_eq_ok.1 hds
    obtain ⟨s', hs', hds⟩ := bind_eq_ok.1 hds
    obtain ⟨⟨out, sess', slog⟩, hsend, hs'⟩ := bind_eq_ok.1 hs'
    cases hds
    cases hs'
    exact h.quiet rfl ((h.slots no s (Idle.slot_get hslot)).kept (sessSendMessage_kept hsend))
  | sessWrite no send callback now =>
    obtain ⟨s, hslot, hds⟩ := bind_eq_ok.1 hds
    obtain ⟨s', hs', hds⟩ := bind_eq_ok.1 hds
    obtain ⟨⟨out, sess', slog⟩, hwrite, hs'⟩ := bind_eq_ok.1 hs'
    cases hds
    cases hs'
    exact h.quiet rfl ((h.slots no s (Idle.slot_get hslot)).kept (sessWrite_kept hwrite))

end

/-! ## Whole runs -/

theorem ldapSvrInit_safe (conf : DsT) (version : UInt32) (maxSession : Int) :
    Safe conf (SessionTable.ldapSvrInit version maxSession) [] := by
  refine ⟨fun no s hs => ?_, fun before no msg after heq => ?_⟩
  · obtain ⟨i, -, rfl⟩ := List.mem_map.1 (List.mem_of_getElem? hs)
    exact ⟨fun hready => absurd hready (by simp), fun _ => rfl⟩
  · cases before <;> cases heq

/-- In every run of the server, over all its sessions, a request that LDAP_sess_decode has decoded is
that of a peer which has bound as a registered user since its slot was taken. -/
theorem requests_bound (conf : DsT) (version : UInt32) (maxSession : Int) {calls : List Idle.Call}
    {ds : Ds} {log : List AccessEvent}
    (hrun : run (step conf) (SessionTable.ldapSvrInit version maxSession, []) calls =
      .ok (ds, log)) : Justified conf log := by
  have always : Along (step conf) (fun _ _ _ => True)
      (SessionTable.ldapSvrInit version maxSession, []) calls := fun _ _ _ _ _ _ => trivial
  have hsafe : Safe conf ds log := run_invariant (I := fun _ st => Safe conf st.1 st.2)
    (ldapSvrInit_safe conf version maxSession) (fun _ _ _ _ h _ hstep => step_safe h hstep) always
    hrun
  exact hsafe.justified

/-- A peer is accepted, binds and sends a request. -/
theorem requests_bound_one : ∃ ds log,
    run (step Idle.oneUser) (SessionTable.ldapSvrInit 0 1, [])
        (Idle.connect ++ Idle.bind ++ Idle.request) = .ok (ds, log) ∧
      log.length = 3 ∧ Justified Idle.oneUser log := by
  have hend : (fun st => st.2.length) <$> run (step Idle.oneUser)
      (SessionTable.ldapSvrInit 0 1, []) (Idle.connect ++ Idle.bind ++ Idle.request) = .ok 3 := by
    decide +kernel
  obtain ⟨⟨ds, log⟩, hrun, hlength⟩ := map_eq_ok hend
  exact ⟨ds, log, hrun, hlength, requests_bound Idle.oneUser 0 1 hrun⟩

end CassandraApi.Ldap.Access
