/-
# `Ldap.Idle` — sessions that are not heard of

LDAP_sess_examine closes the first READY session that has reached one of three
time limits.  For the idle timeout it takes a session to be idle when it has no
buffers.  But a buffer that LDAP_sess_read or LDAP_sess_send_message has allocated
stays until the session is closed, whether or not there are bytes in it, and a
peer that never binds stays in state OPEN.

Here the operations of ldap_server.c work on the slots of the table, with the
clock they read, so that a run ends in any table the server can have.
-/
import CassandraApi.Ldap.Outstanding
import CassandraApi.Ldap.Login
import CassandraApi.Ldap.SessionTable

namespace CassandraApi.Ldap.Idle

open C Ber Lib Rauthen SessionTable

/-! ## The operations on a slot -/

section

variable (conf : DsT)

/-- LDAP_sess_read, with the clock. -/
def slotRead (sockErr : SockErr) (stack : Nat → UInt8) (send : Send) (alloc : Alloc) (recv : Recv)
    (now : Int) (s : Slot) : Except Fault Slot := do
  let (out, sess) ← ldapSessRead sockErr stack send alloc recv conf s.sess
  pure { s with
    sess := sess
    activeTime := if out.code = some .ready ∨ out.code = some .ok then now else s.activeTime
    readTime := if out.code = some .ok then now else s.readTime }

/-- LDAP_sess_decode.  The turn of its loop that empties the buffer clears `read_time`. -/
def slotDecode (grow : Alloc) (env : DecodeEnv) (alloc : Bool) (send : Send) (s : Slot) :
    Except Fault Slot := do
  let (_, sess, _) ← ldapSessDecode grow env alloc send conf s.sess
  pure { s with
    sess := sess
    readTime := if s.sess.rb.rLen ≠ 0 ∧ sess.rb.rLen = 0 then 0 else s.readTime }

/-- LDAP_sess_send_message: the time is taken when the message is stored. -/
def slotSendMessage (malloc realloc : Bool) (callback : Option Int) (ber : BER) (now : Int)
    (s : Slot) : Except Fault Slot := do
  let (_, sess, log) ← ldapSessSendMessage malloc realloc callback ber s.sess
  pure { s with sess := sess, writeTime := if log.isEmpty then s.writeTime else now }

/-- LDAP_sess_write: when everything is sent there is no `write_time`. -/
def slotWrite (send : Send) (callback : Option Int) (now : Int) (s : Slot) : Except Fault Slot := do
  let (_, sess, log) ← ldapSessWrite send callback s.sess
  pure { s with
    sess := sess
    writeTime :=
      if log.isEmpty then s.writeTime else if sess.wBuffer = some [] then 0 else now }

end

/-! ## Runs -/

/-- A call, with what the outside does during it. -/
inductive Call where
  | setTimeouts (read write idle : Int)
  | sessOpen (accept : Accept)
  | sessRead (no : Nat) (sockErr : SockErr) (stack : Nat → UInt8) (send : Send) (alloc : Alloc)
      (recv : Recv) (now : Int)
  | sessDecode (no : Nat) (grow : Alloc) (env : DecodeEnv) (alloc : Bool) (send : Send)
  | sessSendMessage (no : Nat) (malloc realloc : Bool) (callback : Option Int) (ber : BER)
      (now : Int)
  | sessWrite (no : Nat) (send : Send) (callback : Option Int) (now : Int)
  | sessClose (close : Option String) (no : Nat)
  | sessExamine (ct : Int) (close : Option String)

/-- An operation on one session of the table. -/
def onSlot (ds : Ds) (no : Nat) (op : Slot → Except Fault Slot) : Except Fault Ds := do
  let s ← ds.slot no
  let s' ← op s
  pure { ds with session := ds.session.set no s' }

def step (conf : DsT) (ds : Ds) : Call → Except Fault Ds
  | .setTimeouts read write idle => SessionTable.step ds (.setTimeouts read write idle)
  | .sessOpen accept => SessionTable.step ds (.sessOpen accept)
  | .sessRead no sockErr stack send alloc recv now =>
      onSlot ds no (slotRead conf sockErr stack send alloc recv now)
  | .sessDecode no grow env alloc send => onSlot ds no (slotDecode conf grow env alloc send)
  | .sessSendMessage no malloc realloc callback ber now =>
      onSlot ds no (slotSendMessage malloc realloc callback ber now)
  | .sessWrite no send callback now => onSlot ds no (slotWrite send callback now)
  | .sessClose close no => SessionTable.step ds (.sessClose close no)
  | .sessExamine ct close => SessionTable.step ds (.sessExamine ct close)

/-! ## Idle sessions -/

/-- No received bytes and no unsent ones. -/
def Slot.Quiet (s : Slot) : Prop :=
  (s.sess.rb.rBuffer.isNone ∨ s.sess.rb.rLen = 0) ∧ s.sess.wBuffer.getD [] = []

/-- No open session has been quiet for the idle timeout. -/
def NoIdlePeer (ds : Ds) (ct : Int) : Prop :=
  ∀ s ∈ ds.session, s.inUse = true → Slot.Quiet s → ct - ds.idleTimeout < s.activeTime

/-- LDAP_sess_examine does not find everything in order while there is an idle peer. -/
def Reaps (ds : Ds) (ct : Int) (close : Option String) : Prop :=
  0 < ds.idleTimeout → ∀ out ds', ldapSessExamine ct close ds = .ok (out, ds') →
    out.code = some .ok → NoIdlePeer ds' ct

/-- A READY session has reached a time limit, or every idle peer is READY and has no buffers. -/
def Reapable (ds : Ds) (ct : Int) : Prop :=
  0 < ds.idleTimeout →
    (∃ s ∈ ds.session, s.inUse = true ∧ s.sess.state = .stateReady ∧
      (ds.timedOut ct s).isSome = true) ∨
    ∀ s ∈ ds.session, s.inUse = true → Slot.Quiet s → s.activeTime ≤ ct - ds.idleTimeout →
      s.sess.state = .stateReady ∧ s.idle = true

instance : DecidablePred Slot.Quiet := fun s =>
  inferInstanceAs (Decidable ((s.sess.rb.rBuffer.isNone ∨ s.sess.rb.rLen = 0) ∧
    s.sess.wBuffer.getD [] = []))

instance (ds : Ds) (ct : Int) : Decidable (Reapable ds ct) :=
  inferInstanceAs (Decidable (0 < ds.idleTimeout →
    (∃ s ∈ ds.session, s.inUse = true ∧ s.sess.state = .stateReady ∧
      (ds.timedOut ct s).isSome = true) ∨
    ∀ s ∈ ds.session, s.inUse = true → Slot.Quiet s → s.activeTime ≤ ct - ds.idleTimeout →
      s.sess.state = .stateReady ∧ s.idle = true))

/-! ## What an operation keeps -/

section

variable {conf : DsT} {sess sess' : DsSession} {out : ServOutcome} {log : List SessEvent}

/-- The socket and the read buffer are left alone. -/
structure SameIo (sess sess' : DsSession) : Prop where
  sock : sess'.sock = sess.sock
  rb : sess'.rb = sess.rb

theorem SameIo.refl (sess : DsSession) : SameIo sess sess := ⟨rfl, rfl⟩

theorem SameIo.trans {sess'' : DsSession} (h : SameIo sess sess') (h' : SameIo sess' sess'') :
    SameIo sess sess'' :=
  ⟨h'.sock.trans h.sock, h'.rb.trans h.rb⟩

theorem recvBindPassword_same {users : List DsUser} {buff : Block} {i : Int} {r : BindRet}
    (h : recvBindPassword users buff i sess = .ok (r, sess')) : SameIo sess sess' := by
  obtain ⟨c, -, h⟩ := bind_eq_ok.1 h
  split at h
  · cases h
    exact .refl sess
  · obtain ⟨⟨password, i'⟩, -, h⟩ := bind_eq_ok.1 h
    obtain ⟨known, -, h⟩ := bind_eq_ok.1 h
    split at h <;> cases h <;> exact ⟨rfl, rfl⟩

theorem recvBindOp_same {users : List DsUser} {buff : Block} {i : Int} {r : BindRet}
    (h : recvBindOp users buff i sess = .ok (r, sess')) : SameIo sess sess' := by
  obtain ⟨c, -, h⟩ := bind_eq_ok.1 h
  split at h
  · cases h
    exact .refl sess
  · obtain ⟨c, -, h⟩ := bind_eq_ok.1 h
    split at h
    · cases h
      exact .refl sess
    · obtain ⟨c, -, h⟩ := bind_eq_ok.1 h
      split at h
      · cases h
        exact .refl sess
      · obtain ⟨⟨name, i'⟩, -, h⟩ := bind_eq_ok.1 h
        have hsame := recvBindPassword_same h
        exact ⟨hsame.sock, hsame.rb⟩

theorem recvBindMsg_same {users : List DsUser} {buff : Block} {r : BindRet}
    (h : recvBindMsg users buff sess = .ok (r, sess')) : SameIo sess sess' := by
  obtain ⟨c, -, h⟩ := bind_eq_ok.1 h
  split at h
  · cases h
    exact .refl sess
  · obtain ⟨c, -, h⟩ := bind_eq_ok.1 h
    split at h
    · cases h
      exact .refl sess
    · obtain ⟨c, -, h⟩ := bind_eq_ok.1 h
      simp only at h
      split at h
      · cases h
      · obtain ⟨id, -, h⟩ := bind_eq_ok.1 h
        have hsame := recvBindOp_same h
        exact ⟨hsame.sock, hsame.rb⟩

theorem recvBind_same {stack : Nat → UInt8} {recv : Recv} {r : BindRet}
    (h : ldapRecvBindRqt stack recv conf sess = .ok (r, sess')) : SameIo sess sess' := by
  unfold ldapRecvBindRqt at h
  split at h
  · cases h
    exact .refl sess
  · cases h
    exact .refl sess
  · obtain ⟨buff, -, h⟩ := bind_eq_ok.1 h
    exact recvBindMsg_same h

theorem sendBindResp_same (resultCode : Int) (send : Send) (sess : DsSession) :
    SameIo sess (ldapSendBindResp resultCode send sess).2.1 := by
  unfold ldapSendBindResp
  split
  · exact .refl sess
  · split <;> exact ⟨rfl, rfl⟩

/-- Before the bind LDAP_sess_read takes its message to an array of its own. -/
theorem sessRead_same {sockErr : SockErr} {stack : Nat → UInt8} {send : Send} {alloc : Alloc}
    {recv : Recv} (hstate : sess.state = .stateOpen)
    (h : ldapSessRead sockErr stack send alloc recv conf sess = .ok (out, sess')) :
    SameIo sess sess' := by
  unfold ldapSessRead at h
  rw [hstate] at h
  simp only at h
  split at h
  · cases h
    exact .refl sess
  · obtain ⟨⟨r, sess₁⟩, hrecv, h⟩ := bind_eq_ok.1 h
    have hsame := recvBind_same hrecv
    simp only at h
    split at h
    · cases h
      exact hsame.trans (sendBindResp_same ..)
    · have hresp := hsame.trans (sendBindResp_same 0 send sess₁)
      split at h
      · rename_i heq
        rw [heq] at hresp
        cases h
        exact ⟨hresp.sock, hresp.rb⟩
      · rename_i heq
        rw [heq] at hresp
        cases h
        exact hresp

theorem sessRead_sock {sockErr : SockErr} {stack : Nat → UInt8} {send : Send} {alloc : Alloc}
    {recv : Recv} (h : ldapSessRead sockErr stack send alloc recv conf sess = .ok (out, sess')) :
    sess'.sock = sess.sock := by
  cases hstate : sess.state with
  | stateReady =>
    obtain ⟨rb, rfl⟩ := ldapSessRead_bound hstate h
    rfl
  | stateOpen => exact (sessRead_same hstate h).sock

theorem sessDecode_sock {grow : Alloc} {env : DecodeEnv} {alloc : Bool} {send : Send}
    (h : ldapSessDecode grow env alloc send conf sess = .ok (out, sess', log)) :
    sess'.sock = sess.sock := by
  obtain ⟨rb, rfl, -⟩ | ⟨rb, msg, -, rfl, -⟩ | ⟨rb, msg, ber, o, -, -, -, -, rfl, -⟩ :=
    ldapSessDecode_cases h <;> rfl

theorem sessWrite_same {send : Send} {callback : Option Int}
    (h : ldapSessWrite send callback sess = .ok (out, sess', log)) : SameIo sess sess' := by
  unfold ldapSessWrite at h
  split at h
  · cases h
    exact .refl sess
  · cases h
    exact .refl sess
  · split at h
    · cases h
      exact .refl sess
    · cases send with
      | failed e =>
        cases h
        exact .refl sess
      | wrote r =>
        simp only at h
        split at h
        · split at h <;> cases h <;> exact ⟨rfl, rfl⟩
        · cases h
          exact ⟨rfl, rfl⟩

theorem sessSendMessage_same {malloc realloc : Bool} {callback : Option Int} {ber : BER}
    (h : ldapSessSendMessage malloc realloc callback ber sess = .ok (out, sess', log)) :
    SameIo sess sess' := by
  unfold ldapSessSendMessage at h
  split at h
  · cases h
    exact ⟨rfl, rfl⟩
  · simp only at h
    split at h
    · cases h
    · split at h
      · split at h
        · obtain ⟨⟨o, s, l⟩, hdone, hmap⟩ := map_eq_ok h
          cases hmap
          split at hdone <;> cases hdone <;> exact ⟨rfl, rfl⟩
        · cases h
          exact ⟨rfl, rfl⟩
      · split at h <;> cases h <;> exact ⟨rfl, rfl⟩

end

/-! ## The invariant -/

section

variable {conf : DsT} {ds ds' : Ds} {s s' : Slot} {no i : Nat}

theorem slot_get (h : ds.slot no = .ok s) : ds.session[no]? = some s := by
  unfold Ds.slot at h
  split at h
  · cases h
  · rename_i hget
    cases h
    exact hget

theorem onSlot_consistent (h : ds.Consistent) {op : Slot → Except Fault Slot}
    (hop : ∀ s s', op s = .ok s' → s'.no = s.no ∧ s'.sess.sock = s.sess.sock)
    (hstep : onSlot ds no op = .ok ds') : ds'.Consistent := by
  obtain ⟨s, hslot, hstep⟩ := bind_eq_ok.1 hstep
  obtain ⟨s', hs', hstep⟩ := bind_eq_ok.1 hstep
  cases hstep
  obtain ⟨hno, hsock⟩ := hop s s' hs'
  have hs := slot_get hslot
  have huse : s'.inUse = s.inUse := by rw [Slot.inUse, hsock, Slot.inUse]
  exact ⟨(List.length_set ..).trans h.size, numbers_set h.numbers hs hno,
    h.agrees.touch hs huse⟩

theorem step_keeps (h : ds.Consistent) {call : Call} (hstep : step conf ds call = .ok ds') :
    ds'.Consistent := by
  -- the calls of the table
  have htable : ∀ call : SessionTable.Call, Known ds call →
      SessionTable.step ds call = .ok ds' → ds'.Consistent := by
    intro call known hcall
    obtain ⟨ds₁, hok, hconsistent⟩ := step_consistent h known
    rw [hok] at hcall
    cases hcall
    exact hconsistent
  cases call with
  | setTimeouts read write idle => exact htable (.setTimeouts read write idle) trivial hstep
  | sessOpen accept => exact htable (.sessOpen accept) trivial hstep
  | sessExamine ct close => exact htable (.sessExamine ct close) trivial hstep
  | sessClose close no =>
    refine htable (.sessClose close no) ?_ hstep
    obtain ⟨⟨out, ds₁⟩, hclose, -⟩ := bind_eq_ok.1 hstep
    obtain ⟨s, hslot, -⟩ := bind_eq_ok.1 hclose
    have hlt := (List.getElem?_eq_some_iff.1 (slot_get hslot)).1
    have hsize := h.size
    show (no : Int) < ds.maxSession
    simp only at hlt
    omega
  | sessRead no sockErr stack send alloc recv now =>
    refine onSlot_consistent h (fun s s' hop => ?_) hstep
    obtain ⟨⟨out, sess⟩, hread, hop⟩ := bind_eq_ok.1 hop
    cases hop
    exact ⟨rfl, sessRead_sock hread⟩
  | sessDecode no grow env alloc send =>
    refine onSlot_consistent h (fun s s' hop => ?_) hstep
    obtain ⟨⟨out, sess, log⟩, hdec, hop⟩ := bind_eq_ok.1 hop
    cases hop
    exact ⟨rfl, sessDecode_sock hdec⟩
  | sessSendMessage no malloc realloc callback ber now =>
    refine onSlot_consistent h (fun s s' hop => ?_) hstep
    obtain ⟨⟨out, sess, log⟩, hsend, hop⟩ := bind_eq_ok.1 hop
    cases hop
    exact ⟨rfl, (sessSendMessage_same hsend).sock⟩
  | sessWrite no send callback now =>
    refine onSlot_consistent h (fun s s' hop => ?_) hstep
    obtain ⟨⟨out, sess, log⟩, hwrite, hop⟩ := bind_eq_ok.1 hop
    cases hop
    exact ⟨rfl, (sessWrite_same hwrite).sock⟩

/-! ## The sweep -/

/-- The sweep finds everything in order when no READY session has reached a time limit. -/
theorem examineFrom_ok_iff {ct : Int} {close : Option String} {left : Nat} {out : ServOutcome}
    (hrun : examineFrom ct close ds left i = .ok (out, ds')) :
    (out.code = some .ok ↔ ∀ (j : Nat) (s : Slot), i ≤ j → j < i + left →
      ds.session[j]? = some s → s.inUse = true → s.sess.state = .stateReady →
        ds.timedOut ct s = none) ∧ (out.code = some .ok → ds' = ds) := by
  induction left generalizing i with
  | zero =>
    cases hrun
    refine ⟨⟨fun _ j s hij hj => absurd hj (by omega), fun _ => rfl⟩, fun _ => rfl⟩
  | succ left ih =>
    obtain ⟨t, hslot, hrun⟩ := bind_eq_ok.1 hrun
    have ht := slot_get hslot
    -- the slots behind this one
    have hnext : ∀ {P : Slot → Prop}, P t → (∀ (j : Nat) (s : Slot), i + 1 ≤ j →
        j < i + 1 + left → ds.session[j]? = some s → P s) →
        ∀ (j : Nat) (s : Slot), i ≤ j → j < i + (left + 1) → ds.session[j]? = some s → P s := by
      intro P hP hrest j s hij hj hs
      rcases Nat.eq_or_lt_of_le hij with rfl | hlt
      · rw [ht] at hs
        cases hs
        exact hP
      · exact hrest j s hlt (by omega) hs
    split at hrun
    · rename_i hready
      split at hrun
      · rename_i text htimed
        obtain ⟨⟨out₁, ds₁⟩, -, hrun⟩ := bind_eq_ok.1 hrun
        cases hrun
        refine ⟨⟨fun hok => ?_, fun hall => ?_⟩, fun hok => ?_⟩
        · cases hok
        · have hnone := hall i t le_rfl (by omega) ht hready.1 hready.2
          rw [htimed] at hnone
          cases hnone
        · cases hok
      · rename_i hnone
        obtain ⟨hiff, hsame⟩ := ih hrun
        refine ⟨hiff.trans ⟨fun hall => ?_, fun hall j s hij hj => ?_⟩, hsame⟩
        · exact hnext (fun _ _ => hnone) hall
        · exact hall j s (by omega) (by omega)
    · rename_i hnot
      obtain ⟨hiff, hsame⟩ := ih hrun
      refine ⟨hiff.trans ⟨fun hall => ?_, fun hall j s hij hj => ?_⟩, hsame⟩
      · exact hnext (fun huse hready => absurd ⟨huse, hready⟩ hnot) hall
      · exact hall j s (by omega) (by omega)

theorem ldapSessExamine_ok_iff (h : ds.Consistent) {ct : Int} {close : Option String}
    {out : ServOutcome} (hrun : ldapSessExamine ct close ds = .ok (out, ds')) :
    (out.code = some .ok ↔ ∀ s ∈ ds.session, s.inUse = true → s.sess.state = .stateReady →
      ds.timedOut ct s = none) ∧ (out.code = some .ok → ds' = ds) := by
  obtain ⟨hiff, hsame⟩ := examineFrom_ok_iff hrun
  refine ⟨hiff.trans ⟨fun hall s hs huse hready => ?_, fun hall j s _ _ hs => ?_⟩, hsame⟩
  · -- no slot behind the last session is in use
    obtain ⟨j, hj⟩ := List.getElem?_of_mem hs
    have hlast := h.agrees.last.above j s hj huse
    exact hall j s (Nat.zero_le j) (by omega) hj huse hready
  · exact hall s (List.mem_of_getElem? hs)

/-- A session without buffers that was active before the idle timeout is timed out. -/
theorem timedOut_of_idle {ct : Int} (hidle : s.idle = true) (hpos : 0 < ds.idleTimeout)
    (hold : s.activeTime ≤ ct - ds.idleTimeout) : (ds.timedOut ct s).isSome = true := by
  unfold Ds.timedOut
  split
  · rfl
  · split
    · rfl
    · rw [if_pos ⟨hidle, hpos, by omega⟩]
      rfl

theorem reaps_iff (h : ds.Consistent) (ct : Int) (close : Option String) :
    Reaps ds ct close ↔ Reapable ds ct := by
  have hlast := h.agrees.last_lt
  obtain ⟨out, ds', hrun, -⟩ := @Ds.Consistent.examineFrom ds 0 h ct close
    (ds.lastSession + 1).toNat (by omega)
  obtain ⟨hiff, hsame⟩ := ldapSessExamine_ok_iff h hrun
  constructor
  · intro hreaps hpos
    by_cases htimed : ∃ s ∈ ds.session, s.inUse = true ∧ s.sess.state = .stateReady ∧
        (ds.timedOut ct s).isSome = true
    · exact .inl htimed
    · -- nothing is found, so there is no idle peer
      have hok : out.code = some .ok := by
        refine hiff.2 fun s hs huse hready => ?_
        by_contra hsome
        exact htimed ⟨s, hs, huse, hready, Option.isSome_iff_ne_none.2 hsome⟩
      have hnone := hreaps hpos out ds' hrun hok
      rw [hsame hok] at hnone
      refine .inr fun s hs huse hquiet hold => ?_
      exact absurd (hnone s hs huse hquiet) (by omega)
  · intro hreapable hpos out₁ ds₁ hrun₁ hok s hs huse hquiet
    obtain ⟨hiff₁, hsame₁⟩ := ldapSessExamine_ok_iff h hrun₁
    have hall := hiff₁.1 hok
    obtain rfl := hsame₁ hok
    by_contra hold
    rcases hreapable hpos with ⟨t, ht, htuse, htready, htimed⟩ | hidle
    · rw [hall t ht htuse htready] at htimed
      cases htimed
    · obtain ⟨hready, hnobuf⟩ := hidle s hs huse hquiet (by omega)
      have htimed := timedOut_of_idle hnobuf hpos (not_lt.1 hold)
      rw [hall s hs huse hready] at htimed
      cases htimed

end

/-! ## Whole runs -/

theorem run_keeps {conf : DsT} {version : UInt32} {maxSession : Int} {calls : List Call} {ds : Ds}
    (hrun : run (step conf) (SessionTable.ldapSvrInit version maxSession) calls = .ok ds) :
    ds.Consistent := by
  have always : Along (step conf) (fun _ _ _ => True)
      (SessionTable.ldapSvrInit version maxSession) calls := fun _ _ _ _ _ _ => trivial
  exact run_invariant (I := fun _ ds => ds.Consistent) (ldapSvrInit_consistent version maxSession)
    (fun _ _ _ _ h _ hstep => step_keeps h hstep) always hrun

/-- In every table that the server can have, LDAP_sess_examine returns, and it does not pass over an
idle peer exactly when one of the sessions it looks at has reached a time limit, or every idle peer
is READY and has no buffers. -/
theorem idle_peers_reaped_iff (conf : DsT) (version : UInt32) (maxSession : Int)
    {calls : List Call} {ds : Ds}
    (hrun : run (step conf) (SessionTable.ldapSvrInit version maxSession) calls = .ok ds)
    (ct : Int) (close : Option String) :
    (∃ out ds', ldapSessExamine ct close ds = .ok (out, ds')) ∧
      (Reaps ds ct close ↔ Reapable ds ct) := by
  have hconsistent := run_keeps hrun
  have hlast := hconsistent.agrees.last_lt
  obtain ⟨out, ds', hexamine, -⟩ := @Ds.Consistent.examineFrom ds 0 hconsistent ct close
    (ds.lastSession + 1).toNat (by omega)
  exact ⟨⟨out, ds', hexamine⟩, reaps_iff hconsistent ct close⟩

/-- A peer connects at time 0, to a server with an idle timeout of 10. -/
def connect : List Call :=
  [.setTimeouts 0 0 10, .sessOpen (.peer ⟨5, "10.0.0.1", 1, none, ⟨.pass, none⟩, 0⟩)]

/-- It binds. -/
def bind : List Call :=
  [.sessRead 0 .none (fun _ => 0) (.wrote 100) none (.data (bindOctets [1] (ascii "u") (ascii "p"))) 0]

/-- It sends one request, which is decoded. -/
def request : List Call :=
  [.sessRead 0 .none (fun _ => 0) (.wrote 100) (some fun _ => 0) (.data (deleteRoot 1)) 0,
    .sessDecode 0 none { depth := 0 } true (.wrote 100)]

def oneUser : DsT := withUsers 1 [(some (ascii "u"), some (ascii "p"))]

/-- Whether all peers can be reaped after a run, to evaluate it. -/
def reapableAfter (calls : List Call) (ct : Int) : Except Fault Bool :=
  (fun ds => decide (Reapable ds ct)) <$> run (step oneUser) (SessionTable.ldapSvrInit 0 1) calls

theorem idle_peers_reaped_iff_bound : ∃ ds,
    run (step oneUser) (SessionTable.ldapSvrInit 0 1) (connect ++ bind) = .ok ds ∧
      (∃ out ds', ldapSessExamine 100 none ds = .ok (out, ds')) ∧
      (Reaps ds 100 none ↔ Reapable ds 100) := by
  have hend : reapableAfter (connect ++ bind) 100 = .ok true := by decide +kernel
  obtain ⟨ds, hrun, -⟩ := map_eq_ok hend
  exact ⟨ds, hrun, idle_peers_reaped_iff oneUser 0 1 hrun 100 none⟩

theorem not_reaped {calls : List Call} (hnot : reapableAfter calls 100 = .ok false) : ∃ ds,
    run (step oneUser) (SessionTable.ldapSvrInit 0 1) calls = .ok ds ∧ ¬ Reaps ds 100 none := by
  obtain ⟨ds, hrun, hfalse⟩ := map_eq_ok hnot
  refine ⟨ds, hrun, fun hreaps => ?_⟩
  exact of_decide_eq_false hfalse ((reaps_iff (run_keeps hrun) 100 none).1 hreaps)

/-- A peer that has not bound, and one that has been served, are not reaped. -/
theorem idle_peers_passed_over :
    (∃ ds, run (step oneUser) (SessionTable.ldapSvrInit 0 1) connect = .ok ds ∧
      ¬ Reaps ds 100 none) ∧
    ∃ ds, run (step oneUser) (SessionTable.ldapSvrInit 0 1) (connect ++ bind ++ request) = .ok ds ∧
      ¬ Reaps ds 100 none := by
  refine ⟨not_reaped ?_, not_reaped ?_⟩
  · decide +kernel
  · decide +kernel

end CassandraApi.Ldap.Idle
