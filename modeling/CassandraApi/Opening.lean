/-
# `Opening` — what HTTP_sess_open and LDAP_sess_open report

Both functions look for a free slot, accept a peer and ask rauthen_verify about
it.  There are six ways out, each with a code of its own; the caller looks at the
session when the code is OK.

Next to a call stand the sockets it leaves open: what `accept` gave, less what
was closed.
-/
import CassandraApi.Http.SessionTable
import CassandraApi.Ldap.SessionTable

namespace CassandraApi.Opening

open C Rauthen

/-! ## The sockets of a call -/

/-- A call of `accept`, with its socket if it succeeds, or of `close`. -/
inductive SockCall where
  | accept (sock : Option Nat)
  | close (sock : Nat)

/-- The calls from `accept_again` on. -/
def sockCalls : Accept → List SockCall
  | .interrupted again => .accept none :: sockCalls again
  | .gone => [.accept none]
  | .failed _ => [.accept none]
  | .peer p =>
      if p.verdict.code = .pass then [.accept (some p.sock)]
      else [.accept (some p.sock), .close p.sock]

/-- The sockets that are open after the calls. -/
def leftOpen : List SockCall → List Nat :=
  List.foldl (fun socks call => match call with
    | .accept sock => socks ++ sock.toList
    | .close sock => socks.filter (· ≠ sock)) []

/-- Nothing is accepted when there is no free slot. -/
def httpSockCalls (hs : Http.SessionTable.Hs) (accept : Accept) : List SockCall :=
  if hs.freeSlot.isSome then sockCalls accept else []

def ldapSockCalls (ds : Ldap.SessionTable.Ds) (accept : Accept) : List SockCall :=
  if ds.freeSlot.isSome then sockCalls accept else []

/-- In the end `accept` fails with EPROTO or ECONNABORTED. -/
def Gone : Accept → Prop
  | .interrupted again => Gone again
  | .gone => True
  | .failed _ => False
  | .peer _ => False

/-- The sockets left open are that of the peer that was let in. -/
theorem leftOpen_admit (accept : Accept) :
    leftOpen (sockCalls accept) =
      match accept.admit with
      | .ok p => [p.sock]
      | .error _ => [] := by
  induction accept with
  | interrupted again ih => exact ih
  | gone => rfl
  | failed e => rfl
  | peer p =>
    by_cases hpass : p.verdict.code = .pass
    · simp [sockCalls, Accept.admit, hpass, leftOpen]
    · simp [sockCalls, Accept.admit, hpass, leftOpen]

theorem admit_gone_iff (accept : Accept) : accept.admit = .error .gone ↔ Gone accept := by
  induction accept with
  | interrupted again ih => exact ih
  | gone => exact ⟨fun _ => trivial, fun _ => rfl⟩
  | failed e =>
    constructor
    · intro h
      cases h
    · intro h
      exact h.elim
  | peer p =>
    refine ⟨fun h => ?_, fun h => h.elim⟩
    by_cases hpass : p.verdict.code = .pass
    · simp [hpass, Accept.admit] at h
    · simp [hpass, Accept.admit] at h

/-! ## HTTP -/

section Http

open Http Http.SessionTable

variable {hs hs' : Hs} {out : Outcome} {sess : Option Nat} {accept : Accept} {alloc : Alloc}

/-- One free slot is opened, for the socket that is left open, and the caller is told which. -/
def HttpOpens (hs hs' : Hs) (sess : Option Nat) (socks : List Nat) : Prop :=
  ∃ (i : Nat) (s new : Slot) (k : Nat), sess = some i ∧ (i : Int) < hs.maxSession ∧
    hs.session[i]? = some s ∧ s.sock < 0 ∧ new.sock = k ∧ socks = [k] ∧
    hs'.session = hs.session.set i new ∧ hs'.sessionCount = hs.sessionCount + 1 ∧
    (i : Int) ≤ hs'.lastSession

/-- The report is right: OK for an opened slot, and otherwise nothing has happened. -/
def HttpReported (hs hs' : Hs) (out : Outcome) (sess : Option Nat) (socks : List Nat) : Prop :=
  (out.code = .ok ↔ HttpOpens hs hs' sess socks) ∧
    (¬ HttpOpens hs hs' sess socks → hs' = hs ∧ socks = [] ∧ out.code ≠ .ok)

theorem not_httpOpens (socks : List Nat) : ¬ HttpOpens hs hs' none socks := by
  rintro ⟨i, s, new, k, hsess, -⟩
  cases hsess

/-- Nothing was opened: the report is right when the code is not OK. -/
theorem httpReported_none_iff :
    HttpReported hs hs out none [] ↔ out.code ≠ .ok := by
  constructor
  · intro h hok
    exact not_httpOpens [] (h.1.1 hok)
  · intro hcode
    exact ⟨⟨fun hok => absurd hok hcode, fun h => absurd h (not_httpOpens [])⟩,
      fun _ => ⟨rfl, rfl, hcode⟩⟩

/-- HTTP_sess_open's report is right unless it has a slot and the peer is gone. -/
theorem httpSessOpen_report (h : httpSessOpen accept alloc hs = .ok (out, sess, hs')) :
    HttpReported hs hs' out sess (leftOpen (httpSockCalls hs accept)) ↔
      hs.freeSlot = none ∨ ¬ Gone accept := by
  unfold httpSessOpen at h
  cases hfree : hs.freeSlot with
  | none =>
    rw [hfree] at h
    cases h
    simp only [httpSockCalls, hfree, true_or, iff_true]
    exact httpReported_none_iff.2 (by simp)
  | some found =>
    obtain ⟨i, s⟩ := found
    obtain ⟨hget, hsock, hmax⟩ := freeSlot_some hfree
    rw [hfree] at h
    simp only [httpSockCalls, hfree, Option.isSome_some, if_true, leftOpen_admit, reduceCtorEq,
      false_or, ← admit_gone_iff]
    cases hcomes : accept.admit with
    | error r =>
      rw [hcomes] at h
      cases h
      simp only [httpReported_none_iff]
      cases r <;> simp [refusedCode]
    | ok p =>
      rw [hcomes] at h
      simp only [bind_eq_ok, pure_eq_ok, Except.ok.injEq, Prod.mk.injEq] at h
      obtain ⟨grown, -, rfl, rfl, rfl⟩ := h
      have hopens : HttpOpens hs { hs with
          session := hs.session.set i (s.opened (hs.version + 1) (grown <|> s.rBuffer) p)
          version := hs.version + 1
          lastSession := if hs.lastSession < i then i else hs.lastSession
          sessionCount := hs.sessionCount + 1 } (some i) [p.sock] :=
        ⟨i, s, _, p.sock, rfl, hmax, hget, hsock, rfl, rfl, rfl, rfl, by simp only; split <;> omega⟩
      simp only [reduceCtorEq, not_false_eq_true, iff_true]
      exact ⟨⟨fun _ => hopens, fun _ => rfl⟩, fun hnot => absurd hopens hnot⟩

/-- A free slot has no read buffer, whatever was called. -/
def NoStray (hs : Hs) : Prop := ∀ s ∈ hs.session, s.sock < 0 → s.rBuffer = none

/-- Then HTTP_sess_open comes back. -/
theorem NoStray.sessOpen (h : NoStray hs) (accept : Accept) (alloc : Alloc) :
    ∃ out sess hs', httpSessOpen accept alloc hs = .ok (out, sess, hs') ∧ NoStray hs' := by
  unfold httpSessOpen
  cases hfree : hs.freeSlot with
  | none => exact ⟨_, _, _, rfl, h⟩
  | some found =>
    obtain ⟨i, s⟩ := found
    obtain ⟨hget, hsock, -⟩ := freeSlot_some hfree
    have hnone := h s (List.mem_of_getElem? hget) hsock
    cases accept.admit with
    | error r => exact ⟨_, _, _, rfl, h⟩
    | ok p =>
      obtain ⟨grown, hgrown⟩ : ∃ d, httpAllocBuffer alloc s.rBuffer httpDataBuffer = .ok d := by
        rw [hnone]
        unfold httpAllocBuffer
        simp only
        split
        · exact ⟨_, rfl⟩
        · cases alloc <;> exact ⟨_, rfl⟩
      simp only [hgrown, ok_bind, pure_eq_ok]
      refine ⟨_, _, _, rfl, fun t hmem hneg => ?_⟩
      rcases List.mem_or_eq_of_mem_set hmem with hold | rfl
      · exact h t hold hneg
      · simp [Slot.opened] at hneg
        omega

/-- What every call keeps: a slot in use has its socket, and a free one no buffer. -/
def Tidy (hs : Hs) : Prop := ∀ s ∈ hs.session, (s.inUse = true → 0 ≤ s.sock) ∧
  (s.sock < 0 → s.rBuffer = none)

theorem Tidy.noStray (h : Tidy hs) : NoStray hs := fun s hmem => (h s hmem).2

theorem Tidy.set (h : Tidy hs) {i : Nat} {new : Slot}
    (hnew : (new.inUse = true → 0 ≤ new.sock) ∧ (new.sock < 0 → new.rBuffer = none)) :
    ∀ s ∈ hs.session.set i new, (s.inUse = true → 0 ≤ s.sock) ∧
      (s.sock < 0 → s.rBuffer = none) := by
  intro s hmem
  rcases List.mem_or_eq_of_mem_set hmem with hold | rfl
  · exact h s hold
  · exact hnew

theorem httpSvrInit_tidy (version : UInt32) (maxSession : Int) :
    Tidy (httpSvrInit version maxSession) := by
  intro s hmem
  obtain ⟨i, hget⟩ := List.getElem?_of_mem hmem
  rw [httpSvrInit_slot hget]
  split <;> exact ⟨fun huse => (by cases huse), fun _ => rfl⟩

theorem Tidy.sessOpen (h : Tidy hs) (hopen : httpSessOpen accept alloc hs = .ok (out, sess, hs')) :
    Tidy hs' := by
  unfold httpSessOpen at hopen
  split at hopen
  · cases hopen
    exact h
  · split at hopen
    · cases hopen
      exact h
    · simp only [bind_eq_ok, pure_eq_ok, Except.ok.injEq, Prod.mk.injEq] at hopen
      obtain ⟨grown, -, -, -, rfl⟩ := hopen
      refine h.set ⟨fun _ => by simp [Slot.opened], fun hneg => ?_⟩
      simp only [Slot.opened] at hneg
      omega

theorem Tidy.sessClose (h : Tidy hs) {close : Option String} {no : Nat} {reply : Outcome}
    (hclose : httpSessClose close hs no = .ok (reply, hs')) : Tidy hs' := by
  simp only [httpSessClose, bind_eq_ok, pure_eq_ok] at hclose
  obtain ⟨s, -, hclose⟩ := hclose
  split at hclose
  · cases hclose
    exact h
  · cases hclose
    exact h.set ⟨fun huse => (by cases huse), fun _ => rfl⟩

theorem Tidy.verifyFrom (h : Tidy hs) {ct : Int} {close : Option String} {left i : Nat}
    {reply : Outcome} (hverify : verifyFrom ct close hs left i = .ok (reply, hs')) :
    Tidy hs' := by
  induction left generalizing i with
  | zero =>
    cases hverify
    exact h
  | succ left ih =>
    simp only [SessionTable.verifyFrom, bind_eq_ok] at hverify
    obtain ⟨s, -, hverify⟩ := hverify
    split at hverify
    · split at hverify
      · simp only [bind_eq_ok, pure_eq_ok, Prod.exists] at hverify
        obtain ⟨r, hs'', hclose, hend⟩ := hverify
        cases hend
        exact h.sessClose hclose
      · exact ih hverify
    · exact ih hverify

theorem Tidy.svrClose (h : Tidy hs) (close : Nat → Option String) (listener : Option String) :
    Tidy (httpSvrClose close listener hs).2.2 := by
  intro new hmem
  obtain ⟨-, hspec⟩ := closeSlots_spec close hs.lastSession hs.session 0
  obtain ⟨k, hget⟩ := List.getElem?_of_mem hmem
  obtain ⟨s, hold, hcase⟩ := hspec k new hget
  have hs := h s (List.mem_of_getElem? hold)
  rcases hcase with ⟨rfl, -⟩ | ⟨-, ⟨-, rfl⟩ | ⟨-, rfl⟩⟩
  · exact hs
  · exact ⟨fun huse => (by cases huse), fun _ => rfl⟩
  · exact ⟨hs.1, fun _ => rfl⟩

theorem Tidy.step (h : Tidy hs) {c : Call} (hstep : step hs c = .ok hs') : Tidy hs' := by
  cases c with
  | setMaxSession n =>
    cases hstep
    unfold httpSvrSetMaxSession
    split <;> exact h
  | sessOpen accept alloc =>
    simp only [SessionTable.step, bind_eq_ok, pure_eq_ok, Prod.exists] at hstep
    obtain ⟨out, sess, hs'', hopen, hend⟩ := hstep
    cases hend
    exact h.sessOpen hopen
  | sessClose close no =>
    simp only [SessionTable.step, bind_eq_ok, pure_eq_ok, Prod.exists] at hstep
    obtain ⟨reply, hs'', hclose, hend⟩ := hstep
    cases hend
    exact h.sessClose hclose
  | verifyConnection ct close =>
    simp only [SessionTable.step, bind_eq_ok, pure_eq_ok, Prod.exists] at hstep
    obtain ⟨reply, hs'', hverify, hend⟩ := hstep
    cases hend
    exact h.verifyFrom hverify
  | svrClose close listener =>
    cases hstep
    exact h.svrClose close listener
  | used no change =>
    simp only [SessionTable.step, bind_eq_ok] at hstep
    obtain ⟨s, hget, hstep⟩ := hstep
    split at hstep
    · rename_i huse
      cases hstep
      have hmem : s ∈ hs.session := by
        unfold Hs.slot at hget
        split at hget
        · cases hget
        · cases hget
          exact List.mem_of_getElem? (by assumption)
      have hsock := (h s hmem).1 huse
      refine h.set ⟨fun _ => hsock, fun hneg => ?_⟩
      simp only [Slot.usedBy] at hneg
      omega
    · cases hstep
      exact h
  | setTimeouts read write idle =>
    cases hstep
    exact h
  | svrOpen sock =>
    cases hstep
    exact h

/-- After any calls HTTP_sess_open comes back. -/
theorem httpSessOpen_total {version : UInt32} {maxSession : Int} {calls : List Call}
    (hrun : Lib.run step (httpSvrInit version maxSession) calls = .ok hs) (accept : Accept)
    (alloc : Alloc) : ∃ out sess hs', httpSessOpen accept alloc hs = .ok (out, sess, hs') := by
  have along : Lib.Along step (fun _ _ _ => True) (httpSvrInit version maxSession) calls :=
    fun _ _ _ _ _ _ => trivial
  have hend : Tidy hs := Lib.run_invariant (I := fun _ => Tidy)
    (httpSvrInit_tidy version maxSession) (fun _ _ _ _ h _ hstep => h.step hstep) along hrun
  obtain ⟨out, sess, hs', hopen, -⟩ := hend.noStray.sessOpen accept alloc
  exact ⟨out, sess, hs', hopen⟩

end Http

/-! ## LDAP -/

section Ldap

open Ldap Ldap.SessionTable

variable {ds ds' : Ds} {out : ServOutcome} {sess : Option Nat} {accept : Accept}

/-- As `HttpOpens`. -/
def LdapOpens (ds ds' : Ds) (sess : Option Nat) (socks : List Nat) : Prop :=
  ∃ (i : Nat) (s new : Slot) (k : Nat), sess = some i ∧
    ds.session[i]? = some s ∧ s.sess.sock < 0 ∧ new.sess.sock = k ∧ socks = [k] ∧
    ds'.session = ds.session.set i new ∧ ds'.sessionCount = ds.sessionCount + 1 ∧
    (i : Int) ≤ ds'.lastSession

/-- As `HttpReported`. -/
def LdapReported (ds ds' : Ds) (out : ServOutcome) (sess : Option Nat) (socks : List Nat) : Prop :=
  (out.code = some .ok ↔ LdapOpens ds ds' sess socks) ∧
    (¬ LdapOpens ds ds' sess socks → ds' = ds ∧ socks = [] ∧ out.code ≠ some .ok)

theorem not_ldapOpens (socks : List Nat) : ¬ LdapOpens ds ds' none socks := by
  rintro ⟨i, s, new, k, hsess, -⟩
  cases hsess

theorem ldapReported_none_iff :
    LdapReported ds ds out none [] ↔ out.code ≠ some .ok := by
  constructor
  · intro h hok
    exact not_ldapOpens [] (h.1.1 hok)
  · intro hcode
    exact ⟨⟨fun hok => absurd hok hcode, fun h => absurd h (not_ldapOpens [])⟩,
      fun _ => ⟨rfl, rfl, hcode⟩⟩

/-- LDAP_sess_open's report is right unless it has a slot and the peer is gone. -/
theorem ldapSessOpen_report (h : ldapSessOpen accept ds = (out, sess, ds')) :
    LdapReported ds ds' out sess (leftOpen (ldapSockCalls ds accept)) ↔
      ds.freeSlot = none ∨ ¬ Gone accept := by
  unfold ldapSessOpen at h
  cases hfree : ds.freeSlot with
  | none =>
    rw [hfree] at h
    cases h
    simp only [ldapSockCalls, hfree, true_or, iff_true]
    exact ldapReported_none_iff.2 (by simp)
  | some found =>
    obtain ⟨i, s⟩ := found
    obtain ⟨hget, hunused⟩ := SessionTable.freeSlot_some hfree
    rw [hfree] at h
    simp only [ldapSockCalls, hfree, Option.isSome_some, if_true, leftOpen_admit, reduceCtorEq,
      false_or, ← admit_gone_iff]
    cases hcomes : accept.admit with
    | error r =>
      rw [hcomes] at h
      cases h
      simp only [ldapReported_none_iff]
      cases r <;> simp [SessionTable.refusedCode]
    | ok p =>
      rw [hcomes] at h
      cases h
      have hsock : s.sess.sock < 0 := by simpa [Slot.inUse] using hunused
      have hopens : LdapOpens ds (ds.take i s p) (some i) [p.sock] :=
        ⟨i, s, _, p.sock, rfl, hget, hsock, rfl, rfl, rfl, rfl,
          by simp only [Ds.take]; split <;> omega⟩
      simp only [reduceCtorEq, not_false_eq_true, iff_true]
      exact ⟨⟨fun _ => hopens, fun _ => rfl⟩, fun hnot => absurd hopens hnot⟩

end Ldap

/-! ## Both -/

/-- Each of the two reports a session when it has opened one, and only then, unless it has a free
slot and `accept` fails with EPROTO or ECONNABORTED. -/
theorem open_reports_session (accept : Accept) :
    (∀ (hs hs' : Http.SessionTable.Hs) (alloc : Alloc) (out : Http.Outcome) (sess : Option Nat),
      Http.SessionTable.httpSessOpen accept alloc hs = .ok (out, sess, hs') →
        (HttpReported hs hs' out sess (leftOpen (httpSockCalls hs accept)) ↔
          hs.freeSlot = none ∨ ¬ Gone accept)) ∧
    (∀ (version : UInt32) (maxSession : Int) (calls : List Http.SessionTable.Call)
      (hs : Http.SessionTable.Hs) (alloc : Alloc),
      Lib.run Http.SessionTable.step (Http.SessionTable.httpSvrInit version maxSession) calls =
        .ok hs →
      ∃ out sess hs', Http.SessionTable.httpSessOpen accept alloc hs = .ok (out, sess, hs')) ∧
    ∀ (ds ds' : Ldap.SessionTable.Ds) (out : Ldap.ServOutcome) (sess : Option Nat),
      Ldap.SessionTable.ldapSessOpen accept ds = (out, sess, ds') →
        (LdapReported ds ds' out sess (leftOpen (ldapSockCalls ds accept)) ↔
          ds.freeSlot = none ∨ ¬ Gone accept) :=
  ⟨fun _ _ _ _ _ h => httpSessOpen_report h,
    fun _ _ _ _ alloc hrun => httpSessOpen_total hrun accept alloc,
    fun _ _ _ _ h => ldapSessOpen_report h⟩

/-- A server with one free slot. -/
def oneFree : Http.SessionTable.Hs :=
  { maxSession := 1, session := [Http.SessionTable.readySlot 0], version := 0 }

/-- A peer that comes after an interruption and is let in. -/
def latePeer : Accept := .interrupted (.peer ⟨5, "10.0.0.1", 1, none, ⟨.pass, none⟩, 0⟩)

theorem open_reports_session_late :
    ∃ out sess hs', Http.SessionTable.httpSessOpen latePeer none oneFree = .ok (out, sess, hs') ∧
      (HttpReported oneFree hs' out sess (leftOpen (httpSockCalls oneFree latePeer)) ↔
        oneFree.freeSlot = none ∨ ¬ Gone latePeer) :=
  ⟨_, _, _, rfl, (open_reports_session latePeer).1 _ _ none _ _ rfl⟩

/-- The peer has gone before it was accepted: both report a session that there is not. -/
theorem gone_peer_reported :
    (∃ out sess hs', Http.SessionTable.httpSessOpen .gone none oneFree = .ok (out, sess, hs') ∧
      ¬ HttpReported oneFree hs' out sess (leftOpen (httpSockCalls oneFree .gone))) ∧
    ∃ out sess ds',
      Ldap.SessionTable.ldapSessOpen .gone (Ldap.SessionTable.ldapSvrInit 0 1) =
        (out, sess, ds') ∧
      ¬ LdapReported (Ldap.SessionTable.ldapSvrInit 0 1) ds' out sess
        (leftOpen (ldapSockCalls (Ldap.SessionTable.ldapSvrInit 0 1) .gone)) := by
  have hfree : ¬ oneFree.freeSlot = none := by
    intro h
    cases h
  have hfree' : ¬ (Ldap.SessionTable.ldapSvrInit 0 1).freeSlot = none := by
    intro h
    cases h
  constructor
  · refine ⟨_, _, _, rfl, fun h => ?_⟩
    rcases ((@httpSessOpen_report _ _ _ _ .gone none) rfl).1 h with hnone | hgone
    · exact hfree hnone
    · exact hgone trivial
  · refine ⟨_, _, _, rfl, fun h => ?_⟩
    rcases ((@ldapSessOpen_report _ _ _ _ .gone) rfl).1 h with hnone | hgone
    · exact hfree' hnone
    · exact hgone trivial

end CassandraApi.Opening
