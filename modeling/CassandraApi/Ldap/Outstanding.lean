/-
# `Ldap.Outstanding` — the counter of outstanding requests

`concurrent_count` goes up with every request that is delivered and down with
every BER that LDAP_sess_send_message stores.  So it is the number of requests
without a final response as long as a final response is all that is sent for a
request; a search entry is counted as one too.

A `Service` is a session and its application: the requests delivered so far,
and which of them have not been answered yet, by their number.
-/
import CassandraApi.Ldap.Serving

namespace CassandraApi.Ldap

open C Ber Lib

/-! ## A session and its application -/

structure Service where
  sess : DsSession
  delivered : List LdapMessage := []
  /-- the numbers of the delivered requests whose final response was not accepted yet -/
  outstanding : List Nat := []

/-- A call, and what it is for the application. -/
inductive AppCall where
  /-- a read, a write or a decode -/
  | other (call : SessCall)
  /-- LDAP_sess_send_message with an entry for the search request `k` -/
  | entry (k : Nat) (malloc realloc : Bool) (callback : Option Int) (ber : BER)
  /-- LDAP_sess_send_message with the final response to the request `k` -/
  | final (k : Nat) (malloc realloc : Bool) (callback : Option Int) (ber : BER)

def AppCall.sessCall : AppCall → SessCall
  | .other call => call
  | .entry _ malloc realloc callback ber => .sendMessage malloc realloc callback ber
  | .final _ malloc realloc callback ber => .sendMessage malloc realloc callback ber

/-- What the application knows after a call. -/
def Service.after (st : Service) (call : AppCall) (sess : DsSession) (log : List SessEvent) :
    Service :=
  match log, call with
  | [.delivered msg], _ =>
      ⟨sess, st.delivered ++ [msg], st.outstanding ++ [st.delivered.length]⟩
  | [.queued _], .final k _ _ _ _ => ⟨sess, st.delivered, st.outstanding.erase k⟩
  | _, _ => { st with sess := sess }

def AppCall.step (ds : DsT) (st : Service) (call : AppCall) : Except Fault Service := do
  let (_, sess, log) ← call.sessCall.perform ds st.sess
  pure (st.after call sess log)

/-- The application keeps to its part: it sends for requests that are outstanding, and entries
for searches only. -/
def Proper (st : Service) : AppCall → Prop
  | .other (.sendMessage _ _ _ _) => False
  | .other _ => True
  | .entry k _ _ _ ber => k ∈ st.outstanding ∧ ∃ msg object attrs,
      st.delivered[k]? = some msg ∧ msg.choice = .searchRequest ∧
      ldapGenSearchEntry true none msg.mid object attrs = .ok ber
  | .final k _ _ _ _ => k ∈ st.outstanding

/-- Requests are counted correctly: those without a final response, at most `max_concurrent`;
and only when there are so many is a request refused. -/
structure Counted (ds : DsT) (st : Service) : Prop where
  count : st.sess.concurrentCount = st.outstanding.length
  limit : st.sess.concurrentCount ≤ ds.maxConcurrent
  refused : ∀ grow env alloc send out sess msg response taken,
    ldapSessDecode grow env alloc send ds st.sess =
      .ok (out, sess, [.refused msg response taken]) → st.outstanding.length = ds.maxConcurrent

/-- No search entry is stored. -/
def NoEntry (st : Service) : AppCall → Prop
  | .entry _ malloc realloc _ ber => ¬ st.sess.HasRoom malloc realloc ber
  | _ => True

/-! ## One call -/

/-- What every call keeps. -/
structure Counting (ds : DsT) (st : Service) : Prop where
  ready : st.sess.state = .stateReady
  count : st.sess.concurrentCount = st.outstanding.length
  limit : st.sess.concurrentCount ≤ ds.maxConcurrent

section Step

variable {ds : DsT} {st : Service} {sess : DsSession} {bytes : List UInt8}

theorem Counting.same (inv : Counting ds st) (hstate : sess.state = st.sess.state)
    (hcount : sess.concurrentCount = st.sess.concurrentCount) :
    Counting ds { st with sess := sess } :=
  ⟨hstate.trans inv.ready, hcount.trans inv.count, hcount.trans_le inv.limit⟩

theorem Counting.wrote (inv : Counting ds st) (w : Wrote st.sess sess bytes) :
    Counting ds { st with sess := sess } :=
  inv.same w.state w.count

/-- A request that is delivered is outstanding. -/
theorem Counting.deliver (inv : Counting ds st) {msg : LdapMessage} {rb : ReadBuffer}
    (hlt : st.sess.concurrentCount < ds.maxConcurrent) :
    Counting ds ⟨{ st.sess with rdata := st.sess.rdata ++ [msg], rb := rb,
                                concurrentCount := st.sess.concurrentCount + 1 },
      st.delivered ++ [msg], st.outstanding ++ [st.delivered.length]⟩ where
  ready := inv.ready
  count := by
    rw [List.length_append, inv.count]
    exact (Nat.cast_succ _).symm
  limit := hlt

/-- A final response that is stored answers one request. -/
theorem Counting.answer (inv : Counting ds st) (hmax : ds.maxConcurrent ≤ ldapMaxConcurrentRequest)
    {k : Nat} {ber : BER} (hk : k ∈ st.outstanding) (q : Queued st.sess sess ber) :
    Counting ds ⟨sess, st.delivered, st.outstanding.erase k⟩ := by
  have hpos := List.length_pos_of_mem hk
  have hcount := inv.count
  have hlimit := inv.limit
  have hbound : (ldapMaxConcurrentRequest : Int) = 1024 := rfl
  have hless : sess.concurrentCount = st.sess.concurrentCount - 1 := by
    rw [q.count]
    exact int32_of_range (by omega) (by omega)
  refine ⟨q.state.trans inv.ready, ?_, ?_⟩
  · rw [List.length_erase_of_mem hk, hless]
    omega
  · rw [hless]
    omega

/-- A call of an application that keeps to its part and stores no entry. -/
theorem Counting.step {st' : Service} {call : AppCall} (inv : Counting ds st)
    (hmax : ds.maxConcurrent ≤ ldapMaxConcurrentRequest) (proper : Proper st call)
    (ok : NoEntry st call) (h : call.step ds st = .ok st') : Counting ds st' := by
  obtain ⟨⟨out, sess, log⟩, hcall, heq⟩ := bind_eq_ok.1 h
  cases heq
  cases call with
  | other call =>
    cases call with
    | read alloc recv =>
      obtain ⟨⟨o, s⟩, hread, heq⟩ := bind_eq_ok.1 hcall
      cases heq
      obtain ⟨rb, rfl⟩ := ldapSessRead_bound inv.ready hread
      exact inv.same rfl rfl
    | write send callback =>
      obtain ⟨rfl, rfl⟩ | ⟨bytes, rfl, w⟩ := ldapSessWrite_cases hcall
      · exact inv
      · exact inv.wrote w
    | sendMessage _ _ _ _ => exact proper.elim
    | decode grow env alloc send =>
      obtain ⟨rb, rfl, rfl⟩ | ⟨rb, msg, hlt, rfl, rfl⟩ |
        ⟨rb, msg, ber, o, -, -, -, -, rfl, rfl⟩ := ldapSessDecode_cases hcall
      · exact inv.same rfl rfl
      · exact inv.deliver hlt
      · exact inv.same rfl rfl
  | entry k malloc realloc callback ber =>
    obtain ⟨rfl, w⟩ | ⟨-, -, room⟩ := ldapSessSendMessage_cases hcall
    · exact inv.wrote w
    · exact absurd room ok
  | final k malloc realloc callback ber =>
    obtain ⟨rfl, w⟩ | ⟨rfl, q, -⟩ := ldapSessSendMessage_cases hcall
    · exact inv.wrote w
    · exact inv.answer hmax proper q

theorem Counting.counted (inv : Counting ds st) : Counted ds st where
  count := inv.count
  limit := inv.limit
  refused grow env alloc send out sess msg response taken h := by
    obtain ⟨_, -, hlog⟩ | ⟨_, _, -, -, hlog⟩ | ⟨_, _, _, _, hge, -⟩ := ldapSessDecode_cases h
    · cases hlog
    · cases hlog
    · rw [← inv.count]
      exact le_antisymm inv.limit hge

end Step

/-! ## Runs -/

/-- A session that has just been bound. -/
def freshService (sock : Int) (user : DsUser) : Service := { sess := boundSession sock user }

/-- On a session of a server whose limit is not negative, requests are counted correctly as long
as no search entry is stored. -/
theorem counted_of_noEntry {n sock : Int} {users : List DsUser} {user : DsUser}
    {calls : List AppCall} {st : Service}
    (proper : Along (AppCall.step (server n users)) (fun _ => Proper) (freshService sock user) calls)
    (hn : 0 ≤ n)
    (noEntry : Along (AppCall.step (server n users)) (fun _ => NoEntry) (freshService sock user)
      calls)
    (hrun : run (AppCall.step (server n users)) (freshService sock user) calls = .ok st) :
    Counted (server n users) st := by
  have hlimit : (server n users).maxConcurrent ≤ ldapMaxConcurrentRequest ∧
      0 ≤ (server n users).maxConcurrent := by
    simp only [server, ldapSvrInit]
    split <;> omega
  have both : Along (AppCall.step (server n users)) (fun _ st call => Proper st call ∧ NoEntry st call)
      (freshService sock user) calls := fun before e after s' he hs =>
    ⟨proper before e after s' he hs, noEntry before e after s' he hs⟩
  have inv : Counting (server n users) st :=
    run_invariant (I := fun _ st => Counting (server n users) st) ⟨rfl, rfl, hlimit.2⟩
      (fun _ _ _ _ inv ok h => inv.step hlimit.1 ok.1 ok.2 h) both hrun
  exact inv.counted

/-! ## A search with one entry -/

/-- A search from the root for every object that has the attribute `a`. -/
def searchRoot (id : UInt8) : List UInt8 :=
  [0x30, 0x1b, 2, 1, id, 0x63, 0x16, 4, 0, 0x0a, 1, 0, 0x0a, 1, 0, 2, 1, 0, 2, 1, 0, 1, 1, 0,
    0x87, 1, 0x61, 0x30, 0]

/-- The entry `c` without attributes, for the request 1. -/
def entryC : BER := ⟨131072, [0x30, 10, 2, 1, 1, 0x64, 5, 4, 1, 0x63, 0x30, 0]⟩

/-- The final response to it. -/
def searchDone : BER := ⟨131072, [0x30, 12, 2, 1, 1, 0x65, 7, 0x0a, 1, 0, 4, 0, 4, 0]⟩

example : ldapGenSearchEntry true none 1 (some [0x63]) [] = .ok entryC ∧
    ldapGenSearchDone true none 1 0 none none = .ok searchDone := by decide +kernel

def receiveSearch : List AppCall :=
  [.other (.read (some fun _ => 0) (.data (searchRoot 1))),
    .other (.decode none { depth := 3 } true (.wrote 100))]

/-- The counter, what is outstanding, and the requests that were delivered. -/
def Service.summary (st : Service) : Int × List Nat × List (ProtocolOp × Int) :=
  (st.sess.concurrentCount, st.outstanding, st.delivered.map fun msg => (msg.choice, msg.mid))

theorem receiveSearch_summary :
    Service.summary <$> run (AppCall.step (server 2 [])) (freshService 5 {}) receiveSearch =
      .ok (1, [0], [(.searchRequest, 1)]) := by decide +kernel

theorem map_eq_ok {α β : Type} {x : Except Fault α} {f : α → β} {b : β} (h : f <$> x = .ok b) :
    ∃ a, x = .ok a ∧ f a = b := by
  cases x with
  | error e => cases h
  | ok a => exact ⟨a, rfl, Except.ok.inj h⟩

/-- After the search was received, a call that `ok` allows when request 0, a search with the id 1,
is outstanding. -/
theorem along_receiveSearch {ok : Service → AppCall → Prop} {call : AppCall}
    (hother : ∀ st alloc recv, ok st (.other (.read alloc recv)))
    (hdecode : ∀ st grow env alloc send, ok st (.other (.decode grow env alloc send)))
    (hcall : ∀ st, st.summary = (1, [0], [(.searchRequest, 1)]) → ok st call) :
    Along (AppCall.step (server 2 [])) (fun _ => ok) (freshService 5 {})
      (receiveSearch ++ [call]) := by
  refine along_cons (hother _ _ _) fun s₁ h₁ => along_cons (hdecode _ _ _ _ _) fun s₂ h₂ =>
    along_cons (hcall s₂ ?_) fun _ _ => along_nil _
  obtain ⟨st, hst, hsum⟩ := map_eq_ok receiveSearch_summary
  have hrun : run (AppCall.step (server 2 [])) (freshService 5 {}) receiveSearch = .ok s₂ :=
    run_cons_ok h₁ (run_single h₂)
  rw [hrun] at hst
  cases hst
  exact hsum

theorem mem_outstanding {st : Service} (h : st.summary = (1, [0], [(.searchRequest, 1)])) :
    0 ∈ st.outstanding := by
  have hout : st.outstanding = [0] := congrArg (·.2.1) h
  rw [hout]
  exact List.mem_singleton_self 0

/-- The entry takes the search off the count, although it is not answered yet. -/
theorem entry_uncounts :
    ¬ ∀ calls st, Along (AppCall.step (server 2 [])) (fun _ => Proper) (freshService 5 {}) calls →
      run (AppCall.step (server 2 [])) (freshService 5 {}) calls = .ok st →
      Counted (server 2 []) st := by
  intro h
  have hend : Service.summary <$> run (AppCall.step (server 2 [])) (freshService 5 {})
      (receiveSearch ++ [.entry 0 true true none entryC]) =
        .ok (0, [0], [(.searchRequest, 1)]) := by decide +kernel
  obtain ⟨st, hrun, hsum⟩ := map_eq_ok hend
  have proper : Along (AppCall.step (server 2 [])) (fun _ => Proper) (freshService 5 {})
      (receiveSearch ++ [.entry 0 true true none entryC]) := by
    refine along_receiveSearch (fun _ _ _ => trivial) (fun _ _ _ _ _ => trivial) fun st hst => ?_
    refine ⟨mem_outstanding hst, ?_⟩
    have hdel : st.delivered.map (fun msg => (msg.choice, msg.mid)) = [(.searchRequest, 1)] :=
      congrArg (·.2.2) hst
    obtain ⟨msg, hmsg, hpair⟩ := List.map_eq_singleton_iff.1 hdel
    obtain ⟨hchoice, hmid⟩ := Prod.mk.inj hpair
    exact ⟨msg, some [0x63], [], by rw [hmsg]; rfl, hchoice, by rw [hmid]; decide +kernel⟩
  have hcount := (h _ st proper hrun).count
  have hzero : st.sess.concurrentCount = 0 := congrArg (·.1) hsum
  have hone : st.outstanding = [0] := congrArg (·.2.1) hsum
  rw [hzero, hone] at hcount
  cases hcount

/-- A search without entries is counted until its final response is stored. -/
theorem counted_of_noEntry_search :
    ∃ st, run (AppCall.step (server 2 [])) (freshService 5 {})
      (receiveSearch ++ [.final 0 true true none searchDone]) = .ok st ∧ Counted (server 2 []) st := by
  have hend : Service.summary <$> run (AppCall.step (server 2 [])) (freshService 5 {})
      (receiveSearch ++ [.final 0 true true none searchDone]) =
        .ok (0, [], [(.searchRequest, 1)]) := by decide +kernel
  obtain ⟨st, hrun, -⟩ := map_eq_ok hend
  refine ⟨st, hrun, counted_of_noEntry ?_ (by decide) ?_ hrun⟩
  · exact along_receiveSearch (fun _ _ _ => trivial) (fun _ _ _ _ _ => trivial)
      fun st hst => mem_outstanding hst
  · exact along_receiveSearch (fun _ _ _ => trivial) (fun _ _ _ _ _ => trivial) fun _ _ => trivial

end CassandraApi.Ldap
