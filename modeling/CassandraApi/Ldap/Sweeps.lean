/-
# `Ldap.Sweeps` — connections that are closed in a row

LDAP_clnt_check_connection and LDAP_clnt_close_all go through client_array and call
LDAP_clnt_close, the one for each connection whose time is over, the other for each
that there is.  The first hands over the number that is stored in the connection,
the second the index of the slot; in a client whose slots and rings agree they are
the same (`Orderly`), and no call fails.

So the one closes exactly the connections on which something has been waiting for too
long (`check_closes_stuck`), and the other leaves nothing behind (`close_all_empties`).
-/
import CassandraApi.Ldap.Timers

namespace CassandraApi.Ldap

open C Ber Lib

/-- The loop of LDAP_clnt_close_all over the slots `is`: the text in `error`, and the client. -/
def closeAllFrom (closeErr : Nat → Option String) :
    List Nat → Option String → LdapT → Except Fault (Option String × LdapT × List Event)
  | [], text, dc => .ok (text, dc, [])
  | i :: is, text, dc =>
    match dc.clientArray i with
    | none => closeAllFrom closeErr is text dc
    | some _ => do
      let (out, dc, log) ← ldapClntClose (closeErr i) i dc
      let (text, dc, log') ← closeAllFrom closeErr is (out.error <|> text) dc
      pure (text, dc, log ++ log')

/-- LDAP_clnt_close_all -/
def ldapClntCloseAll (closeErr : Nat → Option String) (dc : LdapT) :
    Except Fault (Option String × LdapT × List Event) :=
  closeAllFrom closeErr (List.range ldapMaxClient) none dc

/-! ## Numbers -/

/-- Each connection knows its slot. -/
def Numbered (k : Pool) : Prop := ∀ i c, k.clientArray i = some c → (k.conns c).no = i

section Numbered

variable {k k' : Pool} {e : Event} {ready wait : List Ptr}

theorem after_no {cn : Conn} {max : Int} (old : e.opens = false) :
    (cn.after max e).no = cn.no := by
  cases e with
  | opened i c => cases old
  | leaked i c => cases old
  | flushed c ber =>
    simp only [Conn.after]
    split <;> rfl
  | sent c bytes =>
    simp only [Conn.after]
    split <;> rfl
  | answered c resp =>
    simp only [Conn.after]
    split <;> rfl
  | keptAlive c resp waiting =>
    simp only [Conn.after]
    split <;> rfl
  | _ => rfl

/-- A slot that is in use after an event that opens nothing was in use before it. -/
theorem slotsAfter_old {slots : Nat → Option Ptr} {i : Nat} {c : Ptr} (old : e.opens = false)
    (h : slotsAfter slots e i = some c) : slots i = some c := by
  cases e with
  | opened i c => cases old
  | leaked i c => cases old
  | closed j c' => exact (Agree.vacated_iff.1 h).2
  | _ => exact h

theorem Numbered.step (h : Numbered k) (agree : Agree k ready wait) (clean : e.clean)
    (hstep : k.step e = .ok k') : Numbered k' := by
  have spec := step_spec hstep
  intro i c hslot
  rw [spec.slots] at hslot
  by_cases new : e.opens = true
  · cases e with
    | opened j c' =>
      obtain ⟨k₁, halloc, -⟩ := bind_eq_ok.1 hstep
      obtain ⟨_, hguard, -⟩ := bind_eq_ok.1 halloc
      obtain ⟨-, hfree, hnew⟩ := Pool.require_eq_ok.1 hguard
      rcases (Agree.occupied_iff hfree).1 hslot with ⟨rfl, rfl⟩ | hold
      · rw [spec.conn rfl]
        rfl
      · have hne : c' ≠ c := by
          rintro rfl
          have halloc := agree.rings.alloc ((agree.slots c').2 ⟨i, hold⟩)
          rw [Option.isNone_iff_eq_none] at hnew
          rw [hnew] at halloc
          cases halloc
        rw [spec.other fun habout => hne (Option.some.inj habout)]
        exact h i c hold
    | leaked j c' => cases clean
    | _ => cases new
  · have old := Bool.eq_false_of_not_eq_true new
    have hold := slotsAfter_old old hslot
    by_cases about : e.about = some c
    · rw [spec.conn about, after_no old]
      exact h i c hold
    · rw [spec.other about]
      exact h i c hold

end Numbered

/-- Slots, rings and states agree, and each connection knows its slot. -/
def Orderly (dc : LdapT) : Prop := ConnectionsAgree dc ∧ Numbered dc.pool

theorem orderly_of_run {s : Setup} {calls : List Call} {dc : LdapT} {log : List Event}
    (h : runCalls calls s.start = .ok (dc, log)) (clean : ∀ e ∈ log, e.clean) : Orderly dc := by
  have along : Along Pool.step (fun _ _ e => e.clean) s.start.pool log := by
    rintro before e after _ rfl -
    exact clean e (List.mem_append_right _ List.mem_cons_self)
  have hstart : Numbered s.start.pool := by
    intro i c hslot
    have harray : s.start.pool.clientArray i = none :=
      congrFun s.start_unconnected.clientArray i
    rw [harray] at hslot
    cases hslot
  refine run_invariant (I := fun _ k => (∃ ready wait, Agree k ready wait) ∧ Numbered k)
    ⟨⟨[], [], s.start_unconnected.agree⟩, hstart⟩ ?_ along (runCalls_refines h)
  rintro _ k e k' ⟨⟨ready, wait, hagree⟩, hnumbers⟩ hclean hstep
  exact ⟨hagree.step hclean hstep, hnumbers.step hagree hclean hstep⟩

/-! ## One call of LDAP_clnt_close -/

section Sweep

variable {dc dc' : LdapT} {i : Nat} {c : Ptr}

/-- Connections have left their slots and rings, and nothing else has changed. -/
def Left (dc dc' : LdapT) : Prop :=
  ∃ q a n, dc' = { dc with toQueues := q, clientArray := a, clientCount := n }

theorem Left.trans {dc'' : LdapT} (h : Left dc dc') (h' : Left dc' dc'') : Left dc dc'' := by
  obtain ⟨q, a, n, rfl⟩ := h
  obtain ⟨q', a', n', rfl⟩ := h'
  exact ⟨q', a', n', rfl⟩

/-- A connection leaves its ring. -/
theorem Agree.leaves {ready wait : List Ptr} (h : Agree dc.pool ready wait)
    (hslot : dc.clientArray i = some c) :
    ∃ q, dc.leave c ((dc.clients c).state = .stateReady) = .ok q := by
  have hmem : c ∈ ready ++ wait := (h.slots c).2 ⟨i, hslot⟩
  have hstate : c ∈ ready ↔ (dc.clients c).state = .stateReady := h.state c hmem
  by_cases hready : (dc.clients c).state = .stateReady
  · obtain ⟨q, hq, -⟩ := h.rings.removeReady (hstate.2 hready)
    exact ⟨q, (if_pos hready).trans hq⟩
  · have hwait := (List.mem_append.1 hmem).resolve_left (hstate.not.2 hready)
    obtain ⟨q, hq, -⟩ := h.rings.removeWait hwait
    exact ⟨q, (if_neg hready).trans hq⟩

theorem Orderly.close (h : Orderly dc) (hslot : dc.clientArray i = some c)
    (closeErr : Option String) :
    ∃ out dc', ldapClntClose closeErr i dc = .ok (out, dc', [.closed i c]) ∧ Left dc dc' ∧
      dc'.clientArray = Function.update dc.clientArray i none ∧ Orderly dc' := by
  obtain ⟨⟨ready, wait, hagree⟩, hnumbers⟩ := h
  have hinside : i < ldapMaxClient := hagree.inside i c hslot
  have halloc : (dc.links c).isSome := hagree.rings.alloc ((hagree.slots c).2 ⟨i, hslot⟩)
  obtain ⟨q, hq⟩ := hagree.leaves hslot
  have hclnt : dc.clnt c = .ok (dc.clients c) := if_pos halloc
  have hcall : ∃ out, ldapClntClose closeErr i dc = .ok (out, { dc with
      toQueues := { q with links := Function.update q.links c none }
      clientArray := Function.update dc.clientArray i none
      clientCount := dc.clientCount - 1 }, [.closed i c]) := by
    unfold ldapClntClose
    rw [if_neg (by omega)]
    simp only [Int.toNat_natCast, hslot, hclnt, ok_bind, hq]
    cases closeErr <;> exact ⟨_, rfl⟩
  obtain ⟨out, hcall⟩ := hcall
  refine ⟨out, _, hcall, ⟨_, _, _, rfl⟩, rfl, ?_⟩
  obtain ⟨k, hstep, hend⟩ := run_cons (ldapClntClose_refines hcall)
  cases hend
  exact ⟨hagree.step rfl hstep, hnumbers.step hagree rfl hstep⟩

/-! ## The sweeps -/

theorem Left.refl (dc : LdapT) : Left dc dc := ⟨_, _, _, rfl⟩

theorem Left.clients (h : Left dc dc') : dc'.clients = dc.clients := by
  obtain ⟨q, a, n, rfl⟩ := h
  rfl

theorem Left.timedOut (h : Left dc dc') (now : Int) (lc : LdapClnt) :
    timedOut now dc' lc = timedOut now dc lc := by
  obtain ⟨q, a, n, rfl⟩ := h
  rfl

/-- A connection whose time is over. -/
def TimedOut (now : Int) (dc : LdapT) (c : Ptr) : Prop :=
  (timedOut now dc (dc.clients c)).isSome

theorem Left.timedOut_iff (h : Left dc dc') (now : Int) (c : Ptr) :
    TimedOut now dc' c ↔ TimedOut now dc c := by
  rw [TimedOut, h.timedOut, h.clients]
  exact Iff.rfl

/-- LDAP_clnt_check_connection over some slots. -/
theorem Orderly.checkFrom (now : Int) (closeErr : Nat → Option String) (is : List Nat)
    (text : Option String) (h : Orderly dc) :
    ∃ text' dc' log, checkFrom now closeErr is text dc = .ok (⟨.ok, text'⟩, dc', log) ∧
      Left dc dc' ∧ Orderly dc' ∧
      ∀ j y, dc'.clientArray j = some y ↔
        dc.clientArray j = some y ∧ ¬ (j ∈ is ∧ TimedOut now dc y) := by
  induction is generalizing dc text with
  | nil => exact ⟨text, dc, [], rfl, .refl dc, h, by simp⟩
  | cons i is ih =>
    cases hslot : dc.clientArray i with
    | none =>
      obtain ⟨text', dc', log, hrest, hleft, horder, hslots⟩ := ih text h
      refine ⟨text', dc', log, ?_, hleft, horder, fun j y => ?_⟩
      · rw [Ldap.checkFrom, hslot]
        exact hrest
      · rw [hslots, List.mem_cons]
        refine and_congr_right fun hj => not_congr (and_congr_left fun _ => ?_)
        refine (or_iff_right ?_).symm
        rintro rfl
        rw [hslot] at hj
        cases hj
    | some c =>
      obtain ⟨ready, wait, hagree⟩ := h.1
      have halloc : (dc.links c).isSome := hagree.rings.alloc ((hagree.slots c).2 ⟨i, hslot⟩)
      have hclnt : dc.clnt c = .ok (dc.clients c) := if_pos halloc
      have hno : (dc.clients c).no = i := h.2 i c hslot
      cases htime : timedOut now dc (dc.clients c) with
      | none =>
        obtain ⟨text', dc', log, hrest, hleft, horder, hslots⟩ := ih text h
        refine ⟨text', dc', log, ?_, hleft, horder, fun j y => ?_⟩
        · rw [Ldap.checkFrom, hslot]
          simp only [hclnt, ok_bind, htime]
          exact hrest
        · rw [hslots, List.mem_cons]
          refine and_congr_right fun hj => not_congr (and_congr_left fun hout => ?_)
          refine (or_iff_right ?_).symm
          rintro rfl
          obtain rfl : c = y := Option.some.inj (hslot.symm.trans hj)
          rw [TimedOut, htime] at hout
          cases hout
      | some e =>
        obtain ⟨out, dc₁, hclose, hleft₁, hvacated, horder₁⟩ := h.close hslot (closeErr i)
        obtain ⟨text', dc', log, hrest, hleft, horder, hslots⟩ := ih (some e) horder₁
        refine ⟨text', dc', [.closed i c] ++ log, ?_, hleft₁.trans hleft, horder, fun j y => ?_⟩
        · rw [Ldap.checkFrom, hslot]
          simp only [hclnt, ok_bind, htime, hno, hclose, hrest, pure_eq_ok]
        · rw [hslots, hvacated, Agree.vacated_iff, hleft₁.timedOut_iff, List.mem_cons]
          constructor
          · rintro ⟨⟨hji, hj⟩, hnot⟩
            refine ⟨hj, ?_⟩
            rintro ⟨hmem, hout⟩
            exact hnot ⟨hmem.resolve_left hji, hout⟩
          · rintro ⟨hj, hnot⟩
            refine ⟨⟨?_, hj⟩, ?_⟩
            · rintro rfl
              obtain rfl : c = y := Option.some.inj (hslot.symm.trans hj)
              exact hnot ⟨.inl rfl, by rw [TimedOut, htime]; rfl⟩
            · rintro ⟨hmem, hout⟩
              exact hnot ⟨.inr hmem, hout⟩

/-- LDAP_clnt_close_all over some slots. -/
theorem Orderly.closeAllFrom (closeErr : Nat → Option String) {is : List Nat} (once : is.Nodup)
    (text : Option String) (h : Orderly dc) :
    ∃ text' dc', closeAllFrom closeErr is text dc = .ok (text', dc',
        is.filterMap fun i => (dc.clientArray i).map (Event.closed i)) ∧
      Left dc dc' ∧ Orderly dc' ∧
      ∀ j y, dc'.clientArray j = some y ↔ dc.clientArray j = some y ∧ j ∉ is := by
  induction is generalizing dc text with
  | nil => exact ⟨text, dc, rfl, .refl dc, h, by simp⟩
  | cons i is ih =>
    obtain ⟨hnew, once⟩ := List.nodup_cons.1 once
    cases hslot : dc.clientArray i with
    | none =>
      obtain ⟨text', dc', hrest, hleft, horder, hslots⟩ := ih once text h
      refine ⟨text', dc', ?_, hleft, horder, fun j y => ?_⟩
      · rw [Ldap.closeAllFrom, hslot, List.filterMap_cons, hslot]
        exact hrest
      · rw [hslots, List.mem_cons]
        refine and_congr_right fun hj => not_congr ((or_iff_right ?_).symm)
        rintro rfl
        rw [hslot] at hj
        cases hj
    | some c =>
      obtain ⟨out, dc₁, hclose, hleft₁, hvacated, horder₁⟩ := h.close hslot (closeErr i)
      obtain ⟨text', dc', hrest, hleft, horder, hslots⟩ :=
        ih once (out.error <|> text) horder₁
      have hsame : (is.filterMap fun j => (dc₁.clientArray j).map (Event.closed j)) =
          is.filterMap fun j => (dc.clientArray j).map (Event.closed j) := by
        refine List.filterMap_congr fun j hj => ?_
        rw [hvacated, Function.update_of_ne]
        rintro rfl
        exact hnew hj
      refine ⟨text', dc', ?_, hleft₁.trans hleft, horder, fun j y => ?_⟩
      · rw [Ldap.closeAllFrom, hslot, List.filterMap_cons, hslot, ← hsame]
        simp only [hclose, ok_bind, hrest, pure_eq_ok]
        rfl
      · rw [hslots, hvacated, Agree.vacated_iff, List.mem_cons, not_or]
        tauto

end Sweep

/-! ## What a run can close -/

/-- Something has been waiting on the connection for longer than it may: bytes to be decoded,
bytes to be sent, or a bind request to be answered. -/
def Stuck (now : Int) (dc : LdapT) (lc : LdapClnt) : Prop :=
  (0 < lc.rb.rLen ∧ 0 < dc.readTimeout ∧ dc.readTimeout ≤ now - lc.readTime) ∨
    (lc.Outgoing ∧ 0 < dc.writeTimeout ∧ dc.writeTimeout ≤ now - lc.writeTime) ∨
    (lc.state = .stateConnecting ∧ 0 < dc.connectTimeout ∧
      dc.connectTimeout ≤ now - lc.createTime)

theorem timedOut_iff_stuck {now : Int} {dc : LdapT} {lc : LdapClnt} (h : lc.TimersTrue) :
    (timedOut now dc lc).isSome ↔ Stuck now dc lc := by
  rw [Stuck, ← h.input, ← h.output]
  unfold timedOut
  split
  · rename_i hread
    exact iff_of_true rfl (.inl hread)
  rename_i hread
  split
  · rename_i hwrite
    exact iff_of_true rfl (.inr (.inl hwrite))
  rename_i hwrite
  split
  · rename_i hconnect
    exact iff_of_true rfl (.inr (.inr hconnect))
  · rename_i hconnect
    refine iff_of_false Bool.false_ne_true ?_
    rintro (hstuck | hstuck | hstuck)
    · exact hread hstuck
    · exact hwrite hstuck
    · exact hconnect hstuck

theorem run_of_runCalls {calls : List Call} {dc dc' : LdapT} {log : List Event}
    (h : runCalls calls dc = .ok (dc', log)) : run callStep dc calls = .ok dc' := by
  induction calls generalizing dc log with
  | nil =>
    cases h
    rfl
  | cons call calls ih =>
    obtain ⟨⟨out, dc₁, log₁⟩, hcall, h⟩ := bind_eq_ok.1 h
    obtain ⟨⟨dc₂, log₂⟩, hrest, h⟩ := bind_eq_ok.1 h
    cases h
    exact run_cons_ok (bind_eq_ok.2 ⟨_, hcall, rfl⟩) (ih hrest)

theorem timed_of_run {s : Setup} {calls : List Call} {dc : LdapT}
    (clocked : ∀ call ∈ calls, call.Clocked)
    (timely : Along callStep (fun _ dc call => call.Timely dc) s.start calls)
    (h : run callStep s.start calls = .ok dc) : dc.Timed := by
  have hcalls : Along callStep (fun _ _ call => call ∈ calls) s.start calls := by
    rintro before call after _ rfl -
    exact List.mem_append_right _ List.mem_cons_self
  refine run_invariant (I := fun _ => LdapT.Timed) s.start_timed ?_ (timely.and hcalls) h
  rintro _ dc call dc' htimed ⟨hok, hmem⟩ hstep
  exact htimed.step (clocked call hmem) hstep hok

/-- After a run that keeps slots and rings in agreement and the clocks true, at any time and with
any timeouts, LDAP_clnt_check_connection closes exactly the connections that are stuck, and leaves
the others as they are. -/
theorem check_closes_stuck (s : Setup) (calls : List Call) (dc : LdapT) (log : List Event)
    (clocked : ∀ call ∈ calls, call.Clocked) (h : runCalls calls s.start = .ok (dc, log))
    (clean : ∀ e ∈ log, e.clean)
    (timely : Along callStep (fun _ dc call => call.Timely dc) s.start calls) (now : Int)
    (closeErr : Nat → Option String) :
    ∃ text dc' log', ldapClntCheckConnection now closeErr dc = .ok (⟨.ok, text⟩, dc', log') ∧
      dc'.clients = dc.clients ∧ ConnectionsAgree dc' ∧
      ∀ i c, dc'.clientArray i = some c ↔
        dc.clientArray i = some c ∧ ¬ Stuck now dc (dc.clients c) := by
  have htimed := timed_of_run clocked timely (run_of_runCalls h)
  have horder := orderly_of_run h clean
  obtain ⟨text, dc', log', hcheck, hleft, horder', hslots⟩ :=
    horder.checkFrom now closeErr (List.range ldapMaxClient) none
  refine ⟨text, dc', log', hcheck, hleft.clients, horder'.1, fun i c => ?_⟩
  obtain ⟨ready, wait, hagree⟩ := horder.1
  rw [hslots, ← timedOut_iff_stuck (htimed.clients c).toTimersTrue]
  refine and_congr_right fun hslot => not_congr (and_iff_right ?_)
  exact List.mem_range.2 (hagree.inside i c hslot)

/-- Two connections, of which one has sent its bind request. -/
def bindUnanswered : List Call :=
  [.open 1 .connected (some 1) true, .open 1 .connected (some 2) true,
    .write 1 .none (.wrote 14) 1]

def withWriteTimeout : Setup := { oneAtATime with options := [.writeTimeout 10] }

/-- The one is closed, the other is kept. -/
theorem check_closes_stuck_bind :
    ∃ dc log, runCalls bindUnanswered withWriteTimeout.start = .ok (dc, log) ∧
      ∃ text dc' log', ldapClntCheckConnection 20 (fun _ => none) dc =
          .ok (⟨.ok, text⟩, dc', log') ∧
        dc'.clientArray 0 ≠ some 1 ∧ dc'.clientArray 1 = some 2 := by
  obtain ⟨dc, log, hrun, hend⟩ := runCalls_of_check (s := withWriteTimeout) (c := bindUnanswered)
    (P := fun dc log => log.all Event.clean ∧ dc.clientArray 1 = some 2 ∧ dc.writeTimeout = 10 ∧
      (dc.clients 1).state = .stateConnecting ∧ (dc.clients 1).writeTime = 1 ∧
      (dc.clients 2).state = .stateOpen ∧ (dc.clients 2).rb.rLen = 0 ∧
      (dc.clients 2).conn.pending = []) (by decide +kernel)
  obtain ⟨hclean, hslot, htimeout, hconnecting, hwrite, hopen, hlen, hpending⟩ :=
    of_decide_eq_true hend
  have clocked : ∀ call ∈ bindUnanswered, call.Clocked := by
    simp [bindUnanswered, Call.Clocked]
  have timely : Along callStep (fun _ dc call => call.Timely dc) withWriteTimeout.start
      bindUnanswered := by
    intro before call after dc he _ out dc' log _ bad
    have hmem : call ∈ bindUnanswered := by
      rw [he]
      exact List.mem_append_right _ List.mem_cons_self
    simp only [bindUnanswered, List.mem_cons, List.not_mem_nil, or_false] at hmem
    rcases hmem with rfl | rfl | rfl <;> exact bad
  obtain ⟨text, dc', log', hcheck, -, -, hslots⟩ := check_closes_stuck _ _ dc log clocked hrun
    (List.all_eq_true.1 hclean) timely 20 fun _ => none
  refine ⟨dc, log, hrun, text, dc', log', hcheck, fun hkept => ?_, (hslots 1 2).2 ⟨hslot, ?_⟩⟩
  · refine ((hslots 0 1).1 hkept).2 (.inr (.inl ⟨.inl hconnecting, ?_⟩))
    rw [htimeout, hwrite]
    decide
  · rintro (⟨hunread, -⟩ | ⟨hout | hout, -⟩ | ⟨hstate, -⟩)
    · rw [hlen] at hunread
      exact lt_irrefl 0 hunread
    · cases hopen.symm.trans hout
    · exact hout hpending
    · cases hopen.symm.trans hstate

/-- After a run that keeps slots and rings in agreement, LDAP_clnt_close_all closes every connection
once, in the order of the slots, and then both rings are empty, no connection is allocated, and
client_count is 0. -/
theorem close_all_empties (s : Setup) (calls : List Call) (dc : LdapT) (log : List Event)
    (h : runCalls calls s.start = .ok (dc, log)) (clean : ∀ e ∈ log, e.clean)
    (closeErr : Nat → Option String) :
    ∃ text dc', ldapClntCloseAll closeErr dc = .ok (text, dc',
        (List.range ldapMaxClient).filterMap fun i => (dc.clientArray i).map (Event.closed i)) ∧
      (∀ i, dc'.clientArray i = none) ∧ dc'.readyQueue = none ∧ dc'.waitQueue = none ∧
      (∀ c, dc'.links c = none) ∧ dc'.clientCount = 0 := by
  have horder := orderly_of_run h clean
  obtain ⟨text, dc', hclose, hleft, ⟨⟨ready', wait', hagree'⟩, -⟩, hslots⟩ :=
    horder.closeAllFrom closeErr List.nodup_range none
  obtain ⟨ready, wait, hagree⟩ := horder.1
  have hnone : ∀ i, dc'.clientArray i = none := by
    intro i
    refine Option.eq_none_iff_forall_ne_some.2 fun c hslot => ?_
    obtain ⟨hold, hout⟩ := (hslots i c).1 hslot
    exact hout (List.mem_range.2 (hagree.inside i c hold))
  have hempty : ready' ++ wait' = [] := by
    refine List.eq_nil_iff_forall_not_mem.2 fun c hmem => ?_
    obtain ⟨i, hslot⟩ := (hagree'.slots c).1 hmem
    cases (hnone i).symm.trans hslot
  obtain ⟨rfl, rfl⟩ := List.append_eq_nil_iff.1 hempty
  refine ⟨text, dc', hclose, hnone, hagree'.rings.readyRing.head, hagree'.rings.waitRing.head,
    fun c => ?_, ?_⟩
  · refine Option.not_isSome_iff_eq_none.1 fun halloc => ?_
    exact absurd (hagree'.allocated c halloc) List.not_mem_nil
  · have hcount := hagree'.count
    have hslots' : dc'.pool.clientArray = fun _ => none := funext hnone
    rw [hslots'] at hcount
    have hzero : dc'.pool.clientCount = 0 := by simpa [usedSlots] using hcount
    exact hzero

theorem close_all_empties_bind :
    ∃ dc log, runCalls bindUnanswered withWriteTimeout.start = .ok (dc, log) ∧
      ∃ text dc', ldapClntCloseAll (fun _ => none) dc = .ok (text, dc',
          (List.range ldapMaxClient).filterMap fun i => (dc.clientArray i).map (Event.closed i)) ∧
        (∀ i, dc'.clientArray i = none) ∧ dc'.readyQueue = none ∧ dc'.waitQueue = none ∧
        (∀ c, dc'.links c = none) ∧ dc'.clientCount = 0 := by
  obtain ⟨dc, log, hrun, hclean⟩ := runCalls_of_check (s := withWriteTimeout)
    (c := bindUnanswered) (P := fun _ log => log.all Event.clean) (by decide +kernel)
  exact ⟨dc, log, hrun,
    close_all_empties _ _ dc log hrun (List.all_eq_true.1 hclean) fun _ => none⟩

end CassandraApi.Ldap
