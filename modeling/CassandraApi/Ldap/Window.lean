/-
# `Ldap.Window` — how many requests a connection has outstanding

concurrent_count goes up where a request is copied to a connection and down where
a final answer has been decoded; max_concurrent is to bound it.  One of the places
that copy looks at the bound: it takes a connection of ready_queue and moves it to
wait_queue when the bound is reached.  The others are

    direct        LDAP_clnt_send_message for a connection that the caller names
    established   a connection that was given requests before its bind response
    leaked, keptAlive true      as in `Ldap.Agreement`

and the window is kept in every state of a run exactly when these find room in it
or do not occur (`window_kept_iff`).
-/
import CassandraApi.Ldap.SendPath

namespace CassandraApi.Ldap

open C Ber Lib

/-! ## Requests and answers -/

/-- What an event adds to the requests without an answer. -/
def Event.credit : Event → Int
  | .direct _ _ => 1
  | .flushed _ _ => 1
  | .answered _ _ => -1
  | _ => 0

def unansweredStep (c : Ptr) (n : Int) (e : Event) : Int :=
  if e.about = some c then if e.opens then 0 else n + e.credit else n

/-- The requests copied to `c` since it was opened, less the final answers decoded since. -/
def unanswered (c : Ptr) (log : List Event) : Int := log.foldl (unansweredStep c) 0

theorem unanswered_snoc (c : Ptr) (log : List Event) (e : Event) :
    unanswered c (log ++ [e]) = unansweredStep c (unanswered c log) e := by
  rw [unanswered, List.foldl_append]
  rfl

/-! ## The window -/

/-- Slots, rings and states agree; no connection has more than max_concurrent requests without an
answer, and those of ready_queue have fewer. -/
def Windowed (log : List Event) (k : Pool) : Prop :=
  ∃ ready wait, Agree k ready wait ∧
    (∀ c ∈ ready ++ wait, (k.conns c).concurrentCount = unanswered c log ∧
      0 ≤ (k.conns c).concurrentCount ∧ (k.conns c).concurrentCount ≤ k.maxConcurrent) ∧
    ∀ c ∈ ready, (k.conns c).concurrentCount < k.maxConcurrent

/-- An event that leaves room in the window of its connection. -/
def KeepsWindow (k : Pool) : Event → Prop
  | .direct c _ =>
      (k.conns c).concurrentCount + 1 ≤ k.maxConcurrent ∧
        ((k.conns c).state = .stateReady →
          (k.conns c).concurrentCount + 1 < k.maxConcurrent)
  | .established c => (k.conns c).concurrentCount < k.maxConcurrent
  | .leaked _ _ => False
  | .keptAlive _ _ waiting => waiting = false
  | _ => True

/-- The window of one connection, by its state. -/
structure InWindow (max n : Int) (cn : Conn) : Prop where
  count : cn.concurrentCount = n
  low : 0 ≤ cn.concurrentCount
  high : cn.concurrentCount ≤ max
  ready : cn.state = .stateReady → cn.concurrentCount < max

section Conn

variable {cn cn' : Conn} {max n : Int} {k : Pool} {c : Ptr} {e : Event}

/-- Another state of a connection that is not in ready_queue, or the same. -/
theorem InWindow.same (h : InWindow max n cn) (hcount : cn'.concurrentCount = cn.concurrentCount)
    (hstate : cn'.state = .stateReady → cn.concurrentCount < max) : InWindow max (n + 0) cn' where
  count := hcount.trans (h.count.trans (Int.add_zero n).symm)
  low := hcount ▸ h.low
  high := hcount ▸ h.high
  ready hready := hcount ▸ hstate hready

theorem requested_count (int : max < 2 ^ 31) (low : 0 ≤ cn.concurrentCount)
    (room : cn.concurrentCount + 1 ≤ max) (ber : BER) :
    (cn.requested ber).concurrentCount = cn.concurrentCount + 1 :=
  int32_of_range (by omega) (by omega)

theorem opened_inWindow (one : 1 ≤ max) (about : e.about = some c) (new : e.opens = true) :
    InWindow max 0 (cn.after max e) := by
  have fresh : ∀ cn' : Conn, cn'.concurrentCount = 0 → InWindow max 0 cn' :=
    fun cn' h => ⟨h, h ▸ Int.le_refl 0, by omega, fun _ => by omega⟩
  cases e with
  | opened i c' => exact fresh _ rfl
  | leaked i c' => exact fresh _ rfl
  | _ => cases new

/-- What another event makes of the window of the connection that it is about.  A BER comes out of
send_msg_queue for a connection in ready_queue only. -/
theorem InWindow.after (h : InWindow max n (k.conns c)) (int : max < 2 ^ 31)
    (hmax : k.maxConcurrent = max) (about : e.about = some c) (enabled : e.Enabled k)
    (old : e.opens = false) (head : k.readyQueue = some c → (k.conns c).state = .stateReady)
    (keeps : KeepsWindow k e) :
    InWindow max (n + e.credit) ((k.conns c).after max e) := by
  subst hmax
  have hlow := h.low
  have hhigh := h.high
  have hn := h.count
  cases e with
  | opened i c' => cases old
  | leaked i c' => cases old
  | closed i c' => cases about
  | queued ber => cases about
  | keepaliveEntry c' resp => cases about
  | direct c' ber =>
    cases about
    obtain ⟨room, more⟩ := keeps
    have hcount := requested_count int hlow room ber
    exact ⟨hcount.trans (congrArg (· + 1) hn), hcount ▸ by omega, hcount ▸ room,
      fun hready => hcount ▸ more hready⟩
  | flushed c' ber =>
    cases about
    have hless := h.ready (head enabled.1)
    have hcount := requested_count int hlow (by omega) ber
    have hsum : ((k.conns c).requested ber).concurrentCount = n + 1 := hcount.trans (by omega)
    have hroom : ((k.conns c).requested ber).concurrentCount ≤ k.maxConcurrent := by omega
    have hpos : 0 ≤ ((k.conns c).requested ber).concurrentCount := by omega
    -- full, it is in another state; else there is room for one more
    simp only [Conn.after]
    split
    · exact ⟨hsum, hpos, hroom, fun hready => by cases hready⟩
    · exact ⟨hsum, hpos, hroom, fun _ => by omega⟩
  | answered c' resp =>
    cases about
    have hpos : 0 < (k.conns c).concurrentCount := enabled
    have hsum : (k.conns c).concurrentCount - 1 = n + -1 := by omega
    have hless : (k.conns c).concurrentCount - 1 < k.maxConcurrent := by omega
    have hnonneg : 0 ≤ (k.conns c).concurrentCount - 1 := by omega
    simp only [Conn.after]
    split <;> exact ⟨hsum, hnonneg, hless.le, fun _ => hless⟩
  | bindSent c' =>
    cases about
    exact h.same rfl fun hready => by cases hready
  | established c' =>
    cases about
    exact h.same rfl fun _ => keeps
  | sent c' bytes =>
    cases about
    simp only [Conn.after]
    split <;> exact h.same rfl h.ready
  | keptAlive c' resp waiting =>
    cases about
    obtain rfl : waiting = false := keeps
    exact h.same rfl h.ready
  | _ =>
    cases about
    exact h.same rfl h.ready

end Conn

/-! ## What breaks it -/

section Breaks

variable {k k' : Pool} {c : Ptr} {e : Event} {log log' : List Event} {ready wait : List Ptr}

/-- What the walk finds is a member. -/
theorem mem_of_findInRing {links : Heap Ptr} {first : Ptr} (ring : IsRing links (some first) wait)
    {left : Nat} {a : Ptr} (ha : a ∈ wait) (h : findInRing links c first left a = .ok true) :
    c ∈ wait := by
  induction left generalizing a with
  | zero => cases h
  | succ left ih =>
    rw [findInRing] at h
    split at h
    · rename_i hca
      exact hca ▸ ha
    · obtain ⟨node, hnode, h⟩ := bind_eq_ok.1 h
      obtain ⟨next, hnext, h⟩ := bind_eq_ok.1 h
      split at h
      · cases h
      · refine ih ?_ h
        obtain ⟨⟨n, hn, hlink⟩, -⟩ := ring.cycle.links ha
        obtain ⟨node', hnode', -, hsame⟩ := node_eq (alloc_of_next hlink)
        obtain rfl : node' = node := Except.ok.inj (hnode'.symm.trans hnode)
        rw [hsame, hlink] at hnext
        exact Except.ok.inj hnext ▸ hn

theorem Agree.wait_of_waits {left : Nat} (h : Agree k ready wait) (hw : k.waits c left = .ok true) :
    c ∈ wait := by
  unfold Queues.waits at hw
  split at hw
  · cases hw
  · rename_i first hfirst
    have ring := h.rings.waitRing
    rw [hfirst] at ring
    refine mem_of_findInRing ring (a := first) ?_ hw
    exact List.mem_of_mem_head? ring.head.symm

/-- A connection that is left in client_array and put on no ring. -/
theorem not_agree_of_leaked {i : Nat} (hstep : k.step (.leaked i c) = .ok k') :
    ¬ Agree k' ready wait := by
  obtain ⟨_, -, hstep⟩ := bind_eq_ok.1 hstep
  cases hstep
  intro h
  let links : Heap Ptr := Function.update k.links c (some {})
  have hlinks : links c = some {} := Function.update_self ..
  have hmem : c ∈ ready ++ wait := h.allocated c (by
    show (links c).isSome
    rw [hlinks]
    rfl)
  have hlink : ∃ n, links.next c = some n := by
    rcases List.mem_append.1 hmem with hr | hw
    · obtain ⟨⟨n, -, hn⟩, -⟩ := h.rings.readyRing.cycle.links hr
      exact ⟨n, hn⟩
    · obtain ⟨⟨n, -, hn⟩, -⟩ := h.rings.waitRing.cycle.links hw
      exact ⟨n, hn⟩
  obtain ⟨n, hn⟩ := hlink
  rw [Heap.next, hlinks] at hn
  cases hn

/-- A connection that was moved to ready_queue and is not ready. -/
theorem not_agree_of_keptAlive {resp : Response} {ready' wait' : List Ptr}
    (h : Agree k ready wait) (hstep : k.step (.keptAlive c resp true) = .ok k') :
    ¬ Agree k' ready' wait' := by
  obtain ⟨cn, hcn, hstep⟩ := bind_eq_ok.1 hstep
  obtain ⟨_, -, hstep⟩ := bind_eq_ok.1 hstep
  obtain ⟨found, hfound, hstep⟩ := bind_eq_ok.1 hstep
  obtain ⟨_, hguard, hstep⟩ := bind_eq_ok.1 hstep
  obtain rfl : found = true := Pool.require_eq_ok.1 hguard
  simp only [if_true] at hstep
  obtain ⟨q, hq, hstep⟩ := bind_eq_ok.1 hstep
  have hc := h.wait_of_waits hfound
  obtain ⟨hmem, rfl⟩ := h.ready_or_wait hcn
  have hstate : (k.conns c).state ≠ .stateReady := by
    rw [Ne, ← h.state c hmem]
    exact fun hr => h.rings.disjoint hr hc
  obtain ⟨q', hq', rings, -⟩ := h.rings.toReady hc
  obtain rfl : q = q' := Except.ok.inj (hq.symm.trans hq')
  cases hstep
  intro h'
  obtain rfl : ready' = ready ++ [c] := h'.rings.readyRing.unique rings.readyRing
  have hready : c ∈ ready ++ [c] := List.mem_append_right _ List.mem_cons_self
  have hafter := (h'.state c (List.mem_append_left _ hready)).1 hready
  simp only [Pool.put, Function.update_self] at hafter
  exact hstate hafter

/-- An event after which the window holds has left room in it. -/
theorem keepsWindow_of_windowed (h : Windowed log k) (int : k.maxConcurrent < 2 ^ 31)
    (hstep : k.step e = .ok k') (after : Windowed log' k') : KeepsWindow k e := by
  obtain ⟨ready, wait, hagree, hcount, hless⟩ := h
  obtain ⟨ready', wait', hagree', hcount', hless'⟩ := after
  cases e with
  | leaked i c => exact not_agree_of_leaked hstep hagree'
  | keptAlive c resp waiting =>
    cases waiting with
    | true => exact absurd hagree' (not_agree_of_keptAlive hagree hstep)
    | false => rfl
  | direct c ber =>
    obtain ⟨cn, hcn, hstep⟩ := bind_eq_ok.1 hstep
    obtain ⟨cn', hcopy, hstep⟩ := bind_eq_ok.1 hstep
    obtain ⟨hmem, rfl⟩ := hagree.ready_or_wait hcn
    obtain ⟨-, rfl⟩ := copy_spec hcopy
    cases hstep
    have hmem' : c ∈ ready' ++ wait' := (hagree'.slots c).2 ((hagree.slots c).1 hmem)
    obtain ⟨-, hlow, hhigh⟩ := hcount c hmem
    obtain ⟨-, hlow', hhigh'⟩ := hcount' c hmem'
    simp only [Pool.put, Function.update_self] at hlow' hhigh'
    -- past the largest int the counter would be negative
    have hsum : int32 ((k.conns c).concurrentCount + 1) = (k.conns c).concurrentCount + 1 := by
      by_cases hlast : (k.conns c).concurrentCount + 1 < 2 ^ 31
      · exact int32_of_range (by omega) hlast
      · have hend : (k.conns c).concurrentCount + 1 = 2 ^ 31 := by omega
        rw [hend] at hlow'
        exact absurd hlow' (by decide)
    rw [hsum] at hhigh'
    refine ⟨hhigh', fun hready => ?_⟩
    have hready' : c ∈ ready' := by
      rw [hagree'.state c hmem']
      simpa only [Pool.put, Function.update_self] using hready
    have hroom := hless' c hready'
    simpa only [Pool.put, Function.update_self, hsum] using hroom
  | established c =>
    have hspec := step_spec hstep
    obtain ⟨cn, hcn, hstep⟩ := bind_eq_ok.1 hstep
    obtain ⟨_, -, hstep⟩ := bind_eq_ok.1 hstep
    obtain ⟨q, -, hstep⟩ := bind_eq_ok.1 hstep
    obtain ⟨hmem, rfl⟩ := hagree.ready_or_wait hcn
    have hmem' : c ∈ ready' ++ wait' := by
      rw [hagree'.slots]
      cases hstep
      exact (hagree.slots c).1 hmem
    have hconn := hspec.conn (c := c) rfl
    have hready' : c ∈ ready' := by
      rw [hagree'.state c hmem', hconn]
      rfl
    have hroom := hless' c hready'
    rw [hconn, hspec.max] at hroom
    exact hroom
  | _ => trivial

end Breaks

/-! ## Runs -/

section Run

variable {k k' : Pool} {e : Event} {log : List Event} {max : Int}

theorem KeepsWindow.clean (h : KeepsWindow k e) : e.clean := by
  cases e with
  | leaked i c => exact h.elim
  | keptAlive c resp waiting =>
    obtain rfl : waiting = false := h
    rfl
  | _ => rfl

/-- The window by states, of every connection there was. -/
structure StateWindows (max : Int) (log : List Event) (k : Pool) : Prop where
  bound : k.maxConcurrent = max
  agree : ∃ ready wait, Agree k ready wait
  windows : ∀ c, InWindow max (unanswered c log) (k.conns c)

theorem StateWindows.windowed (h : StateWindows max log k) : Windowed log k := by
  obtain ⟨ready, wait, hagree⟩ := h.agree
  refine ⟨ready, wait, hagree, fun c _ => ⟨(h.windows c).count, (h.windows c).low, ?_⟩,
    fun c hc => ?_⟩
  · rw [h.bound]
    exact (h.windows c).high
  · rw [h.bound]
    exact (h.windows c).ready ((hagree.state c (List.mem_append_left _ hc)).1 hc)

theorem StateWindows.step (h : StateWindows max log k) (one : 1 ≤ max) (int : max < 2 ^ 31)
    (keeps : KeepsWindow k e) (hstep : k.step e = .ok k') : StateWindows max (log ++ [e]) k' := by
  have spec := step_spec hstep
  obtain ⟨ready, wait, hagree⟩ := h.agree
  refine ⟨spec.max.trans h.bound, hagree.step keeps.clean hstep, fun c => ?_⟩
  rw [unanswered_snoc, unansweredStep]
  by_cases about : e.about = some c
  · rw [spec.conn about, h.bound, if_pos about]
    by_cases new : e.opens = true
    · rw [if_pos new]
      exact opened_inWindow one about new
    · rw [if_neg new]
      refine (h.windows c).after int h.bound about spec.enabled (Bool.eq_false_of_not_eq_true new)
        (fun hhead => ?_) keeps
      have hmem : c ∈ ready :=
        List.mem_of_mem_head? (hagree.rings.readyRing.head.symm.trans hhead)
      exact (hagree.state c (List.mem_append_left _ hmem)).1 hmem
  · rw [spec.other about, if_neg about]
    exact h.windows c

theorem Unconnected.stateWindows {dc : LdapT} (h : Unconnected dc) (one : 1 ≤ dc.maxConcurrent) :
    StateWindows dc.maxConcurrent [] dc.pool where
  bound := rfl
  agree := ⟨[], [], h.agree⟩
  windows c := by
    have hconn : dc.pool.conns c = ({ no := 0 } : LdapClnt).conn := by
      simp only [LdapT.pool, h.clients]
    rw [hconn]
    exact ⟨rfl, Int.le_refl 0, by show (0 : Int) ≤ _; omega, fun hready => by cases hready⟩

theorem stateWindows_of_run {s : Setup} (one : 1 ≤ s.start.maxConcurrent)
    (int : s.start.maxConcurrent < 2 ^ 31)
    (along : Along Pool.step (fun _ => KeepsWindow) s.start.pool log)
    (hrun : run Pool.step s.start.pool log = .ok k) :
    StateWindows s.start.maxConcurrent log k :=
  run_invariant (I := StateWindows s.start.maxConcurrent)
    (s.start_unconnected.stateWindows one)
    (fun _ _ _ _ hin keeps hstep => hin.step one int keeps hstep) along hrun

/-- In every state of a run slots, rings and states agree, concurrent_count is the number of
requests without an answer and at most max_concurrent, and below it for a connection in
ready_queue, if and only if every event of the run leaves room in the window. -/
theorem window_kept_iff (s : Setup) (calls : List Call) (dc : LdapT) (log : List Event)
    (one : 1 ≤ s.start.maxConcurrent) (int : s.start.maxConcurrent < 2 ^ 31)
    (h : runCalls calls s.start = .ok (dc, log)) :
    (∀ before after k, log = before ++ after → run Pool.step s.start.pool before = .ok k →
        Windowed before k) ↔
      Along Pool.step (fun _ => KeepsWindow) s.start.pool log := by
  have hrun := runCalls_refines h
  constructor
  · rintro windowed before e after k rfl hbefore
    obtain ⟨k₁, hk₁, hrest⟩ := run_append hrun
    obtain rfl : k₁ = k := Except.ok.inj (hk₁.symm.trans hbefore)
    obtain ⟨k', hstep, -⟩ := run_cons hrest
    have hmax : k₁.maxConcurrent = s.start.maxConcurrent :=
      run_invariant (I := fun _ k => k.maxConcurrent = s.start.maxConcurrent)
        rfl (fun _ _ _ _ hin _ hs => (step_spec hs).max.trans hin)
        (show Along Pool.step (fun _ _ _ => True) _ before from fun _ _ _ _ _ _ => trivial) hbefore
    have hnow := windowed before (e :: after) k₁ rfl hbefore
    have hnext := windowed (before ++ [e]) after k' (by simp)
      (run_append_ok hbefore (run_single hstep))
    exact keepsWindow_of_windowed hnow (by omega) hstep hnext
  · rintro keeps before after k rfl hbefore
    exact (stateWindows_of_run one int keeps.left hbefore).windowed

/-- A connection on ready_queue whose window is full. -/
theorem not_windowed_of_full {c : Ptr} (hready : k.readyQueue = some c)
    (hfull : k.maxConcurrent ≤ (k.conns c).concurrentCount) : ¬ Windowed log k := by
  rintro ⟨ready, wait, hagree, -, hless⟩
  have hhead : k.readyQueue = ready.head? := hagree.rings.readyRing.head
  rw [hready] at hhead
  exact absurd (hless c (List.mem_of_mem_head? hhead.symm)) (by omega)

/-- The one request that may be outstanding is sent on a connection that is named. -/
def sendOnNamed : List Call :=
  [.open 1 .connected (some 1) true,
    .write 1 .none (.wrote 14) 1,
    .read 1 .none (fun _ => 0) (some fun _ => 0)
      (.data [0x30, 12, 2, 1, 1, 0x61, 7, 0x0a, 1, 0, 4, 0, 4, 0]) 1,
    .sendMessage 1 {} ⟨fun _ => true, none⟩ (some 1) (some ⟨512, [0x30, 5, 2, 1, 1, 0x42, 0]⟩)]

/-- The connection stays on ready_queue. -/
theorem window_kept_iff_named :
    ∃ dc log, runCalls sendOnNamed oneAtATime.start = .ok (dc, log) ∧
      ¬ Along Pool.step (fun _ => KeepsWindow) oneAtATime.start.pool log := by
  obtain ⟨dc, log, hrun, hend⟩ := runCalls_of_check (s := oneAtATime) (c := sendOnNamed)
    (P := fun dc _ => dc.readyQueue = some 1 ∧
      dc.maxConcurrent ≤ (dc.clients 1).concurrentCount) (by decide +kernel)
  obtain ⟨hready, hfull⟩ := of_decide_eq_true hend
  refine ⟨dc, log, hrun, fun keeps => ?_⟩
  have windowed := (window_kept_iff _ _ dc log (by decide) (by decide) hrun).2 keeps log [] dc.pool
    (List.append_nil _).symm (runCalls_refines hrun)
  exact not_windowed_of_full hready hfull windowed

end Run

end CassandraApi.Ldap
