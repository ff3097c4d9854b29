/-
# `Watch` — the stopwatches of watch.c

init_watch and reset_watch put the time into a counter, the others subtract what
is there from the time.  To have enough microseconds timeval_subtract moves a
second of the start into them, and leaves the start like that:

    1.9 s  →  2 s − 0.1 s     (`Timeval.borrow`)

The next lap subtracts that, and moves the second back only if there are more
than 1000000 microseconds; at exactly 1000000 they stay (`results_exact_iff`).
-/
import CassandraApi.Ldap.Client

namespace CassandraApi.Watch

open Ldap (Timeval)

/-- MAX_TIMER_COUNTER -/
def maxTimerCounter : Nat := 8

/-- timeval_subtract, which is that of ldap_common.c: the difference, and what is left of
`start`. -/
def timevalSubtract (finish start : Timeval) : Timeval × Timeval :=
  Ldap.timevalSubtract finish start

/-- `tm_counter` -/
abbrev Counters := Fin maxTimerCounter → Timeval

/-- What gettimeofday leaves in its argument, and the text of its error if it fails. -/
structure Reading where
  time : Timeval
  error : Option String := none
  deriving DecidableEq

/-- What a call returns, writes to `err`, and writes to `*result_time`. -/
structure Answer where
  ret : Int
  err : Option String := none
  result : Option Timeval := none
  deriving DecidableEq

inductive Op where
  | init
  | reset
  | lap
  | stop
  deriving DecidableEq

structure Call where
  op : Op
  counter : Int
  clock : Reading

def noCounter (counter : Int) : Answer :=
  ⟨-1, some s!"Counter is more then MAX_COUNTER[{counter},{maxTimerCounter}]", none⟩

section

variable (tm : Counters) (counter : Int) (clock : Reading)

/-- `if( counter >= 0 && counter < MAX_TIMER_COUNTER )` -/
def withCounter (body : Fin maxTimerCounter → Answer × Counters) : Answer × Counters :=
  if h : 0 ≤ counter ∧ counter < maxTimerCounter then body ⟨counter.toNat, by omega⟩
  else (noCounter counter, tm)

/-- A failed gettimeofday is an error of init_watch, and leaves the counter alone. -/
def initWatch : Answer × Counters :=
  withCounter tm counter fun c =>
    match clock.error with
    | some e => (⟨-1, some s!"Cannot gettimeofday [{e}]", none⟩, tm)
    | none => (⟨0, none, none⟩, Function.update tm c clock.time)

/-- The other three go on with what is in `curr_time`; `left` is what they leave in the counter. -/
def subtractWatch (left : Timeval → Timeval) : Answer × Counters :=
  withCounter tm counter fun c =>
    let (result, start) := timevalSubtract clock.time (tm c)
    (⟨0, clock.error.map fun e => s!"Cannot get time [{e}]", some result⟩,
      Function.update tm c (left start))

def resetWatch : Answer × Counters := subtractWatch tm counter clock fun _ => clock.time

def lapWatch : Answer × Counters := subtractWatch tm counter clock id

/-- `timerclear(&tm_counter[counter])` -/
def stopWatch : Answer × Counters := subtractWatch tm counter clock fun _ => ⟨0, 0⟩

end

def call (tm : Counters) (c : Call) : Answer × Counters :=
  match c.op with
  | .init => initWatch tm c.counter c.clock
  | .reset => resetWatch tm c.counter c.clock
  | .lap => lapWatch tm c.counter c.clock
  | .stop => stopWatch tm c.counter c.clock

/-- The counters after calls. -/
def after (tm : Counters) (calls : List Call) : Counters :=
  calls.foldl (fun tm c => (call tm c).2) tm

theorem after_concat (tm : Counters) (calls : List Call) (c : Call) :
    after tm (calls ++ [c]) = (call (after tm calls) c).2 := by
  rw [after, List.foldl_append]
  rfl

/-- What a call on another counter does not touch. -/
theorem call_other (tm : Counters) (c : Call) {i : Fin maxTimerCounter}
    (h : c.counter ≠ (i : Nat)) : (call tm c).2 i = tm i := by
  have hother : ∀ body : Fin maxTimerCounter → Answer × Counters,
      (∀ j, j ≠ i → (body j).2 i = tm i) → (withCounter tm c.counter body).2 i = tm i := by
    intro body hbody
    rw [withCounter]
    split
    · refine hbody _ fun he => h ?_
      rw [← he]
      simp only
      omega
    · rfl
  have hsubtract : ∀ left, (subtractWatch tm c.counter c.clock left).2 i = tm i :=
    fun left => hother _ fun j hj => Function.update_of_ne hj.symm _ _
  cases hop : c.op
  case init =>
    simp only [call, hop]
    refine hother _ fun j hj => ?_
    split
    · rfl
    · exact Function.update_of_ne hj.symm _ _
  all_goals
    simp only [call, hop]
    exact hsubtract _

/-! ## The subtraction -/

/-- A time in microseconds. -/
def micros (t : Timeval) : Int := t.sec * 1000000 + t.usec

/-- `0 <= tv_usec < 1000000` -/
def Normal (t : Timeval) : Prop := 0 ≤ t.usec ∧ t.usec < 1000000

instance (t : Timeval) : Decidable (Normal t) := inferInstanceAs (Decidable (_ ∧ _))

/-- The same time, with a second less of microseconds. -/
def borrow (t : Timeval) : Timeval := ⟨t.sec + 1, t.usec - 1000000⟩

section

variable {now start : Timeval}

theorem subtract_fewer (hnow : Normal now) (hstart : Normal start) (h : now.usec < start.usec) :
    timevalSubtract now start =
      (⟨now.sec - (start.sec + 1), now.usec - (start.usec - 1000000)⟩, borrow start) := by
  have hnsec : (start.usec - now.usec) / 1000000 + 1 = 1 := by
    have := hnow.1
    have := hstart.2
    omega
  have hsmall : ¬ now.usec - (start.usec - 1000000) > 1000000 := by omega
  simp only [timevalSubtract, Ldap.timevalSubtract, if_pos h, hnsec, mul_one, if_neg hsmall,
    borrow]

theorem subtract_more (hnow : Normal now) (hstart : Normal start) (h : start.usec ≤ now.usec) :
    timevalSubtract now start = (⟨now.sec - start.sec, now.usec - start.usec⟩, start) := by
  have hsmall : ¬ now.usec - start.usec > 1000000 := by
    have := hnow.2
    have := hstart.1
    omega
  simp only [timevalSubtract, Ldap.timevalSubtract, if_neg h.not_gt, if_neg hsmall]

/-- What an earlier lap has borrowed is given back if it leaves more than 1000000
microseconds. -/
theorem subtract_borrowed (hnow : Normal now) (hstart : Normal start) :
    timevalSubtract now (borrow start) =
      if start.usec < now.usec then (⟨now.sec - start.sec, now.usec - start.usec⟩, start)
      else (⟨now.sec - (start.sec + 1), now.usec - (start.usec - 1000000)⟩, borrow start) := by
  have husec : (borrow start).usec = start.usec - 1000000 := rfl
  have hnone : ¬ now.usec < (borrow start).usec := by
    have := hnow.1
    have := hstart.2
    omega
  simp only [timevalSubtract, Ldap.timevalSubtract, if_neg hnone]
  split_ifs with hmore h h
  · have hnsec : (now.usec - (borrow start).usec) / 1000000 = 1 := by
      have := hnow.2
      have := hstart.1
      omega
    have hsec : (borrow start).sec - 1 = start.sec := Int.add_sub_cancel _ _
    have hback : (borrow start).usec + 1000000 * 1 = start.usec := by omega
    rw [hnsec, hsec, hback]
  · omega
  · omega
  · rfl

end

/-! ## Laps -/

/-- A stopwatch: when it was started, and whether the last lap that was not read at the
microseconds of the start was read at fewer. -/
structure Running where
  start : Timeval := {}
  fewer : Bool := false

namespace Running

def next (r : Running) (op : Op) (now : Timeval) : Running :=
  match op with
  | .init => ⟨now, false⟩
  | .reset => ⟨now, false⟩
  | .lap => { r with fewer := now.usec < r.start.usec || now.usec = r.start.usec && r.fewer }
  | .stop => {}

/-- What timeval_subtract leaves of the start. -/
def left (r : Running) : Timeval := if r.fewer then borrow r.start else r.start

end Running

/-- The stopwatch after calls. -/
def running (calls : List Call) : Running :=
  calls.foldl (fun r c => r.next c.op c.clock.time) {}

theorem running_concat (calls : List Call) (c : Call) :
    running (calls ++ [c]) = (running calls).next c.op c.clock.time := by
  rw [running, List.foldl_append]
  rfl

/-- Calls on one counter, which read a clock that goes forward, and start the stopwatch before
they use it. -/
structure Proper (counter : Fin maxTimerCounter) (calls : List Call) : Prop where
  counter : ∀ c ∈ calls, c.counter = (counter : Nat)
  clock : ∀ c ∈ calls, c.clock.error = none ∧ Normal c.clock.time
  forward : calls.Pairwise fun c c' => micros c.clock.time ≤ micros c'.clock.time
  started : ∀ c ∈ calls.head?, c.op = .init
  again : calls.IsChain fun c c' => c.op = .stop → c'.op = .init

/-- The time since the start. -/
def Exact (start now : Timeval) (result : Option Timeval) : Prop :=
  ∃ t, result = some t ∧ Normal t ∧ micros t = micros now - micros start

/-- Every result of lap, reset and stop is the time since the start. -/
def Exactly (tm : Counters) (calls : List Call) : Prop :=
  ∀ before c later, calls = before ++ c :: later → c.op ≠ .init →
    Exact (running before).start c.clock.time (call (after tm before) c).1.result

/-- The clock is read at the microseconds of the start, after fewer. -/
def AtSame (r : Running) (now : Timeval) : Prop := now.usec = r.start.usec ∧ r.fewer = true

instance (r : Running) (now : Timeval) : Decidable (AtSame r now) :=
  inferInstanceAs (Decidable (_ ∧ _))

section

variable {tm : Counters} {i : Fin maxTimerCounter}

/-- The counter holds the start, or what an earlier lap has left of it. -/
structure Kept (tm : Counters) (i : Fin maxTimerCounter) (r : Running) : Prop where
  start : Normal r.start
  counter : tm i = r.left

theorem exact_iff_normal {start now t : Timeval} (h : micros t = micros now - micros start) :
    Exact start now (some t) ↔ Normal t := by
  constructor
  · rintro ⟨t', he, hnormal, -⟩
    cases he
    exact hnormal
  · exact fun hnormal => ⟨t, rfl, hnormal, h⟩

theorem micros_sub (now start : Timeval) :
    micros ⟨now.sec - start.sec, now.usec - start.usec⟩ = micros now - micros start := by
  simp only [micros]
  omega

theorem micros_sub_borrow (now start : Timeval) :
    micros ⟨now.sec - (start.sec + 1), now.usec - (start.usec - 1000000)⟩ =
      micros now - micros start := by
  simp only [micros]
  omega

/-- The subtraction from what is left of a start: it is exact unless the time is at the same
microseconds. -/
theorem subtract_left {r : Running} {now : Timeval} (hnow : Normal now) (hstart : Normal r.start) :
    (timevalSubtract now r.left).2 = (r.next .lap now).left ∧
      (Exact r.start now (some (timevalSubtract now r.left).1) ↔ ¬ AtSame r now) := by
  obtain ⟨start, fewer⟩ := r
  obtain ⟨hn, hn'⟩ := hnow
  obtain ⟨hs, hs'⟩ : 0 ≤ start.usec ∧ start.usec < 1000000 := hstart
  cases fewer with
  | false =>
    have hsame : ¬ AtSame ⟨start, false⟩ now := fun h => Bool.noConfusion h.2
    change (timevalSubtract now start).2 = _ ∧
      (Exact start now (some (timevalSubtract now start).1) ↔ _)
    rcases lt_or_ge now.usec start.usec with hlt | hge
    · rw [subtract_fewer ⟨hn, hn'⟩ ⟨hs, hs'⟩ hlt, exact_iff_normal (micros_sub_borrow now start)]
      refine ⟨?_, iff_of_true ⟨?_, ?_⟩ hsame⟩
      · simp [Running.next, Running.left, hlt]
      · simp only
        omega
      · simp only
        omega
    · rw [subtract_more ⟨hn, hn'⟩ ⟨hs, hs'⟩ hge, exact_iff_normal (micros_sub now start)]
      refine ⟨?_, iff_of_true ⟨?_, ?_⟩ hsame⟩
      · simp [Running.next, Running.left, hge]
      · simp only
        omega
      · simp only
        omega
  | true =>
    change (timevalSubtract now (borrow start)).2 = _ ∧
      (Exact start now (some (timevalSubtract now (borrow start)).1) ↔ _)
    rw [subtract_borrowed ⟨hn, hn'⟩ ⟨hs, hs'⟩]
    split_ifs with hgt
    · rw [exact_iff_normal (micros_sub now start)]
      refine ⟨?_, iff_of_true ⟨?_, ?_⟩ fun h => absurd h.1 hgt.ne'⟩
      · simp [Running.next, Running.left, hgt.not_gt, hgt.ne']
      · simp only
        omega
      · simp only
        omega
    · -- exactly 1000000 microseconds are left at the same microseconds
      rw [exact_iff_normal (micros_sub_borrow now start)]
      have hle : now.usec < start.usec ∨ now.usec = start.usec := by omega
      refine ⟨by simp [Running.next, Running.left, hle], ?_⟩
      simp only [Normal, AtSame, and_true]
      omega

theorem withCounter_eq {counter : Int} (h : counter = (i : Nat))
    (body : Fin maxTimerCounter → Answer × Counters) : withCounter tm counter body = body i := by
  have hin : 0 ≤ counter ∧ counter < maxTimerCounter := by
    have := i.isLt
    omega
  have hi : (⟨counter.toNat, by omega⟩ : Fin maxTimerCounter) = i := Fin.ext (by simp only; omega)
  rw [withCounter, dif_pos hin, hi]

/-- Starting a stopwatch, whatever was in its counter. -/
theorem Kept.init {c : Call} (r : Running) (hcounter : c.counter = (i : Nat))
    (hclock : c.clock.error = none ∧ Normal c.clock.time) (hop : c.op = .init) :
    Kept (call tm c).2 i (r.next c.op c.clock.time) := by
  have hcall : (call tm c).2 = Function.update tm i c.clock.time := by
    simp only [call, hop, initWatch, withCounter_eq hcounter, hclock.1]
  rw [hcall, hop]
  exact ⟨hclock.2, Function.update_self ..⟩

/-- The other calls. -/
theorem Kept.call {c : Call} {r : Running} (h : Kept tm i r) (hcounter : c.counter = (i : Nat))
    (hclock : c.clock.error = none ∧ Normal c.clock.time) (hop : c.op ≠ .init) :
    Kept (call tm c).2 i (r.next c.op c.clock.time) ∧
      (Exact r.start c.clock.time (call tm c).1.result ↔ ¬ AtSame r c.clock.time) := by
  have hsub := subtract_left hclock.2 h.start
  have hsubtract : ∀ left, subtractWatch tm c.counter c.clock left =
      (⟨0, none, some (timevalSubtract c.clock.time r.left).1⟩,
        Function.update tm i (left (timevalSubtract c.clock.time r.left).2)) := by
    intro left
    rw [subtractWatch, withCounter_eq hcounter, h.counter, hclock.1]
    rfl
  cases hcase : c.op
  case init => exact absurd hcase hop
  case reset =>
    simp only [Watch.call, hcase, resetWatch, hsubtract]
    exact ⟨⟨hclock.2, Function.update_self ..⟩, hsub.2⟩
  case lap =>
    simp only [Watch.call, hcase, lapWatch, hsubtract, id]
    exact ⟨⟨h.start, (Function.update_self ..).trans hsub.1⟩, hsub.2⟩
  case stop =>
    simp only [Watch.call, hcase, stopWatch, hsubtract]
    have hzero : Normal {} := by decide
    exact ⟨⟨hzero, Function.update_self ..⟩, hsub.2⟩

theorem Proper.left {calls calls' : List Call} (h : Proper i (calls ++ calls')) :
    Proper i calls where
  counter := fun c hc => h.counter c (List.mem_append_left _ hc)
  clock := fun c hc => h.clock c (List.mem_append_left _ hc)
  forward := (List.pairwise_append.1 h.forward).1
  started := fun c hc => h.started c (by rw [List.head?_append, Option.mem_def.1 hc]; rfl)
  again := (List.isChain_append.1 h.again).1

/-- A call that uses the stopwatch comes after another one. -/
theorem Proper.before {calls : List Call} {c : Call} {later : List Call}
    (h : Proper i (calls ++ c :: later)) (hop : c.op ≠ .init) : calls ≠ [] := by
  rintro rfl
  exact hop (h.started c rfl)

/-- After a call at least, the counter holds the stopwatch. -/
theorem Proper.kept {calls : List Call} (h : Proper i calls) (hne : calls ≠ []) :
    Kept (after tm calls) i (running calls) := by
  induction calls using List.reverseRecOn with
  | nil => exact absurd rfl hne
  | append_singleton calls c ih =>
    have hmem : c ∈ calls ++ [c] := List.mem_append_right _ (List.mem_singleton_self c)
    rw [after_concat, running_concat]
    by_cases hop : c.op = .init
    · exact Kept.init _ (h.counter c hmem) (h.clock c hmem) hop
    · exact ((ih h.left (h.before hop)).call (h.counter c hmem) (h.clock c hmem) hop).1

/-- The results are exact if and only if no lap, reset or stop is read at the microseconds of the
start while the last lap at other microseconds was at fewer. -/
theorem results_exact_iff (tm : Counters) (i : Fin maxTimerCounter) (calls : List Call) :
    Proper i calls → (Exactly tm calls ↔ ∀ before c later, calls = before ++ c :: later →
      c.op ≠ .init → ¬ AtSame (running before) c.clock.time) := by
  intro h
  refine forall_congr' fun before => forall_congr' fun c => forall_congr' fun later => ?_
  refine forall_congr' fun hcalls => forall_congr' fun hop => ?_
  subst hcalls
  have hmem : c ∈ before ++ c :: later := List.mem_append_right _ List.mem_cons_self
  have hkept : Kept (after tm before) i (running before) := h.left.kept (h.before hop)
  exact (hkept.call (h.counter c hmem) (h.clock c hmem) hop).2

end

/-- What holds of every call and the calls before it, call by call. -/
theorem forall_split_cons {P : List Call → Call → Prop} {c : Call} {calls : List Call} :
    (∀ before c' later, c :: calls = before ++ c' :: later → P before c') ↔
      P [] c ∧ ∀ before c' later, calls = before ++ c' :: later → P (c :: before) c' := by
  constructor
  · exact fun h => ⟨h [] c calls rfl, fun before c' later he => h _ c' later (by rw [he]; rfl)⟩
  · rintro ⟨hc, hcalls⟩ before c' later he
    cases before with
    | nil =>
      cases he
      exact hc
    | cons b before =>
      cases he
      exact hcalls before c' later rfl

theorem forall_split_nil {P : List Call → Call → Prop} :
    (∀ before c' later, [] = before ++ c' :: later → P before c') ↔ True :=
  iff_true_intro fun before c' later he =>
    absurd he.symm (List.append_ne_nil_of_right_ne_nil before (List.cons_ne_nil c' later))

/-- TMR0 -/
def tmr0 : Fin maxTimerCounter := ⟨0, by decide⟩

/-- A call on TMR0, and its time. -/
def at_ (op : Op) (sec usec : Int) : Call := ⟨op, (tmr0 : Nat), { time := ⟨sec, usec⟩ }⟩

/-- Two laps, at fewer microseconds than the start and at more, and a stop. -/
def twoLaps : List Call := [at_ .init 0 500000, at_ .lap 1 200000, at_ .lap 1 700000,
  at_ .stop 2 500000]

theorem twoLaps_proper : Proper tmr0 twoLaps where
  counter := by decide
  clock := by decide
  forward := by decide
  started := by decide
  again := by decide

theorem results_exact_twoLaps : Exactly (fun _ => {}) twoLaps := by
  refine (results_exact_iff (fun _ => {}) tmr0 twoLaps twoLaps_proper).2 ?_
  simp only [twoLaps, forall_split_cons, forall_split_nil]
  decide

/-- A lap at the microseconds of the start, after one at fewer. -/
theorem same_microseconds_inexact :
    ¬ ∀ (tm : Counters) (i : Fin maxTimerCounter) (calls : List Call), Proper i calls →
      Exactly tm calls := by
  intro h
  have hproper : Proper tmr0 [at_ .init 0 500000, at_ .lap 1 200000, at_ .lap 1 500000] :=
    ⟨by decide, by decide, by decide, by decide, by decide⟩
  obtain ⟨t, hresult, hnormal, -⟩ := h (fun _ => {}) tmr0 _ hproper
    [at_ .init 0 500000, at_ .lap 1 200000] (at_ .lap 1 500000) [] rfl (by decide)
  have hmillion : t = ⟨0, 1000000⟩ := Option.some.inj (hresult.symm.trans (by decide))
  exact absurd (hmillion ▸ hnormal) (by decide)

end CassandraApi.Watch
