/-
# `Ldap.Statistics` — the response times of a server and of a client

LDAP_sess_decode and LDAP_clnt_decode measure each message they deliver, and keep
the sum, the largest, the smallest and the average of these times.  Both take a
message counter for the number of samples.  The client counts its deliveries in
it; the server also counts every LDAP_sess_read, so that the first sample is not
taken for one and the average has too large a divisor.
-/
import CassandraApi.Ldap.Idle

namespace CassandraApi.Ldap.Statistics

open C Ber Lib

/-! ## Samples -/

/-- total_, max_, avg_ and min_response_time. -/
structure ResponseTimes where
  total : Nat := 0
  max : Nat := 0
  avg : Nat := 0
  min : Nat := 0

/-- The statements behind gettimeofday, `count` being the message counter. -/
def ResponseTimes.sample (t : ResponseTimes) (count time : Nat) : ResponseTimes :=
  let total := (t.total + time) % 2 ^ 64
  { total := total
    max := if time > t.max then time else t.max
    min := if count > 1 then (if time < t.min then time else t.min) else time
    avg := if count > 0 then total / count else 0 }

/-- What a message counter counts. -/
inductive Counted where
  | read
  /-- a message was delivered, this long after the last one was written -/
  | delivered (time : Nat)

def Counted.time? : Counted → Option Nat
  | .read => none
  | .delivered time => some time

/-- The process times, in the order of the deliveries. -/
def times (log : List Counted) : List Nat := log.filterMap Counted.time?

/-- A message counter, an unsigned long, and the statistics. -/
structure Tally where
  count : Nat := 0
  stats : ResponseTimes := {}

def Tally.add (t : Tally) (e : Counted) : Tally :=
  let count := (t.count + 1) % 2 ^ 64
  match e with
  | .read => { t with count := count }
  | .delivered time => ⟨count, t.stats.sample count time⟩

def tally (log : List Counted) : Tally := log.foldl Tally.add {}

/-- The statistics say of these times what their names promise. -/
structure Truthful (t : ResponseTimes) (ps : List Nat) : Prop where
  max : IsGreatest {p | p ∈ ps} t.max
  min : IsLeast {p | p ∈ ps} t.min
  total : t.total = ps.sum
  avg : t.avg = ps.sum / ps.length

/-- The first thing that was counted is a delivery. -/
def StartsDelivered (log : List Counted) : Prop := ∃ p, log.head? = some (.delivered p)

/-- Counter and sums stay below 2^64. -/
structure Bounded (log : List Counted) : Prop where
  count : log.length < 2 ^ 64
  sum : (times log).sum < 2 ^ 64

section

variable {log : List Counted} {e : Counted} {p : Nat}

theorem times_snoc (log : List Counted) (p : Nat) :
    times (log ++ [.delivered p]) = times log ++ [p] := by
  rw [times, List.filterMap_append]
  rfl

theorem times_read (log : List Counted) : times (log ++ [.read]) = times log := by
  rw [times, List.filterMap_append]
  exact List.append_nil _

theorem tally_snoc (log : List Counted) (e : Counted) : tally (log ++ [e]) = (tally log).add e := by
  rw [tally, List.foldl_append]
  rfl

theorem Bounded.front (h : Bounded (log ++ [e])) : Bounded log := by
  obtain ⟨count, sum⟩ := h
  rw [List.length_append] at count
  rw [times, List.filterMap_append, List.sum_append] at sum
  exact ⟨by omega, by rw [times]; omega⟩

theorem times_nil_of_reads (h : times log = []) (hstart : StartsDelivered log) : False := by
  obtain ⟨p, hp⟩ := hstart
  cases log with
  | nil => cases hp
  | cons e log =>
    cases hp
    cases h

theorem startsDelivered_snoc (hlog : log ≠ []) :
    StartsDelivered (log ++ [e]) ↔ StartsDelivered log := by
  cases log with
  | nil => exact absurd rfl hlog
  | cons c log => exact Iff.rfl

/-- What the statistics are after a run of events. -/
structure Summed (log : List Counted) (t : Tally) : Prop where
  count : t.count = log.length
  total : t.stats.total = (times log).sum
  largest : times log ≠ [] → IsGreatest {p | p ∈ times log} t.stats.max
  smallest : StartsDelivered log → IsLeast {p | p ∈ times log} t.stats.min
  zero : ¬ StartsDelivered log → t.stats.min = 0
  none : times log = [] → t.stats.max = 0

theorem isGreatest_snoc {ps : List Nat} {m : Nat} (h : ps ≠ [] → IsGreatest {q | q ∈ ps} m)
    (h0 : ps = [] → m = 0) : IsGreatest {q | q ∈ ps ++ [p]} (if p > m then p else m) := by
  by_cases hps : ps = []
  · have hm := h0 hps
    subst hps hm
    refine ⟨?_, fun q hq => ?_⟩
    · split
      · exact List.mem_singleton_self p
      · rename_i hp
        exact List.mem_singleton.2 (by omega)
    · obtain rfl := List.mem_singleton.1 hq
      split <;> omega
  · obtain ⟨hmem, hle⟩ := h hps
    refine ⟨?_, fun q hq => ?_⟩
    · split
      · exact List.mem_append_right ps (List.mem_singleton_self p)
      · exact List.mem_append_left [p] hmem
    · rcases List.mem_append.1 hq with hq | hq
      · have hqm : q ≤ m := hle hq
        split <;> omega
      · obtain rfl := List.mem_singleton.1 hq
        split <;> omega

theorem isLeast_snoc {ps : List Nat} {m : Nat} (h : IsLeast {q | q ∈ ps} m) :
    IsLeast {q | q ∈ ps ++ [p]} (if p < m then p else m) := by
  obtain ⟨hmem, hle⟩ := h
  refine ⟨?_, fun q hq => ?_⟩
  · split
    · exact List.mem_append_right ps (List.mem_singleton_self p)
    · exact List.mem_append_left [p] hmem
  · rcases List.mem_append.1 hq with hq | hq
    · have hqm : m ≤ q := hle hq
      split <;> omega
    · obtain rfl := List.mem_singleton.1 hq
      split <;> omega

/-- One more event. -/
theorem Summed.add {t : Tally} (h : Summed log t) (hb : Bounded (log ++ [e])) :
    Summed (log ++ [e]) (t.add e) := by
  have hcount : (t.count + 1) % 2 ^ 64 = (log ++ [e]).length := by
    have hlt := hb.count
    rw [List.length_append, List.length_singleton] at hlt ⊢
    rw [h.count]
    omega
  cases e with
  | read =>
    have hstart : StartsDelivered (log ++ [.read]) ↔ StartsDelivered log := by
      cases log with
      | nil =>
        refine ⟨fun hs => ?_, fun hs => ?_⟩
        · obtain ⟨p, hp⟩ := hs
          cases hp
        · obtain ⟨p, hp⟩ := hs
          cases hp
      | cons c log => exact Iff.rfl
    exact {
      count := hcount
      total := by rw [times_read]; exact h.total
      largest := by rw [times_read]; exact h.largest
      smallest := by rw [times_read, hstart]; exact h.smallest
      zero := by rw [hstart]; exact h.zero
      none := by rw [times_read]; exact h.none }
  | delivered p =>
    have hsum := hb.sum
    rw [times_snoc, List.sum_append, List.sum_singleton] at hsum
    have htotal : (t.stats.total + p) % 2 ^ 64 = (times log).sum + p := by
      rw [h.total]
      omega
    refine {
      count := hcount
      total := by rw [times_snoc, List.sum_append, List.sum_singleton]; exact htotal
      largest := fun _ => by rw [times_snoc]; exact isGreatest_snoc h.largest h.none
      smallest := fun hstart => ?_
      zero := fun hstart => ?_
      none := fun hnil => by rw [times_snoc] at hnil; simp at hnil }
    · simp only [Tally.add, ResponseTimes.sample, hcount, times_snoc]
      cases log with
      | nil =>
        rw [if_neg (by simp)]
        exact ⟨List.mem_singleton_self p, fun q hq => (List.mem_singleton.1 hq).ge⟩
      | cons c log =>
        rw [if_pos (by simp)]
        exact isLeast_snoc (h.smallest hstart)
    · simp only [Tally.add, ResponseTimes.sample, hcount]
      cases log with
      | nil => exact absurd ⟨p, rfl⟩ hstart
      | cons c log =>
        rw [if_pos (by simp), h.zero hstart]
        exact if_neg (Nat.not_lt_zero p)

theorem tally_summed (hb : Bounded log) : Summed log (tally log) := by
  induction log using List.reverseRecOn with
  | nil =>
    refine ⟨rfl, rfl, fun hne => absurd rfl hne, fun hstart => ?_, fun _ => rfl, fun _ => rfl⟩
    obtain ⟨p, hp⟩ := hstart
    cases hp
  | append_singleton log e ih =>
    rw [tally_snoc]
    exact (ih hb.front).add hb

/-- After a delivery the statistics are true if and only if the counter has been right for the
smallest time and for the average. -/
theorem truthful_iff {before : List Counted} (hb : Bounded log)
    (hlog : log = before ++ [Counted.delivered p]) :
    Truthful (tally log).stats (times log) ↔ (StartsDelivered log ∨ 0 ∈ times log) ∧
      (times log).sum / log.length = (times log).sum / (times log).length := by
  have h := tally_summed hb
  have hsome : times log ≠ [] := by
    rw [hlog, times_snoc]
    simp
  have havg : (tally log).stats.avg = (times log).sum / log.length := by
    have hcount := h.count
    have htotal := h.total
    have hpos : 0 < log.length := by
      rw [hlog, List.length_append, List.length_singleton]
      exact Nat.succ_pos _
    have hlast : tally log = (tally before).add (.delivered p) := by rw [hlog, tally_snoc]
    rw [hlast] at hcount htotal ⊢
    simp only [Tally.add, ResponseTimes.sample] at hcount htotal ⊢
    rw [hcount, htotal, if_pos hpos]
  constructor
  · intro htrue
    refine ⟨?_, havg.symm.trans htrue.avg⟩
    by_cases hstart : StartsDelivered log
    · exact .inl hstart
    · have hmin := htrue.min.1
      rw [h.zero hstart] at hmin
      exact .inr hmin
  · rintro ⟨hmin, hdiv⟩
    refine ⟨h.largest hsome, ?_, h.total, havg.trans hdiv⟩
    by_cases hstart : StartsDelivered log
    · exact h.smallest hstart
    · rw [h.zero hstart]
      exact ⟨hmin.resolve_left hstart, fun q _ => Nat.zero_le q⟩

theorem times_delivered (ps : List Nat) : times (ps.map Counted.delivered) = ps := by
  rw [times, List.filterMap_map]
  exact List.filterMap_some

/-- Where only deliveries are counted they are always true. -/
theorem truthful_of_deliveries {ps : List Nat} (hps : ps ≠ [])
    (hb : Bounded (ps.map Counted.delivered)) :
    Truthful (tally (ps.map Counted.delivered)).stats ps := by
  obtain ⟨qs, p, hlast⟩ : ∃ qs p, ps = qs ++ [p] :=
    ⟨ps.dropLast, ps.getLast hps, (List.dropLast_append_getLast hps).symm⟩
  have hlog : ps.map Counted.delivered = qs.map Counted.delivered ++ [.delivered p] := by
    rw [hlast, List.map_append, List.map_singleton]
  have hiff := truthful_iff hb hlog
  rw [times_delivered, List.length_map] at hiff
  refine hiff.2 ⟨.inl ?_, rfl⟩
  cases ps with
  | nil => exact absurd rfl hps
  | cons q ps => exact ⟨q, rfl⟩

end

/-! ## The server -/

/-- `process_time`, and what timeval_subtract leaves of timestamp_write. -/
def processTime (stoptime timestampWrite : Timeval) : Nat × Timeval :=
  let (overall, y) := timevalSubtract stoptime timestampWrite
  (((overall.sec * 1000000 + overall.usec) % 2 ^ 64).toNat, y)

/-- A server with its table, recv_msg_count and the statistics, and the timestamp_write of every
session.  `log` is what was counted. -/
structure Server where
  ds : SessionTable.Ds
  tally : Tally := {}
  timestampWrite : Nat → Timeval := fun _ => {}
  log : List Counted := []

def Server.count (st : Server) (e : Counted) : Server :=
  { st with tally := st.tally.add e, log := st.log ++ [e] }

section

variable (conf : DsT)

/-- The end of LDAP_sess_read on a bound session. -/
def countRead (no : Nat) (sockErr : SockErr) (stack : Nat → UInt8) (send : Send) (alloc : Alloc)
    (recv : Recv) (st : Server) : Except Fault Server := do
  let s ← st.ds.slot no
  let (out, _) ← ldapSessRead sockErr stack send alloc recv conf s.sess
  pure (if s.sess.state = .stateReady ∧ out.code = some .ok then st.count .read else st)

/-- LDAP_sess_decode, once a request has been delivered. -/
def countDelivery (clock : Timeval) (no : Nat) (grow : Alloc) (env : DecodeEnv) (alloc : Bool)
    (send : Send) (st : Server) : Except Fault Server := do
  let s ← st.ds.slot no
  let (out, _, _) ← ldapSessDecode grow env alloc send conf s.sess
  if out.code = some .dataAvailable then
    let (time, stamp) := processTime clock (st.timestampWrite no)
    pure { st.count (.delivered time) with
      timestampWrite := Function.update st.timestampWrite no stamp }
  else pure st

/-- What a call at the time `call.2` counts. -/
def counted (st : Server) (call : Idle.Call × Timeval) : Except Fault Server :=
  match call.1 with
  | .sessRead no sockErr stack send alloc recv _ =>
      countRead conf no sockErr stack send alloc recv st
  | .sessDecode no grow env alloc send => countDelivery conf call.2 no grow env alloc send st
  | _ => pure st

def step (st : Server) (call : Idle.Call × Timeval) : Except Fault Server := do
  let st' ← counted conf st call
  let ds ← Idle.step conf st.ds call.1
  pure { st' with ds := ds }

end

/-- LDAP_svr_init -/
def start (version : UInt32) (maxSession : Int) : Server :=
  { ds := SessionTable.ldapSvrInit version maxSession }

/-! ## A read comes before the first delivery -/

/-- There is no request in the read buffer. -/
def Unread (rb : ReadBuffer) : Prop := rb.rBuffer = none ∨ rb.rLen < 5

section

variable {conf : DsT} {st st' : Server} {s : Slot}

/-- A read that is not counted brings nothing in. -/
theorem unread_of_read {closed : RetCode} {alloc : Alloc} {recv : Recv} {rb rb' : ReadBuffer}
    {out : Outcome} (h : rb.read closed alloc recv = .ok (out, rb')) (hcode : out.code ≠ .ok)
    (hun : Unread rb) : Unread rb' := by
  unfold ReadBuffer.read at h
  split at h
  · rename_i hnone
    cases h
    have hbuf : rb.rBuffer = none := by
      unfold ReadBuffer.prepare at hnone
      split at hnone
      · cases hnone
      · cases hnone
      · assumption
    exact .inl hbuf
  · rename_i rb₁ hprep
    have hun₁ : Unread rb₁ := by
      unfold ReadBuffer.prepare at hprep
      split at hprep
      · cases hprep
        exact hun
      · cases hprep
        exact .inr (show (0 : Int) < 5 by decide)
      · cases hprep
    split at h
    · cases h
      exact hun₁
    · split at h
      · cases h
        exact hun₁
      · cases h
        exact hun₁
      · cases h
      · obtain ⟨buf, -, h⟩ := bind_eq_ok.1 h
        cases h
        exact absurd rfl hcode

/-- Without a request there is nothing to decode. -/
theorem decode_unread {grow : Alloc} {env : DecodeEnv} {alloc : Bool} {send : Send}
    {sess : DsSession} (hun : Unread sess.rb) :
    ldapSessDecode grow env alloc send conf sess = .ok (⟨some .ok, none⟩, sess, []) := by
  have hidle : nextFrame grow sess.rb = .ok .idle := by
    unfold nextFrame
    split
    · rfl
    · rename_i buf hbuf
      rcases hun with hnone | hlen
      · rw [hnone] at hbuf
        cases hbuf
      · rw [if_pos hlen]
  simp only [ldapSessDecode, Decoder.decode, Decoder.loop, hidle, ok_bind, pure_eq_ok, reduceCtorEq,
    if_false]

/-- Nothing has come in on any session. -/
def AllUnread (ds : SessionTable.Ds) : Prop := ∀ s ∈ ds.session, Unread s.sess.rb

theorem AllUnread.set {ds : SessionTable.Ds} (h : AllUnread ds) {no : Nat} {s : SessionTable.Slot}
    (hs : Unread s.sess.rb) : ∀ x ∈ ds.session.set no s, Unread x.sess.rb := by
  intro x hx
  rcases List.mem_or_eq_of_mem_set hx with hx | rfl
  · exact h x hx
  · exact hs

theorem AllUnread.close {ds ds' : SessionTable.Ds} (h : AllUnread ds) {close : Option String}
    {no : Nat} {out : ServOutcome} (hclose : SessionTable.ldapSessClose close ds no = .ok (out, ds')) :
    AllUnread ds' := by
  obtain ⟨s, -, hclose⟩ := bind_eq_ok.1 hclose
  split at hclose
  · cases hclose
    exact h
  · cases hclose
    exact h.set (.inl rfl)

theorem AllUnread.examine {ds ds' : SessionTable.Ds} (h : AllUnread ds) {ct : Int}
    {close : Option String} {left i : Nat} {out : ServOutcome}
    (hexamine : SessionTable.examineFrom ct close ds left i = .ok (out, ds')) : AllUnread ds' := by
  induction left generalizing i with
  | zero =>
    cases hexamine
    exact h
  | succ left ih =>
    obtain ⟨s, -, hexamine⟩ := bind_eq_ok.1 hexamine
    split at hexamine
    · split at hexamine
      · obtain ⟨⟨o, ds₁⟩, hclose, hexamine⟩ := bind_eq_ok.1 hexamine
        cases hexamine
        exact h.close hclose
      · exact ih hexamine
    · exact ih hexamine

/-- A call that is not counted as a read brings nothing in. -/
theorem AllUnread.step {ds : SessionTable.Ds} {call : Idle.Call × Timeval} (h : AllUnread st.ds)
    (hcounted : counted conf st call = .ok st') (hlog : st'.log = [])
    (hstep : Idle.step conf st.ds call.1 = .ok ds) : AllUnread ds := by
  have honSlot : ∀ {no : Nat} {op : SessionTable.Slot → Except Fault SessionTable.Slot},
      (∀ s s', st.ds.slot no = .ok s → op s = .ok s' → Unread s.sess.rb → Unread s'.sess.rb) →
        Idle.onSlot st.ds no op = .ok ds → AllUnread ds := by
    intro no op hop hstep
    obtain ⟨s, hslot, hstep⟩ := bind_eq_ok.1 hstep
    obtain ⟨s', hs', hstep⟩ := bind_eq_ok.1 hstep
    cases hstep
    have hmem := List.mem_of_getElem? (Idle.slot_get hslot)
    exact h.set (hop s s' hslot hs' (h s hmem))
  obtain ⟨call, clock⟩ := call
  cases call with
  | setTimeouts read write idle =>
    cases hstep
    exact h
  | sessOpen accept =>
    cases hstep
    unfold SessionTable.ldapSessOpen
    split
    · exact h
    · split
      · exact h
      · exact h.set (.inl rfl)
  | sessClose close no =>
    obtain ⟨⟨out, ds₁⟩, hclose, hstep⟩ := bind_eq_ok.1 hstep
    cases hstep
    exact h.close hclose
  | sessExamine ct close =>
    obtain ⟨⟨out, ds₁⟩, hexamine, hstep⟩ := bind_eq_ok.1 hstep
    cases hstep
    exact h.examine hexamine
  | sessRead no sockErr stack send alloc recv now =>
    refine honSlot (fun s s' hslot hop hun => ?_) hstep
    obtain ⟨⟨out, sess⟩, hread, hop⟩ := bind_eq_ok.1 hop
    cases hop
    simp only [counted, countRead, hslot, hread, ok_bind, pure_eq_ok, Except.ok.injEq] at hcounted
    cases hstate : s.sess.state with
    | stateOpen =>
      have hsame := (Idle.sessRead_same hstate hread).rb
      simp only
      rwa [hsame]
    | stateReady =>
      have hcode : out.code ≠ some .ok := by
        intro hok
        rw [if_pos ⟨hstate, hok⟩] at hcounted
        rw [← hcounted] at hlog
        exact List.append_ne_nil_of_right_ne_nil _ (List.cons_ne_nil _ _) hlog
      unfold ldapSessRead at hread
      rw [hstate] at hread
      obtain ⟨⟨o, rb⟩, hrb, hread⟩ := bind_eq_ok.1 hread
      cases hread
      exact unread_of_read hrb (fun hok => hcode (congrArg some hok)) hun
  | sessDecode no grow env alloc send =>
    refine honSlot (fun s s' hslot hop hun => ?_) hstep
    obtain ⟨⟨out, sess, log⟩, hdec, hop⟩ := bind_eq_ok.1 hop
    cases hop
    rw [decode_unread hun] at hdec
    cases hdec
    exact hun
  | sessSendMessage no malloc realloc callback ber now =>
    refine honSlot (fun s s' hslot hop hun => ?_) hstep
    obtain ⟨⟨out, sess, log⟩, hsend, hop⟩ := bind_eq_ok.1 hop
    cases hop
    have hsame := (Idle.sessSendMessage_same hsend).rb
    simp only
    rwa [hsame]
  | sessWrite no send callback now =>
    refine honSlot (fun s s' hslot hop hun => ?_) hstep
    obtain ⟨⟨out, sess, log⟩, hwrite, hop⟩ := bind_eq_ok.1 hop
    cases hop
    have hsame := (Idle.sessWrite_same hwrite).rb
    simp only
    rwa [hsame]

/-- A call counts nothing, or a read, or the delivery of what has come in before. -/
theorem counted_cases {call : Idle.Call × Timeval} (h : counted conf st call = .ok st') :
    (st'.tally = st.tally ∧ st'.log = st.log) ∨
    ∃ e, st'.tally = st.tally.add e ∧ st'.log = st.log ++ [e] ∧
      (e ≠ .read → ¬ AllUnread st.ds) := by
  obtain ⟨call, clock⟩ := call
  cases call with
  | sessRead no sockErr stack send alloc recv now =>
    obtain ⟨s, hslot, h⟩ := bind_eq_ok.1 h
    obtain ⟨⟨out, sess⟩, -, h⟩ := bind_eq_ok.1 h
    simp only [pure_eq_ok, Except.ok.injEq] at h
    split at h
    · subst h
      exact .inr ⟨.read, rfl, rfl, fun hne => absurd rfl hne⟩
    · subst h
      exact .inl ⟨rfl, rfl⟩
  | sessDecode no grow env alloc send =>
    obtain ⟨s, hslot, h⟩ := bind_eq_ok.1 h
    obtain ⟨⟨out, sess, log⟩, hdec, h⟩ := bind_eq_ok.1 h
    simp only at h
    split at h
    · rename_i hcode
      cases h
      refine .inr ⟨.delivered (processTime clock (st.timestampWrite no)).1, rfl, rfl, fun _ hun => ?_⟩
      rw [decode_unread (hun s (List.mem_of_getElem? (Idle.slot_get hslot)))] at hdec
      cases hdec
      cases hcode
    · cases h
      exact .inl ⟨rfl, rfl⟩
  | _ =>
    cases h
    exact .inl ⟨rfl, rfl⟩

/-- What holds in every state of the server. -/
structure Counting (st : Server) : Prop where
  tally : st.tally = Statistics.tally st.log
  unread : st.log = [] → AllUnread st.ds
  first : st.log ≠ [] → st.log.head? = some .read

theorem start_counting (version : UInt32) (maxSession : Int) :
    Counting (start version maxSession) where
  tally := rfl
  unread := fun _ s hs => by
    obtain ⟨i, -, rfl⟩ := List.mem_map.1 hs
    exact .inl rfl
  first := fun hne => absurd rfl hne

theorem Counting.step {call : Idle.Call × Timeval} (inv : Counting st)
    (h : step conf st call = .ok st') : Counting st' := by
  obtain ⟨st₁, hcounted, h⟩ := bind_eq_ok.1 h
  obtain ⟨ds, hstep, h⟩ := bind_eq_ok.1 h
  cases h
  have hunread : st₁.log = [] → st.log = [] → AllUnread ds := fun hlog hempty =>
    (inv.unread hempty).step hcounted hlog hstep
  rcases counted_cases hcounted with ⟨htally, hlog⟩ | ⟨e, htally, hlog, hread⟩
  · refine ⟨htally.trans ?_, fun hnil => hunread hnil (hlog ▸ hnil), fun hne => ?_⟩
    · rw [hlog, inv.tally]
    · rw [hlog] at hne ⊢
      exact inv.first hne
  · refine ⟨?_, fun hnil => ?_, fun _ => ?_⟩
    · rw [htally, hlog, inv.tally, tally_snoc]
    · rw [hlog] at hnil
      exact absurd hnil (List.append_ne_nil_of_right_ne_nil _ (List.cons_ne_nil e []))
    · rw [hlog]
      by_cases hempty : st.log = []
      · -- nothing can be delivered before the first read
        have he : e = .read := by
          by_contra hne
          exact hread hne (inv.unread hempty)
        rw [hempty, he]
        rfl
      · rw [List.head?_append_of_ne_nil _ hempty]
        exact inv.first hempty

theorem run_counting {version : UInt32} {maxSession : Int} {calls : List (Idle.Call × Timeval)}
    (hrun : run (step conf) (start version maxSession) calls = .ok st) : Counting st := by
  have always : Along (step conf) (fun _ _ _ => True) (start version maxSession) calls :=
    fun _ _ _ _ _ _ => trivial
  exact run_invariant (I := fun _ st => Counting st) (start_counting version maxSession)
    (fun _ _ _ _ h _ hstep => h.step hstep) always hrun

/-- The smallest time of a server is right only if it is zero. -/
theorem server_truthful_iff {version : UInt32} {maxSession : Int}
    {calls : List (Idle.Call × Timeval)} {before : List Counted} {p : Nat}
    (hrun : run (step conf) (start version maxSession) calls = .ok st)
    (hlog : st.log = before ++ [.delivered p]) (hb : Bounded st.log) :
    Truthful st.tally.stats (times st.log) ↔ 0 ∈ times st.log ∧
      (times st.log).sum / st.log.length = (times st.log).sum / (times st.log).length := by
  have inv := run_counting hrun
  have hread : ¬ StartsDelivered st.log := by
    rintro ⟨q, hq⟩
    have hne : st.log ≠ [] := by
      rw [hlog]
      exact List.append_ne_nil_of_right_ne_nil _ (List.cons_ne_nil _ _)
    rw [inv.first hne] at hq
    cases hq
  rw [inv.tally, truthful_iff hb hlog, or_iff_right hread]

end

end CassandraApi.Ldap.Statistics
