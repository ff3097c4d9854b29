/-
# `Ldap.ClientStatistics` — the response times of a client

Only LDAP_clnt_decode counts in recv_count and measures; every other operation
leaves the statistics alone.  recv_count is an int: after 2^31 - 1 deliveries it is
negative, and the smallest time and the average are lost.
-/
import CassandraApi.Ldap.Statistics

namespace CassandraApi.Ldap.Statistics

open C Ber Lib

/-! ## What an operation keeps -/

def clntStats (dc : LdapT) : ResponseTimes :=
  ⟨dc.totalResponseTime, dc.maxResponseTime, dc.avgResponseTime, dc.minResponseTime⟩

/-- Nothing is counted. -/
structure SameStats (dc dc' : LdapT) : Prop where
  count : dc'.recvCount = dc.recvCount
  stats : clntStats dc' = clntStats dc

theorem SameStats.refl (dc : LdapT) : SameStats dc dc := ⟨rfl, rfl⟩

theorem SameStats.trans {dc dc' dc'' : LdapT} (h : SameStats dc dc') (h' : SameStats dc' dc'') :
    SameStats dc dc'' :=
  ⟨h'.count.trans h.count, h'.stats.trans h.stats⟩

section

variable {dc dc' : LdapT} {out : Outcome} {log : List Event} {now : Int} {c : Ptr}

theorem open_same {connect : Connect} {mem : Option Ptr} {wbuf : Bool}
    (h : ldapClntOpen now connect mem wbuf dc = .ok (out, dc', log)) : SameStats dc dc' := by
  unfold ldapClntOpen at h
  split at h
  · cases h
    exact .refl dc
  split at h
  · cases h
    exact .refl dc
  split at h
  · cases h
    exact .refl dc
  split at h
  · cases h
    exact .refl dc
  split at h
  · cases h
  split at h
  · obtain ⟨q, -, h⟩ := bind_eq_ok.1 h
    cases h
    exact ⟨rfl, rfl⟩
  · cases h
    exact ⟨rfl, rfl⟩

theorem close_same {closeErr : Option String} {no : Int}
    (h : ldapClntClose closeErr no dc = .ok (out, dc', log)) : SameStats dc dc' := by
  unfold ldapClntClose at h
  split at h
  · cases h
  split at h
  · cases h
    exact .refl dc
  obtain ⟨lc, -, h⟩ := bind_eq_ok.1 h
  obtain ⟨q, -, h⟩ := bind_eq_ok.1 h
  split at h
  · cases h
    exact ⟨rfl, rfl⟩
  · cases h
    exact ⟨rfl, rfl⟩

theorem read_same {sockErr : SockErr} {stack : Nat → UInt8} {alloc : Alloc} {recv : Recv}
    (h : ldapClntRead now sockErr stack alloc recv c dc = .ok (out, dc', log)) :
    SameStats dc dc' := by
  obtain ⟨lc, -, h⟩ := bind_eq_ok.1 h
  split at h
  · cases h
    exact .refl dc
  · split at h
    · cases h
      exact .refl dc
    obtain ⟨r, -, h⟩ := bind_eq_ok.1 h
    split at h
    · cases h
      exact .refl dc
    obtain ⟨q, -, h⟩ := bind_eq_ok.1 h
    cases h
    exact ⟨rfl, rfl⟩
  all_goals
    obtain ⟨⟨o, rb⟩, -, h⟩ := bind_eq_ok.1 h
    cases h
    exact ⟨rfl, rfl⟩

theorem write_same {sockErr : SockErr} {send : Send}
    (h : ldapClntWrite now sockErr send c dc = .ok (out, dc', log)) : SameStats dc dc' := by
  obtain ⟨lc, -, h⟩ := bind_eq_ok.1 h
  split at h
  · split at h
    · cases h
      exact .refl dc
    obtain ⟨msg, -, h⟩ := bind_eq_ok.1 h
    split at h <;> cases h <;> exact ⟨rfl, rfl⟩
  · cases h
    exact .refl dc
  all_goals
    split at h
    · cases h
      exact .refl dc
    split at h
    · cases h
      exact .refl dc
    split at h
    · cases h
      exact .refl dc
    simp only at h
    split at h <;> cases h <;> exact ⟨rfl, rfl⟩

theorem flushQueue_same {clock : Timeval} {env : SendEnv} {k : Nat} {bers : List BER}
    (h : flushQueue now clock env k bers dc = .ok (out, dc', log)) : SameStats dc dc' := by
  induction bers generalizing k dc log with
  | nil =>
    cases h
    exact .refl _
  | cons ber bers ih =>
    unfold flushQueue at h
    split at h
    · cases h
      exact .refl _
    obtain ⟨lc, -, h⟩ := bind_eq_ok.1 h
    obtain ⟨copied, -, h⟩ := bind_eq_ok.1 h
    split at h
    · cases h
      exact .refl _
    obtain ⟨dc₁, hrot, h⟩ := bind_eq_ok.1 h
    have hsame : SameStats dc dc₁ := by
      unfold LdapT.rotate at hrot
      split at hrot
      · obtain ⟨q, -, hrot⟩ := bind_eq_ok.1 hrot
        cases hrot
        exact ⟨rfl, rfl⟩
      · obtain ⟨q, -, hrot⟩ := bind_eq_ok.1 hrot
        cases hrot
        exact ⟨rfl, rfl⟩
    split at h
    · cases h
      exact ⟨hsame.count, hsame.stats⟩
    · obtain ⟨⟨o, dc₂, log₂⟩, hrest, h⟩ := bind_eq_ok.1 h
      cases h
      have hbehind := ih hrest
      exact ⟨hbehind.count.trans hsame.count, hbehind.stats.trans hsame.stats⟩

theorem sendMessage_same {clock : Timeval} {env : SendEnv} {lc : Option Ptr} {ber : Option BER}
    (h : ldapClntSendMessage now clock env lc ber dc = .ok (out, dc', log)) : SameStats dc dc' := by
  unfold ldapClntSendMessage at h
  split at h
  · obtain ⟨⟨goOn, o, dc₁, log₁⟩, hdirect, h⟩ := bind_eq_ok.1 h
    have hsame : SameStats dc dc₁ := by
      obtain ⟨lc, -, hdirect⟩ := bind_eq_ok.1 hdirect
      obtain ⟨copied, -, hdirect⟩ := bind_eq_ok.1 hdirect
      cases copied with
      | none =>
        cases hdirect
        exact .refl dc
      | some lc =>
        cases hdirect
        exact ⟨rfl, rfl⟩
    simp only at h
    split at h
    · cases h
      exact hsame
    · obtain ⟨⟨o₂, dc₂, log₂⟩, hflush, h⟩ := bind_eq_ok.1 h
      cases h
      exact hsame.trans (flushQueue_same hflush)
  · obtain ⟨⟨o₂, dc₂, log₂⟩, hflush, h⟩ := bind_eq_ok.1 h
    cases h
    have hsame := flushQueue_same hflush
    exact ⟨hsame.count, hsame.stats⟩
  · exact flushQueue_same h

theorem sendKeepalive_same {env : KeepaliveEnv} {ber : BER}
    (h : ldapSendKeepaliveRqt now env c ber dc = .ok (out, dc', log)) : SameStats dc dc' := by
  obtain ⟨lc, -, h⟩ := bind_eq_ok.1 h
  obtain ⟨copied, -, h⟩ := bind_eq_ok.1 h
  cases copied with
  | none =>
    cases h
    exact .refl dc
  | some lc =>
    obtain ⟨⟨o, dc₁, log₁⟩, hwrite, h⟩ := bind_eq_ok.1 h
    have hsame := write_same hwrite
    simp only at h
    split at h
    · cases h
      exact ⟨hsame.count, hsame.stats⟩
    · cases h
      exact ⟨hsame.count, hsame.stats⟩

theorem giveUp_same {text : String} {env : KeepaliveEnv} {lc : LdapClnt} {o : Option Outcome}
    (h : giveUp text env lc dc = .ok (o, dc', log)) : SameStats dc dc' := by
  obtain ⟨⟨o₁, dc₁, log₁⟩, hclose, h⟩ := bind_eq_ok.1 h
  cases h
  exact close_same hclose

theorem keepOneAlive_same {env : KeepaliveEnv} {o : Option Outcome}
    (h : keepOneAlive now env c dc = .ok (o, dc', log)) : SameStats dc dc' := by
  obtain ⟨lc, -, h⟩ := bind_eq_ok.1 h
  split at h
  · obtain ⟨request, -, h⟩ := bind_eq_ok.1 h
    cases request with
    | none =>
      cases h
      exact .refl dc
    | some request =>
      obtain ⟨tid, ber⟩ := request
      simp only at h
      split at h
      · obtain ⟨⟨o₁, dc₁, log₁⟩, hgive, h⟩ := bind_eq_ok.1 h
        cases h
        have hsame := giveUp_same hgive
        exact ⟨hsame.count, hsame.stats⟩
      · obtain ⟨⟨o₁, dc₁, log₁⟩, hsend, h⟩ := bind_eq_ok.1 h
        have hsame := sendKeepalive_same hsend
        split at h
        · obtain ⟨⟨o₂, dc₂, log₂⟩, hgive, h⟩ := bind_eq_ok.1 h
          cases h
          have hgiven := giveUp_same hgive
          exact ⟨hgiven.count.trans hsame.count, hgiven.stats.trans hsame.stats⟩
        · cases h
          exact ⟨hsame.count, hsame.stats⟩
  · cases h
    exact .refl dc

theorem keepAliveFrom_same {env : Nat → KeepaliveEnv} {is : List Nat}
    (h : keepAliveFrom now env is dc = .ok (out, dc', log)) : SameStats dc dc' := by
  induction is generalizing dc log with
  | nil =>
    cases h
    exact .refl _
  | cons i is ih =>
    unfold keepAliveFrom at h
    split at h
    · exact ih h
    obtain ⟨⟨o, dc₁, log₁⟩, hone, h⟩ := bind_eq_ok.1 h
    have hsame := keepOneAlive_same hone
    cases o with
    | some o =>
      cases h
      exact hsame
    | none =>
      obtain ⟨⟨o₂, dc₂, log₂⟩, hrest, h⟩ := bind_eq_ok.1 h
      cases h
      exact hsame.trans (ih hrest)

theorem checkFrom_same {closeErr : Nat → Option String} {is : List Nat} {text : Option String}
    (h : checkFrom now closeErr is text dc = .ok (out, dc', log)) : SameStats dc dc' := by
  induction is generalizing dc log text with
  | nil =>
    cases h
    exact .refl _
  | cons i is ih =>
    unfold checkFrom at h
    split at h
    · exact ih h
    obtain ⟨lc, -, h⟩ := bind_eq_ok.1 h
    split at h
    · exact ih h
    · obtain ⟨⟨o, dc₁, log₁⟩, hclose, h⟩ := bind_eq_ok.1 h
      obtain ⟨⟨o₂, dc₂, log₂⟩, hrest, h⟩ := bind_eq_ok.1 h
      cases h
      exact (close_same hclose).trans (ih hrest)

end

/-! ## What LDAP_clnt_decode counts -/

/-- What the calls of a decoder keep, its loop keeps. -/
theorem loop_keeps {σ : Type} {D : Decoder σ} {P : σ → Prop}
    (hcall : ∀ s rb out s', P s → D.call s rb = .ok (out, s') → P s')
    (hempty : ∀ s, P s → P (D.emptied s)) {alloc : Alloc} {turns : Nat} {out out' : Outcome}
    {s s' : σ} {rb rb' : ReadBuffer} (hs : P s)
    (h : D.loop alloc turns out s rb = .ok (out', s', rb')) : P s' := by
  induction turns generalizing out s rb with
  | zero => cases h
  | succ turns ih =>
    obtain ⟨turn, -, h⟩ := bind_eq_ok.1 h
    cases turn with
    | idle =>
      cases h
      exact hs
    | partly rb₁ =>
      cases h
      exact hs
    | noMemory n rb₁ =>
      cases h
      exact hs
    | frame rb₁ =>
      obtain ⟨⟨ret, s₁⟩, h₁, h⟩ := bind_eq_ok.1 h
      obtain ⟨⟨rb₂, empty⟩, -, h⟩ := bind_eq_ok.1 h
      have hs₁ : P (if empty then D.emptied s₁ else s₁) := by
        cases empty
        · exact hcall s rb₁ ret s₁ hs h₁
        · exact hempty s₁ (hcall s rb₁ ret s₁ hs h₁)
      simp only at h
      split at h
      · exact ih hs₁ h
      · cases h
        exact hs₁

section

variable {dc dc' : LdapT} {out : Outcome} {log : List Event} {now : Int} {c : Ptr} {lc : LdapClnt}
  {clock : Timeval}

theorem decoded_stamp {alloc : Bool} {grow : Alloc} {seen : List Response} {rb rb' : ReadBuffer}
    {lc' : LdapClnt} {seen' : List Response}
    (h : (clntDecoder now alloc).decode grow (lc, seen) rb = .ok (out, (lc', seen'), rb')) :
    lc'.timestampWrite = lc.timestampWrite := by
  refine loop_keeps (P := fun s => s.1.timestampWrite = lc.timestampWrite) ?_ ?_ rfl h
  · rintro ⟨lc₁, seen₁⟩ rb₁ out₁ ⟨lc₂, seen₂⟩ hs hcall
    obtain ⟨⟨ret, resp, lc₃⟩, hframe, hcall⟩ := bind_eq_ok.1 hcall
    cases hcall
    have heq := (decodeFrame_spec hframe).2.eq
    rw [heq]
    exact hs
  · rintro ⟨lc₁, seen₁⟩ hs
    exact hs

theorem max_eq_ite (m n : Nat) : max m n = if m > n then m else n := by
  split <;> omega

theorem min_eq_ite (m n : Nat) : min m n = if m < n then m else n := by
  split <;> omega

/-- The statements behind the counter are those of LDAP_sess_decode. -/
theorem measure_stats {n : Nat} (hcount : dc.recvCount = n) :
    clntStats (dc.measure c clock) =
      (clntStats dc).sample n (processTime clock (dc.clients c).timestampWrite).1 := by
  have hone : (1 : Int) < dc.recvCount ↔ n > 1 := by omega
  have hzero : (0 : Int) < dc.recvCount ↔ n > 0 := by omega
  have hnat : dc.recvCount.toNat = n := by omega
  simp only [clntStats, LdapT.measure, ResponseTimes.sample, processTime, hone, hzero, hnat,
    max_eq_ite, min_eq_ite]
  congr

theorem readyAgain_stats (h : dc.readyAgain c lc = .ok dc') :
    SameStats dc dc' ∧ (dc'.clients c).timestampWrite = lc.timestampWrite := by
  unfold LdapT.readyAgain at h
  split at h
  · obtain ⟨q, -, h⟩ := bind_eq_ok.1 h
    cases h
    exact ⟨⟨rfl, rfl⟩, by rw [put_clients]⟩
  · cases h
    exact ⟨⟨rfl, rfl⟩, by rw [put_clients]⟩

/-- A response is counted and measured when it is delivered. -/
structure Measured (dc dc' : LdapT) (time : Nat) : Prop where
  count : dc'.recvCount = int32 (dc.recvCount + 1)
  stats : ∀ n : Nat, int32 (dc.recvCount + 1) = n → clntStats dc' = (clntStats dc).sample n time

theorem decode_counts {grow : Alloc} {alloc : Bool}
    (h : ldapClntDecode now clock grow alloc c dc = .ok (out, dc', log)) :
    (out.code ≠ .dataAvailable ∧ SameStats dc dc') ∨
      (out.code = .dataAvailable ∧
        Measured dc dc' (processTime clock (dc.clients c).timestampWrite).1) := by
  obtain ⟨lc, hlc, h⟩ := bind_eq_ok.1 h
  have hown : lc = dc.clients c := by
    unfold LdapT.clnt at hlc
    split at hlc
    · exact (Except.ok.inj hlc).symm
    · cases hlc
  subst hown
  obtain ⟨⟨o, ⟨lc, seen⟩, rb⟩, hdec, h⟩ := bind_eq_ok.1 h
  have hstamp := decoded_stamp hdec
  simp only at h
  split at h
  · rename_i hcode
    obtain ⟨⟨o₁, dc₁, log₁⟩, hcount, h⟩ := bind_eq_ok.1 h
    cases h
    unfold countAnswer at hcount
    split at hcount
    · obtain ⟨dc₂, hready, hcount⟩ := bind_eq_ok.1 hcount
      cases hcount
      obtain ⟨hsame, hclients⟩ := readyAgain_stats hready
      refine .inr ⟨hcode, ?_, fun n hn => ?_⟩
      · show int32 (dc₂.recvCount + 1) = int32 (dc.recvCount + 1)
        rw [hsame.count]
      · rw [measure_stats (show int32 (dc₂.recvCount + 1) = n by rw [hsame.count, hn])]
        have hstats : clntStats { dc₂ with recvCount := int32 (dc₂.recvCount + 1) } =
            clntStats dc := hsame.stats
        rw [hstats]
        simp only [hclients, hstamp]
    · cases hcount
      exact .inl ⟨by simp, rfl, rfl⟩
  · rename_i hcode
    obtain ⟨⟨o₁, dc₁, log₁⟩, hkeep, h⟩ := bind_eq_ok.1 h
    cases h
    obtain ⟨waits, -, hkeep⟩ := bind_eq_ok.1 hkeep
    split at hkeep
    · obtain ⟨q, -, hkeep⟩ := bind_eq_ok.1 hkeep
      cases hkeep
      exact .inl ⟨by rw [hcode]; simp, rfl, rfl⟩
    · cases hkeep
      exact .inl ⟨by rw [hcode]; simp, rfl, rfl⟩
  · rename_i hcode _
    cases h
    exact .inl ⟨hcode, rfl, rfl⟩

end

/-! ## Runs -/

/-- The process time of a call that delivers a response. -/
def clntTimes (dc : LdapT) (out : Outcome) : Call → List Nat
  | .decode _ clock _ _ c =>
      if out.code = .dataAvailable then [(processTime clock (dc.clients c).timestampWrite).1] else []
  | _ => []

/-- A call on a client, and the process times so far. -/
def clntStep (st : LdapT × List Nat) (call : Call) : Except Fault (LdapT × List Nat) := do
  let (out, dc, _) ← call.perform st.1
  pure (dc, st.2 ++ clntTimes st.1 out call)

/-- While recv_count is positive it counts the deliveries. -/
def ClntCounting (st : LdapT × List Nat) : Prop :=
  st.2.length < 2 ^ 31 → st.1.recvCount = st.2.length ∧
    clntStats st.1 = (tally (st.2.map Counted.delivered)).stats

theorem tally_count {log : List Counted} (h : log.length < 2 ^ 64) :
    (tally log).count = log.length := by
  induction log using List.reverseRecOn with
  | nil => rfl
  | append_singleton log e ih =>
    rw [List.length_append, List.length_singleton] at h ⊢
    have hcount := ih (by omega)
    have hnext : ((tally log).count + 1) % 2 ^ 64 = log.length + 1 := by
      rw [hcount]
      exact Nat.mod_eq_of_lt h
    rw [tally_snoc]
    cases e <;> exact hnext

theorem ClntCounting.step {st st' : LdapT × List Nat} {call : Call} (inv : ClntCounting st)
    (h : clntStep st call = .ok st') : ClntCounting st' := by
  obtain ⟨⟨out, dc, log⟩, hcall, h⟩ := bind_eq_ok.1 h
  cases h
  have same : clntTimes st.1 out call = [] → SameStats st.1 dc →
      ClntCounting (dc, st.2 ++ clntTimes st.1 out call) := by
    intro hnone hsame
    rw [hnone, List.append_nil]
    intro hlen
    obtain ⟨hcount, hstats⟩ := inv hlen
    exact ⟨hsame.count.trans hcount, hsame.stats.trans hstats⟩
  cases call with
  | «open» now connect mem wbuf =>
    rw [Call.perform] at hcall
    exact same rfl (open_same hcall)
  | close closeErr no => exact same rfl (close_same hcall)
  | read now sockErr stack alloc recv c => exact same rfl (read_same hcall)
  | write now sockErr send c => exact same rfl (write_same hcall)
  | sendMessage now clock env lc ber => exact same rfl (sendMessage_same hcall)
  | keepAlive now env => exact same rfl (keepAliveFrom_same hcall)
  | checkConnection now closeErr => exact same rfl (checkFrom_same hcall)
  | consume c =>
    obtain ⟨lc, -, hcall⟩ := bind_eq_ok.1 hcall
    cases hcall
    exact same rfl ⟨rfl, rfl⟩
  | decode now clock grow alloc c =>
    rcases decode_counts hcall with ⟨hcode, hsame⟩ | ⟨hcode, hmeasured⟩
    · exact same (if_neg hcode) hsame
    · have htimes : clntTimes st.1 out (.decode now clock grow alloc c) =
          [(processTime clock (st.1.clients c).timestampWrite).1] := if_pos hcode
      rw [htimes]
      intro hlen
      simp only [List.length_append, List.length_singleton] at hlen
      obtain ⟨hcount, hstats⟩ := inv (by omega)
      have hnext : int32 (st.1.recvCount + 1) = ((st.2.length + 1 : Nat) : Int) := by
        rw [hcount]
        exact int32_natCast (n := st.2.length + 1) hlen
      have htally : (tally (st.2.map Counted.delivered)).count = st.2.length := by
        rw [tally_count (by rw [List.length_map]; omega), List.length_map]
      refine ⟨?_, ?_⟩
      · rw [hmeasured.count, hnext, List.length_append, List.length_singleton]
      · rw [hmeasured.stats _ hnext, hstats, List.map_append, List.map_singleton, tally_snoc]
        simp only [Tally.add, htally]
        rw [Nat.mod_eq_of_lt (by omega)]

theorem setOption_same (opt : ClntOption) (dc : LdapT) :
    SameStats dc (ldapClntSetOption dc opt).2 := by
  cases opt with
  | maxClient n =>
    rw [ldapClntSetOption]
    split <;> exact ⟨rfl, rfl⟩
  | maxConcurrent n =>
    rw [ldapClntSetOption]
    split <;> exact ⟨rfl, rfl⟩
  | _ => exact ⟨rfl, rfl⟩

theorem options_same (options : List ClntOption) (dc : LdapT) :
    SameStats dc (options.foldl (fun dc opt => (ldapClntSetOption dc opt).2) dc) := by
  induction options generalizing dc with
  | nil => exact .refl dc
  | cons opt options ih => exact (setOption_same opt dc).trans (ih _)

theorem start_clntCounting (s : Setup) : ClntCounting (s.start, []) := by
  intro _
  have hsame := options_same s.options
    (ldapClntInit s.username s.password s.wbuffer s.concurrent s.maxClient s.random)
  exact ⟨hsame.count, hsame.stats⟩

/-- The statistics of a client are true as long as recv_count does not wrap. -/
theorem client_truthful {s : Setup} {calls : List Call} {st : LdapT × List Nat}
    (hrun : run clntStep (s.start, []) calls = .ok st) (hsome : st.2 ≠ [])
    (hcount : st.2.length < 2 ^ 31) (hsum : st.2.sum < 2 ^ 64) :
    Truthful (clntStats st.1) st.2 := by
  have always : Along clntStep (fun _ _ _ => True) (s.start, []) calls :=
    fun _ _ _ _ _ _ => trivial
  have inv : ClntCounting st := run_invariant (I := fun _ st => ClntCounting st)
    (start_clntCounting s) (fun _ _ _ _ h _ hstep => h.step hstep) always hrun
  have hb : Bounded (st.2.map Counted.delivered) := by
    refine ⟨by rw [List.length_map]; omega, ?_⟩
    rw [times_delivered]
    exact hsum
  rw [(inv hcount).2]
  exact truthful_of_deliveries hsome hb

/-- The statistics of a client are true while recv_count does not wrap; those of a server, after a
delivery, if and only if some message took no time and the reads make no difference to the
average. -/
theorem response_times_true_iff (s : Setup) (calls : List Call) (st : LdapT × List Nat)
    (conf : DsT) (version : UInt32) (maxSession : Int) (serverCalls : List (Idle.Call × Timeval))
    (server : Server) (before : List Counted) (p : Nat) :
    (run clntStep (s.start, []) calls = .ok st → st.2 ≠ [] → st.2.length < 2 ^ 31 →
      st.2.sum < 2 ^ 64 → Truthful (clntStats st.1) st.2) ∧
    (run (step conf) (start version maxSession) serverCalls = .ok server →
      server.log = before ++ [.delivered p] → Bounded server.log →
        (Truthful server.tally.stats (times server.log) ↔ 0 ∈ times server.log ∧
          (times server.log).sum / server.log.length =
            (times server.log).sum / (times server.log).length)) :=
  ⟨fun hrun hsome hcount hsum => client_truthful hrun hsome hcount hsum,
    fun hrun hlog hb => server_truthful_iff hrun hlog hb⟩

/-- One peer binds and sends one request, which is delivered after five microseconds. -/
def oneRequest : List (Idle.Call × Timeval) :=
  (Idle.connect ++ Idle.bind ++ Idle.request).map fun call => (call, ⟨0, 5⟩)

/-- The times of a run, how much was counted, and the smallest time. -/
def Server.summary (st : Server) : List Nat × Nat × Nat :=
  (times st.log, st.log.length, st.tally.stats.min)

theorem first_sample_missed : ∃ st, run (step Idle.oneUser) (start 0 1) oneRequest = .ok st ∧
    st.summary = ([5], 2, 0) ∧ ¬ Truthful st.tally.stats (times st.log) := by
  have hend : Server.summary <$> run (step Idle.oneUser) (start 0 1) oneRequest =
      .ok ([5], 2, 0) := by decide +kernel
  obtain ⟨st, hrun, hsummary⟩ := map_eq_ok hend
  refine ⟨st, hrun, hsummary, fun htrue => ?_⟩
  simp only [Server.summary, Prod.mk.injEq] at hsummary
  obtain ⟨htimes, -, hmin⟩ := hsummary
  have hmem := htrue.min.1
  rw [htimes, hmin] at hmem
  simp at hmem

end CassandraApi.Ldap.Statistics
