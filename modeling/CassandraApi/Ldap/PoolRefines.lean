/-
# `Ldap.PoolRefines` — every operation of the client is a run of its pool

One lemma for each operation, in the order of `Ldap.Client`; they all say
`Refines dc log dc'`: the events the operation reports can happen in the pool
of `dc`, one after the other, and lead to the pool of `dc'`.
-/
import CassandraApi.Ldap.Pool

namespace CassandraApi.Ldap

open C Ber Lib

variable {dc dc' : LdapT} {log : List Event} {out : Outcome} {c : Ptr} {lc : LdapClnt}

/-! ## Opening and closing -/

theorem freeSlot_some {array : Nat → Option Ptr} {i : Nat} (h : freeSlot array = some i) :
    i < ldapMaxClient ∧ array i = none := by
  have hp := List.find?_some h
  have hm := List.mem_of_find?_eq_some h
  exact ⟨List.mem_range.1 hm, Option.isNone_iff_eq_none.1 hp⟩

theorem ldapClntOpen_refines {now : Int} {connect : Connect} {mem : Option Ptr} {wbuf : Bool}
    (h : ldapClntOpen now connect mem wbuf dc = .ok (out, dc', log)) : Refines dc log dc' := by
  unfold ldapClntOpen at h
  split at h
  · cases h
    exact .refl rfl
  split at h
  · cases h
    exact .refl rfl
  split at h
  · cases h
    exact .refl rfl
  rename_i i hi
  obtain ⟨hlt, hfree⟩ := freeSlot_some hi
  split at h
  · cases h
    exact .refl rfl
  rename_i c
  split at h
  · cases h
  rename_i hnew
  have hguard : i < ldapMaxClient ∧ dc.pool.clientArray i = none ∧
      (dc.pool.links c).isNone := ⟨hlt, hfree, by simpa [LdapT.pool] using hnew⟩
  split at h
  · simp only [bind_eq_ok] at h
    obtain ⟨q, hq, h⟩ := h
    cases h
    refine .single ?_
    rw [LdapT.pool_put]
    simp only [Pool.step, Pool.alloc, Pool.require_bind hguard, pure_eq_ok, ok_bind]
    exact bind_eq_ok.2 ⟨q, hq, rfl⟩
  · cases h
    refine .single ?_
    rw [LdapT.pool_put]
    simp only [Pool.step, Pool.alloc, Pool.require_bind hguard]
    rfl

theorem ldapClntClose_refines {closeErr : Option String} {no : Int}
    (h : ldapClntClose closeErr no dc = .ok (out, dc', log)) : Refines dc log dc' := by
  unfold ldapClntClose at h
  split at h
  · cases h
  rename_i hno
  split at h
  · cases h
    exact .refl rfl
  rename_i c hc
  simp only [bind_eq_ok] at h
  obtain ⟨lc, hlc, q, hq, h⟩ := h
  have hguard : no.toNat < ldapMaxClient ∧ dc.pool.clientArray no.toNat = some c := ⟨by omega, hc⟩
  have hstep : dc.pool.step (.closed no.toNat c) = .ok (LdapT.pool { dc with
      toQueues := { q with links := Function.update q.links c none }
      clientArray := Function.update dc.clientArray no.toNat none
      clientCount := dc.clientCount - 1 }) := by
    simp only [Pool.step, Pool.require_bind hguard, (LdapT.clnt_ok hlc).2, ok_bind]
    exact bind_eq_ok.2 ⟨q, hq, rfl⟩
  split at h <;> cases h <;> exact .single hstep

/-! ## Reading and writing -/

theorem ldapClntRead_refines {now : Int} {sockErr : SockErr} {stack : Nat → UInt8} {alloc : Alloc}
    {recv : Recv} (h : ldapClntRead now sockErr stack alloc recv c dc = .ok (out, dc', log)) :
    Refines dc log dc' := by
  simp only [ldapClntRead, bind_eq_ok] at h
  obtain ⟨lc, hlc, h⟩ := h
  obtain ⟨heq, hconn⟩ := LdapT.clnt_ok hlc
  split at h
  · cases h
    exact .refl rfl
  · rename_i hstate
    split at h
    · cases h
      exact .refl rfl
    simp only [bind_eq_ok] at h
    obtain ⟨r, -, h⟩ := h
    split at h
    · cases h
      exact .refl rfl
    simp only [bind_eq_ok] at h
    obtain ⟨q, hq, h⟩ := h
    cases h
    refine .single ?_
    rw [LdapT.pool_put]
    have hg : lc.conn.state = .stateConnecting := hstate
    simp only [Pool.step, hconn, ok_bind, Pool.require_bind hg]
    exact bind_eq_ok.2 ⟨q, hq, rfl⟩
  all_goals
    simp only [bind_eq_ok] at h
    obtain ⟨⟨o, rb⟩, -, h⟩ := h
    cases h
    refine .refl (LdapT.pool_put_same dc ?_)
    rw [← heq]
    split <;> rfl

theorem ldapClntWrite_refines {now : Int} {sockErr : SockErr} {send : Send}
    (h : ldapClntWrite now sockErr send c dc = .ok (out, dc', log)) : Refines dc log dc' := by
  simp only [ldapClntWrite, bind_eq_ok] at h
  obtain ⟨lc, hlc, h⟩ := h
  obtain ⟨heq, hconn⟩ := LdapT.clnt_ok hlc
  split at h
  · rename_i hstate
    split at h
    · cases h
      exact .refl rfl
    simp only [bind_eq_ok] at h
    obtain ⟨_, -, h⟩ := h
    split at h
    · cases h
      exact .refl rfl
    · cases h
      exact .refl rfl
    · cases h
      refine .single ?_
      rw [LdapT.pool_put]
      have hg : lc.conn.state = .stateOpen := hstate
      simp only [Pool.step, hconn, ok_bind, Pool.require_bind hg]
      rfl
  · cases h
    exact .refl rfl
  all_goals
    split at h
    · cases h
      exact .refl rfl
    rename_i buf hbuf
    split at h
    · cases h
      exact .refl rfl
    split at h
    · cases h
      exact .refl rfl
    rename_i r
    have hwb : lc.conn.wBuffer = some buf := hbuf
    have hpending : lc.conn.pending = buf.drop lc.wCurr := by
      simp only [Conn.pending, hwb, Option.getD_some]
      rfl
    have hg : ∀ n, lc.conn.wBuffer.isSome ∧
        lc.conn.pending.take ((buf.drop lc.wCurr).take n).length = (buf.drop lc.wCurr).take n := by
      intro n
      refine ⟨by rw [hwb]; rfl, ?_⟩
      rw [hpending, List.length_take, List.take_eq_take_iff]
      omega
    split at h
    · rename_i hlt
      cases h
      refine .single ?_
      rw [LdapT.pool_put]
      simp only [Pool.step, hconn, ok_bind, Pool.require_bind (hg _)]
      exact if_pos (by rw [hwb]; exact hlt)
    · rename_i hlt
      cases h
      refine .single ?_
      have hp : LdapT.pool { dc.put c { lc with
          wCurr := 0, wBuffer := some [], writeTime := 0, keepaliveTime := now } with
          sentCount := int32 (dc.sentCount + 1) } =
          dc.pool.put c { lc.conn with wCurr := 0, wBuffer := some [] } := LdapT.pool_put dc c _
      rw [hp]
      simp only [Pool.step, hconn, ok_bind, Pool.require_bind (hg _)]
      exact if_neg (by rw [hwb]; exact hlt)

/-! ## Sending -/

theorem copyBer_some {now : Int} {alloc : Bool} {ber : BER} {lc' : LdapClnt}
    (h : lc.copyBer now alloc ber = .ok (some lc')) :
    Pool.copy ber lc.conn = .ok lc'.conn ∧ lc'.concurrentCount = lc.concurrentCount := by
  unfold LdapClnt.copyBer at h
  split at h
  · cases h
  rename_i buf hbuf
  have hwb : lc.conn.wBuffer = some buf := hbuf
  simp only [Pool.copy, hwb]
  simp only at h
  split at h
  · cases h
  split at h
  · split at h
    · cases h
      exact ⟨rfl, rfl⟩
    · cases h
  · cases h
    exact ⟨rfl, rfl⟩

theorem flushQueue_refines {now : Int} {clock : Timeval} {env : SendEnv} {k : Nat}
    {bers : List BER} (hq : dc.sendMsgQueue = bers)
    (h : flushQueue now clock env k bers dc = .ok (out, dc', log)) : Refines dc log dc' := by
  induction bers generalizing k dc log with
  | nil =>
    cases h
    exact .refl rfl
  | cons ber bers ih =>
    unfold flushQueue at h
    split at h
    · cases h
      exact .refl rfl
    rename_i c hready
    simp only [bind_eq_ok] at h
    obtain ⟨lc, hlc, copied, hcopy, h⟩ := h
    split at h
    · cases h
      exact .refl rfl
    rename_i lc'
    simp only [bind_eq_ok] at h
    obtain ⟨dc1, hrot, h⟩ := h
    obtain ⟨hcp, hcount⟩ := copyBer_some hcopy
    have hguard : dc.pool.readyQueue = some c ∧ dc.pool.sendMsgQueue.head? = some ber :=
      ⟨hready, by simp [LdapT.pool, hq]⟩
    have hstep : dc.pool.step (.flushed c ber) = .ok (LdapT.pool { dc1 with
        sendMsgQueue := bers, queueCount := dc1.queueCount - 1 }) ∧
        LdapT.sendMsgQueue { dc1 with
          sendMsgQueue := bers, queueCount := dc1.queueCount - 1 } = bers := by
      refine ⟨?_, rfl⟩
      have htail : dc.pool.sendMsgQueue.tail = bers := by simp [LdapT.pool, hq]
      simp only [Pool.step, Pool.require_bind hguard, (LdapT.clnt_ok hlc).2, hcp, ok_bind, htail]
      unfold LdapT.rotate at hrot
      split at hrot
      · rename_i hfull
        simp only [bind_eq_ok] at hrot
        obtain ⟨q, hq', hrot⟩ := hrot
        cases hrot
        refine (if_pos hfull).trans (bind_eq_ok.2 ⟨q, hq', ?_⟩)
        have := LdapT.pool_put { dc with
          toQueues := q, sendMsgQueue := bers, queueCount := dc.queueCount - 1 } c
          { lc' with
            timestampWrite := clock
            concurrentCount := int32 (lc'.concurrentCount + 1)
            state := .stateWaiting }
        exact congrArg Except.ok this.symm
      · rename_i hfull
        simp only [bind_eq_ok] at hrot
        obtain ⟨q, hq', hrot⟩ := hrot
        cases hrot
        refine (if_neg hfull).trans (bind_eq_ok.2 ⟨q, hq', ?_⟩)
        have := LdapT.pool_put { dc with
          toQueues := q, sendMsgQueue := bers, queueCount := dc.queueCount - 1 } c
          { lc' with
            timestampWrite := clock, concurrentCount := int32 (lc'.concurrentCount + 1) }
        exact congrArg Except.ok this.symm
    split at h
    · cases h
      exact .single hstep.1
    · simp only [bind_eq_ok] at h
      obtain ⟨⟨out1, dc2, log1⟩, hrec, h⟩ := h
      cases h
      exact .cons hstep.1 (ih hstep.2 hrec)

theorem ldapClntSendMessage_refines {now : Int} {clock : Timeval} {env : SendEnv}
    {lc : Option Ptr} {ber : Option BER}
    (h : ldapClntSendMessage now clock env lc ber dc = .ok (out, dc', log)) :
    Refines dc log dc' := by
  unfold ldapClntSendMessage at h
  split at h
  · rename_i c ber
    simp only [sendDirect, bind_eq_ok] at h
    obtain ⟨⟨goOn, out1, dc1, log1⟩, ⟨lc, hlc, copied, hcopy, h1⟩, h⟩ := h
    cases copied with
    | none =>
      cases h1
      simp only [Bool.false_eq_true, not_false_eq_true, if_pos] at h
      cases h
      exact .refl rfl
    | some lc' =>
      cases h1
      have hstep : dc.pool.step (.direct c ber) = .ok (LdapT.pool (dc.put c { lc' with
          concurrentCount := int32 (lc'.concurrentCount + 1) })) := by
        rw [LdapT.pool_put]
        simp only [Pool.step, (LdapT.clnt_ok hlc).2, (copyBer_some hcopy).1, ok_bind, pure_eq_ok]
        rfl
      split at h
      · cases h
        exact .single hstep
      · simp only [bind_eq_ok] at h
        obtain ⟨⟨out2, dc2, log2⟩, hflush, h⟩ := h
        cases h
        exact .cons hstep (flushQueue_refines rfl hflush)
  · rename_i ber
    simp only [bind_eq_ok] at h
    obtain ⟨⟨out2, dc2, log2⟩, hflush, h⟩ := h
    cases h
    have hrest := flushQueue_refines (by rfl) hflush
    exact .cons rfl hrest
  · exact flushQueue_refines rfl h

/-! ## Keepalives and timeouts -/

theorem ldapSendKeepaliveRqt_refines {now : Int} {env : KeepaliveEnv} {ber : BER}
    (h : ldapSendKeepaliveRqt now env c ber dc = .ok (out, dc', log)) : Refines dc log dc' := by
  simp only [ldapSendKeepaliveRqt, bind_eq_ok] at h
  obtain ⟨lc, hlc, copied, hcopy, h⟩ := h
  cases copied with
  | none =>
    cases h
    exact .refl rfl
  | some lc' =>
    simp only [bind_eq_ok] at h
    obtain ⟨⟨out1, dc1, log1⟩, hwrite, h⟩ := h
    have hstep : dc.pool.step (.keepaliveCopied c ber) = .ok (dc.put c lc').pool := by
      rw [LdapT.pool_put]
      simp only [Pool.step, (LdapT.clnt_ok hlc).2, (copyBer_some hcopy).1, ok_bind, pure_eq_ok]
    have hrest := ldapClntWrite_refines hwrite
    split at h
    · cases h
      exact .cons hstep hrest
    · cases h
      exact .cons hstep hrest

theorem giveUp_refines {text : String} {env : KeepaliveEnv} {o : Option Outcome}
    (h : giveUp text env lc dc = .ok (o, dc', log)) : Refines dc log dc' := by
  obtain ⟨⟨out, dc1, log1⟩, hclose, h⟩ := bind_eq_ok.1 h
  cases h
  exact ldapClntClose_refines hclose

theorem keepOneAlive_refines {now : Int} {env : KeepaliveEnv} {o : Option Outcome}
    (h : keepOneAlive now env c dc = .ok (o, dc', log)) : Refines dc log dc' := by
  obtain ⟨lc, hlc, h⟩ := bind_eq_ok.1 h
  split at h
  · obtain ⟨request, -, h⟩ := bind_eq_ok.1 h
    cases request with
    | none =>
      cases h
      exact .refl rfl
    | some request =>
      obtain ⟨tid, ber⟩ := request
      have hstep : dc.pool.step (.keepaliveId c (UInt32.ofInt tid)) =
          .ok (LdapT.put { dc with tid := tid } c { lc with ktid := UInt32.ofInt tid }).pool := by
        rw [LdapT.pool_put]
        simp only [Pool.step, (LdapT.clnt_ok hlc).2, ok_bind, pure_eq_ok]
        rfl
      simp only at h
      split at h
      · obtain ⟨⟨o1, dc1, log1⟩, hgive, h⟩ := bind_eq_ok.1 h
        cases h
        exact .cons hstep (giveUp_refines hgive)
      · obtain ⟨⟨o1, dc1, log1⟩, hsend, h⟩ := bind_eq_ok.1 h
        have hrest := ldapSendKeepaliveRqt_refines hsend
        split at h
        · obtain ⟨⟨o2, dc2, log2⟩, hgive, h⟩ := bind_eq_ok.1 h
          cases h
          exact .cons hstep (hrest.trans (giveUp_refines hgive))
        · cases h
          exact .cons hstep hrest
  · cases h
    exact .refl rfl

theorem keepAliveFrom_refines {now : Int} {env : Nat → KeepaliveEnv} {is : List Nat}
    (h : keepAliveFrom now env is dc = .ok (out, dc', log)) : Refines dc log dc' := by
  induction is generalizing dc log with
  | nil =>
    cases h
    exact .refl rfl
  | cons i is ih =>
    unfold keepAliveFrom at h
    split at h
    · exact ih h
    · obtain ⟨⟨o, dc1, log1⟩, hone, h⟩ := bind_eq_ok.1 h
      have hfirst := keepOneAlive_refines hone
      cases o with
      | some o =>
        cases h
        exact hfirst
      | none =>
        obtain ⟨⟨o2, dc2, log2⟩, hrest, h⟩ := bind_eq_ok.1 h
        cases h
        exact hfirst.trans (ih hrest)

theorem checkFrom_refines {now : Int} {closeErr : Nat → Option String} {is : List Nat}
    {text : Option String} (h : checkFrom now closeErr is text dc = .ok (out, dc', log)) :
    Refines dc log dc' := by
  induction is generalizing dc log text with
  | nil =>
    cases h
    exact .refl rfl
  | cons i is ih =>
    unfold checkFrom at h
    split at h
    · exact ih h
    · obtain ⟨lc, -, h⟩ := bind_eq_ok.1 h
      split at h
      · exact ih h
      · obtain ⟨⟨o1, dc1, log1⟩, hclose, h⟩ := bind_eq_ok.1 h
        obtain ⟨⟨o2, dc2, log2⟩, hrest, h⟩ := bind_eq_ok.1 h
        cases h
        exact (ldapClntClose_refines hclose).trans (ih hrest)

theorem ldapClntKeepAlive_refines {now : Int} {env : Nat → KeepaliveEnv}
    (h : ldapClntKeepAlive now env dc = .ok (out, dc', log)) : Refines dc log dc' := by
  unfold ldapClntKeepAlive at h
  exact keepAliveFrom_refines h

theorem ldapClntCheckConnection_refines {now : Int} {closeErr : Nat → Option String}
    (h : ldapClntCheckConnection now closeErr dc = .ok (out, dc', log)) : Refines dc log dc' := by
  unfold ldapClntCheckConnection at h
  exact checkFrom_refines h

/-! ## Decoding -/

theorem Responded.conn {resp : Response} {lc' : LdapClnt} (h : Responded resp lc lc') :
    lc'.conn = { lc.conn with
      ktid := if resp.ret lc.ktid = .keepalive then 0 else lc.ktid
      received := lc.conn.received ++ resp.kept lc.ktid } := by
  have hno : lc'.no = lc.no := by rw [h.eq]
  have hstate : lc'.state = lc.state := by rw [h.eq]
  have hbuffer : lc'.wBuffer = lc.wBuffer := by rw [h.eq]
  have hcurr : lc'.wCurr = lc.wCurr := by rw [h.eq]
  have hcount : lc'.concurrentCount = lc.concurrentCount := by rw [h.eq]
  simp only [LdapClnt.conn, hno, hstate, hbuffer, hcurr, hcount, h.ktid, h.rber]

theorem Pool.put_put (k : Pool) (c : Ptr) (cn cn' : Conn) : (k.put c cn).put c cn' = k.put c cn' := by
  simp only [Pool.put, Function.update_idem]

theorem Pool.conn_put {k : Pool} (hlinks : (k.links c).isSome) (cn : Conn) :
    (k.put c cn).conn c = .ok cn := by
  simp only [Pool.conn, Pool.put, Function.update_self]
  exact if_pos hlinks

/-- A search entry is an event of the pool. -/
theorem entry_step {k : Pool} {lc' : LdapClnt} {resp : Response} (hlinks : (k.links c).isSome)
    (hret : resp.ret lc.ktid = .waitMoreData) (h : Responded resp lc lc') :
    (k.put c lc.conn).step (entryEvent c lc.ktid resp) = .ok (k.put c lc'.conn) := by
  have hktid : lc.conn.ktid = lc.ktid := rfl
  have hnot : ¬ RetCode.waitMoreData = RetCode.keepalive := by decide
  rw [h.conn, hret, if_neg hnot]
  unfold entryEvent
  split
  · rename_i own
    have hkept : resp.kept lc.ktid = [] := by
      cases resp with
      | none => rfl
      | some a => exact if_neg fun both => both.2 own
    simp only [Pool.step, Pool.conn_put hlinks, ok_bind,
      Pool.require_bind (show resp.ret lc.conn.ktid = .waitMoreData ∧ resp.Own lc.conn.ktid from
        ⟨hret, own⟩), hkept, List.append_nil, pure_eq_ok]
    rfl
  · rename_i own
    simp only [Pool.step, Pool.conn_put hlinks, ok_bind,
      Pool.require_bind (show resp.ret lc.conn.ktid = .waitMoreData ∧ ¬ resp.Own lc.conn.ktid from
        ⟨hret, own⟩), Pool.put_put, pure_eq_ok]
    rfl

theorem Response.ret_cases (resp : Response) (ktid : UInt32) :
    resp.ret ktid = .waitMoreData ∨ resp.ret ktid = .keepalive ∨ resp.ret ktid = .dataAvailable := by
  cases resp with
  | none => exact .inr (.inr rfl)
  | some a =>
    simp only [Response.ret]
    split_ifs
    · exact .inl rfl
    · exact .inr (.inl rfl)
    · exact .inr (.inr rfl)

/-- The loop over the frames: search entries, and perhaps a last response that is none. -/
theorem clntLoop_refines {now : Int} {alloc : Bool} {grow : Alloc} {turns : Nat} {o o' : Outcome}
    {lc' : LdapClnt} {seen seen' : List Response} {rb rb' : ReadBuffer} {k : Pool}
    (hlinks : (k.links c).isSome) (hgo : o.code ≠ .dataAvailable ∧ o.code ≠ .keepalive)
    (h : (clntDecoder now alloc).loop grow turns o (lc, seen) rb = .ok (o', (lc', seen'), rb')) :
    ∃ (entries : List Response) (mid : LdapClnt),
      run Pool.step (k.put c lc.conn) (entries.map (entryEvent c lc.ktid)) =
        .ok (k.put c mid.conn) ∧
      ((o'.code ≠ .dataAvailable ∧ o'.code ≠ .keepalive ∧ seen' = seen ++ entries ∧
          lc'.conn = mid.conn) ∨
        ∃ (last : Response) (lc₁ : LdapClnt), seen' = seen ++ entries ++ [last] ∧
          o'.code = last.ret mid.ktid ∧ o'.code ≠ .waitMoreData ∧ Responded last mid lc₁ ∧
          lc'.conn = lc₁.conn) := by
  induction turns generalizing o lc seen rb with
  | zero => cases h
  | succ turns ih =>
    obtain ⟨t, -, h⟩ := bind_eq_ok.1 h
    cases t with
    | idle =>
      cases h
      exact ⟨[], _, rfl, .inl ⟨hgo.1, hgo.2, (List.append_nil _).symm, rfl⟩⟩
    | partly rb₁ =>
      cases h
      exact ⟨[], _, rfl, .inl ⟨by simp, by simp, (List.append_nil _).symm, rfl⟩⟩
    | noMemory n rb₁ =>
      cases h
      exact ⟨[], _, rfl, .inl ⟨by simp, by simp, (List.append_nil _).symm, rfl⟩⟩
    | frame rb₁ =>
      obtain ⟨⟨ret, s⟩, hcall, h⟩ := bind_eq_ok.1 h
      obtain ⟨⟨code, resp, lc₁⟩, hframe, hcall⟩ := bind_eq_ok.1 hcall
      cases hcall
      obtain ⟨⟨rb₂, empty⟩, -, h⟩ := bind_eq_ok.1 h
      obtain ⟨hret, hresp⟩ := decodeFrame_spec hframe
      obtain ⟨lc₂, hs, hconn, hktid⟩ : ∃ lc₂ : LdapClnt,
          (if empty then (clntDecoder now alloc).emptied (lc₁, seen ++ [resp])
            else (lc₁, seen ++ [resp])) = (lc₂, seen ++ [resp]) ∧ lc₂.conn = lc₁.conn ∧
          lc₂.ktid = lc₁.ktid := by
        cases empty
        · exact ⟨lc₁, rfl, rfl, rfl⟩
        · exact ⟨_, rfl, rfl, rfl⟩
      simp only [hs, Reply.after_code] at h
      split at h
      · rename_i hwait
        rw [hwait] at hret
        have hsame : lc₂.ktid = lc.ktid := by
          rw [hktid, hresp.ktid, ← hret]
          rfl
        have hnext := ih (by rw [Reply.after_code, hwait]; exact ⟨by decide, by decide⟩) h
        obtain ⟨entries, mid, hrun, hend⟩ := hnext
        rw [hconn, hsame] at hrun
        refine ⟨resp :: entries, mid, run_cons_ok (entry_step hlinks hret.symm hresp) hrun, ?_⟩
        rcases hend with ⟨hdata, hkeep, hseen, hlast⟩ | ⟨last, lc₃, hseen, hlast⟩
        · exact .inl ⟨hdata, hkeep, by rw [hseen, List.append_assoc]; rfl, hlast⟩
        · exact .inr ⟨last, lc₃, by rw [hseen, List.append_assoc seen]; rfl, hlast⟩
      · rename_i hstop
        cases h
        refine ⟨[], lc, rfl, .inr ⟨resp, lc₁, by rw [List.append_nil], hret, hstop, hresp, hconn⟩⟩

theorem LdapT.measure_pool (dc : LdapT) (c : Ptr) (clock : Timeval) :
    (dc.measure c clock).pool = dc.pool :=
  LdapT.pool_put_same dc rfl

theorem Pool.put_queues_put (k : Pool) (q : Queues) (c : Ptr) (cn cn' : Conn) :
    Pool.put { k.put c cn with toQueues := q } c cn' = Pool.put { k with toQueues := q } c cn' := by
  simp only [Pool.put, Function.update_idem]

/-- The connection below max_concurrent comes back to ready_queue, in the pool. -/
theorem readyAgain_pool (h : dc.readyAgain c lc = .ok dc') :
    (if lc.conn.state = .stateWaiting ∧ lc.conn.concurrentCount < dc.pool.maxConcurrent then do
        let q ← dc.pool.toReady c
        pure (Pool.put { dc.pool with toQueues := q } c { lc.conn with state := .stateReady })
      else pure (dc.pool.put c lc.conn)) = .ok dc'.pool := by
  unfold LdapT.readyAgain at h
  split at h
  · rename_i hwait
    obtain ⟨q, hq, h⟩ := bind_eq_ok.1 h
    cases h
    rw [LdapT.pool_put]
    exact (if_pos hwait).trans (bind_eq_ok.2 ⟨q, hq, rfl⟩)
  · rename_i hwait
    cases h
    rw [LdapT.pool_put]
    exact if_neg hwait

/-- The counting of a final response, `mid` being the connection before it. -/
theorem countAnswer_refines {clock : Timeval} {mid : LdapClnt} {resp : Response} {o : Outcome}
    (hlinks : (dc.links c).isSome) (hret : resp.ret mid.ktid = .dataAvailable)
    (hconn : lc.conn = { mid.conn with received := mid.conn.received ++ resp.kept mid.ktid })
    (h : countAnswer clock c lc resp o dc = .ok (out, dc', log)) :
    Refines (dc.put c mid) log dc' := by
  have hmid : (dc.pool.put c mid.conn).conn c = .ok mid.conn :=
    Pool.conn_put (k := dc.pool) hlinks mid.conn
  have hcount : lc.concurrentCount = mid.conn.concurrentCount :=
    congrArg Conn.concurrentCount hconn
  unfold countAnswer at h
  split at h
  · rename_i hpos
    obtain ⟨dc1, hready, h⟩ := bind_eq_ok.1 h
    cases h
    refine .single ?_
    rw [hcount] at hpos
    have hguard : resp.ret mid.conn.ktid = .dataAvailable ∧ 0 < mid.conn.concurrentCount :=
      ⟨hret, hpos⟩
    have hcounted : LdapClnt.conn { lc with concurrentCount := lc.concurrentCount - 1 } =
        { mid.conn with
          concurrentCount := mid.conn.concurrentCount - 1
          received := mid.conn.received ++ resp.kept mid.conn.ktid } := by
      have hset : LdapClnt.conn { lc with concurrentCount := lc.concurrentCount - 1 } =
          { lc.conn with concurrentCount := lc.conn.concurrentCount - 1 } := rfl
      rw [hset, hconn]
      rfl
    have hpool := readyAgain_pool hready
    rw [hcounted] at hpool
    rw [LdapT.measure_pool, LdapT.pool_put]
    simp only [Pool.step, hmid, ok_bind, Pool.require_bind hguard, Pool.put_put,
      Pool.put_queues_put]
    exact hpool
  · rename_i hnone
    cases h
    refine .single ?_
    rw [hcount] at hnone
    have hguard : resp.ret mid.conn.ktid = .dataAvailable ∧ ¬ 0 < mid.conn.concurrentCount :=
      ⟨hret, hnone⟩
    rw [LdapT.pool_put, LdapT.pool_put]
    simp only [Pool.step, hmid, ok_bind, Pool.require_bind hguard, Pool.put_put, pure_eq_ok, hconn]
    rfl

/-- What answers a keepalive is not kept. -/
theorem Response.kept_keepalive {resp : Response} {ktid : UInt32}
    (h : resp.ret ktid = .keepalive) : resp.kept ktid = [] := by
  cases resp with
  | none => rfl
  | some a =>
    refine if_neg fun both => both.2 ?_
    simp only [Response.ret] at h
    split_ifs at h with _ hown
    exact hown.2

/-- The answer to a keepalive, `mid` being the connection before it. -/
theorem keepaliveAnswered_refines {mid : LdapClnt} {resp : Response} {o : Outcome}
    (hlinks : (dc.links c).isSome) (hret : resp.ret mid.ktid = .keepalive)
    (hconn : lc.conn = { mid.conn with ktid := 0 })
    (h : keepaliveAnswered c lc resp o dc = .ok (out, dc', log)) :
    Refines (dc.put c mid) log dc' := by
  obtain ⟨found, hfound, h⟩ := bind_eq_ok.1 h
  have hmid : (dc.pool.put c mid.conn).conn c = .ok mid.conn :=
    Pool.conn_put (k := dc.pool) hlinks mid.conn
  have hguard : resp.ret mid.conn.ktid = .keepalive := hret
  have hwaits : (dc.pool.put c mid.conn).waits c (ldapMaxClient + 1) = .ok found := hfound
  split at h
  · rename_i hwaiting
    obtain ⟨q, hq, h⟩ := bind_eq_ok.1 h
    cases h
    have hq' : (dc.pool.put c mid.conn).toReady c = .ok q := hq
    have hemptied : LdapClnt.conn { lc with wBuffer := lc.wBuffer.map fun _ => [], wCurr := 0 } =
        { lc.conn with wBuffer := lc.conn.wBuffer.map fun _ => [], wCurr := 0 } := rfl
    refine .single ?_
    rw [LdapT.pool_put, LdapT.pool_put, hemptied, hconn]
    simp only [Pool.step, hmid, ok_bind, Pool.require_bind hguard, hwaits,
      Pool.require_bind hwaiting, if_pos hwaiting, hq', Pool.put_queues_put, pure_eq_ok]
    rfl
  · rename_i hwaiting
    cases h
    refine .single ?_
    have hfalse : found = false := by simpa using hwaiting
    rw [LdapT.pool_put, LdapT.pool_put]
    simp only [Pool.step, hmid, ok_bind, Pool.require_bind hguard, hwaits,
      Pool.require_bind hfalse, if_neg hwaiting, Pool.put_put, pure_eq_ok, hconn]

theorem ldapClntDecode_refines {now : Int} {clock : Timeval} {grow : Alloc} {alloc : Bool}
    (h : ldapClntDecode now clock grow alloc c dc = .ok (out, dc', log)) : Refines dc log dc' := by
  obtain ⟨lc, hlc, h⟩ := bind_eq_ok.1 h
  obtain ⟨heq, hconn⟩ := LdapT.clnt_ok hlc
  have hlinks : (dc.links c).isSome := by
    unfold LdapT.clnt at hlc
    split at hlc
    · assumption
    · cases hlc
  obtain ⟨⟨o, ⟨lc', seen⟩, rb⟩, hdec, h⟩ := bind_eq_ok.1 h
  obtain ⟨entries, mid, hrun, hend⟩ :=
    clntLoop_refines (k := dc.pool) hlinks ⟨by decide, by decide⟩ hdec
  have hself : dc.pool.put c lc.conn = dc.pool := by
    rw [← LdapT.pool_put]
    exact LdapT.pool_put_same dc (by rw [heq])
  rw [hself, ← LdapT.pool_put] at hrun
  have hentries : Refines dc (entries.map (entryEvent c lc.ktid)) (dc.put c mid) := hrun
  simp only at h
  rcases hend with ⟨hdata, hkeep, hseen, hsame⟩ | ⟨last, lc₁, hseen, hcode, hnot, hresp, hsame⟩
  · split at h
    · exact absurd (by assumption) hdata
    · exact absurd (by assumption) hkeep
    · cases h
      rw [hseen, List.nil_append]
      have hpool : (dc.put c { lc' with rb := rb }).pool = (dc.put c mid).pool := by
        rw [LdapT.pool_put, LdapT.pool_put, ← hsame]
        rfl
      rw [Refines, hpool]
      exact hrun
  · rw [List.nil_append] at hseen
    have hlast : seen.getLast?.join = last := by
      rw [hseen, List.getLast?_concat]
      rfl
    have hfront : seen.dropLast = entries := by
      rw [hseen, List.dropLast_concat]
    have hconn₁ := hresp.conn
    rw [hlast, hfront] at h
    split at h
    · rename_i hdata
      obtain ⟨⟨o₁, dc₁, log₁⟩, hcount, h⟩ := bind_eq_ok.1 h
      cases h
      rw [hdata] at hcode
      refine hentries.trans (countAnswer_refines hlinks hcode.symm ?_ hcount)
      rw [← hcode, if_neg (by decide)] at hconn₁
      exact (show LdapClnt.conn { lc' with rb := rb } = lc'.conn from rfl).trans
        (hsame.trans hconn₁)
    · rename_i hkeep
      obtain ⟨⟨o₁, dc₁, log₁⟩, hanswered, h⟩ := bind_eq_ok.1 h
      cases h
      rw [hkeep] at hcode
      refine hentries.trans (keepaliveAnswered_refines hlinks hcode.symm ?_ hanswered)
      rw [← hcode, if_pos rfl, Response.kept_keepalive hcode.symm, List.append_nil] at hconn₁
      exact (show LdapClnt.conn { lc' with rb := rb } = lc'.conn from rfl).trans
        (hsame.trans hconn₁)
    · rename_i hdata hkeep
      exfalso
      rcases last.ret_cases mid.ktid with hret | hret | hret
      · exact hnot (hcode.trans hret)
      · exact hkeep (hcode.trans hret)
      · exact hdata (hcode.trans hret)

theorem lberConsume_refines (h : lberConsume c dc = .ok (out, dc', log)) : Refines dc log dc' := by
  obtain ⟨lc, hlc, h⟩ := bind_eq_ok.1 h
  cases h
  refine .single ?_
  rw [LdapT.pool_put]
  simp only [Pool.step, (LdapT.clnt_ok hlc).2, ok_bind, pure_eq_ok]
  rfl

/-! ## Runs -/

theorem perform_refines {call : Call} (h : call.perform dc = .ok (out, dc', log)) :
    Refines dc log dc' := by
  unfold Call.perform at h
  cases call with
  | «open» => exact ldapClntOpen_refines h
  | close => exact ldapClntClose_refines h
  | read => exact ldapClntRead_refines h
  | write => exact ldapClntWrite_refines h
  | sendMessage => exact ldapClntSendMessage_refines h
  | keepAlive => exact ldapClntKeepAlive_refines h
  | checkConnection => exact ldapClntCheckConnection_refines h
  | decode => exact ldapClntDecode_refines h
  | consume => exact lberConsume_refines h

/-- Every sequence of calls is a run of the pool. -/
theorem runCalls_refines {calls : List Call} (h : runCalls calls dc = .ok (dc', log)) :
    Refines dc log dc' := by
  induction calls generalizing dc log with
  | nil =>
    cases h
    exact .refl rfl
  | cons call calls ih =>
    obtain ⟨⟨out, dc1, log1⟩, hcall, h⟩ := bind_eq_ok.1 h
    obtain ⟨⟨dc2, log2⟩, hrest, h⟩ := bind_eq_ok.1 h
    cases h
    exact (perform_refines hcall).trans (ih hrest)

end CassandraApi.Ldap
