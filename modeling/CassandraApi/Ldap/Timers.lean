/-
# `Ldap.Timers` — the clocks of a client

In a run the clock of reading of a connection always runs exactly while there is
something to decode.  That of writing runs exactly while there is something to send,
unless one of two things happens (`timers_true_iff`):

    the answer to a bind request stops the clock of what was put into the write
    buffer before it came;
    an answer to a keepalive empties the write buffer and does not stop the clock.

There is one lemma about the clocks for each operation, and one for each of the two.
-/
import CassandraApi.Ldap.ConnTimers
import CassandraApi.Ldap.Overload

namespace CassandraApi.Ldap

open C Ber Lib

/-! ## Links -/

section Links

variable {h h' : Heap Ptr} {a c : Ptr} {v : Option Ptr}

theorem node_alloc {n : Node Ptr} (hnode : h.node a = .ok n) : (h a).isSome := by
  unfold Heap.node at hnode
  split at hnode
  · cases hnode
  · rename_i hsome
    rw [hsome]
    rfl

/-- Links are written where there are links. -/
theorem setPrev_alloc (hset : h.setPrev a v = .ok h') :
    (h a).isSome ∧ ∀ y, (h' y).isSome = (h y).isSome := by
  obtain ⟨n, hnode, -⟩ := bind_eq_ok.1 hset
  obtain ⟨h₁, hset₁, same, -⟩ := setPrev_eq (node_alloc hnode) v
  obtain rfl : h₁ = h' := Except.ok.inj (hset₁.symm.trans hset)
  exact ⟨node_alloc hnode, same.alloc⟩

theorem setNext_alloc (hset : h.setNext a v = .ok h') :
    (h a).isSome ∧ ∀ y, (h' y).isSome = (h y).isSome := by
  obtain ⟨n, hnode, -⟩ := bind_eq_ok.1 hset
  obtain ⟨h₁, hset₁, same, -⟩ := setNext_eq (node_alloc hnode) v
  obtain rfl : h₁ = h' := Except.ok.inj (hset₁.symm.trans hset)
  exact ⟨node_alloc hnode, same.alloc⟩

theorem linkedlistAppend_alloc {first first' : Option Ptr}
    (happ : linkedlistAppend first c h = .ok (first', h')) : (h' c).isSome := by
  unfold linkedlistAppend at happ
  split at happ
  · obtain ⟨h₁, hnext, happ⟩ := bind_eq_ok.1 happ
    obtain ⟨h₂, hprev, happ⟩ := bind_eq_ok.1 happ
    cases happ
    rw [(setPrev_alloc hprev).2]
    exact (setPrev_alloc hprev).1
  · obtain ⟨f, -, happ⟩ := bind_eq_ok.1 happ
    obtain ⟨h₁, hprev, happ⟩ := bind_eq_ok.1 happ
    obtain ⟨h₂, hnext, happ⟩ := bind_eq_ok.1 happ
    obtain ⟨g, -, happ⟩ := bind_eq_ok.1 happ
    obtain ⟨last, -, happ⟩ := bind_eq_ok.1 happ
    obtain ⟨h₃, hnext₃, happ⟩ := bind_eq_ok.1 happ
    obtain ⟨h₄, hprev₄, happ⟩ := bind_eq_ok.1 happ
    cases happ
    rw [(setPrev_alloc hprev₄).2, (setNext_alloc hnext₃).2, (setNext_alloc hnext).2]
    exact (setNext_alloc hnext).1

/-- A connection that has been moved is there. -/
theorem toReady_alloc {q q' : Queues} (hq : q.toReady c = .ok q') : (q'.links c).isSome := by
  obtain ⟨q₁, -, hq⟩ := bind_eq_ok.1 hq
  obtain ⟨⟨first, links⟩, happ, hq⟩ := bind_eq_ok.1 hq
  cases hq
  exact linkedlistAppend_alloc happ

end Links

/-! ## The operations -/

/-- All clocks are true, and no BER of the queue is empty. -/
structure LdapT.Timed (dc : LdapT) : Prop where
  clients : ∀ c, (dc.clients c).Timed
  queue : ∀ ber ∈ dc.sendMsgQueue, ber.berval ≠ []

section Operations

variable {dc dc' : LdapT} {out : Outcome} {log : List Event} {now : Int} {c : Ptr} {lc : LdapClnt}

/-- Nothing but one connection, and what the clocks do not depend on, is changed. -/
theorem LdapT.Timed.put (h : dc.Timed) (hlc : lc.Timed)
    (hclients : dc'.clients = Function.update dc.clients c lc)
    (hqueue : ∀ ber ∈ dc'.sendMsgQueue, ber ∈ dc.sendMsgQueue) : dc'.Timed := by
  refine ⟨fun y => ?_, fun ber hber => h.queue ber (hqueue ber hber)⟩
  rw [hclients]
  by_cases hy : y = c
  · subst hy
    rw [Function.update_self]
    exact hlc
  · rw [Function.update_of_ne hy]
    exact h.clients y

theorem LdapT.Timed.congr (h : dc.Timed) (hclients : dc'.clients = dc.clients)
    (hqueue : ∀ ber ∈ dc'.sendMsgQueue, ber ∈ dc.sendMsgQueue) : dc'.Timed := by
  refine ⟨fun y => ?_, fun ber hber => h.queue ber (hqueue ber hber)⟩
  rw [hclients]
  exact h.clients y

theorem LdapT.Timed.clnt (h : dc.Timed) (hlc : dc.clnt c = .ok lc) : lc.Timed := by
  rw [(LdapT.clnt_ok hlc).1]
  exact h.clients c

theorem new_timed (i : Int) (now : Int) (wBuffer : Option (List UInt8))
    (hbuf : wBuffer.getD [] = []) : LdapClnt.Timed { no := i, createTime := now, wBuffer } where
  input := Iff.rfl
  output := by
    have hnone : (LdapClnt.conn { no := i, createTime := now, wBuffer }).pending = [] := by
      simp only [Conn.pending, LdapClnt.conn, hbuf, List.drop_nil]
    refine iff_of_false (lt_irrefl 0) ?_
    rintro (hstate | hpending)
    · cases hstate
    · exact hpending hnone
  front := Nat.zero_le _
  sized := ⟨le_refl _, fun _ => rfl, fun buf hbuf => by cases hbuf⟩
  unbound _ := rfl

theorem LdapT.Timed.open (h : dc.Timed) {connect : Connect} {mem : Option Ptr} {wbuf : Bool}
    (hopen : ldapClntOpen now connect mem wbuf dc = .ok (out, dc', log)) : dc'.Timed := by
  unfold ldapClntOpen at hopen
  split at hopen
  · cases hopen
    exact h
  split at hopen
  · cases hopen
    exact h
  split at hopen
  · cases hopen
    exact h
  split at hopen
  · cases hopen
    exact h
  split at hopen
  · cases hopen
  split at hopen
  · obtain ⟨q, -, hopen⟩ := bind_eq_ok.1 hopen
    cases hopen
    exact h.put (new_timed _ now (some []) rfl) rfl fun _ => id
  · cases hopen
    exact h.put (new_timed _ now none rfl) rfl fun _ => id

theorem LdapT.Timed.close (h : dc.Timed) {closeErr : Option String} {no : Int}
    (hclose : ldapClntClose closeErr no dc = .ok (out, dc', log)) : dc'.Timed := by
  unfold ldapClntClose at hclose
  split at hclose
  · cases hclose
  split at hclose
  · cases hclose
    exact h
  obtain ⟨lc, -, hclose⟩ := bind_eq_ok.1 hclose
  obtain ⟨q, -, hclose⟩ := bind_eq_ok.1 hclose
  split at hclose
  · cases hclose
    exact h.congr rfl fun _ => id
  · cases hclose
    exact h.congr rfl fun _ => id

/-- What the socket takes restarts the clock, or stops it with the last byte. -/
theorem LdapT.Timed.write (h : dc.Timed) (hnow : 0 < now) {sockErr : SockErr} {send : Send}
    (hwrite : ldapClntWrite now sockErr send c dc = .ok (out, dc', log)) : dc'.Timed := by
  obtain ⟨lc, hlc, hwrite⟩ := bind_eq_ok.1 hwrite
  have own := h.clnt hlc
  split at hwrite
  · rename_i hstate
    split at hwrite
    · cases hwrite
      exact h
    obtain ⟨msg, -, hwrite⟩ := bind_eq_ok.1 hwrite
    split at hwrite
    · cases hwrite
      exact h.congr rfl fun _ => id
    · cases hwrite
      exact h.congr rfl fun _ => id
    · cases hwrite
      refine h.put ?_ rfl fun _ => id
      exact ⟨⟨own.input, iff_of_true hnow (.inl rfl)⟩, own.front, own.sized,
        fun _ => own.unbound (.inl hstate)⟩
  · cases hwrite
    exact h
  all_goals
    rename_i hstate
    split at hwrite
    · cases hwrite
      exact h
    rename_i buf hbuf
    split at hwrite
    · cases hwrite
      exact h
    split at hwrite
    · cases hwrite
      exact h
    simp only at hwrite
    split at hwrite
    · rename_i hmore
      cases hwrite
      have hpending : buf.drop (lc.wCurr + _) ≠ [] := List.drop_eq_nil_iff.not.2 (not_le.2 hmore)
      refine h.put ?_ rfl fun _ => id
      refine ⟨⟨own.input, iff_of_true hnow (.inr ?_)⟩, ?_, own.sized, own.unbound⟩
      · simp only [Conn.pending, LdapClnt.conn, hbuf, Option.getD_some]
        exact hpending
      · simp only [Conn.Front, LdapClnt.conn, hbuf, Option.getD_some]
        exact hmore.le
    · cases hwrite
      refine h.put ?_ rfl fun _ => id
      refine ⟨⟨own.input, iff_of_false (lt_irrefl 0) ?_⟩, Nat.zero_le _, own.sized, own.unbound⟩
      rintro (hconnecting | hpending)
      · exact absurd (hstate.symm.trans hconnecting) (by decide)
      · exact hpending rfl

theorem LdapT.Timed.rotate (h : dc.Timed) (hlc : lc.Timed) (hpending : lc.conn.pending ≠ [])
    (hrot : dc.rotate c lc = .ok dc') : dc'.Timed := by
  unfold LdapT.rotate at hrot
  split at hrot
  · obtain ⟨q, -, hrot⟩ := bind_eq_ok.1 hrot
    cases hrot
    exact h.put (hlc.bound (.inr rfl) (.inr hpending)) rfl fun _ => id
  · obtain ⟨q, -, hrot⟩ := bind_eq_ok.1 hrot
    cases hrot
    exact h.put hlc rfl fun _ => id

theorem LdapT.Timed.flushQueue (h : dc.Timed) (hnow : 0 < now) {clock : Timeval} {env : SendEnv}
    {k : Nat} {bers : List BER} (hbers : ∀ ber ∈ bers, ber.berval ≠ [])
    (hflush : flushQueue now clock env k bers dc = .ok (out, dc', log)) : dc'.Timed := by
  induction bers generalizing k dc log with
  | nil =>
    cases hflush
    exact h
  | cons ber bers ih =>
    unfold Ldap.flushQueue at hflush
    split at hflush
    · cases hflush
      exact h
    obtain ⟨lc, hlc, hflush⟩ := bind_eq_ok.1 hflush
    obtain ⟨copied, hcopy, hflush⟩ := bind_eq_ok.1 hflush
    split at hflush
    · cases hflush
      exact h
    rename_i lc'
    obtain ⟨dc₁, hrot, hflush⟩ := bind_eq_ok.1 hflush
    obtain ⟨hcopied, hpending⟩ := (h.clnt hlc).copied hnow (hbers ber List.mem_cons_self) hcopy
    have hcounted : LdapClnt.Timed { lc' with
        timestampWrite := clock, concurrentCount := int32 (lc'.concurrentCount + 1) } :=
      hcopied.same ⟨rfl, rfl, rfl, rfl, rfl, rfl⟩
    have h₁ := h.rotate hcounted hpending hrot
    have hrest : ∀ ber ∈ bers, ber.berval ≠ [] := fun b hb => hbers b (List.mem_cons_of_mem _ hb)
    have h₂ : LdapT.Timed { dc₁ with
        sendMsgQueue := bers, queueCount := dc₁.queueCount - 1 } := ⟨h₁.clients, hrest⟩
    split at hflush
    · cases hflush
      exact h₂
    · obtain ⟨⟨o, dc₃, log₃⟩, hmore, hflush⟩ := bind_eq_ok.1 hflush
      cases hflush
      exact ih h₂ hrest hmore

theorem LdapT.Timed.sendMessage (h : dc.Timed) (hnow : 0 < now) {clock : Timeval} {env : SendEnv}
    {target : Option Ptr} {ber : Option BER} (hber : ∀ b, ber = some b → b.berval ≠ [])
    (hsend : ldapClntSendMessage now clock env target ber dc = .ok (out, dc', log)) : dc'.Timed := by
  unfold ldapClntSendMessage at hsend
  split at hsend
  · rename_i c ber
    obtain ⟨⟨goOn, o, dc₁, log₁⟩, hdirect, hsend⟩ := bind_eq_ok.1 hsend
    have h₁ : dc₁.Timed := by
      obtain ⟨lc, hlc, hdirect⟩ := bind_eq_ok.1 hdirect
      obtain ⟨copied, hcopy, hdirect⟩ := bind_eq_ok.1 hdirect
      cases copied with
      | none =>
        cases hdirect
        exact h
      | some lc' =>
        cases hdirect
        have hcopied := ((h.clnt hlc).copied hnow (hber ber rfl) hcopy).1
        refine h.put ?_ rfl fun _ => id
        exact hcopied.same ⟨rfl, rfl, rfl, rfl, rfl, rfl⟩
    simp only at hsend
    split at hsend
    · cases hsend
      exact h₁
    · obtain ⟨⟨o₂, dc₂, log₂⟩, hflush, hsend⟩ := bind_eq_ok.1 hsend
      cases hsend
      exact h₁.flushQueue hnow h₁.queue hflush
  · rename_i ber
    obtain ⟨⟨o₂, dc₂, log₂⟩, hflush, hsend⟩ := bind_eq_ok.1 hsend
    cases hsend
    have hqueue : ∀ b ∈ dc.sendMsgQueue ++ [ber], b.berval ≠ [] := by
      intro b hb
      rcases List.mem_append.1 hb with hb | hb
      · exact h.queue b hb
      · obtain rfl := List.mem_singleton.1 hb
        exact hber b rfl
    have hqueued : LdapT.Timed { dc with
        sendMsgQueue := dc.sendMsgQueue ++ [ber], queueCount := dc.queueCount + 1 } :=
      ⟨h.clients, hqueue⟩
    exact hqueued.flushQueue hnow hqueue hflush
  · exact h.flushQueue hnow h.queue hsend

/-! ## Keepalives -/

theorem append_berval {b b' : BER} {bytes : List UInt8} (h : b.append bytes = .ok b') :
    b'.berval = b.berval ++ bytes := by
  unfold BER.append at h
  split at h
  · cases h
    rfl
  · cases h

theorem finishRequest_nonempty {alloc : Bool} {tid tid' : Int} {ber : Option BER} {b : BER}
    {controls : List Control} {op rest : List UInt8} {sum : Nat}
    (h : finishRequest alloc tid ber controls op sum rest = .ok (tid', b)) : b.berval ≠ [] := by
  obtain ⟨bMsg, -, h⟩ := bind_eq_ok.1 h
  obtain ⟨n, -, h⟩ := bind_eq_ok.1 h
  obtain ⟨L, -, h⟩ := bind_eq_ok.1 h
  simp only at h
  split at h
  · cases h
  obtain ⟨b₁, hhead, h⟩ := bind_eq_ok.1 h
  obtain ⟨octets, -, h⟩ := bind_eq_ok.1 h
  obtain ⟨b₂, htail, h⟩ := bind_eq_ok.1 h
  cases h
  rw [append_berval htail, append_berval hhead]
  simp

/-- The request for a keepalive is a message. -/
theorem keepaliveRequest_nonempty {alloc : Bool} {tid : Int} {ber : BER}
    (h : keepaliveRequest alloc dc = .ok (some (tid, ber))) : ber.berval ≠ [] := by
  unfold keepaliveRequest at h
  split at h
  · cases h
  · have hgen := map_some_eq_ok h
    obtain ⟨L, -, hgen⟩ := bind_eq_ok.1 hgen
    obtain ⟨L', -, hgen⟩ := bind_eq_ok.1 hgen
    exact finishRequest_nonempty hgen
  · have hgen := map_some_eq_ok h
    obtain ⟨L₁, -, hgen⟩ := bind_eq_ok.1 hgen
    obtain ⟨L₂, -, hgen⟩ := bind_eq_ok.1 hgen
    obtain ⟨L₃, -, hgen⟩ := bind_eq_ok.1 hgen
    obtain ⟨L₄, -, hgen⟩ := bind_eq_ok.1 hgen
    obtain ⟨ext, -, hgen⟩ := bind_eq_ok.1 hgen
    exact finishRequest_nonempty hgen

theorem LdapT.Timed.sendKeepalive (h : dc.Timed) (hnow : 0 < now) {env : KeepaliveEnv} {ber : BER}
    (hber : ber.berval ≠ [])
    (hsend : ldapSendKeepaliveRqt now env c ber dc = .ok (out, dc', log)) : dc'.Timed := by
  obtain ⟨lc, hlc, hsend⟩ := bind_eq_ok.1 hsend
  obtain ⟨copied, hcopy, hsend⟩ := bind_eq_ok.1 hsend
  cases copied with
  | none =>
    cases hsend
    exact h
  | some lc' =>
    obtain ⟨⟨o, dc₁, log₁⟩, hwrite, hsend⟩ := bind_eq_ok.1 hsend
    have hput : (dc.put c lc').Timed :=
      h.put ((h.clnt hlc).copied hnow hber hcopy).1 rfl fun _ => id
    have hwritten := hput.write hnow hwrite
    simp only at hsend
    split at hsend
    · cases hsend
      exact hwritten
    · cases hsend
      exact hwritten.congr rfl fun _ => id

theorem LdapT.Timed.keepOneAlive (h : dc.Timed) (hnow : 0 < now) {env : KeepaliveEnv}
    {o : Option Outcome} (hkeep : keepOneAlive now env c dc = .ok (o, dc', log)) : dc'.Timed := by
  obtain ⟨lc, hlc, hkeep⟩ := bind_eq_ok.1 hkeep
  split at hkeep
  · obtain ⟨request, hrequest, hkeep⟩ := bind_eq_ok.1 hkeep
    cases request with
    | none =>
      cases hkeep
      exact h
    | some request =>
      obtain ⟨tid, ber⟩ := request
      have hnamed : LdapT.Timed (LdapT.put { dc with tid := tid } c
          { lc with ktid := UInt32.ofInt tid }) := by
        refine h.put ?_ rfl fun _ => id
        exact (h.clnt hlc).same ⟨rfl, rfl, rfl, rfl, rfl, rfl⟩
      simp only at hkeep
      split at hkeep
      · obtain ⟨⟨o₁, dc₁, log₁⟩, hgive, hkeep⟩ := bind_eq_ok.1 hkeep
        cases hkeep
        obtain ⟨⟨o₂, dc₂, log₂⟩, hclose, hgive⟩ := bind_eq_ok.1 hgive
        cases hgive
        exact hnamed.close hclose
      · obtain ⟨⟨o₁, dc₁, log₁⟩, hsend, hkeep⟩ := bind_eq_ok.1 hkeep
        have h₁ := hnamed.sendKeepalive hnow (keepaliveRequest_nonempty hrequest) hsend
        split at hkeep
        · obtain ⟨⟨o₂, dc₂, log₂⟩, hgive, hkeep⟩ := bind_eq_ok.1 hkeep
          cases hkeep
          obtain ⟨⟨o₃, dc₃, log₃⟩, hclose, hgive⟩ := bind_eq_ok.1 hgive
          cases hgive
          exact h₁.close hclose
        · cases hkeep
          exact h₁
  · cases hkeep
    exact h

theorem LdapT.Timed.keepAliveFrom (h : dc.Timed) (hnow : 0 < now) {env : Nat → KeepaliveEnv}
    {is : List Nat} (hkeep : keepAliveFrom now env is dc = .ok (out, dc', log)) : dc'.Timed := by
  induction is generalizing dc log with
  | nil =>
    cases hkeep
    exact h
  | cons i is ih =>
    unfold Ldap.keepAliveFrom at hkeep
    split at hkeep
    · exact ih h hkeep
    obtain ⟨⟨o, dc₁, log₁⟩, hone, hkeep⟩ := bind_eq_ok.1 hkeep
    have h₁ := h.keepOneAlive hnow hone
    cases o with
    | some o =>
      cases hkeep
      exact h₁
    | none =>
      obtain ⟨⟨o₂, dc₂, log₂⟩, hrest, hkeep⟩ := bind_eq_ok.1 hkeep
      cases hkeep
      exact ih h₁ hrest

theorem LdapT.Timed.checkFrom (h : dc.Timed) {closeErr : Nat → Option String} {is : List Nat}
    {text : Option String} (hcheck : checkFrom now closeErr is text dc = .ok (out, dc', log)) :
    dc'.Timed := by
  induction is generalizing dc log text with
  | nil =>
    cases hcheck
    exact h
  | cons i is ih =>
    unfold Ldap.checkFrom at hcheck
    split at hcheck
    · exact ih h hcheck
    obtain ⟨lc, -, hcheck⟩ := bind_eq_ok.1 hcheck
    split at hcheck
    · exact ih h hcheck
    · obtain ⟨⟨o, dc₁, log₁⟩, hclose, hcheck⟩ := bind_eq_ok.1 hcheck
      obtain ⟨⟨o₂, dc₂, log₂⟩, hrest, hcheck⟩ := bind_eq_ok.1 hcheck
      cases hcheck
      exact ih (h.close hclose) hrest

/-! ## Answers -/

theorem LdapT.Timed.readyAgain (h : dc.Timed) (hlc : lc.Timed)
    (hready : dc.readyAgain c lc = .ok dc') : dc'.Timed := by
  unfold LdapT.readyAgain at hready
  split at hready
  · rename_i hwaiting
    obtain ⟨q, -, hready⟩ := bind_eq_ok.1 hready
    cases hready
    refine h.put (hlc.bound (.inl rfl) (.inl ?_)) rfl fun _ => id
    rw [hwaiting.1]
    decide
  · cases hready
    exact h.put hlc rfl fun _ => id

theorem LdapT.Timed.countAnswer (h : dc.Timed) (hlc : lc.Timed) {clock : Timeval}
    {resp : Response} {o : Outcome}
    (hcount : countAnswer clock c lc resp o dc = .ok (out, dc', log)) : dc'.Timed := by
  unfold Ldap.countAnswer at hcount
  split at hcount
  · obtain ⟨dc₁, hready, hcount⟩ := bind_eq_ok.1 hcount
    cases hcount
    have hless : LdapClnt.Timed { lc with concurrentCount := lc.concurrentCount - 1 } :=
      hlc.same ⟨rfl, rfl, rfl, rfl, rfl, rfl⟩
    have h₁ := h.readyAgain hless hready
    refine h₁.put (c := c) ?_ rfl fun _ => id
    exact (h₁.clients c).same ⟨rfl, rfl, rfl, rfl, rfl, rfl⟩
  · cases hcount
    exact h.put hlc rfl fun _ => id

/-- The write buffer is emptied. -/
theorem LdapClnt.emptied_pending (lc : LdapClnt) : (LdapClnt.conn { lc with
    wBuffer := lc.wBuffer.map fun _ => [], wCurr := 0 }).pending = [] := by
  simp only [Conn.pending, LdapClnt.conn]
  cases lc.wBuffer <;> rfl

theorem LdapT.Timed.keepaliveAnswered (h : dc.Timed) (hlc : lc.Timed) {resp : Response}
    {o : Outcome} (hkeep : keepaliveAnswered c lc resp o dc = .ok (out, dc', log))
    (quiet : dc.waits c (ldapMaxClient + 1) = .ok true → lc.conn.pending = []) : dc'.Timed := by
  obtain ⟨found, hfound, hkeep⟩ := bind_eq_ok.1 hkeep
  cases found with
  | true =>
    rw [if_pos rfl] at hkeep
    obtain ⟨q, -, hkeep⟩ := bind_eq_ok.1 hkeep
    cases hkeep
    have hnone := quiet hfound
    refine h.put ?_ rfl fun _ => id
    refine ⟨⟨hlc.input, ?_⟩, Nat.zero_le _, hlc.sized, hlc.unbound⟩
    have hsame := hlc.output
    rw [LdapClnt.Outgoing, hnone] at hsame
    rw [LdapClnt.Outgoing, lc.emptied_pending]
    exact hsame
  | false =>
    cases hkeep
    exact h.put hlc rfl fun _ => id

theorem keepaliveAnswered_code {resp : Response} {o : Outcome}
    (hkeep : keepaliveAnswered c lc resp o dc = .ok (out, dc', log)) : out = o := by
  obtain ⟨found, -, hkeep⟩ := bind_eq_ok.1 hkeep
  cases found with
  | true =>
    rw [if_pos rfl] at hkeep
    obtain ⟨q, -, hkeep⟩ := bind_eq_ok.1 hkeep
    cases hkeep
    rfl
  | false =>
    cases hkeep
    rfl

/-- The clock runs on, with nothing to send. -/
theorem keepaliveAnswered_untrue (hlc : lc.Timed) {resp : Response} {o : Outcome}
    (hkeep : keepaliveAnswered c lc resp o dc = .ok (out, dc', log))
    (hwaits : dc.waits c (ldapMaxClient + 1) = .ok true) (hpending : lc.conn.pending ≠ [])
    (hstate : lc.state ≠ .stateConnecting) :
    (dc'.links c).isSome ∧ ¬ (dc'.clients c).TimersTrue := by
  obtain ⟨found, hfound, hkeep⟩ := bind_eq_ok.1 hkeep
  obtain rfl : found = true := Except.ok.inj (hfound.symm.trans hwaits)
  rw [if_pos rfl] at hkeep
  obtain ⟨q, hq, hkeep⟩ := bind_eq_ok.1 hkeep
  cases hkeep
  refine ⟨toReady_alloc hq, fun htrue => ?_⟩
  rw [put_clients] at htrue
  rcases htrue.output.1 (hlc.output.2 (.inr hpending)) with hconnecting | hmore
  · exact hstate hconnecting
  · exact hmore lc.emptied_pending

/-! ## Calls -/

/-- A call after which a clock is wrong: the bind request is answered, or a keepalive is answered on
wait_queue, while there are bytes to send. -/
def Call.Untimely (dc : LdapT) (out : Outcome) : Call → Prop
  | .read _ _ _ _ _ c => out.code = .ready ∧ (dc.clients c).conn.pending ≠ []
  | .decode _ _ _ _ c => out.code = .keepalive ∧ dc.waits c (ldapMaxClient + 1) = .ok true ∧
      (dc.clients c).conn.pending ≠ []
  | _ => False

/-- The clock has been set, and a BER is not empty. -/
def Call.Clocked : Call → Prop
  | .read now _ _ _ _ _ => 0 < now
  | .write now _ _ _ => 0 < now
  | .sendMessage now _ _ _ ber => 0 < now ∧ ∀ b, ber = some b → b.berval ≠ []
  | .keepAlive now _ => 0 < now
  | _ => True

theorem LdapT.Timed.read (h : dc.Timed) (hnow : 0 < now) {sockErr : SockErr}
    {stack : Nat → UInt8} {alloc : Alloc} {recv : Recv}
    (hread : ldapClntRead now sockErr stack alloc recv c dc = .ok (out, dc', log))
    (quiet : out.code = .ready → (dc.clients c).conn.pending = []) : dc'.Timed := by
  obtain ⟨lc, hlc, hread⟩ := bind_eq_ok.1 hread
  have own := h.clnt hlc
  have hself := (LdapT.clnt_ok hlc).1
  split at hread
  · cases hread
    exact h
  · split at hread
    · cases hread
      exact h
    obtain ⟨r, -, hread⟩ := bind_eq_ok.1 hread
    split at hread
    · cases hread
      exact h
    obtain ⟨q, -, hread⟩ := bind_eq_ok.1 hread
    cases hread
    have hnone : lc.conn.pending = [] := by
      rw [hself]
      exact quiet rfl
    refine h.put ?_ rfl fun _ => id
    refine ⟨⟨own.input, iff_of_false (lt_irrefl 0) ?_⟩, own.front, own.sized, ?_⟩
    · rintro (hconnecting | hpending)
      · cases hconnecting
      · exact hpending hnone
    · rintro (hstate | hstate) <;> cases hstate
  all_goals
    rename_i hstate
    obtain ⟨⟨o, rb⟩, hrecv, hread⟩ := bind_eq_ok.1 hread
    cases hread
    obtain ⟨sized, hlen⟩ := own.sized.read hrecv
    have hbound : ¬ (lc.state = .stateOpen ∨ lc.state = .stateConnecting) := by
      rw [hstate]
      decide
    refine h.put (c := c) ?_ rfl fun _ => id
    split
    · rename_i hok
      rw [if_pos hok] at hlen
      exact ⟨⟨iff_of_true hnow hlen, own.output⟩, own.front, sized, fun hs => absurd hs hbound⟩
    · rename_i hok
      rw [if_neg hok] at hlen
      refine ⟨⟨?_, own.output⟩, own.front, sized, fun hs => absurd hs hbound⟩
      show 0 < lc.readTime ↔ 0 < rb.rLen
      rw [hlen]
      exact own.input

/-- The clock is stopped, with something to send. -/
theorem read_untrue {sockErr : SockErr} {stack : Nat → UInt8} {alloc : Alloc} {recv : Recv}
    (hread : ldapClntRead now sockErr stack alloc recv c dc = .ok (out, dc', log))
    (hcode : out.code = .ready) (hpending : (dc.clients c).conn.pending ≠ []) :
    (dc'.links c).isSome ∧ ¬ (dc'.clients c).TimersTrue := by
  obtain ⟨lc, hlc, hread⟩ := bind_eq_ok.1 hread
  have hself := (LdapT.clnt_ok hlc).1
  split at hread
  · cases hread
    cases hcode
  · split at hread
    · cases hread
      cases hcode
    obtain ⟨r, -, hread⟩ := bind_eq_ok.1 hread
    split at hread
    · cases hread
      cases hcode
    obtain ⟨q, hq, hread⟩ := bind_eq_ok.1 hread
    cases hread
    refine ⟨toReady_alloc hq, fun htrue => ?_⟩
    rw [put_clients] at htrue
    rw [← hself] at hpending
    exact absurd (htrue.output.2 (.inr hpending)) (lt_irrefl 0)
  all_goals
    obtain ⟨⟨o, rb⟩, hrecv, hread⟩ := bind_eq_ok.1 hread
    cases hread
    exact absurd hcode (recv_not_ready hrecv)

theorem LdapT.Timed.decode (h : dc.Timed) {clock : Timeval} {grow : Alloc} {alloc : Bool}
    (hdecode : ldapClntDecode now clock grow alloc c dc = .ok (out, dc', log))
    (quiet : out.code = .keepalive → dc.waits c (ldapMaxClient + 1) = .ok true →
      (dc.clients c).conn.pending = []) : dc'.Timed := by
  obtain ⟨lc, hlc, hdecode⟩ := bind_eq_ok.1 hdecode
  have hself := (LdapT.clnt_ok hlc).1
  obtain ⟨⟨o, ⟨lc₁, seen⟩, rb⟩, hloop, hdecode⟩ := bind_eq_ok.1 hdecode
  obtain ⟨h₁, hpending, -⟩ := (h.clnt hlc).decoded hloop
  simp only at hdecode
  split at hdecode
  · obtain ⟨⟨o₂, dc₂, log₂⟩, hcount, hdecode⟩ := bind_eq_ok.1 hdecode
    cases hdecode
    exact h.countAnswer h₁ hcount
  · rename_i hcode
    obtain ⟨⟨o₂, dc₂, log₂⟩, hkeep, hdecode⟩ := bind_eq_ok.1 hdecode
    cases hdecode
    refine h.keepaliveAnswered h₁ hkeep fun hwaits => ?_
    rw [hpending, hself]
    refine quiet ?_ hwaits
    rw [keepaliveAnswered_code hkeep]
    exact hcode
  · cases hdecode
    exact h.put h₁ rfl fun _ => id

/-- The clock of writing runs on. -/
theorem decode_untrue (h : dc.Timed) {clock : Timeval} {grow : Alloc} {alloc : Bool}
    (hdecode : ldapClntDecode now clock grow alloc c dc = .ok (out, dc', log))
    (hcode : out.code = .keepalive) (hwaits : dc.waits c (ldapMaxClient + 1) = .ok true)
    (hpending : (dc.clients c).conn.pending ≠ []) :
    (dc'.links c).isSome ∧ ¬ (dc'.clients c).TimersTrue := by
  obtain ⟨lc, hlc, hdecode⟩ := bind_eq_ok.1 hdecode
  have hself := (LdapT.clnt_ok hlc).1
  obtain ⟨⟨o, ⟨lc₁, seen⟩, rb⟩, hloop, hdecode⟩ := bind_eq_ok.1 hdecode
  obtain ⟨h₁, hsame, hstate⟩ := (h.clnt hlc).decoded hloop
  simp only at hdecode
  split at hdecode
  · rename_i hdata
    obtain ⟨⟨o₂, dc₂, log₂⟩, hcount, hdecode⟩ := bind_eq_ok.1 hdecode
    cases hdecode
    unfold countAnswer at hcount
    split at hcount
    · obtain ⟨dc₁, -, hcount⟩ := bind_eq_ok.1 hcount
      cases hcount
      cases hdata.symm.trans hcode
    · cases hcount
      cases hcode
  · rename_i hkeepalive
    obtain ⟨⟨o₂, dc₂, log₂⟩, hkeep, hdecode⟩ := bind_eq_ok.1 hdecode
    cases hdecode
    refine keepaliveAnswered_untrue h₁ hkeep hwaits ?_ (hstate hkeepalive)
    rw [hsame, hself]
    exact hpending
  · rename_i hnot
    cases hdecode
    exact absurd hcode hnot

/-! ## Runs -/

/-- A call, for its effect alone. -/
def callStep (dc : LdapT) (call : Call) : Except Fault LdapT := do
  let (_, dc, _) ← call.perform dc
  pure dc

theorem callStep_ok {call : Call} (h : callStep dc call = .ok dc') :
    ∃ out log, call.perform dc = .ok (out, dc', log) := by
  obtain ⟨⟨out, dc₁, log⟩, hperform, h⟩ := bind_eq_ok.1 h
  cases h
  exact ⟨out, log, hperform⟩

/-- The clocks of all connections are true. -/
def LdapT.TimersTrue (dc : LdapT) : Prop := ∀ c, (dc.links c).isSome → (dc.clients c).TimersTrue

/-- The call leaves the clocks true. -/
def Call.Timely (dc : LdapT) (call : Call) : Prop :=
  ∀ out dc' log, call.perform dc = .ok (out, dc', log) → ¬ call.Untimely dc out

theorem LdapT.Timed.step (h : dc.Timed) {call : Call} (clocked : call.Clocked)
    (hstep : callStep dc call = .ok dc') (timely : call.Timely dc) : dc'.Timed := by
  obtain ⟨out, log, hperform⟩ := callStep_ok hstep
  have quiet := timely out dc' log hperform
  unfold Call.perform at hperform
  cases call with
  | «open» now connect mem wbuf => exact h.open hperform
  | close closeErr no => exact h.close hperform
  | read now sockErr stack alloc recv c =>
    exact h.read clocked hperform fun hcode => not_not.1 fun hpending => quiet ⟨hcode, hpending⟩
  | write now sockErr send c => exact h.write clocked hperform
  | sendMessage now clock env target ber => exact h.sendMessage clocked.1 clocked.2 hperform
  | keepAlive now env => exact h.keepAliveFrom clocked hperform
  | checkConnection now closeErr => exact h.checkFrom hperform
  | decode now clock grow alloc c =>
    exact h.decode hperform fun hcode hwaits =>
      not_not.1 fun hpending => quiet ⟨hcode, hwaits, hpending⟩
  | consume c =>
    obtain ⟨lc, hlc, hperform⟩ := bind_eq_ok.1 hperform
    cases hperform
    refine h.put (c := c) ?_ rfl fun _ => id
    exact (h.clnt hlc).same ⟨rfl, rfl, rfl, rfl, rfl, rfl⟩

theorem untimely_step (h : dc.Timed) {call : Call} (hstep : callStep dc call = .ok dc')
    (untimely : ¬ call.Timely dc) : ¬ dc'.TimersTrue := by
  intro htrue
  refine untimely fun out dc₁ log hperform bad => ?_
  obtain ⟨out₁, log₁, hperform₁⟩ := callStep_ok hstep
  cases hperform₁.symm.trans hperform
  cases call with
  | read now sockErr stack alloc recv c =>
    obtain ⟨halloc, hfalse⟩ := read_untrue hperform bad.1 bad.2
    exact hfalse (htrue c halloc)
  | decode now clock grow alloc c =>
    obtain ⟨halloc, hfalse⟩ := decode_untrue h hperform bad.1 bad.2.1 bad.2.2
    exact hfalse (htrue c halloc)
  | _ => exact bad

end Operations

theorem Unconnected.timed {dc : LdapT} (h : Unconnected dc) (hqueue : dc.sendMsgQueue = []) :
    dc.Timed := by
  refine ⟨fun c => ?_, fun ber hber => ?_⟩
  · rw [h.clients]
    exact new_timed 0 0 (some []) rfl
  · rw [hqueue] at hber
    cases hber

theorem Setup.start_timed (s : Setup) : s.start.Timed :=
  s.start_unconnected.timed (foldl_queue ..).1

/-- In every run whose clocks are positive and whose BERs are not empty, the clocks of every
connection are true in every state if and only if no bind request and no keepalive (on wait_queue)
is answered while its connection has bytes to send. -/
theorem timers_true_iff (s : Setup) (calls : List Call) (dc : LdapT)
    (clocked : ∀ call ∈ calls, call.Clocked) (h : run callStep s.start calls = .ok dc) :
    (∀ before after dc, calls = before ++ after → run callStep s.start before = .ok dc →
        dc.TimersTrue) ↔
      Along callStep (fun _ dc call => call.Timely dc) s.start calls := by
  refine run_good_iff s.start_timed (fun _ hd c _ => (hd.clients c).toTimersTrue) ?_ ?_ h
  · intro call hcall _ _ hd hstep timely
    exact hd.step (clocked call hcall) hstep timely
  · intro call hcall _ _ hd hstep untimely
    exact untimely_step hd hstep untimely

/-- A request is put on a connection that has sent its bind request, and then this is answered. -/
def sendBeforeBound : List Call :=
  [.open 1 .connected (some 1) true,
    .write 1 .none (.wrote 14) 1,
    .sendMessage 2 {} ⟨fun _ => true, none⟩ (some 1) (some ⟨512, [0x30, 5, 2, 1, 1, 0x42, 0]⟩),
    .read 3 .none (fun _ => 0) (some fun _ => 0)
      (.data [0x30, 12, 2, 1, 1, 0x61, 7, 0x0a, 1, 0, 4, 0, 4, 0]) 1]

theorem run_of_check {s : Setup} {c : List Call} {P : LdapT → Bool}
    (h : (match run callStep s.start c with
      | .ok dc => P dc
      | .error _ => false) = true) :
    ∃ dc, run callStep s.start c = .ok dc ∧ P dc = true := by
  split at h
  · exact ⟨_, by assumption, h⟩
  · cases h

/-- Its clock stands still, and it is not timed out however long the request stays there. -/
theorem timers_true_iff_stopped :
    ∃ dc, run callStep oneAtATime.start sendBeforeBound = .ok dc ∧
      ¬ Along callStep (fun _ dc call => call.Timely dc) oneAtATime.start sendBeforeBound := by
  obtain ⟨dc, hrun, hend⟩ := run_of_check (s := oneAtATime) (c := sendBeforeBound)
    (P := fun dc => (dc.links 1).isSome ∧ (dc.clients 1).writeTime = 0 ∧
      (dc.clients 1).conn.pending ≠ []) (by decide +kernel)
  obtain ⟨halloc, hstopped, hpending⟩ := of_decide_eq_true hend
  have clocked : ∀ call ∈ sendBeforeBound, call.Clocked := by
    simp [sendBeforeBound, Call.Clocked]
  refine ⟨dc, hrun, fun timely => ?_⟩
  have htrue := (timers_true_iff _ _ dc clocked hrun).2 timely _ [] dc (by simp) hrun
  have hruns := (htrue 1 halloc).output.2 (.inr hpending)
  rw [hstopped] at hruns
  exact lt_irrefl 0 hruns

end CassandraApi.Ldap
