/-
# `Ldap.SendPath` — from LDAP_clnt_send_message to `send`

A BER goes straight into the write buffer of the connection that the caller names,
or through send_msg_queue into that of some ready one.  From then on

    sent bytes ++ pending bytes   against   the BERs copied, one after another

Nothing is sent twice or out of its order, whatever happens (`send_path_in_order`).
The two sides are equal in every state of a run unless an answer to a keepalive
finds its connection in wait_queue with bytes still to send: the write buffer is
then emptied, and they are lost (`send_path_intact_iff`).
-/
import CassandraApi.Ldap.ConnStep

namespace CassandraApi.Ldap

open C Ber Lib

/-! ## What went through -/

/-- The BER that an event copies to its connection. -/
def Event.copied : Event → List BER
  | .direct _ ber => [ber]
  | .flushed _ ber => [ber]
  | .keepaliveCopied _ ber => [ber]
  | _ => []

/-- The bytes that `send` took. -/
def Event.took : Event → List UInt8
  | .sent _ bytes => bytes
  | _ => []

/-- A connection is new at this address. -/
def Event.opens : Event → Bool
  | .opened _ _ => true
  | .leaked _ _ => true
  | _ => false

/-- What has been collected for `c` since it was opened. -/
def sinceOpened {α : Type} (f : Event → List α) (c : Ptr) (xs : List α) (e : Event) : List α :=
  if e.about = some c then if e.opens then [] else xs ++ f e else xs

/-- The BERs copied to `c` since it was opened. -/
def copies (c : Ptr) (log : List Event) : List BER := log.foldl (sinceOpened Event.copied c) []

/-- The bytes sent on `c` since it was opened. -/
def sentBytes (c : Ptr) (log : List Event) : List UInt8 := log.foldl (sinceOpened Event.took c) []

theorem copies_snoc (c : Ptr) (log : List Event) (e : Event) :
    copies c (log ++ [e]) = sinceOpened Event.copied c (copies c log) e := by
  rw [copies, List.foldl_append]
  rfl

theorem sentBytes_snoc (c : Ptr) (log : List Event) (e : Event) :
    sentBytes c (log ++ [e]) = sinceOpened Event.took c (sentBytes c log) e := by
  rw [sentBytes, List.foldl_append]
  rfl

/-- BERs one after another. -/
def bytesOf (bers : List BER) : List UInt8 := bers.flatMap BER.berval

@[simp] theorem bytesOf_nil : bytesOf [] = [] := rfl

@[simp] theorem bytesOf_singleton (ber : BER) : bytesOf [ber] = ber.berval :=
  List.append_nil _

theorem bytesOf_append (xs ys : List BER) : bytesOf (xs ++ ys) = bytesOf xs ++ bytesOf ys :=
  List.flatMap_append

/-- The BERs that were put into send_msg_queue. -/
def queuedBers (log : List Event) : List BER :=
  log.flatMap fun e => match e with
    | .queued ber => [ber]
    | _ => []

/-- The BERs that came out of it. -/
def flushedBers (log : List Event) : List BER :=
  log.flatMap fun e => match e with
    | .flushed _ ber => [ber]
    | _ => []

/-- An answer to a keepalive finds its connection in wait_queue, and not all of its bytes sent. -/
def Drops (k : Pool) : Event → Prop
  | .keptAlive c _ true => (k.conns c).pending ≠ []
  | _ => False

/-! ## One connection -/

/-- The position in the write buffer is inside it. -/
def Conn.Front (cn : Conn) : Prop := cn.wCurr ≤ (cn.wBuffer.getD []).length

section Conn

variable {cn : Conn} {max : Int} {k : Pool} {c : Ptr} {e : Event}

/-- Another connection with the same write buffer, at the same position. -/
theorem Conn.Front.same {cn' : Conn} (front : cn.Front) (hbuf : cn'.wBuffer = cn.wBuffer)
    (hcurr : cn'.wCurr = cn.wCurr) : cn'.Front ∧ cn'.pending = cn.pending := by
  rw [Conn.Front, Conn.pending, hbuf, hcurr]
  exact ⟨front, rfl⟩

theorem pending_copied {buf : List UInt8} (front : cn.Front) (h : cn.wBuffer = some buf)
    (xs : List UInt8) : (buf ++ xs).drop cn.wCurr = cn.pending ++ xs := by
  have hle : cn.wCurr ≤ buf.length := by simpa [Conn.Front, h] using front
  rw [List.drop_append_of_le_length hle, Conn.pending, h, Option.getD_some]

theorem Conn.Front.requested (front : cn.Front) (ber : BER) (hsome : cn.wBuffer.isSome) :
    (cn.requested ber).Front ∧ (cn.requested ber).pending = cn.pending ++ ber.berval := by
  obtain ⟨buf, hbuf⟩ := Option.isSome_iff_exists.1 hsome
  have hpending := pending_copied front hbuf ber.berval
  have hle : cn.wCurr ≤ buf.length := by simpa [Conn.Front, hbuf] using front
  constructor
  · simp only [Conn.Front, Conn.requested, hbuf, Option.map_some, Option.getD_some,
      List.length_append]
    omega
  · simpa only [Conn.pending, Conn.requested, hbuf, Option.map_some, Option.getD_some] using hpending

theorem Conn.Front.sent (front : cn.Front) {bytes : List UInt8} (hsome : cn.wBuffer.isSome)
    (htake : cn.pending.take bytes.length = bytes) :
    (cn.after max (.sent c bytes)).Front ∧
      bytes ++ (cn.after max (.sent c bytes)).pending = cn.pending := by
  obtain ⟨buf, hbuf⟩ := Option.isSome_iff_exists.1 hsome
  have hle : cn.wCurr ≤ buf.length := by simpa [Conn.Front, hbuf] using front
  have hpending : cn.pending = buf.drop cn.wCurr := by rw [Conn.pending, hbuf, Option.getD_some]
  have hsplit : bytes ++ cn.pending.drop bytes.length = cn.pending := by
    conv_rhs => rw [← List.take_append_drop bytes.length cn.pending, htake]
  simp only [Conn.after, hbuf, Option.getD_some]
  split
  · rename_i hmore
    refine ⟨by simpa [Conn.Front, hbuf] using hmore.le, ?_⟩
    rw [← hsplit, hpending, List.drop_drop]
    simp only [Conn.pending, Option.getD_some]
  · rename_i hlast
    refine ⟨Nat.zero_le _, ?_⟩
    have hnone : cn.pending.drop bytes.length = [] := by
      rw [hpending, List.drop_drop]
      exact List.drop_eq_nil_of_le (by omega)
    rw [hnone] at hsplit
    simpa [Conn.pending] using hsplit

/-- What a connection has sent and has to send grows by what is copied to it, unless the event
drops something. -/
theorem after_pending (front : (k.conns c).Front) (about : e.about = some c)
    (enabled : e.Enabled k) (old : e.opens = false) :
    ((k.conns c).after max e).Front ∧
      (¬ Drops k e → e.took ++ ((k.conns c).after max e).pending =
        (k.conns c).pending ++ bytesOf e.copied) ∧
      (Drops k e → e.took = [] ∧ ((k.conns c).after max e).pending = [] ∧ e.copied = []) := by
  cases e with
  | opened i c' => cases old
  | leaked i c' => cases old
  | closed i c' => cases about
  | queued ber => cases about
  | keepaliveEntry c' resp => cases about
  | direct c' ber =>
    cases about
    obtain ⟨hfront, hpending⟩ := front.requested ber enabled
    refine ⟨hfront, fun _ => ?_, fun hd => hd.elim⟩
    rw [Event.copied, bytesOf_singleton]
    exact hpending
  | flushed c' ber =>
    cases about
    obtain ⟨hfront, hpending⟩ := front.requested ber enabled.2.2
    have hsame : ((k.conns c).after max (.flushed c ber)).Front ∧
        ((k.conns c).after max (.flushed c ber)).pending =
          ((k.conns c).requested ber).pending := by
      simp only [Conn.after]
      split <;> exact hfront.same rfl rfl
    refine ⟨hsame.1, fun _ => ?_, fun hd => hd.elim⟩
    rw [Event.copied, bytesOf_singleton, ← hpending]
    exact hsame.2
  | keepaliveCopied c' ber =>
    cases about
    obtain ⟨hfront, hpending⟩ := front.requested ber enabled
    refine ⟨hfront, fun _ => ?_, fun hd => hd.elim⟩
    rw [Event.copied, bytesOf_singleton]
    exact hpending
  | sent c' bytes =>
    cases about
    obtain ⟨hfront, hpending⟩ := front.sent enabled.1 enabled.2
    refine ⟨hfront, fun _ => ?_, fun hd => hd.elim⟩
    exact hpending.trans (List.append_nil _).symm
  | keptAlive c' resp waiting =>
    cases about
    cases waiting with
    | true =>
      have hempty : ((k.conns c).after max (.keptAlive c resp true)).pending = [] := by
        simp only [Conn.after, if_true, Conn.pending]
        cases (k.conns c).wBuffer <;> rfl
      refine ⟨Nat.zero_le _, fun hkeep => ?_, fun _ => ⟨rfl, hempty, rfl⟩⟩
      have hnone : (k.conns c).pending = [] := not_not.1 hkeep
      rw [hempty, hnone]
      rfl
    | false => exact ⟨front, fun _ => (List.append_nil _).symm, fun hd => hd.elim⟩
  | answered c' resp =>
    cases about
    have hsame : ((k.conns c).after max (.answered c resp)).Front ∧
        ((k.conns c).after max (.answered c resp)).pending = (k.conns c).pending := by
      simp only [Conn.after]
      split <;> exact front.same rfl rfl
    refine ⟨hsame.1, fun _ => ?_, fun hd => hd.elim⟩
    exact hsame.2.trans (List.append_nil _).symm
  | _ =>
    cases about
    exact ⟨front, fun _ => (List.append_nil _).symm, fun hd => hd.elim⟩

/-- What is dropped was to be sent. -/
theorem Drops.pending (drops : Drops k e) (about : e.about = some c) :
    (k.conns c).pending ≠ [] := by
  cases e with
  | keptAlive c' resp waiting =>
    cases about
    cases waiting with
    | true => exact drops
    | false => exact drops.elim
  | _ => exact drops.elim

theorem opened_pending (about : e.about = some c) (new : e.opens = true) :
    (cn.after max e).Front ∧ (cn.after max e).pending = [] := by
  cases e with
  | opened i c' => exact ⟨Nat.zero_le _, rfl⟩
  | leaked i c' => exact ⟨Nat.zero_le _, rfl⟩
  | _ => cases new

end Conn

/-! ## Runs -/

/-- What was sent on `c` and what is still to be sent. -/
def stream (c : Ptr) (log : List Event) (k : Pool) : List UInt8 :=
  sentBytes c log ++ (k.conns c).pending

/-- It is what was copied to `c`. -/
def Intact (c : Ptr) (log : List Event) (k : Pool) : Prop :=
  stream c log k = bytesOf (copies c log)

section Run

variable {k k' : Pool} {e : Event} {c : Ptr} {log : List Event}

/-- What an event does to a stream: it starts a new one, or copies something to its end, or drops
what has not been sent. -/
theorem stream_step (h : Stepped k e k') (front : (k.conns c).Front) (log : List Event) :
    (k'.conns c).Front ∧
      ((stream c (log ++ [e]) k' = [] ∧ copies c (log ++ [e]) = []) ∨
        (∃ xs, stream c (log ++ [e]) k' = stream c log k ++ xs ∧
          bytesOf (copies c (log ++ [e])) = bytesOf (copies c log) ++ xs) ∨
        (Drops k e ∧ (k.conns c).pending ≠ [] ∧ stream c (log ++ [e]) k' = sentBytes c log ∧
          copies c (log ++ [e]) = copies c log)) := by
  by_cases about : e.about = some c
  · rw [stream, sentBytes_snoc, copies_snoc, h.conn about]
    simp only [sinceOpened, if_pos about]
    by_cases new : e.opens = true
    · obtain ⟨hfront, hnone⟩ : ((k.conns c).after k.maxConcurrent e).Front ∧
        ((k.conns c).after k.maxConcurrent e).pending = [] := opened_pending about new
      refine ⟨hfront, .inl ?_⟩
      rw [if_pos new, if_pos new, hnone]
      exact ⟨rfl, rfl⟩
    · obtain ⟨hfront, hkeep, hdrop⟩ := after_pending front about h.enabled
        (Bool.eq_false_of_not_eq_true new)
      rw [if_neg new, if_neg new]
      refine ⟨hfront, .inr ?_⟩
      by_cases drops : Drops k e
      · obtain ⟨htook, hnone, hcopied⟩ := hdrop drops
        refine .inr ⟨drops, drops.pending about, ?_, ?_⟩
        · rw [htook, hnone, List.append_nil, List.append_nil]
        · rw [hcopied, List.append_nil]
      · refine .inl ⟨bytesOf e.copied, ?_, bytesOf_append ..⟩
        rw [List.append_assoc, hkeep drops, stream, List.append_assoc]
  · rw [stream, sentBytes_snoc, copies_snoc, h.other about]
    simp only [sinceOpened, if_neg about]
    exact ⟨front, .inr (.inl ⟨[], (List.append_nil _).symm, (List.append_nil _).symm⟩)⟩

/-- An intact stream stays so, unless the event drops something. -/
theorem Intact.step (h : Stepped k e k') (front : (k.conns c).Front) (intact : Intact c log k)
    (keep : ¬ Drops k e) : Intact c (log ++ [e]) k' := by
  obtain ⟨-, ⟨hnew, hcopies⟩ | ⟨xs, hstream, hcopies⟩ | ⟨drops, -⟩⟩ := stream_step h front log
  · rw [Intact, hnew, hcopies]
    rfl
  · rw [Intact, hstream, hcopies, intact]
  · exact absurd drops keep

/-- And then it is not. -/
theorem Intact.dropped {c : Ptr} {resp : Response} (front : (k.conns c).Front)
    (intact : Intact c log k) (h : Stepped k (.keptAlive c resp true) k')
    (drops : Drops k (.keptAlive c resp true)) :
    ¬ Intact c (log ++ [.keptAlive c resp true]) k' := by
  have hnone : (k'.conns c).pending = [] := by
    rw [h.conn rfl]
    exact ((after_pending front rfl h.enabled rfl).2.2 drops).2.1
  intro hafter
  rw [Intact, stream, sentBytes_snoc, copies_snoc, hnone] at hafter
  simp only [sinceOpened, Event.about, Event.opens, Event.took, Event.copied, if_true,
    Bool.false_eq_true, if_false, List.append_nil] at hafter
  rw [Intact, stream, ← hafter] at intact
  exact drops (List.append_right_eq_self.1 intact)

/-- The queue of BERs, its counter, and what is on its way, in order. -/
structure InOrder (log : List Event) (k : Pool) : Prop where
  front : ∀ c, (k.conns c).Front
  stream : ∀ c, (stream c log k).Sublist (bytesOf (copies c log))
  queue : queuedBers log = flushedBers log ++ k.sendMsgQueue
  count : k.queueCount = k.sendMsgQueue.length

theorem InOrder.step (h : InOrder log k) (hstep : k.step e = .ok k') :
    InOrder (log ++ [e]) k' := by
  have spec := step_spec hstep
  refine ⟨fun c => (stream_step spec (h.front c) log).1, fun c => ?_, ?_, ?_⟩
  · obtain ⟨-, ⟨hnew, -⟩ | ⟨xs, hstream, hcopies⟩ | ⟨-, -, hstream, hcopies⟩⟩ :=
      stream_step spec (h.front c) log
    · rw [hnew]
      exact List.nil_sublist _
    · rw [hstream, hcopies]
      exact (h.stream c).append_right xs
    · rw [hstream, hcopies]
      exact (List.sublist_append_left ..).trans (h.stream c)
  · have hqueue := h.queue
    simp only [queuedBers, flushedBers, List.flatMap_append] at hqueue ⊢
    rw [spec.queue, hqueue]
    have enabled := spec.enabled
    cases e with
    | queued ber => simp [queueAfter]
    | flushed c ber =>
      obtain ⟨rest, hrest⟩ : ∃ rest, k.sendMsgQueue = ber :: rest := by
        obtain ⟨-, hhead, -⟩ := enabled
        exact List.head?_eq_some_iff.1 hhead
      simp [queueAfter, hrest]
    | _ => simp [queueAfter]
  · rw [spec.queueCount, spec.queue, h.count]
    have enabled := spec.enabled
    cases e with
    | queued ber => simp [queueAfter, countAfter]
    | flushed c ber =>
      obtain ⟨rest, hrest⟩ : ∃ rest, k.sendMsgQueue = ber :: rest := by
        obtain ⟨-, hhead, -⟩ := enabled
        exact List.head?_eq_some_iff.1 hhead
      simp [queueAfter, countAfter, hrest]
    | _ => rfl

end Run

theorem Unconnected.inOrder {dc : LdapT} (h : Unconnected dc) (hqueue : dc.sendMsgQueue = [])
    (hcount : dc.queueCount = 0) : InOrder [] dc.pool where
  front c := by
    have hconn : dc.pool.conns c = ({ no := 0 } : LdapClnt).conn := by
      simp only [LdapT.pool, h.clients]
    rw [hconn]
    exact Nat.zero_le _
  stream c := by
    have hconn : dc.pool.conns c = ({ no := 0 } : LdapClnt).conn := by
      simp only [LdapT.pool, h.clients]
    rw [stream, hconn]
    exact List.Sublist.refl _
  queue := hqueue.symm
  count := by
    rw [LdapT.pool, hqueue, hcount]
    rfl

theorem ldapClntSetOption_queue (opt : ClntOption) (dc : LdapT) :
    (ldapClntSetOption dc opt).2.sendMsgQueue = dc.sendMsgQueue ∧
      (ldapClntSetOption dc opt).2.queueCount = dc.queueCount := by
  cases opt with
  | maxClient n =>
    simp only [ldapClntSetOption]
    split <;> exact ⟨rfl, rfl⟩
  | maxConcurrent n =>
    simp only [ldapClntSetOption]
    split <;> exact ⟨rfl, rfl⟩
  | _ => exact ⟨rfl, rfl⟩

theorem foldl_queue (opts : List ClntOption) (dc : LdapT) :
    (opts.foldl (fun dc opt => (ldapClntSetOption dc opt).2) dc).sendMsgQueue = dc.sendMsgQueue ∧
      (opts.foldl (fun dc opt => (ldapClntSetOption dc opt).2) dc).queueCount = dc.queueCount := by
  induction opts generalizing dc with
  | nil => exact ⟨rfl, rfl⟩
  | cons opt opts ih =>
    obtain ⟨hqueue, hcount⟩ := ldapClntSetOption_queue opt dc
    exact ⟨(ih _).1.trans hqueue, (ih _).2.trans hcount⟩

theorem Setup.start_inOrder (s : Setup) : InOrder [] s.start.pool :=
  s.start_unconnected.inOrder (foldl_queue ..).1 (foldl_queue ..).2

theorem inOrder_of_run {s : Setup} {log : List Event} {k : Pool}
    (h : run Pool.step s.start.pool log = .ok k) : InOrder log k :=
  run_invariant (I := InOrder) s.start_inOrder (fun _ _ _ _ hin _ hstep => hin.step hstep)
    (show Along Pool.step (fun _ _ _ => True) _ log from fun _ _ _ _ _ _ => trivial) h

/-- A run that drops nothing leaves every stream intact. -/
theorem intact_of_run {s : Setup} {log : List Event} {k : Pool} {c : Ptr}
    (keep : Along Pool.step (fun _ k e => ¬ Drops k e) s.start.pool log)
    (h : run Pool.step s.start.pool log = .ok k) : Intact c log k := by
  have hstart : Intact c [] s.start.pool := List.sublist_nil.1 (s.start_inOrder.stream c)
  refine (run_invariant (I := fun log k => InOrder log k ∧ Intact c log k)
    ⟨s.start_inOrder, hstart⟩ ?_ keep h).2
  rintro tr k e k' ⟨hin, hintact⟩ hkeep hstep
  exact ⟨hin.step hstep, hintact.step (step_spec hstep) (hin.front c) hkeep⟩

/-- Whatever is called in whatever order, the BERs leave send_msg_queue in the order in which they
were put into it, queue_count is how many are left, and on every connection nothing is sent or
waits to be sent twice or out of the order in which it was copied. -/
theorem send_path_in_order (s : Setup) (calls : List Call) (dc : LdapT) (log : List Event)
    (h : runCalls calls s.start = .ok (dc, log)) :
    queuedBers log = flushedBers log ++ dc.sendMsgQueue ∧
      dc.queueCount = dc.sendMsgQueue.length ∧
      ∀ c, (sentBytes c log ++ (dc.clients c).conn.pending).Sublist (bytesOf (copies c log)) := by
  have hin := inOrder_of_run (runCalls_refines h)
  exact ⟨hin.queue, hin.count, hin.stream⟩

/-- A connection has sent a keepalive and been given a request when the keepalive is answered. -/
def answerAfterRequest : List Call :=
  [.open 1 .connected (some 1) true,
    .write 1 .none (.wrote 14) 1,
    .read 1 .none (fun _ => 0) (some fun _ => 0)
      (.data [0x30, 12, 2, 1, 1, 0x61, 7, 0x0a, 1, 0, 4, 0, 4, 0]) 1,
    .keepAlive 3 fun _ => ⟨true, true, .none, .wrote 200, none⟩,
    .sendMessage 4 {} ⟨fun _ => true, none⟩ none (some ⟨512, [0x30, 5, 2, 1, 1, 0x42, 0]⟩),
    .read 4 .none (fun _ => 0) (some fun _ => 0)
      (.data [0x30, 12, 2, 1, 2, 0x65, 7, 0x0a, 1, 0, 4, 0, 4, 0]) 1,
    .decode 4 {} (some fun _ => 0) true 1]

theorem send_path_in_order_answered :
    ∃ dc log, runCalls answerAfterRequest oneAtATime.start = .ok (dc, log) ∧
      queuedBers log = flushedBers log ++ dc.sendMsgQueue ∧
      dc.queueCount = dc.sendMsgQueue.length ∧
      ∀ c, (sentBytes c log ++ (dc.clients c).conn.pending).Sublist (bytesOf (copies c log)) := by
  obtain ⟨dc, log, hrun, -⟩ := runCalls_of_check (s := oneAtATime) (c := answerAfterRequest)
    (P := fun _ _ => true) (by decide +kernel)
  exact ⟨dc, log, hrun, send_path_in_order _ _ dc log hrun⟩

/-- In every state of a run, what was sent on each connection and is still to be sent is exactly
what was copied to it, if and only if no answer to a keepalive drops anything on the way. -/
theorem send_path_intact_iff (s : Setup) (calls : List Call) (dc : LdapT) (log : List Event)
    (h : runCalls calls s.start = .ok (dc, log)) :
    (∀ before after k c, log = before ++ after → run Pool.step s.start.pool before = .ok k →
        Intact c before k) ↔
      Along Pool.step (fun _ k e => ¬ Drops k e) s.start.pool log := by
  have hrun := runCalls_refines h
  constructor
  · rintro intact before e after k rfl hbefore drops
    obtain ⟨k', hstep, -⟩ : ∃ k', k.step e = .ok k' ∧ run Pool.step k' after = .ok dc.pool := by
      obtain ⟨k₁, hk₁, hrest⟩ := run_append hrun
      obtain rfl : k₁ = k := Except.ok.inj (hk₁.symm.trans hbefore)
      exact run_cons hrest
    have front := (inOrder_of_run hbefore).front
    cases e with
    | keptAlive c resp waiting =>
      cases waiting with
      | true =>
        refine (intact before _ k c rfl hbefore).dropped (front c) (step_spec hstep) drops ?_
        exact intact _ after k' c (by simp) (run_append_ok hbefore (run_single hstep))
      | false => exact drops
    | _ => exact drops
  · rintro keep before after k c rfl hbefore
    exact intact_of_run keep.left hbefore

/-- The request is lost. -/
theorem send_path_intact_iff_lost :
    ∃ dc log, runCalls answerAfterRequest oneAtATime.start = .ok (dc, log) ∧
      ¬ Along Pool.step (fun _ k e => ¬ Drops k e) oneAtATime.start.pool log := by
  obtain ⟨dc, log, hrun, hlost⟩ := runCalls_of_check (s := oneAtATime) (c := answerAfterRequest)
    (P := fun dc log => sentBytes 1 log ++ (dc.clients 1).conn.pending ≠ bytesOf (copies 1 log))
    (by decide +kernel)
  refine ⟨dc, log, hrun, fun keep => of_decide_eq_true hlost ?_⟩
  exact (send_path_intact_iff _ _ dc log hrun).2 keep log [] dc.pool 1 (List.append_nil _).symm
    (runCalls_refines hrun)

end CassandraApi.Ldap
