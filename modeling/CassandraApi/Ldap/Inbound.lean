/-
# `Ldap.Inbound` — the stream of bytes that a connection receives

Of all calls of the client only LDAP_clnt_read and LDAP_clnt_decode for the connection
itself touch its read buffer, and only the second decodes a response of it: the others
keep both (`InputKept`, one lemma for each operation).  A read is one of the buffer
(`ldapClntRead_input`), a decode takes whole messages off its front and ends with a final
response only if one of them is (`ldapClntDecode_input`).
-/
import CassandraApi.Ldap.Arriving
import CassandraApi.Ldap.Window

namespace CassandraApi.Ldap

open C Ber Lib

/-! ## Final responses -/

/-- A response that ends a request, counted or not. -/
def Event.final : Event → List Response
  | .answered _ resp => [resp]
  | .unexpected _ resp => [resp]
  | _ => []

/-- The final responses received on `c` since it was opened. -/
def finals (c : Ptr) (log : List Event) : List Response := log.foldl (sinceOpened Event.final c) []

/-- No event opens a connection at `c`. -/
def OldAt (c : Ptr) (log : List Event) : Prop := ∀ e ∈ log, e.about = some c → e.opens = false

section Since

variable {α : Type} {f : Event → List α} {c : Ptr} {log log' : List Event}

theorem OldAt.left (h : OldAt c (log ++ log')) : OldAt c log :=
  fun e he => h e (List.mem_append_left _ he)

theorem OldAt.right (h : OldAt c (log ++ log')) : OldAt c log' :=
  fun e he => h e (List.mem_append_right _ he)

theorem since_foldl (old : OldAt c log) (xs : List α) :
    log.foldl (sinceOpened f c) xs = xs ++ log.foldl (sinceOpened f c) [] := by
  induction log using List.reverseRecOn with
  | nil => exact (List.append_nil xs).symm
  | append_singleton log e ih =>
    simp only [List.foldl_append, List.foldl_cons, List.foldl_nil]
    rw [ih old.left]
    by_cases about : e.about = some c
    · have hold : e.opens = false := old e (by simp) about
      simp [sinceOpened, about, hold]
    · simp [sinceOpened, about]

/-- What was collected before and what is collected by more events. -/
theorem since_append (old : OldAt c log') :
    (log ++ log').foldl (sinceOpened f c) [] =
      log.foldl (sinceOpened f c) [] ++ log'.foldl (sinceOpened f c) [] := by
  rw [List.foldl_append]
  exact since_foldl old _

theorem since_nil (h : ∀ e ∈ log, e.about = some c → f e = []) :
    log.foldl (sinceOpened f c) [] = [] := by
  induction log using List.reverseRecOn with
  | nil => rfl
  | append_singleton log e ih =>
    rw [List.foldl_append, ih fun e' he' => h e' (List.mem_append_left _ he')]
    by_cases about : e.about = some c
    · simp [sinceOpened, about, h e (by simp) about]
    · simp [sinceOpened, about]

/-- An event adds to the requests without an answer what it copies, less what it ends. -/
theorem credit_ge {e : Event} (request : ∀ ber, e ≠ .keepaliveCopied c ber)
    (about : e.about = some c) : (e.copied.length : Int) ≤ e.credit + e.final.length := by
  cases e with
  | keepaliveCopied c' ber =>
    cases about
    exact absurd rfl (request ber)
  | _ => simp [Event.copied, Event.credit, Event.final]

/-- So do all of them, `n` requests being without an answer before. -/
theorem unanswered_ge (old : OldAt c log) (requests : ∀ e ∈ log, ∀ ber, e ≠ .keepaliveCopied c ber)
    (n : Int) :
    n + (copies c log).length ≤ log.foldl (unansweredStep c) n + (finals c log).length := by
  induction log using List.reverseRecOn with
  | nil => simp [copies, finals]
  | append_singleton log e ih =>
    have hbefore := ih old.left fun e' he' => requests e' (List.mem_append_left _ he')
    simp only [copies, finals, List.foldl_append, List.foldl_cons, List.foldl_nil] at hbefore ⊢
    by_cases about : e.about = some c
    · have hold : e.opens = false := old e (by simp) about
      have hcredit := credit_ge (requests e (by simp)) about
      simp only [sinceOpened, unansweredStep, about, hold, if_true, Bool.false_eq_true, if_false,
        List.length_append, Nat.cast_add]
      omega
    · simpa only [sinceOpened, unansweredStep, about, if_false] using hbefore

end Since

/-- A call that leaves the read buffer of `c` alone, and decodes nothing of it. -/
structure InputKept (c : Ptr) (dc dc' : LdapT) (log : List Event) : Prop where
  rb : (dc'.clients c).rb = (dc.clients c).rb
  final : ∀ e ∈ log, e.about = some c → e.final = []

/-! ## The operations -/

section Operations

variable {dc dc' dc'' : LdapT} {out : Outcome} {log log' : List Event} {now : Int} {c a : Ptr}
  {lc lc' : LdapClnt}

theorem InputKept.refl (c : Ptr) (dc : LdapT) : InputKept c dc dc [] :=
  ⟨rfl, fun e he => by cases he⟩

theorem InputKept.trans (h : InputKept c dc dc' log) (h' : InputKept c dc' dc'' log') :
    InputKept c dc dc'' (log ++ log') := by
  refine ⟨h'.rb.trans h.rb, fun e he about => ?_⟩
  rcases List.mem_append.1 he with he | he
  · exact h.final e he about
  · exact h'.final e he about

/-- Events that end no request. -/
theorem InputKept.of_events (hrb : (dc'.clients c).rb = (dc.clients c).rb)
    (hlog : ∀ e ∈ log, e.final = []) : InputKept c dc dc' log :=
  ⟨hrb, fun e he _ => hlog e he⟩

theorem final_single {e : Event} (h : e.final = []) : ∀ e' ∈ [e], e'.final = [] := by
  intro e' he'
  rw [List.mem_singleton.1 he']
  exact h

/-- A connection is changed, and not in its read buffer. -/
theorem rb_put (hclients : dc'.clients = Function.update dc.clients a lc)
    (hlc : lc.rb = (dc.clients a).rb) (c : Ptr) :
    (dc'.clients c).rb = (dc.clients c).rb := by
  rw [hclients]
  by_cases hc : c = a
  · subst hc
    rw [Function.update_self]
    exact hlc
  · rw [Function.update_of_ne hc]

theorem rb_clnt (hlc : dc.clnt a = .ok lc) : lc.rb = (dc.clients a).rb := by
  rw [(LdapT.clnt_ok hlc).1]

/-- Opening another connection. -/
theorem InputKept.open {connect : Connect} {mem : Option Ptr} {wbuf : Bool}
    (h : ldapClntOpen now connect mem wbuf dc = .ok (out, dc', log))
    (old : ∀ e ∈ log, e.about = some c → e.opens = false) : InputKept c dc dc' log := by
  unfold ldapClntOpen at h
  split at h
  · cases h
    exact .refl c dc
  split at h
  · cases h
    exact .refl c dc
  split at h
  · cases h
    exact .refl c dc
  split at h
  · cases h
    exact .refl c dc
  split at h
  · cases h
  rename_i i _ a _
  have hne : ∀ e ∈ log, e.about = some a → e.opens = true → c ≠ a := by
    rintro e he about new rfl
    rw [old e he about] at new
    cases new
  split at h
  · obtain ⟨q, -, h⟩ := bind_eq_ok.1 h
    cases h
    refine .of_events ?_ (final_single rfl)
    exact congrArg LdapClnt.rb
      (Function.update_of_ne (hne _ List.mem_cons_self rfl rfl) _ dc.clients)
  · cases h
    refine .of_events ?_ (final_single rfl)
    exact congrArg LdapClnt.rb
      (Function.update_of_ne (hne _ List.mem_cons_self rfl rfl) _ dc.clients)

theorem InputKept.close {closeErr : Option String} {no : Int}
    (h : ldapClntClose closeErr no dc = .ok (out, dc', log)) : InputKept c dc dc' log := by
  unfold ldapClntClose at h
  split at h
  · cases h
  split at h
  · cases h
    exact .refl c dc
  obtain ⟨lc, -, h⟩ := bind_eq_ok.1 h
  obtain ⟨q, -, h⟩ := bind_eq_ok.1 h
  split at h
  · cases h
    exact .of_events rfl (final_single rfl)
  · cases h
    exact .of_events rfl (final_single rfl)

theorem InputKept.write {sockErr : SockErr} {send : Send}
    (h : ldapClntWrite now sockErr send a dc = .ok (out, dc', log)) : InputKept c dc dc' log := by
  obtain ⟨lc, hlc, h⟩ := bind_eq_ok.1 h
  have own := rb_clnt hlc
  split at h
  · split at h
    · cases h
      exact .refl c dc
    obtain ⟨msg, -, h⟩ := bind_eq_ok.1 h
    split at h
    · cases h
      exact .of_events rfl fun e he => by cases he
    · cases h
      exact .of_events rfl fun e he => by cases he
    · cases h
      refine .of_events (rb_put (a := a) rfl ?_ c) (final_single rfl)
      exact own
  · cases h
    exact .refl c dc
  all_goals
    split at h
    · cases h
      exact .refl c dc
    split at h
    · cases h
      exact .refl c dc
    split at h
    · cases h
      exact .refl c dc
    simp only at h
    split at h
    · cases h
      refine .of_events (rb_put (a := a) rfl ?_ c) (final_single rfl)
      exact own
    · cases h
      refine .of_events (rb_put (a := a) rfl ?_ c) (final_single rfl)
      exact own

theorem copyBer_rb {alloc : Bool} {ber : BER} (h : lc.copyBer now alloc ber = .ok (some lc')) :
    lc'.rb = lc.rb := by
  unfold LdapClnt.copyBer at h
  split at h
  · cases h
  simp only at h
  split at h
  · cases h
  split at h
  · split at h
    · cases h
      rfl
    · cases h
  · cases h
    rfl

theorem rotate_rb (hlc : lc.rb = (dc.clients a).rb) (h : dc.rotate a lc = .ok dc') :
    (dc'.clients c).rb = (dc.clients c).rb := by
  unfold LdapT.rotate at h
  split at h
  · obtain ⟨q, -, h⟩ := bind_eq_ok.1 h
    cases h
    refine rb_put (a := a) rfl ?_ c
    exact hlc
  · obtain ⟨q, -, h⟩ := bind_eq_ok.1 h
    cases h
    exact rb_put rfl hlc c

theorem InputKept.flushQueue {clock : Timeval} {env : SendEnv} {k : Nat} {bers : List BER}
    (h : flushQueue now clock env k bers dc = .ok (out, dc', log)) : InputKept c dc dc' log := by
  induction bers generalizing k dc log with
  | nil =>
    cases h
    exact .refl c _
  | cons ber bers ih =>
    unfold Ldap.flushQueue at h
    split at h
    · cases h
      exact .refl c _
    rename_i a _
    obtain ⟨lc, hlc, h⟩ := bind_eq_ok.1 h
    obtain ⟨copied, hcopy, h⟩ := bind_eq_ok.1 h
    split at h
    · cases h
      exact .refl c _
    rename_i lc'
    obtain ⟨dc₁, hrot, h⟩ := bind_eq_ok.1 h
    have hrb : (dc₁.clients c).rb = (dc.clients c).rb := by
      refine rotate_rb ?_ hrot
      exact (copyBer_rb hcopy).trans (rb_clnt hlc)
    split at h
    · cases h
      exact .of_events hrb (final_single rfl)
    · obtain ⟨⟨o, dc₂, log₂⟩, hrest, h⟩ := bind_eq_ok.1 h
      cases h
      have hfirst : InputKept c dc { dc₁ with
          sendMsgQueue := bers, queueCount := dc₁.queueCount - 1 } [.flushed a ber] :=
        .of_events hrb (final_single rfl)
      exact hfirst.trans (ih hrest)

theorem InputKept.sendMessage {clock : Timeval} {env : SendEnv} {target : Option Ptr}
    {ber : Option BER}
    (h : ldapClntSendMessage now clock env target ber dc = .ok (out, dc', log)) :
    InputKept c dc dc' log := by
  unfold ldapClntSendMessage at h
  split at h
  · rename_i a ber
    obtain ⟨⟨goOn, o, dc₁, log₁⟩, hdirect, h⟩ := bind_eq_ok.1 h
    have hfirst : InputKept c dc dc₁ log₁ := by
      obtain ⟨lc, hlc, hdirect⟩ := bind_eq_ok.1 hdirect
      obtain ⟨copied, hcopy, hdirect⟩ := bind_eq_ok.1 hdirect
      cases copied with
      | none =>
        cases hdirect
        exact .refl c dc
      | some lc' =>
        cases hdirect
        refine .of_events (rb_put (a := a) rfl ?_ c) (final_single rfl)
        exact (copyBer_rb hcopy).trans (rb_clnt hlc)
    simp only at h
    split at h
    · cases h
      exact hfirst
    · obtain ⟨⟨o₂, dc₂, log₂⟩, hflush, h⟩ := bind_eq_ok.1 h
      cases h
      exact hfirst.trans (.flushQueue hflush)
  · rename_i ber
    obtain ⟨⟨o₂, dc₂, log₂⟩, hflush, h⟩ := bind_eq_ok.1 h
    cases h
    have hqueued : InputKept c dc { dc with
        sendMsgQueue := dc.sendMsgQueue ++ [ber], queueCount := dc.queueCount + 1 }
        [.queued ber] := .of_events rfl (final_single rfl)
    exact hqueued.trans (.flushQueue hflush)
  · exact .flushQueue h

theorem InputKept.sendKeepalive {env : KeepaliveEnv} {ber : BER}
    (h : ldapSendKeepaliveRqt now env a ber dc = .ok (out, dc', log)) : InputKept c dc dc' log := by
  obtain ⟨lc, hlc, h⟩ := bind_eq_ok.1 h
  obtain ⟨copied, hcopy, h⟩ := bind_eq_ok.1 h
  cases copied with
  | none =>
    cases h
    exact .refl c dc
  | some lc' =>
    obtain ⟨⟨o, dc₁, log₁⟩, hwrite, h⟩ := bind_eq_ok.1 h
    have hcopied : InputKept c dc (dc.put a lc') [.keepaliveCopied a ber] := by
      refine .of_events (rb_put (a := a) rfl ?_ c) (final_single rfl)
      exact (copyBer_rb hcopy).trans (rb_clnt hlc)
    have hboth := hcopied.trans (.write hwrite)
    simp only at h
    split at h
    · cases h
      exact hboth
    · cases h
      exact ⟨hboth.rb, hboth.final⟩

theorem InputKept.giveUp {text : String} {env : KeepaliveEnv} {o : Option Outcome}
    (h : giveUp text env lc dc = .ok (o, dc', log)) : InputKept c dc dc' log := by
  obtain ⟨⟨o₁, dc₁, log₁⟩, hclose, h⟩ := bind_eq_ok.1 h
  cases h
  exact .close hclose

theorem InputKept.keepOneAlive {env : KeepaliveEnv} {o : Option Outcome}
    (h : keepOneAlive now env a dc = .ok (o, dc', log)) : InputKept c dc dc' log := by
  obtain ⟨lc, hlc, h⟩ := bind_eq_ok.1 h
  have own := rb_clnt hlc
  split at h
  · obtain ⟨request, -, h⟩ := bind_eq_ok.1 h
    cases request with
    | none =>
      cases h
      exact .refl c dc
    | some request =>
      obtain ⟨tid, ber⟩ := request
      have hnamed : InputKept c dc (LdapT.put { dc with tid := tid } a
          { lc with ktid := UInt32.ofInt tid }) [.keepaliveId a (UInt32.ofInt tid)] := by
        refine .of_events (rb_put (a := a) rfl ?_ c) (final_single rfl)
        exact own
      simp only at h
      split at h
      · obtain ⟨⟨o₁, dc₁, log₁⟩, hgive, h⟩ := bind_eq_ok.1 h
        cases h
        exact hnamed.trans (.giveUp hgive)
      · obtain ⟨⟨o₁, dc₁, log₁⟩, hsend, h⟩ := bind_eq_ok.1 h
        have hboth := hnamed.trans (.sendKeepalive hsend)
        split at h
        · obtain ⟨⟨o₂, dc₂, log₂⟩, hgive, h⟩ := bind_eq_ok.1 h
          cases h
          exact hboth.trans (.giveUp hgive)
        · cases h
          exact hboth
  · cases h
    exact .refl c dc

theorem InputKept.keepAliveFrom {env : Nat → KeepaliveEnv} {is : List Nat}
    (h : keepAliveFrom now env is dc = .ok (out, dc', log)) : InputKept c dc dc' log := by
  induction is generalizing dc log with
  | nil =>
    cases h
    exact .refl c _
  | cons i is ih =>
    unfold Ldap.keepAliveFrom at h
    split at h
    · exact ih h
    obtain ⟨⟨o, dc₁, log₁⟩, hone, h⟩ := bind_eq_ok.1 h
    have hfirst : InputKept c dc dc₁ log₁ := .keepOneAlive hone
    cases o with
    | some o =>
      cases h
      exact hfirst
    | none =>
      obtain ⟨⟨o₂, dc₂, log₂⟩, hrest, h⟩ := bind_eq_ok.1 h
      cases h
      exact hfirst.trans (ih hrest)

theorem InputKept.checkFrom {closeErr : Nat → Option String} {is : List Nat} {text : Option String}
    (h : checkFrom now closeErr is text dc = .ok (out, dc', log)) : InputKept c dc dc' log := by
  induction is generalizing dc log text with
  | nil =>
    cases h
    exact .refl c _
  | cons i is ih =>
    unfold Ldap.checkFrom at h
    split at h
    · exact ih h
    obtain ⟨lc, -, h⟩ := bind_eq_ok.1 h
    split at h
    · exact ih h
    · obtain ⟨⟨o, dc₁, log₁⟩, hclose, h⟩ := bind_eq_ok.1 h
      obtain ⟨⟨o₂, dc₂, log₂⟩, hrest, h⟩ := bind_eq_ok.1 h
      cases h
      have hfirst : InputKept c dc dc₁ log₁ := .close hclose
      exact hfirst.trans (ih hrest)

theorem InputKept.consume (h : lberConsume a dc = .ok (out, dc', log)) :
    InputKept c dc dc' log := by
  obtain ⟨lc, hlc, h⟩ := bind_eq_ok.1 h
  have own := rb_clnt hlc
  cases h
  refine .of_events (rb_put (a := a) rfl ?_ c) (final_single rfl)
  exact own

/-- The bind request was answered. -/
def LdapClnt.Bound (lc : LdapClnt) : Prop := lc.state = .stateReady ∨ lc.state = .stateWaiting

instance (lc : LdapClnt) : Decidable lc.Bound := inferInstanceAs (Decidable (_ ∨ _))

/-- A read is one of the read buffer, or changes no read buffer at all. -/
theorem ldapClntRead_input {sockErr : SockErr} {stack : Nat → UInt8} {alloc : Alloc} {recv : Recv}
    (h : ldapClntRead now sockErr stack alloc recv a dc = .ok (out, dc', log)) (c : Ptr) :
    (out.code ≠ .ok ∧ InputKept c dc dc' log) ∨
      ∃ rb, (dc.clients a).Bound ∧ (dc.clients a).rb.read .errConnect alloc recv = .ok (out, rb) ∧
        (dc'.clients a).rb = rb ∧ (∀ y ≠ a, dc'.clients y = dc.clients y) ∧ log = [] := by
  obtain ⟨lc, hlc, h⟩ := bind_eq_ok.1 h
  have own := rb_clnt hlc
  have hstate : (dc.clients a).state = lc.state := by rw [(LdapT.clnt_ok hlc).1]
  split at h
  · cases h
    exact .inl ⟨by decide, .refl c dc⟩
  · split at h
    · cases h
      exact .inl ⟨RetCode.noConfusion, .refl c dc⟩
    obtain ⟨r, -, h⟩ := bind_eq_ok.1 h
    split at h
    · cases h
      exact .inl ⟨by decide, .refl c dc⟩
    obtain ⟨q, -, h⟩ := bind_eq_ok.1 h
    cases h
    refine .inl ⟨by decide, .of_events (rb_put (a := a) rfl ?_ c) (final_single rfl)⟩
    exact own
  all_goals
    rename_i hbound
    obtain ⟨⟨o, rb⟩, hread, h⟩ := bind_eq_ok.1 h
    rw [own] at hread
    cases h
    refine .inr ⟨rb, by simp [LdapClnt.Bound, hstate, hbound], hread, ?_,
      fun y hy => Function.update_of_ne hy .., rfl⟩
    rw [put_clients]
    split <;> rfl

/-- A read of another connection. -/
theorem InputKept.read {sockErr : SockErr} {stack : Nat → UInt8} {alloc : Alloc} {recv : Recv}
    (h : ldapClntRead now sockErr stack alloc recv a dc = .ok (out, dc', log)) (hne : c ≠ a) :
    InputKept c dc dc' log := by
  obtain ⟨-, hkept⟩ | ⟨rb, -, -, -, hother, rfl⟩ := ldapClntRead_input h c
  · exact hkept
  · refine .of_events ?_ fun e he => by cases he
    rw [hother c hne]

/-! ## LDAP_clnt_decode -/

theorem readyAgain_other (h : dc.readyAgain a lc = .ok dc') :
    ∀ y ≠ a, dc'.clients y = dc.clients y := by
  intro y hy
  unfold LdapT.readyAgain at h
  split at h
  · obtain ⟨q, -, h⟩ := bind_eq_ok.1 h
    cases h
    exact Function.update_of_ne hy ..
  · cases h
    exact Function.update_of_ne hy ..

/-- Counting an answer is about its connection. -/
theorem countAnswer_other {clock : Timeval} {resp : Response} {o : Outcome}
    (h : countAnswer clock a lc resp o dc = .ok (out, dc', log)) :
    (∀ y ≠ a, dc'.clients y = dc.clients y) ∧ ∃ e, log = [e] ∧ e.about = some a := by
  unfold countAnswer at h
  split at h
  · obtain ⟨dc₁, hready, h⟩ := bind_eq_ok.1 h
    cases h
    refine ⟨fun y hy => ?_, _, rfl, rfl⟩
    exact (Function.update_of_ne hy ..).trans (readyAgain_other hready y hy)
  · cases h
    exact ⟨fun y hy => Function.update_of_ne hy .., _, rfl, rfl⟩

theorem keepaliveAnswered_other {resp : Response} {o : Outcome}
    (h : keepaliveAnswered a lc resp o dc = .ok (out, dc', log)) :
    (∀ y ≠ a, dc'.clients y = dc.clients y) ∧ ∃ e, log = [e] ∧ e.about = some a ∧ e.final = [] := by
  obtain ⟨found, -, h⟩ := bind_eq_ok.1 h
  split at h
  · obtain ⟨q, -, h⟩ := bind_eq_ok.1 h
    cases h
    exact ⟨fun y hy => Function.update_of_ne hy .., _, rfl, rfl, rfl⟩
  · cases h
    exact ⟨fun y hy => Function.update_of_ne hy .., _, rfl, rfl, rfl⟩

/-- Search entries end no request. -/
theorem entries_final (ktid : UInt32) (seen : List Response) :
    ∀ e ∈ seen.map (entryEvent a ktid), e.final = [] := by
  intro e he
  obtain ⟨resp, -, rfl⟩ := List.mem_map.1 he
  unfold entryEvent
  split <;> rfl

/-- A decode is the loop over the read buffer.  Behind the search entries it reports one event, of
its own connection, and a final response only when that is what the loop ended with. -/
theorem ldapClntDecode_input {clock : Timeval} {grow : Alloc} {alloc : Bool}
    (h : ldapClntDecode now clock grow alloc a dc = .ok (out, dc', log)) :
    ∃ o s rb entries last,
      (clntDecoder now alloc).decode grow (dc.clients a, []) (dc.clients a).rb = .ok (o, s, rb) ∧
      (dc'.clients a).rb = rb ∧ (∀ y ≠ a, dc'.clients y = dc.clients y) ∧ log = entries ++ last ∧
      (∀ e ∈ entries, e.final = []) ∧
      (last = [] ∨ ∃ e, last = [e] ∧ e.about = some a ∧
        (o.code = .dataAvailable ∨ e.final = [])) := by
  obtain ⟨lc, hlc, h⟩ := bind_eq_ok.1 h
  obtain rfl := (LdapT.clnt_ok hlc).1
  obtain ⟨⟨o, s, rb⟩, hdecode, h⟩ := bind_eq_ok.1 h
  simp only at h
  split at h
  · rename_i hdata
    obtain ⟨⟨o₁, dc₁, log₁⟩, hcount, h⟩ := bind_eq_ok.1 h
    cases h
    obtain ⟨hother, e, rfl, about⟩ := countAnswer_other hcount
    exact ⟨o, s, rb, _, [e], hdecode, (countAnswer_same hcount).rb, hother, rfl,
      entries_final _ _, .inr ⟨e, rfl, about, .inl hdata⟩⟩
  · obtain ⟨⟨o₁, dc₁, log₁⟩, hkeep, h⟩ := bind_eq_ok.1 h
    cases h
    obtain ⟨hother, e, rfl, about, final⟩ := keepaliveAnswered_other hkeep
    exact ⟨o, s, rb, _, [e], hdecode, (keepaliveAnswered_same hkeep).rb, hother, rfl,
      entries_final _ _, .inr ⟨e, rfl, about, .inr final⟩⟩
  · cases h
    refine ⟨_, s, rb, _, [], hdecode, ?_, fun y hy => Function.update_of_ne hy ..,
      (List.append_nil _).symm, entries_final _ _, .inl rfl⟩
    rw [put_clients]

/-- A decode for another connection. -/
theorem InputKept.decode {clock : Timeval} {grow : Alloc} {alloc : Bool}
    (h : ldapClntDecode now clock grow alloc a dc = .ok (out, dc', log)) (hne : c ≠ a) :
    InputKept c dc dc' log := by
  obtain ⟨o, s, rb, entries, last, -, -, hother, rfl, hentries, hlast⟩ := ldapClntDecode_input h
  refine ⟨by rw [hother c hne], fun e he about => ?_⟩
  rcases List.mem_append.1 he with he | he
  · exact hentries e he
  · obtain rfl | ⟨e', rfl, about', -⟩ := hlast
    · cases he
    · rw [List.mem_singleton.1 he, about'] at about
      exact absurd (Option.some.inj about).symm hne

theorem InputKept.finals (h : InputKept c dc dc' log) : finals c log = [] := since_nil h.final

/-- One final response more at most, and none unless the loop ended with one. -/
theorem finals_decoded {o : Outcome} {entries last : List Event}
    (hentries : ∀ e ∈ entries, e.final = [])
    (hlast : last = [] ∨ ∃ e, last = [e] ∧ e.about = some a ∧
      (o.code = .dataAvailable ∨ e.final = [])) (old : OldAt c (entries ++ last)) :
    (finals c (entries ++ last)).length ≤ if o.code = .dataAvailable then 1 else 0 := by
  have hnone : entries.foldl (sinceOpened Event.final c) [] = [] :=
    since_nil fun e he _ => hentries e he
  rw [Ldap.finals, since_append old.right, hnone, List.nil_append]
  obtain rfl | ⟨e, rfl, about, hdata | hfinal⟩ := hlast
  · exact Nat.zero_le _
  · rw [if_pos hdata]
    simp only [List.foldl_cons, List.foldl_nil, sinceOpened]
    split
    · split
      · exact Nat.zero_le _
      · cases e <;> simp [Event.final]
    · exact Nat.zero_le _
  · have hempty : [e].foldl (sinceOpened Event.final c) [] = [] :=
      since_nil fun e' he' _ => (List.mem_singleton.1 he') ▸ hfinal
    rw [hempty]
    exact Nat.zero_le _

end Operations

end CassandraApi.Ldap
