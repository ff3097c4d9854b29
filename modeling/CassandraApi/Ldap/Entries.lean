/-
# `Ldap.Entries` — whose search entries rber holds

A connection has one rber for the entries of all searches.  What it holds is
every entry that has come in since the application consumed it
(`SearchRun.received`), so at the end of a search it holds the entries of that
search if no entry of another one is among them (`entries_of_one_search`).
-/
import CassandraApi.Ldap.Agreement

namespace CassandraApi.Ldap

open C Ber Lib

/-! ## What has come in -/

/-- The entries of the searches on `c` that have not been done yet, `entries` before the event. -/
def pendingStep (c : Ptr) (entries : List Answer) : Event → List Answer
  | .opened _ c' => if c' = c then [] else entries
  | .leaked _ c' => if c' = c then [] else entries
  | .entry c' (some a) => if c' = c then entries ++ [a] else entries
  | .answered c' (some a) => if c' = c then entries.filter fun b => b.tid ≠ a.tid else entries
  | _ => entries

/-- The entries of the searches on `c` that are not done, in the order in which they came in. -/
def pending (c : Ptr) (log : List Event) : List Answer := log.foldl (pendingStep c) []

/-- The entries of one search. -/
def entriesOf (c : Ptr) (tid : UInt32) (log : List Event) : List Answer :=
  (pending c log).filter fun b => b.tid = tid

/-- The application has been told of the end of a search and has not consumed rber. -/
def unreadStep (c : Ptr) (unread : Bool) : Event → Bool
  | .opened _ c' => if c' = c then false else unread
  | .leaked _ c' => if c' = c then false else unread
  | .answered c' _ => if c' = c then true else unread
  | .consumed c' => if c' = c then false else unread
  | _ => unread

def unread (c : Ptr) (log : List Event) : Bool := log.foldl (unreadStep c) false

theorem pending_snoc (c : Ptr) (log : List Event) (e : Event) :
    pending c (log ++ [e]) = pendingStep c (pending c log) e := by
  rw [pending, List.foldl_append]
  rfl

theorem unread_snoc (c : Ptr) (log : List Event) (e : Event) :
    unread c (log ++ [e]) = unreadStep c (unread c log) e := by
  rw [unread, List.foldl_append]
  rfl

/-- Only entries and ends of searches that are waited for come in on `c`, and the application
consumes rber after the end of a search, before anything else comes in, and at no other time. -/
def searchesOnly (c : Ptr) (before : List Event) : Event → Bool
  | .entry c' _ => c' ≠ c ∨ unread c before = false
  | .answered c' resp =>
      c' ≠ c ∨ unread c before = false ∧ (resp.map Answer.op) = some 0x65
  | .unexpected c' _ => c' ≠ c
  | .consumed c' => c' ≠ c ∨ unread c before = true
  | _ => true

/-- When a search on `c` is done, there are no entries of another one. -/
def notMixed (c : Ptr) (before : List Event) : Event → Bool
  | .answered c' (some a) => c' ≠ c ∨ ∀ b ∈ pending c before, b.tid = a.tid
  | _ => true

/-! ## What rber holds -/

/-- What an event makes of the bytes in rber. -/
def receivedStep (c : Ptr) (ktid : UInt32) (received : List UInt8) : Event → List UInt8
  | .opened _ c' => if c' = c then [] else received
  | .leaked _ c' => if c' = c then [] else received
  | .entry c' resp => if c' = c then received ++ resp.kept ktid else received
  | .answered c' resp => if c' = c then received ++ resp.kept ktid else received
  | .unexpected c' resp => if c' = c then received ++ resp.kept ktid else received
  | .consumed c' => if c' = c then [] else received
  | _ => received

section

variable {k k' : Pool} {c : Ptr}

theorem conn_eq {c' : Ptr} {cn : Conn} (h : k.conn c' = .ok cn) : cn = k.conns c' := by
  unfold Pool.conn at h
  split at h
  · exact (Except.ok.inj h).symm
  · cases h

theorem Pool.copy_received {ber : BER} {cn cn' : Conn} (h : Pool.copy ber cn = .ok cn') :
    cn'.received = cn.received := by
  unfold Pool.copy at h
  split at h
  · cases h
  · cases h
    rfl

/-- A connection is changed, and what it has received is `bytes` then. -/
theorem received_put {c' : Ptr} {cn : Conn} {bytes : List UInt8} (hk : k.conns = k'.conns)
    (hcn : cn.received = bytes) :
    ((k'.put c' cn).conns c).received = if c' = c then bytes else (k.conns c).received := by
  by_cases hc : c = c'
  · subst hc
    simp only [Pool.put, Function.update_self, if_true, hcn]
  · simp only [Pool.put, Function.update_of_ne hc, if_neg (Ne.symm hc), hk]

theorem received_same {c' : Ptr} {cn : Conn} (hk : k.conns = k'.conns)
    (hcn : cn.received = (k.conns c').received) :
    ((k'.put c' cn).conns c).received = (k.conns c).received := by
  rw [received_put hk hcn]
  split
  · rename_i hc
    rw [hc]
  · rfl

/-- A response is read, and what is kept of it comes behind the rest. -/
theorem received_kept {c' : Ptr} {cn : Conn} {resp : Response} (hk : k.conns = k'.conns)
    (hcn : cn.received = (k.conns c').received ++ resp.kept (k.conns c').ktid) :
    ((k'.put c' cn).conns c).received = if c' = c then
      (k.conns c).received ++ resp.kept (k.conns c).ktid else (k.conns c).received := by
  rw [received_put hk hcn]
  split
  · rename_i hc
    rw [hc]
  · rfl

/-- What an event of the pool does to rber. -/
theorem received_step {e : Event} (h : k.step e = .ok k') :
    (k'.conns c).received = receivedStep c (k.conns c).ktid (k.conns c).received e := by
  cases e with
  | opened i c' =>
    obtain ⟨k₁, halloc, h⟩ := bind_eq_ok.1 h
    obtain ⟨q, -, h⟩ := bind_eq_ok.1 h
    obtain ⟨_, -, halloc⟩ := bind_eq_ok.1 halloc
    cases halloc
    cases h
    exact received_put (k := k) rfl rfl
  | leaked i c' =>
    obtain ⟨_, -, h⟩ := bind_eq_ok.1 h
    cases h
    exact received_put (k := k) rfl rfl
  | closed i c' =>
    obtain ⟨_, -, h⟩ := bind_eq_ok.1 h
    obtain ⟨cn, -, h⟩ := bind_eq_ok.1 h
    obtain ⟨q, -, h⟩ := bind_eq_ok.1 h
    cases h
    rfl
  | bindSent c' =>
    obtain ⟨cn, hcn, h⟩ := bind_eq_ok.1 h
    obtain ⟨_, -, h⟩ := bind_eq_ok.1 h
    cases h
    obtain rfl := conn_eq hcn
    exact received_same rfl rfl
  | established c' =>
    obtain ⟨cn, hcn, h⟩ := bind_eq_ok.1 h
    obtain ⟨_, -, h⟩ := bind_eq_ok.1 h
    obtain ⟨q, -, h⟩ := bind_eq_ok.1 h
    cases h
    obtain rfl := conn_eq hcn
    exact received_same (k := k) rfl rfl
  | direct c' ber =>
    obtain ⟨cn, hcn, h⟩ := bind_eq_ok.1 h
    obtain ⟨cn', hcopy, h⟩ := bind_eq_ok.1 h
    cases h
    obtain rfl := conn_eq hcn
    have hsame := Pool.copy_received hcopy
    exact received_same rfl hsame
  | queued ber =>
    cases h
    rfl
  | flushed c' ber =>
    obtain ⟨_, -, h⟩ := bind_eq_ok.1 h
    obtain ⟨cn, hcn, h⟩ := bind_eq_ok.1 h
    obtain ⟨cn', hcopy, h⟩ := bind_eq_ok.1 h
    have hsame : cn'.received = (k.conns c').received := by
      rw [Pool.copy_received hcopy, conn_eq hcn]
    simp only at h
    split at h
    · obtain ⟨q, -, h⟩ := bind_eq_ok.1 h
      cases h
      exact received_same (k := k) rfl hsame
    · obtain ⟨q, -, h⟩ := bind_eq_ok.1 h
      cases h
      exact received_same (k := k) rfl hsame
  | keepaliveId c' ktid =>
    obtain ⟨cn, hcn, h⟩ := bind_eq_ok.1 h
    cases h
    obtain rfl := conn_eq hcn
    exact received_same rfl rfl
  | keepaliveCopied c' ber =>
    obtain ⟨cn, hcn, h⟩ := bind_eq_ok.1 h
    obtain ⟨cn', hcopy, h⟩ := bind_eq_ok.1 h
    cases h
    obtain rfl := conn_eq hcn
    have hsame := Pool.copy_received hcopy
    exact received_same rfl hsame
  | sent c' bytes =>
    obtain ⟨cn, hcn, h⟩ := bind_eq_ok.1 h
    obtain ⟨_, -, h⟩ := bind_eq_ok.1 h
    obtain rfl := conn_eq hcn
    simp only at h
    split at h
    · cases h
      exact received_same rfl rfl
    · cases h
      exact received_same rfl rfl
  | entry c' resp =>
    obtain ⟨cn, hcn, h⟩ := bind_eq_ok.1 h
    obtain ⟨_, -, h⟩ := bind_eq_ok.1 h
    cases h
    obtain rfl := conn_eq hcn
    exact received_kept (k := k) rfl rfl
  | keepaliveEntry c' resp =>
    obtain ⟨cn, -, h⟩ := bind_eq_ok.1 h
    obtain ⟨_, -, h⟩ := bind_eq_ok.1 h
    cases h
    rfl
  | answered c' resp =>
    obtain ⟨cn, hcn, h⟩ := bind_eq_ok.1 h
    obtain ⟨_, -, h⟩ := bind_eq_ok.1 h
    obtain rfl := conn_eq hcn
    simp only at h
    split at h
    · obtain ⟨q, -, h⟩ := bind_eq_ok.1 h
      cases h
      exact received_kept (k := k) rfl rfl
    · cases h
      exact received_kept (k := k) rfl rfl
  | unexpected c' resp =>
    obtain ⟨cn, hcn, h⟩ := bind_eq_ok.1 h
    obtain ⟨_, -, h⟩ := bind_eq_ok.1 h
    cases h
    obtain rfl := conn_eq hcn
    exact received_kept (k := k) rfl rfl
  | keptAlive c' resp waiting =>
    obtain ⟨cn, hcn, h⟩ := bind_eq_ok.1 h
    obtain ⟨_, -, h⟩ := bind_eq_ok.1 h
    obtain ⟨found, -, h⟩ := bind_eq_ok.1 h
    obtain ⟨_, -, h⟩ := bind_eq_ok.1 h
    obtain rfl := conn_eq hcn
    split at h
    · obtain ⟨q, -, h⟩ := bind_eq_ok.1 h
      cases h
      exact received_same (k := k) rfl rfl
    · cases h
      exact received_same rfl rfl
  | consumed c' =>
    obtain ⟨cn, hcn, h⟩ := bind_eq_ok.1 h
    cases h
    exact received_put (k := k) rfl rfl

/-- A search entry that is no answer to the keepalive is kept. -/
theorem entry_kept {c' : Ptr} {resp : Response} (h : k.step (.entry c' resp) = .ok k') :
    ∃ a, resp = some a ∧ resp.kept (k.conns c').ktid = a.bytes := by
  obtain ⟨cn, hcn, h⟩ := bind_eq_ok.1 h
  obtain ⟨_, hguard, -⟩ := bind_eq_ok.1 h
  obtain rfl := conn_eq hcn
  obtain ⟨hret, hown⟩ := Pool.require_eq_ok.1 hguard
  cases resp with
  | none => cases hret
  | some a =>
    refine ⟨a, rfl, ?_⟩
    simp only [Response.ret] at hret
    split_ifs at hret with hop
    exact if_pos ⟨.inl hop, hown⟩

/-- The end of a search is not. -/
theorem done_kept {resp : Response} {ktid : UInt32} (h : resp.map Answer.op = some 0x65) :
    resp.kept ktid = [] := by
  cases resp with
  | none => rfl
  | some a =>
    have hop : a.op = 0x65 := Option.some.inj h
    refine if_neg fun both => ?_
    rw [hop] at both
    exact absurd both.1 (by decide)

end

/-! ## Runs -/

/-- rber is what has come in of the searches that are not done, until one of them is. -/
structure SearchRun (c : Ptr) (log : List Event) (k : Pool) : Prop where
  received : unread c log = false →
    (k.conns c).received = (pending c log).flatMap Answer.bytes
  read : unread c log = true → pending c log = []

section

variable {c : Ptr} {log : List Event} {k k' : Pool} {e : Event}

theorem SearchRun.same (h : SearchRun c log k)
    (received : (k'.conns c).received = (k.conns c).received)
    (entries : pendingStep c (pending c log) e = pending c log)
    (told : unreadStep c (unread c log) e = unread c log) : SearchRun c (log ++ [e]) k' where
  received := by
    intro hunread
    rw [unread_snoc, told] at hunread
    rw [pending_snoc, entries, received]
    exact h.received hunread
  read := by
    intro hunread
    rw [unread_snoc, told] at hunread
    rw [pending_snoc, entries]
    exact h.read hunread

/-- The connection is new. -/
theorem SearchRun.fresh (received : (k'.conns c).received = [])
    (entries : pendingStep c (pending c log) e = []) : SearchRun c (log ++ [e]) k' where
  received := by
    intro _
    rw [pending_snoc, entries, received]
    rfl
  read := by
    intro _
    rw [pending_snoc, entries]

theorem SearchRun.step (h : SearchRun c log k) (searches : searchesOnly c log e)
    (separate : notMixed c log e) (hstep : k.step e = .ok k') : SearchRun c (log ++ [e]) k' := by
  have hreceived := received_step (c := c) hstep
  cases e with
  | opened i c' =>
    by_cases hc : c' = c
    · exact .fresh (hreceived.trans (if_pos hc)) (if_pos hc)
    · exact h.same (hreceived.trans (if_neg hc)) (if_neg hc) (if_neg hc)
  | leaked i c' =>
    by_cases hc : c' = c
    · exact .fresh (hreceived.trans (if_pos hc)) (if_pos hc)
    · exact h.same (hreceived.trans (if_neg hc)) (if_neg hc) (if_neg hc)
  | entry c' resp =>
    obtain ⟨a, rfl, hkept⟩ := entry_kept hstep
    by_cases hc : c' = c
    · subst hc
      have hunread : unread c' log = false := by simpa [searchesOnly] using searches
      refine ⟨fun _ => ?_, fun htold => ?_⟩
      · rw [hreceived, pending_snoc, receivedStep, pendingStep, if_pos rfl, if_pos rfl,
          h.received hunread, hkept, List.flatMap_append]
        simp
      · rw [unread_snoc] at htold
        exact absurd (hunread.symm.trans htold) (by decide)
    · exact h.same (hreceived.trans (if_neg hc)) (if_neg hc) rfl
  | answered c' resp =>
    by_cases hc : c' = c
    · subst hc
      refine ⟨fun htold => ?_, fun _ => ?_⟩
      · rw [unread_snoc, unreadStep, if_pos rfl] at htold
        cases htold
      · cases resp with
        | none => simp [searchesOnly] at searches
        | some a =>
          have hall : ∀ b ∈ pending c' log, b.tid = a.tid := by
            simpa [notMixed] using separate
          rw [pending_snoc, pendingStep, if_pos rfl, List.filter_eq_nil_iff]
          intro b hb
          simp [hall b hb]
    · refine h.same (hreceived.trans (if_neg hc)) ?_ (if_neg hc)
      cases resp with
      | none => rfl
      | some a => exact if_neg hc
  | unexpected c' resp =>
    have hc : c' ≠ c := by simpa [searchesOnly] using searches
    exact h.same (hreceived.trans (if_neg hc)) rfl rfl
  | consumed c' =>
    by_cases hc : c' = c
    · subst hc
      have hunread : unread c' log = true := by simpa [searchesOnly] using searches
      exact .fresh (hreceived.trans (if_pos rfl)) (h.read hunread)
    · exact h.same (hreceived.trans (if_neg hc)) rfl (if_neg hc)
  | _ => exact h.same hreceived rfl rfl

/-- What is asked of every event of a log and the events before it. -/
theorem along_of_take {ok : List Event → Event → Bool} {k₀ : Pool}
    (h : ∀ n (hn : n < log.length), ok (log.take n) log[n]) :
    Along Pool.step (fun tr _ e => ok tr e) k₀ log := by
  rintro before e after _ rfl -
  have hn := h before.length (by simp)
  simpa using hn

end

/-- At the end of a search, rber holds the entries of that search, in the order in which they came
in, provided that no search is done while there are entries of another one. -/
theorem entries_of_one_search (s : Setup) (calls : List Call) (dc : LdapT) (tr log : List Event)
    (c : Ptr) (a : Answer) (h : runCalls calls s.start = .ok (dc, log))
    (done : log = tr ++ [.answered c (some a)])
    (searches : ∀ n (hn : n < log.length), searchesOnly c (log.take n) log[n])
    (separate : ∀ n (hn : n < log.length), notMixed c (log.take n) log[n]) :
    BER.bytes (dc.clients c).rber = (entriesOf c a.tid tr).flatMap Answer.bytes := by
  have hrun : run Pool.step s.start.pool log = .ok dc.pool := runCalls_refines h
  have along : Along Pool.step (fun tr _ e => searchesOnly c tr e ∧ notMixed c tr e)
      s.start.pool log := (along_of_take searches).and (along_of_take separate)
  subst done
  obtain ⟨k, hk, hlast⟩ := run_append hrun
  have hstart : SearchRun c [] s.start.pool := by
    refine ⟨fun _ => ?_, fun _ => rfl⟩
    have hclients := s.start_unconnected.clients
    show BER.bytes (s.start.clients c).rber = []
    rw [hclients]
    rfl
  have hbefore : SearchRun c tr k := run_invariant (I := fun tr k => SearchRun c tr k) hstart
    (fun tr k e k' hinv hok hstep => hinv.step hok.1 hok.2 hstep) along.left hk
  obtain ⟨hsearches, hseparate⟩ := along tr _ [] k rfl hk
  obtain ⟨k', hstep, hend⟩ := run_cons hlast
  cases hend
  have hboth : unread c tr = false ∧ a.op = 0x65 := by simpa [searchesOnly] using hsearches
  have hall : ∀ b ∈ pending c tr, b.tid = a.tid := by simpa [notMixed] using hseparate
  have hfilter : entriesOf c a.tid tr = pending c tr := by
    rw [entriesOf, List.filter_eq_self]
    intro b hb
    simp [hall b hb]
  have hreceived := received_step (c := c) hstep
  have hkept : Response.kept (some a) (k.conns c).ktid = [] := done_kept (congrArg some hboth.2)
  rw [receivedStep, if_pos rfl, hkept, List.append_nil, hbefore.received hboth.1] at hreceived
  rw [hfilter]
  exact hreceived

/-- Two requests at a time. -/
def twoAtATime : Setup := { oneAtATime with concurrent := 2, options := [] }

/-- A connection is opened, and sends two searches. -/
def sendTwo : List Call :=
  [.open 1 .connected (some 1) true,
    .write 1 .none (.wrote 14) 1,
    .read 1 .none (fun _ => 0) (some fun _ => 0)
      (.data [0x30, 12, 2, 1, 1, 0x61, 7, 0x0a, 1, 0, 4, 0, 4, 0]) 1,
    .sendMessage 1 {} ⟨fun _ => true, none⟩ none (some ⟨512, [0x30, 5, 2, 1, 1, 0x63, 0]⟩),
    .sendMessage 1 {} ⟨fun _ => true, none⟩ none (some ⟨512, [0x30, 5, 2, 1, 2, 0x63, 0]⟩)]

/-- These bytes are received, and decoded. -/
def receive (bytes : List UInt8) : List Call :=
  [.read 2 .none (fun _ => 0) (some fun _ => 0) (.data bytes) 1,
    .decode 2 {} (some fun _ => 0) true 1]

/-- An entry for the first of them. -/
def firstEntry : List UInt8 := [0x30, 7, 2, 1, 1, 0x64, 2, 4, 0]

def firstDone : List UInt8 := [0x30, 12, 2, 1, 1, 0x65, 7, 0x0a, 1, 0, 4, 0, 4, 0]

def secondEntry : List UInt8 := [0x30, 8, 2, 1, 2, 0x64, 3, 4, 1, 0x61]

def secondDone : List UInt8 := [0x30, 12, 2, 1, 2, 0x65, 7, 0x0a, 1, 0, 4, 0, 4, 0]

theorem entries_of_one_search_second :
    ∃ dc tr a, runCalls (sendTwo ++ receive (firstEntry ++ firstDone) ++ [.consume 1] ++
        receive (secondEntry ++ secondDone)) twoAtATime.start =
          .ok (dc, tr ++ [.answered 1 (some a)]) ∧
      BER.bytes (dc.clients 1).rber = (entriesOf 1 a.tid tr).flatMap Answer.bytes := by
  obtain ⟨dc, log, hrun, hlog⟩ := runCalls_of_check (s := twoAtATime)
    (c := sendTwo ++ receive (firstEntry ++ firstDone) ++ [.consume 1] ++
      receive (secondEntry ++ secondDone))
    (P := fun _ log => log = log.dropLast ++
        [.answered 1 (some ⟨0x65, 2, [0x65, 7, 0x0a, 1, 0, 4, 0, 4, 0]⟩)] ∧
      (∀ n (hn : n < log.length), searchesOnly 1 (log.take n) log[n]) ∧
      ∀ n (hn : n < log.length), notMixed 1 (log.take n) log[n])
    (by decide +kernel)
  obtain ⟨hdone, searches, separate⟩ := of_decide_eq_true hlog
  refine ⟨dc, log.dropLast, _, hdone ▸ hrun, ?_⟩
  exact entries_of_one_search twoAtATime _ dc log.dropLast log 1 _ hrun hdone searches separate

/-- The second search has an entry when the first one is done: rber holds both. -/
theorem entries_mixed :
    ∃ dc log tr a, runCalls (sendTwo ++ receive (firstEntry ++ secondEntry ++ firstDone))
        twoAtATime.start = .ok (dc, log) ∧
      log = tr ++ [.answered 1 (some a)] ∧
      (∀ n (hn : n < log.length), searchesOnly 1 (log.take n) log[n]) ∧
      BER.bytes (dc.clients 1).rber ≠ (entriesOf 1 a.tid tr).flatMap Answer.bytes := by
  obtain ⟨dc, log, hrun, hlog⟩ := runCalls_of_check (s := twoAtATime)
    (c := sendTwo ++ receive (firstEntry ++ secondEntry ++ firstDone))
    (P := fun dc log => log = log.dropLast ++
        [.answered 1 (some ⟨0x65, 1, [0x65, 7, 0x0a, 1, 0, 4, 0, 4, 0]⟩)] ∧
      (∀ n (hn : n < log.length), searchesOnly 1 (log.take n) log[n]) ∧
      BER.bytes (dc.clients 1).rber ≠ (entriesOf 1 1 log.dropLast).flatMap Answer.bytes)
    (by decide +kernel)
  obtain ⟨hdone, searches, hmixed⟩ := of_decide_eq_true hlog
  exact ⟨dc, log, log.dropLast, _, hrun, hdone, searches, hmixed⟩

end CassandraApi.Ldap
