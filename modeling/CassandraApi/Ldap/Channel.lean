/-
# `Ldap.Channel` — from one side of a connection to the other

The client's write buffers and the server's loop, or the server's and the client's,
with a stream of bytes between them.  What one side has sent is a prefix of the
messages given to it (`Ldap.SendPath`, `Ldap.Outbound`); the other side reads as
much of it as has arrived, cut in any way, and hands the decoder whole messages
(`Ldap.Framing`).  Together: the decoder is called on the first messages given to
the other side, on those that have arrived completely, once each and in order
(`requests_arrive`, `responses_arrive`).

Messages as the generators write them have at most three octets of length, so no
read can end where the loop goes wrong.
-/
import CassandraApi.Ldap.Framing
import CassandraApi.Ldap.SendPath
import CassandraApi.Ldap.Outbound

namespace CassandraApi.Ldap

open C Ber Lib

/-! ## Messages as they are generated -/

/-- The tag, the length in as few octets as possible, and an id at least. -/
def IsWritten (m : List UInt8) : Prop :=
  ∃ content, 3 ≤ content.length ∧ content.length < 2 ^ 24 ∧ m = tlv 0x30 content

section Written

variable {m : List UInt8}

theorem IsWritten.isMessage (h : IsWritten m) : IsMessage m := by
  obtain ⟨content, -, hlt, rfl⟩ := h
  exact .mk _ content (lengthOctets_defLen hlt)

theorem IsWritten.length (h : IsWritten m) : 5 ≤ m.length ∧ m.length + 1 < 2 ^ 31 := by
  obtain ⟨content, hid, hlt, rfl⟩ := h
  have hpos := (lengthOctets_defLen hlt).length_pos
  have hle := lengthOctets_length_le content.length
  rw [tlv_length]
  omega

theorem IsWritten.not_fourOctets (h : IsWritten m) : ¬ FourOctets m := by
  obtain ⟨content, -, -, rfl⟩ := h
  unfold FourOctets tlv lengthOctets
  split
  · rename_i hshort
    intro hfour
    have hoctet : UInt8.ofNat content.length = 0x84 := Option.some.inj hfour
    have hval := congrArg UInt8.toNat hoctet
    rw [UInt8.toNat_ofNat'] at hval
    simp only [UInt8.toNat_ofNat] at hval
    omega
  · split
    · exact fun hfour => absurd (Option.some.inj hfour) (by decide)
    · split
      · exact fun hfour => absurd (Option.some.inj hfour) (by decide)
      · exact fun hfour => absurd (Option.some.inj hfour) (by decide)

end Written

/-! ## What has arrived -/

/-- Of the messages `msgs`, sent one after another, the first `n` have arrived completely with the
bytes `got`, and no others. -/
structure Arrived (msgs : List (List UInt8)) (got : List UInt8) (n : Nat) : Prop where
  inside : n ≤ msgs.length
  whole : (msgs.take n).flatten <+: got
  next : n < msgs.length → got.length < ((msgs.take (n + 1)).flatten).length

/-- All of them, when all bytes have. -/
theorem Arrived.all {msgs : List (List UInt8)} {got : List UInt8} {n : Nat}
    (h : Arrived msgs got n) (hall : got = msgs.flatten) : n = msgs.length := by
  by_contra hne
  have hinside := h.inside
  have hlt := h.next (by omega)
  have hle : ((msgs.take (n + 1)).flatten).length ≤ msgs.flatten.length := by
    conv_rhs => rw [← List.take_append_drop (n + 1) msgs, List.flatten_append, List.length_append]
    omega
  rw [hall] at hlt
  omega

section Feed

variable {σ : Type} {call : σ → ReadBuffer → Outcome × σ} {emptied : σ → σ}
  {noMemory : Int → Option String} {closed : RetCode} {garbage : Nat → UInt8}
  {msgs chunks : List (List UInt8)} {s : σ} {rb : ReadBuffer}
  {r : Except Fault ((σ × List (List UInt8)) × ReadBuffer)}

/-- The decoder is called on what has arrived completely. -/
theorem feed_arrived (written : ∀ m ∈ msgs, IsWritten m) (start : rb.Start)
    (hfront : chunks.flatten <+: msgs.flatten) (hne : ∀ c ∈ chunks, c ≠ [])
    (hfeed : (Decoder.ofTotal call emptied noMemory).logged.feed closed (some garbage)
      chunks (s, []) rb = some r) :
    ∃ n s' rb', r = .ok ((s', msgs.take n), rb') ∧ Arrived msgs chunks.flatten n := by
  have hD : ∀ s rb, ∃ r, (Decoder.ofTotal call emptied noMemory).call s rb = .ok r :=
    fun s rb => ⟨_, rfl⟩
  have ok : Deliverable msgs := fun m hm => ⟨(written m hm).isMessage, (written m hm).length.2⟩
  have hcut : ∀ t, ¬ CutInHeader msgs t := by
    rintro t ⟨before, m, after, rfl, hfour, -⟩
    exact (written m (by simp)).not_fourOctets hfour
  obtain ⟨done, rest, tail, s', rb', rfl, htail, rfl, hshort⟩ :=
    Decoder.feed_prefix hD start.reading ok hfront hne (fun _ _ _ _ => hcut _) hfeed
  refine ⟨done.length, s', rb', by simp, ?_, ?_, fun hmore => ?_⟩
  · rw [List.length_append]
    omega
  · rw [List.take_left]
    exact ⟨tail, htail.symm⟩
  · obtain ⟨m, ms, rfl⟩ : ∃ m ms, rest = m :: ms := by
      cases rest with
      | nil => simp at hmore
      | cons m ms => exact ⟨m, ms, rfl⟩
    have htake : (done ++ m :: ms).take (done.length + 1) = done ++ [m] := by
      rw [List.take_append, List.take_of_length_le (by omega)]
      simp
    have hlen := congrArg List.length htail
    have hfive := (written m (by simp)).length.1
    have hlt : tail.length < m.length := by
      rcases hshort with hfew | ⟨m', ms', heq, hlt⟩
      · omega
      · cases heq
        exact hlt
    rw [htake, List.flatten_append, List.length_append, List.flatten_singleton]
    rw [List.nil_append, List.length_append] at hlen
    omega

end Feed

/-! ## Requests -/

/-- An event that moves no connection without its state drops nothing. -/
theorem keeps_of_clean {k : Pool} {e : Event} (clean : e.clean) : ¬ Drops k e := by
  cases e with
  | keptAlive c resp waiting =>
    cases waiting with
    | true => cases clean
    | false => exact id
  | _ => exact id

theorem along_keeps {k : Pool} {log : List Event} (clean : ∀ e ∈ log, e.clean) :
    Along Pool.step (fun _ k e => ¬ Drops k e) k log := by
  rintro before e after _ rfl -
  exact keeps_of_clean (clean e (by simp))

/-- After any sequence of calls of the client that drops nothing, and however much of what was
sent on a connection has arrived in whatever pieces, the decoder of the server has been called on
the requests copied to the connection that have arrived completely, whole, once each and in order:
on all of them when nothing waits to be sent and everything has arrived.  `call` is any
behaviour of ldap_decode_request that returns. -/
theorem requests_arrive {σ : Type} (call : σ → ReadBuffer → Outcome × σ) (emptied : σ → σ)
    (noMemory : Int → Option String) (closed : RetCode) (garbage : Nat → UInt8) (s : Setup)
    (calls : List Call) (dc : LdapT) (log : List Event) (c : Ptr) (chunks : List (List UInt8))
    (sess : σ) (rb : ReadBuffer) (r : Except Fault ((σ × List (List UInt8)) × ReadBuffer))
    (h : runCalls calls s.start = .ok (dc, log))
    (keep : Along Pool.step (fun _ k e => ¬ Drops k e) s.start.pool log)
    (written : ∀ ber ∈ copies c log, IsWritten ber.berval) (start : rb.Start)
    (hfront : chunks.flatten <+: sentBytes c log) (hne : ∀ chunk ∈ chunks, chunk ≠ [])
    (hfeed : (Decoder.ofTotal call emptied noMemory).logged.feed closed (some garbage)
      chunks (sess, []) rb = some r) :
    ∃ n sess' rb', r = .ok ((sess', ((copies c log).map BER.berval).take n), rb') ∧
      Arrived ((copies c log).map BER.berval) chunks.flatten n ∧
      ((dc.clients c).conn.pending = [] → chunks.flatten = sentBytes c log →
        n = (copies c log).length) := by
  have intact : sentBytes c log ++ (dc.clients c).conn.pending =
      ((copies c log).map BER.berval).flatten :=
    (intact_of_run (c := c) keep (runCalls_refines h)).trans List.flatMap_def
  have written' : ∀ m ∈ (copies c log).map BER.berval, IsWritten m := by
    intro m hm
    obtain ⟨ber, hber, rfl⟩ := List.mem_map.1 hm
    exact written ber hber
  obtain ⟨n, sess', rb', rfl, arrived⟩ := feed_arrived written' start
    (hfront.trans ⟨_, intact⟩) hne hfeed
  refine ⟨n, sess', rb', rfl, arrived, fun hnone hall => ?_⟩
  rw [hnone, List.append_nil] at intact
  exact (arrived.all (hall.trans intact)).trans (List.length_map _)

/-- A request that is sent in one piece and arrives in two. -/
def sendOne : List Call :=
  [.open 1 .connected (some 1) true,
    .write 1 .none (.wrote 14) 1,
    .read 1 .none (fun _ => 0) (some fun _ => 0)
      (.data [0x30, 12, 2, 1, 1, 0x61, 7, 0x0a, 1, 0, 4, 0, 4, 0]) 1,
    .sendMessage 1 {} ⟨fun _ => true, none⟩ none (some ⟨512, [0x30, 5, 2, 1, 1, 0x42, 0]⟩),
    .write 1 .none (.wrote 7) 1]

theorem requests_arrive_one :
    ∃ dc log, runCalls sendOne oneAtATime.start = .ok (dc, log) ∧
      ∃ sess' rb', recorder.logged.feed .errClosed (some fun _ => 0xff)
        [[0x30, 5, 2], [1, 1, 0x42, 0]] ((), []) {} =
          some (.ok ((sess', [[0x30, 5, 2, 1, 1, 0x42, 0]]), rb')) := by
  obtain ⟨dc, log, hrun, hend⟩ := runCalls_of_check (s := oneAtATime) (c := sendOne)
    (P := fun dc log => log.all Event.clean ∧
      (copies 1 log).map BER.berval = [[0x30, 5, 2, 1, 1, 0x42, 0]] ∧
      sentBytes 1 log = [0x30, 5, 2, 1, 1, 0x42, 0] ∧ (dc.clients 1).conn.pending = [])
    (by decide +kernel)
  obtain ⟨hclean, hcopies, hsent, hpending⟩ := of_decide_eq_true hend
  obtain ⟨r, hr⟩ : ∃ r, recorder.logged.feed .errClosed (some fun _ => 0xff)
      [[0x30, 5, 2], [1, 1, 0x42, 0]] ((), []) {} = some r := ⟨_, rfl⟩
  obtain ⟨n, sess', rb', rfl, -, hall⟩ := requests_arrive _ _ _ _ _ _ _ dc log 1 _ _ _ r hrun
    (along_keeps (List.all_eq_true.1 hclean))
    (fun ber hber => ⟨[2, 1, 1, 0x42, 0], by decide, by decide, by
      have hmem := List.mem_map_of_mem (f := BER.berval) hber
      rw [hcopies] at hmem
      exact List.mem_singleton.1 hmem⟩)
    (.fresh rfl ⟨rfl, rfl⟩) (by rw [hsent]; exact List.prefix_refl _) (by decide) hr
  have hn : n = 1 := by
    rw [hall hpending (by rw [hsent]; rfl)]
    simpa using congrArg List.length hcopies
  subst hn
  rw [hcopies] at hr
  exact ⟨dc, log, hrun, sess', rb', hr⟩

/-! ## Responses -/

section Responses

variable {ds : DsT} {st st' : DsSession × List SessEvent}

theorem ResponseOctets.isWritten {tag : UInt8} {mid result : Int} {ber : BER}
    (h : ResponseOctets tag mid result ber) : IsWritten ber.berval := by
  obtain ⟨body, hlt, hval⟩ := h
  refine ⟨_, ?_, hlt, hval⟩
  rw [List.length_append, tlv_length]
  simp only [List.length_cons]
  omega

/-- The server writes its own responses as the generators do. -/
theorem refusals_written {calls : List SessCall} {start : DsSession}
    (hrun : run (SessCall.step ds) (start, []) calls = .ok st) :
    ∀ bs ∈ st.2.filterMap SessEvent.refusal, IsWritten bs := by
  refine run_invariant (I := fun _ st => ∀ bs ∈ st.2.filterMap SessEvent.refusal, IsWritten bs)
    (fun bs hbs => by cases hbs) ?_
    (show Along _ (fun _ _ _ => True) _ calls from fun _ _ _ _ _ _ => trivial) hrun
  rintro _ ⟨sess, log⟩ call st' hold - hstep bs hbs
  obtain ⟨⟨out, sess', events⟩, hcall, heq⟩ := bind_eq_ok.1 hstep
  cases heq
  rw [List.filterMap_append, List.mem_append] at hbs
  refine hbs.elim (hold bs) fun hnew => ?_
  obtain none | ⟨_, _, _, _, _, msg, ber, _, -, -, -, -, hgen, -, rfl⟩ := refusal_cases hcall
  · rw [none] at hnew
    cases hnew
  · obtain rfl : bs = ber.berval := List.mem_singleton.1 hnew
    obtain ⟨_, -, hoctets⟩ := genericResp_octets hgen
    exact hoctets.isWritten

theorem wholeMessages_of_run {sock : Int} {user : DsUser} {calls : List SessCall}
    (clean : Along (SessCall.step ds) (fun _ => RefusesCleanly ds) (boundSession sock user, [])
      calls)
    (hrun : run (SessCall.step ds) (boundSession sock user, []) calls = .ok st) :
    WholeMessages st := by
  have start : Streaming (boundSession sock user) [] [] [] [] :=
    ⟨rfl, Nat.le_refl 0, rfl, rfl, rfl, rfl, rfl⟩
  obtain ⟨placed, waiting, cut, inv⟩ :=
    run_invariant (I := fun _ st => ∃ placed waiting cut, Streaming st.1 st.2 placed waiting cut)
      ⟨[], [], [], start⟩ (fun _ _ _ _ ⟨_, _, _, inv⟩ ok h => inv.step ok h) clean hrun
  exact inv.wholeMessages

/-- After any sequence of calls on a bound session whose refusals meet a message boundary and are
taken whole, and however much of what was sent has arrived in whatever pieces, the decoder of the
client has been called on the responses that have arrived completely, whole, once each and in
order: those given to LDAP_sess_send_message and the refusals, each kind in its order.  `call` is
any behaviour of ldap_decode_response that returns. -/
theorem responses_arrive {σ : Type} (call : σ → ReadBuffer → Outcome × σ) (emptied : σ → σ)
    (noMemory : Int → Option String) (closed : RetCode) (garbage : Nat → UInt8) (ds : DsT)
    (sock : Int) (user : DsUser) (calls : List SessCall) (st : DsSession × List SessEvent)
    (chunks : List (List UInt8)) (lc : σ) (rb : ReadBuffer)
    (r : Except Fault ((σ × List (List UInt8)) × ReadBuffer))
    (clean : Along (SessCall.step ds) (fun _ => RefusesCleanly ds) (boundSession sock user, [])
      calls)
    (hrun : run (SessCall.step ds) (boundSession sock user, []) calls = .ok st)
    (written : ∀ bs ∈ st.2.filterMap SessEvent.accepted, IsWritten bs) (start : rb.Start)
    (hfront : chunks.flatten <+: st.2.flatMap SessEvent.wire)
    (hne : ∀ chunk ∈ chunks, chunk ≠ [])
    (hfeed : (Decoder.ofTotal call emptied noMemory).logged.feed closed (some garbage)
      chunks (lc, []) rb = some r) :
    ∃ items : List Item, items.filterMap Item.isMessage = st.2.filterMap SessEvent.accepted ∧
      items.filterMap Item.isRefusal = st.2.filterMap SessEvent.refusal ∧
      ∃ n lc' rb', r = .ok ((lc', (items.map Item.bytes).take n), rb') ∧
        Arrived (items.map Item.bytes) chunks.flatten n ∧
        (st.1.pending = [] → chunks.flatten = st.2.flatMap SessEvent.wire → n = items.length) := by
  obtain ⟨items, hstream, hmessages, hrefusals⟩ := wholeMessages_of_run clean hrun
  have hall : st.2.flatMap SessEvent.wire ++ st.1.pending = (items.map Item.bytes).flatten :=
    hstream.trans List.flatMap_def
  have written' : ∀ m ∈ items.map Item.bytes, IsWritten m := by
    intro m hm
    obtain ⟨item, hitem, rfl⟩ := List.mem_map.1 hm
    cases item with
    | message bs => exact written bs (hmessages ▸ List.mem_filterMap.2 ⟨_, hitem, rfl⟩)
    | refusal bs =>
      exact refusals_written hrun bs (hrefusals ▸ List.mem_filterMap.2 ⟨_, hitem, rfl⟩)
  obtain ⟨n, lc', rb', rfl, arrived⟩ := feed_arrived written' start (hfront.trans ⟨_, hall⟩)
    hne hfeed
  refine ⟨items, hmessages, hrefusals, n, lc', rb', rfl, arrived, fun hnone hsent => ?_⟩
  rw [hnone, List.append_nil] at hall
  exact (arrived.all (hsent.trans hall)).trans (List.length_map _)

theorem bytes_of_messages {items : List Item} (h : items.filterMap Item.isRefusal = []) :
    items.map Item.bytes = items.filterMap Item.isMessage := by
  induction items with
  | nil => rfl
  | cons item items ih =>
    cases item with
    | message bs => exact congrArg (bs :: ·) (ih h)
    | refusal bs => cases h

/-- A response that is sent in one piece and arrives in two. -/
def answerOne : List SessCall :=
  [.sendMessage true true none deleteDone, .write (.wrote 14) none]

theorem responses_arrive_one :
    ∃ st, run (SessCall.step (server 1 [])) (boundSession 5 {}, []) answerOne = .ok st ∧
      ∃ lc' rb', recorder.logged.feed .errClosed (some fun _ => 0xff)
        [[0x30, 12, 2, 1, 1, 0x6b], [7, 0x0a, 1, 0, 4, 0, 4, 0]] ((), []) {} =
          some (.ok ((lc', [deleteDone.berval]), rb')) := by
  have hend : (fun st : DsSession × List SessEvent => (st.1.pending, streamOf st)) <$>
        run (SessCall.step (server 1 [])) (boundSession 5 {}, []) answerOne =
      .ok ([], deleteDone.berval, [deleteDone.berval], []) := by decide +kernel
  obtain ⟨st, hrun, hst⟩ := map_eq_ok hend
  simp only [streamOf, Prod.mk.injEq] at hst
  obtain ⟨hpending, hwire, haccepted, hrefusals⟩ := hst
  rw [hpending, List.append_nil] at hwire
  obtain ⟨r, hr⟩ : ∃ r, recorder.logged.feed .errClosed (some fun _ => 0xff)
      [[0x30, 12, 2, 1, 1, 0x6b], [7, 0x0a, 1, 0, 4, 0, 4, 0]] ((), []) {} = some r := ⟨_, rfl⟩
  have clean : Along (SessCall.step (server 1 [])) (fun _ => RefusesCleanly (server 1 []))
      (boundSession 5 {}, []) answerOne :=
    along_cons trivial fun _ _ => along_cons trivial fun _ _ => along_nil _
  obtain ⟨items, hmessages, hnone, n, lc', rb', rfl, -, hall⟩ := responses_arrive _ _ _ _ _ _ 5 {} _
    st _ _ _ r clean hrun
    (fun bs hbs => ⟨[2, 1, 1, 0x6b, 7, 0x0a, 1, 0, 4, 0, 4, 0], by decide, by decide, by
      rw [haccepted] at hbs
      exact List.mem_singleton.1 hbs⟩)
    (.fresh rfl ⟨rfl, rfl⟩) (by rw [hwire]; exact List.prefix_refl _) (by decide) hr
  have hbytes : items.map Item.bytes = [deleteDone.berval] := by
    rw [bytes_of_messages (hnone.trans hrefusals), hmessages, haccepted]
  have hn : n = 1 := by
    rw [hall hpending (by rw [hwire]; rfl)]
    simpa using congrArg List.length hbytes
  subst hn
  rw [hbytes] at hr
  exact ⟨st, hrun, lc', rb', hr⟩

end Responses

end CassandraApi.Ldap
