/-
# `Http.Cut` — one request, cut into reads

The result of decoding a request is compared across two ways of cutting it into
reads.  By the lemmas of `Http.Gather` a run goes through three phases (leading
bytes, header, body), and its result is a function of the header's text and of the
number of bytes behind it (`expected`, `feed_eq`).

This needs a clean buffer at every call before the first result (`CleanRun`).  A
request without leading CR or LF bytes has only clean runs (`cleanRun_of_no_lead`),
and so has every request in one read (`cleanRun_single`); `cut_changes_result` is a
run that meets another buffer.
-/
import CassandraApi.Http.Gather

namespace CassandraApi.Http

open C

/-! ## A run -/

/-- Where a run stands: the first result other than "wait", if there was one, the state, and
the number of bytes that have been read. -/
structure Progress where
  result : Option Outcome
  hs : HTTP
  sess : HSSESSION
  received : Nat

/-- The read and the call of the decoder for one chunk. -/
def readAndDecode (alloc : Alloc) (now : Int) (chunk : List UInt8) (hs : HTTP) (sess : HSSESSION) :
    Except Fault (Outcome × HTTP × HSSESSION) := do
  let (_, sess) ← httpSessRead alloc (.data chunk) now sess
  httpSessDecode hs sess

/-- The request arrives as `chunks`, one a read, until there is a result.  `none`: some chunk is
larger than what the read asked `recv` for. -/
def feed (alloc : Alloc) (now : Int) :
    List (List UInt8) → Nat → HTTP → HSSESSION → Option (Except Fault Progress)
  | [], t, hs, sess => some (.ok ⟨none, hs, sess, t⟩)
  | chunk :: chunks, t, hs, sess =>
      match growForRequest alloc sess with
      | .error f => some (.error f)
      | .ok none => none
      | .ok (some grown) =>
          if (chunk.length : Int) ≤ grown.room then
            match readAndDecode alloc now chunk hs sess with
            | .error f => some (.error f)
            | .ok (out, hs, sess) =>
                if out.code = .waitMoreData then
                  feed alloc now chunks (t + chunk.length) hs sess
                else some (.ok ⟨some out, hs, sess, t + chunk.length⟩)
          else none

/-- Every call of the decoder, up to the first result, finds a clean buffer. -/
def CleanRun (alloc : Alloc) (now : Int) : List (List UInt8) → HTTP → HSSESSION → Prop
  | [], _, _ => True
  | chunk :: chunks, hs, sess =>
      ∀ grown, growForRequest alloc sess = .ok (some grown) → (chunk.length : Int) ≤ grown.room →
      ∀ out sess₁, httpSessRead alloc (.data chunk) now sess = .ok (out, sess₁) →
        Clean sess₁ ∧ ∀ out₂ hs₂ sess₂, httpSessDecode hs sess₁ = .ok (out₂, hs₂, sess₂) →
          out₂.code = .waitMoreData → CleanRun alloc now chunks hs₂ sess₂

/-- The result when `n` bytes have arrived from the header's first on. -/
def expected (hs : HTTP) (req : Request) (header : List UInt8) (n : Nat) :
    Option Outcome × HTTP × Request :=
  match afterHeader hs req header with
  | (some out, hs, req) => (some out, hs, req)
  | (none, hs, req) =>
      if (n : Int) < int32 (req.headerLength + req.bodyLength) then (none, hs, req)
      else (some ⟨.dataAvailable, none⟩, { hs with recvMsgCount := hs.recvMsgCount + 1 }, req)

/-! ## The run -/

/-- The result does not come before the bytes it says the request has: its header, and its body
when the call reports data. -/
def Timely (lead : List UInt8) (p : Progress) : Prop :=
  ∀ out, p.result = some out →
    (lead.length + p.sess.headerLength : Int) ≤ p.received ∧
    (out.code = .dataAvailable →
      (lead.length + p.sess.headerLength + p.sess.bodyLength : Int) ≤ p.received)

/-- Header and body together are shorter than the largest `int`, so far as the header says. -/
def NoOverflow (hs : HTTP) (req : Request) (header : List UInt8) : Prop :=
  ∀ hs' req', afterHeader hs req header = (none, hs', req') →
    req'.headerLength + req'.bodyLength < 2 ^ 31

section Run

variable {lead header body : List UInt8} {alloc : Alloc} {now : Int}

/-- What a step of the header decoding does not do: ask for more data, change the length of the
header, or report data with a body it has not measured. -/
structure HeaderResult (before : Request) (out : Option Outcome) (after : Request) : Prop where
  length : after.headerLength = before.headerLength
  code : ∀ o, out = some o → o.code ≠ .waitMoreData
  data : ∀ o, out = some o → o.code = .dataAvailable → after.bodyLength = 0

theorem decodeUri_result {hs hs' : HTTP} {req req' : Request} {uri : List UInt8}
    {out : Option Outcome} (h : decodeUri hs req uri = (out, hs', req')) :
    HeaderResult req out req' := by
  unfold decodeUri at h
  split at h
  · cases huri : req.requestUri with
    | none =>
      rw [huri] at h
      cases h
      exact ⟨rfl, by simp, by simp⟩
    | some =>
      simp only [huri, Option.map_some] at h
      split at h
      all_goals
        cases h
        exact ⟨rfl, by simp, by simp⟩
  · cases h
    exact ⟨rfl, by simp, by simp⟩

theorem decodeBodyLength_result (req : Request) (head : List UInt8) :
    HeaderResult req (decodeBodyLength req head).1 (decodeBodyLength req head).2 := by
  unfold decodeBodyLength
  split <;> exact ⟨rfl, by simp, by simp⟩

theorem decodeHeader_result (hs : HTTP) (req : Request) (head : List UInt8) :
    HeaderResult req (decodeHeader hs req head).1 (decodeHeader hs req head).2.2.1 := by
  unfold decodeHeader
  simp only
  split
  · exact ⟨rfl, by simp, by simp⟩
  · split
    · exact ⟨rfl, by simp, by simp⟩
    · split
      · rename_i huri
        have hu := decodeUri_result huri
        exact ⟨hu.length, hu.code, hu.data⟩
      · rename_i hs₁ req₁ huri
        have hu := decodeUri_result huri
        have hb := decodeBodyLength_result req₁ head
        exact ⟨hb.length.trans hu.length, hb.code, hb.data⟩

/-- A body that is waited for has a length that fits an `int`. -/
theorem decodeHeader_body {hs : HTTP} {req : Request} {head : List UInt8}
    (h : (decodeHeader hs req head).1 = none) :
    -2 ^ 31 ≤ (decodeHeader hs req head).2.2.1.bodyLength := by
  unfold decodeHeader at h ⊢
  simp only at h ⊢
  split at h
  · cases h
  · split at h
    · cases h
    · split at h
      · cases h
      · rename_i hs₁ req₁ _
        simp only [decodeBodyLength] at h ⊢
        split at h
        · cases h
        · cases h
        · exact (int32_range _).1

theorem afterHeader_result {hs hs' : HTTP} {req req' : Request} {out : Option Outcome}
    (h : afterHeader hs req header = (out, hs', req')) :
    HeaderResult { req with headerLength := header.length } out req' := by
  rw [afterHeader] at h
  split at h
  · cases h
    exact ⟨rfl, by simp, by simp⟩
  · have hdec := decodeHeader_result hs { req with headerLength := header.length } (headText header)
    cases h
    exact hdec

theorem afterHeader_body {hs hs' : HTTP} {req req' : Request}
    {out : Option Outcome} (h : afterHeader hs req header = (out, hs', req')) :
    out = none → -2 ^ 31 ≤ req'.bodyLength := by
  rintro rfl
  rw [afterHeader] at h
  split at h
  · cases h
  · cases hd : decodeHeader hs { req with headerLength := header.length } (headText header) with
    | mk o rest =>
      rw [hd] at h
      cases h
      have := decodeHeader_body (congrArg Prod.fst hd)
      rwa [hd] at this

/-- Waiting for the body: only the number of bytes counts. -/
theorem feed_body :
    ∀ {chunks : List (List UInt8)} {t n : Nat} {hs : HTTP} {sess : HSSESSION}
      {r : Except Fault Progress},
    Filled sess.rBuffer n → 0 ≤ sess.headerLength →
    (n : Int) < int32 (sess.headerLength + sess.bodyLength) → (∀ c ∈ chunks, c ≠ []) →
    feed alloc now chunks t hs sess = some r →
    ∃ p, r = .ok p ∧ p.sess.toRequest = sess.toRequest ∧
      (p.result, p.hs) = (if (n + chunks.flatten.length : Nat) <
          int32 (sess.headerLength + sess.bodyLength) then (none, hs)
        else (some ⟨.dataAvailable, none⟩, { hs with recvMsgCount := hs.recvMsgCount + 1 })) ∧
      (p.result ≠ none → int32 (sess.headerLength + sess.bodyLength) + t ≤ n + p.received)
  | [], t, n, hs, sess, r, _, _, hlt, _, h => by
    cases h
    exact ⟨_, rfl, rfl, by rw [if_pos (by simpa using hlt)], fun h => absurd rfl h⟩
  | chunk :: chunks, t, n, hs, sess, r, hf, hpos, hlt, hne, h => by
    rcases grow_filled alloc hf with hnone | ⟨grown, hgrow, hreq, hfg⟩
    · rw [feed, hnone] at h
      cases h
    · rw [feed, hgrow] at h
      simp only at h
      split at h
      · rename_i hroom
        obtain ⟨sess₁, hread, hreq₁, hf₁⟩ := read_late now hfg hgrow
          (hne _ (List.mem_cons_self ..)) hroom
        have hsame : sess₁.toRequest = sess.toRequest := hreq₁.trans hreq
        have hdec : readAndDecode alloc now chunk hs sess = .ok (waitBody hs sess₁) := by
          have hcpos := List.length_pos_iff.2 (hne _ (List.mem_cons_self ..))
          rw [readAndDecode, hread, ok_bind]
          show httpSessDecode hs sess₁ = _
          rw [httpSessDecode, if_neg (by rw [hf₁.len]; omega), if_neg (by rw [hsame]; omega)]
        rw [hdec] at h
        rw [waitBody, hf₁.len, hsame] at h
        by_cases hmore : ((n + chunk.length : Nat) : Int) <
            int32 (sess.headerLength + sess.bodyLength)
        · rw [if_pos hmore] at h
          simp only [if_true] at h
          obtain ⟨p, hp, hpreq, hres, htime⟩ := feed_body hf₁ (by rw [hsame]; exact hpos)
            (by rw [hsame]; exact hmore) (fun c hc => hne c (List.mem_cons_of_mem _ hc)) h
          rw [hsame] at hres htime hpreq
          refine ⟨p, hp, hpreq, ?_, fun hp => ?_⟩
          · rw [hres, List.flatten_cons, List.length_append, ← Nat.add_assoc]
          · have := htime hp
            push_cast at this
            omega
        · rw [if_neg hmore] at h
          simp only [reduceCtorEq, if_false] at h
          cases h
          refine ⟨_, rfl, hsame, ?_, fun _ => ?_⟩
          · rw [if_neg]
            simp only [List.flatten_cons, List.length_append]
            push_cast at hmore ⊢
            omega
          · push_cast at hmore ⊢
            omega
      · cases h

/-- The call that has the whole header in its buffer, and the run after it. -/
theorem feed_whole {chunk g : List UInt8} {chunks : List (List UInt8)} {t : Nat} {hs : HTTP}
    {sess sess₁ : HSSESSION} {r : Except Fault Progress} {q : Request} {xs : List UInt8}
    (req : IsRequest lead header body) (hread : httpSessRead alloc (.data chunk) now sess =
      .ok (⟨.ok, none⟩, sess₁))
    (hq : sess₁.toRequest = q) (hneg : q.headerLength < 0)
    (hh : Holding sess₁.rBuffer (xs ++ (header ++ g))) (hx : ∀ c ∈ xs, IsCrlf c)
    (hbody : body = g ++ chunks.flatten) (hne : ∀ c ∈ chunks, c ≠ [])
    (ht : t + chunk.length = lead.length + header.length + g.length)
    (h : (match readAndDecode alloc now chunk hs sess with
      | .error f => some (.error f)
      | .ok (out, hs, sess) =>
          if out.code = .waitMoreData then feed alloc now chunks (t + chunk.length) hs sess
          else some (.ok ⟨some out, hs, sess, t + chunk.length⟩)) = some r) :
    ∃ p, r = .ok p ∧ (p.result, p.hs, p.sess.toRequest) =
        expected hs q header (header.length + body.length) ∧
      (NoOverflow hs q header → Timely lead p) := by
  rcases hafter : afterHeader hs q header with ⟨out, hs', req'⟩
  have hmin := afterHeader_body hafter
  obtain ⟨hlength, hcode, hdata⟩ := afterHeader_result hafter
  simp only at hlength
  subst hq
  obtain ⟨sess₂, hreq₂, hf₂, hdec⟩ := decode_whole req hh hx hneg hafter
  have hrd : readAndDecode alloc now chunk hs sess = httpSessDecode hs sess₁ := by
    rw [readAndDecode, hread, ok_bind]
  rw [hrd, hdec] at h
  rw [expected, hafter]
  cases out with
  | some o =>
    simp only [if_neg (hcode o rfl)] at h
    cases h
    refine ⟨_, rfl, by rw [hreq₂], fun _ o' ho' => ?_⟩
    cases ho'
    simp only [hreq₂, hlength]
    refine ⟨by omega, fun hd => ?_⟩
    rw [hdata o rfl hd]
    omega
  | none =>
    simp only at h ⊢
    rw [waitBody, hf₂.len, hreq₂] at h
    have hlen : body.length = g.length + chunks.flatten.length := by
      rw [hbody, List.length_append]
    by_cases hmore : ((header.length + g.length : Nat) : Int) <
        int32 (req'.headerLength + req'.bodyLength)
    · rw [if_pos hmore] at h
      simp only [if_true] at h
      obtain ⟨p, hp, hpreq, hres, htime⟩ := feed_body hf₂ (by rw [hreq₂, hlength]; omega)
        (by rw [hreq₂]; exact hmore) hne h
      rw [hreq₂] at hres htime hpreq
      refine ⟨p, hp, ?_, fun hno o ho => ?_⟩
      · rw [hpreq, hlen, ← Nat.add_assoc]
        by_cases hcmp : ((header.length + g.length + chunks.flatten.length : Nat) : Int) <
            int32 (req'.headerLength + req'.bodyLength)
        · rw [if_pos hcmp] at hres ⊢
          exact congrArg (fun x => (x.1, x.2, req')) hres
        · rw [if_neg hcmp] at hres ⊢
          exact congrArg (fun x => (x.1, x.2, req')) hres
      · have hfit := hno hs' req' hafter
        have hwait := htime (by rw [ho]; simp)
        have hlow := hmin rfl
        rw [int32_of_range (by omega) hfit] at hwait hmore
        rw [hpreq]
        omega
    · rw [if_neg hmore] at h
      simp only [reduceCtorEq, if_false] at h
      cases h
      refine ⟨_, rfl, ?_, fun hno o ho => ?_⟩
      · rw [if_neg (by rw [hlen]; omega), hreq₂]
      · have hfit := hno hs' req' hafter
        have hlow := hmin rfl
        rw [int32_of_range (by omega) hfit] at hmore
        simp only [hreq₂]
        omega

/-- A run over a request has the expected result, and in time. -/
theorem feed_eq (req : IsRequest lead header body) :
    ∀ {chunks : List (List UInt8)} {t : Nat} {lead' got : List UInt8} {hs : HTTP}
      {sess : HSSESSION} {r : Except Fault Progress},
    Holding sess.rBuffer got → sess.headerLength = -1 ∧ sess.bodyLength = -1 →
    (∀ c ∈ lead', IsCrlf c) → got ++ chunks.flatten = lead' ++ (header ++ body) →
    got = [] ∨ lead' = [] → got.length < header.length → (∀ c ∈ chunks, c ≠ []) →
    CleanRun alloc now chunks hs sess →
    t + chunks.flatten.length = lead.length + header.length + body.length →
    feed alloc now chunks t hs sess = some r →
    ∃ p, r = .ok p ∧ (p.result, p.hs, p.sess.toRequest) =
        expected hs sess.toRequest header (header.length + body.length) ∧
      (NoOverflow hs sess.toRequest header → Timely lead p)
  | [], t, lead', got, hs, sess, r, _, _, _, hall, hcase, hlt, _, _, _, _ => by
    exfalso
    rw [List.flatten_nil, List.append_nil] at hall
    have := congrArg List.length hall
    simp only [List.length_append] at this
    omega
  | chunk :: chunks, t, lead', got, hs, sess, r, hh, hreq, hl, hall, hcase, hlt, hne, hclean,
      ht, h => by
    have hc := hne chunk (List.mem_cons_self ..)
    have hne' : ∀ c ∈ chunks, c ≠ [] := fun c hc => hne c (List.mem_cons_of_mem _ hc)
    rw [feed, grow_early hh hreq] at h
    simp only at h
    split at h
    · rename_i hroom
      obtain ⟨sess₁, hread, hsame, hh₁⟩ := read_early alloc now hh hreq hc hroom
      obtain ⟨hcl, hnext⟩ := hclean _ (grow_early hh hreq) hroom _ _ hread
      have hneg : sess₁.headerLength < 0 := by rw [hsame, hreq.1]; omega
      have hrd : readAndDecode alloc now chunk hs sess = httpSessDecode hs sess₁ := by
        rw [readAndDecode, hread, ok_bind]
      have hgc : got ++ chunk ≠ [] := by simp [hc]
      -- a call that has only part of the header in its buffer, behind the skipped bytes
      have early : ∀ xs got' lead'' : List UInt8, got ++ chunk = xs ++ got' →
          (∀ c ∈ xs, IsCrlf c) → (∀ c ∈ lead'', IsCrlf c) → got' <+: header →
          got'.length < header.length →
          got' ++ chunks.flatten = lead'' ++ (header ++ body) → got' = [] ∨ lead'' = [] →
          ∃ p, r = .ok p ∧ (p.result, p.hs, p.sess.toRequest) =
              expected hs sess.toRequest header (header.length + body.length) ∧
            (NoOverflow hs sess.toRequest header → Timely lead p) := by
        intro xs got' lead'' hxs hx hl' hpre hlt' hall' hcase'
        obtain ⟨sess₂, hdec, hsame₂, hh₂, -⟩ := decode_early hs req (hxs ▸ hh₁) hx
          (hxs ▸ hgc) hpre hlt' hneg hcl
        rw [hrd, hdec] at h
        simp only [if_true] at h
        have hreq₂ : sess₂.toRequest = sess.toRequest := hsame₂.trans hsame
        have := feed_eq req hh₂ (by rw [hreq₂]; exact hreq) hl' hall' hcase' hlt' hne'
          (hnext _ _ _ hdec rfl) (by
            rw [List.flatten_cons, List.length_append] at ht
            omega) h
        rwa [hreq₂] at this
      rw [List.flatten_cons, ← List.append_assoc] at hall
      rcases List.append_eq_append_iff.1 hall with ⟨as, hlead, htodo⟩ | ⟨bs, hheld, hbody⟩
      · -- still in the leading bytes
        exact early (got ++ chunk) [] as (by simp)
          (fun c hc => hl c (by rw [hlead]; exact List.mem_append_left _ hc))
          (fun c hc => hl c (by rw [hlead]; exact List.mem_append_right _ hc))
          List.nil_prefix (by simp only [List.length_nil]; omega) htodo (.inl rfl)
      · by_cases hpart : bs.length < header.length
        · have hpre : bs <+: header :=
            List.prefix_of_prefix_length_le ⟨chunks.flatten, hbody.symm⟩
              (List.prefix_append header body) (by omega)
          exact early lead' bs [] hheld hl (by simp) hpre hpart
            (by simpa using hbody.symm) (.inr rfl)
        · have hpre : header <+: bs :=
            List.prefix_of_prefix_length_le (List.prefix_append header body)
              ⟨chunks.flatten, hbody.symm⟩ (by omega)
          obtain ⟨g, rfl⟩ := hpre
          have hg : body = g ++ chunks.flatten := by
            rw [List.append_assoc] at hbody
            exact List.append_cancel_left hbody
          refine feed_whole req hread hsame (by rw [hreq.1]; omega) (hheld ▸ hh₁) hl hg hne' ?_ h
          have := congrArg List.length hg
          rw [List.flatten_cons, List.length_append] at ht
          rw [List.length_append] at this
          omega
    · cases h

end Run

/-! ## Clean runs -/

section CleanRuns

variable {lead header body : List UInt8} {alloc : Alloc} {now : Int}

theorem read_header {recv : Recv} {sess sess' : HSSESSION} {out : Outcome}
    (h : httpSessRead alloc recv now sess = .ok (out, sess')) :
    sess'.headerLength = sess.headerLength := by
  rw [httpSessRead] at h
  obtain ⟨grown, hgrow, h⟩ := bind_eq_ok.1 h
  have hsame : ∀ s, grown = some s → s.toRequest = sess.toRequest := by
    rintro s rfl
    rw [growForRequest] at hgrow
    split at hgrow
    · obtain ⟨d, -, hd⟩ := bind_eq_ok.1 hgrow
      cases d with
      | none => cases hd
      | some d => cases hd; rfl
    · cases hgrow; rfl
  cases grown with
  | none => cases h; rfl
  | some s =>
    cases recv with
    | failed e => cases h; rw [hsame _ rfl]
    | data chunk =>
      cases chunk with
      | nil => cases h; rw [hsame _ rfl]
      | cons c cs =>
        obtain ⟨data, -, hd⟩ := bind_eq_ok.1 h
        cases hd
        simp only [hsame _ rfl]

/-- Nothing is searched once the header is known. -/
theorem cleanRun_of_header : ∀ {chunks : List (List UInt8)} {hs : HTTP} {sess : HSSESSION},
    0 ≤ sess.headerLength → CleanRun alloc now chunks hs sess
  | [], _, _, _ => trivial
  | _ :: _, hs, sess, h => by
    intro _ _ _ out sess₁ hread
    have h₁ := (read_header hread).trans_ge h
    refine ⟨fun hneg => absurd hneg (by omega), fun out₂ hs₂ sess₂ hdec _ => cleanRun_of_header ?_⟩
    rw [httpSessDecode] at hdec
    split at hdec
    · cases hdec; exact h₁
    · rw [if_neg (by omega), waitBody] at hdec
      split at hdec <;> (cases hdec; exact h₁)

/-- A buffer with the whole header at its front is clean. -/
theorem clean_of_whole {sess : HSSESSION} {g : List UInt8} (req : IsRequest lead header body)
    (hh : Holding sess.rBuffer (header ++ g)) : Clean sess := by
  refine fun _ => .inr fun s k hs hk => ?_
  obtain ⟨t, ht⟩ := hh.cstr (List.prefix_append header g) req.noNul
  obtain ⟨k', hk', hlen⟩ := req.ends
  rw [ht] at hs
  cases hs
  obtain rfl : k' = k := Option.some.inj ((strstr_append hk').symm.trans hk)
  rw [hh.len, List.length_append]
  omega

/-- A buffer with a part of the header at its front and a zero behind that is clean. -/
theorem clean_of_part {sess : HSSESSION} {got : List UInt8} (req : IsRequest lead header body)
    (hh : Holding sess.rBuffer got) (hpre : got <+: header)
    (hz : sess.rBuffer.data.byte got.length = 0) : Clean sess := by
  refine fun _ => .inr fun s k hs hk => ?_
  have h0 : 0 ∉ got := fun h => req.noNul (hpre.subset h)
  have hblock := hh.block
  have hfits := hh.fits
  have hend : Holds sess.rBuffer.data got.length [0] :=
    Holds.cons_iff.2 ⟨⟨by omega, hz⟩, .nil (by omega)⟩
  have hnul : Holds sess.rBuffer.data 0 (got ++ [0]) :=
    Holds.append_iff.2 ⟨hh.bytes, by rw [Nat.zero_add]; exact hend⟩
  rw [Block.cstr_eq hnul h0] at hs
  cases hs
  have hmatch := (strstr_match hk).2
  simp only [crlfcrlf, List.length_cons, List.length_nil] at hmatch
  rw [hh.len]
  omega

/-- A call that finds the whole header leaves its length known. -/
theorem decode_whole_header {hs hs₂ : HTTP} {sess sess₂ : HSSESSION} {out : Outcome}
    {g : List UInt8} (req : IsRequest [] header body)
    (hh : Holding sess.rBuffer (header ++ g)) (hneg : sess.headerLength < 0)
    (hdec : httpSessDecode hs sess = .ok (out, hs₂, sess₂)) : 0 ≤ sess₂.headerLength := by
  rcases hafter : afterHeader hs sess.toRequest header with ⟨o, hs', req'⟩
  have hnone : Holding sess.rBuffer ([] ++ (header ++ g)) := hh
  obtain ⟨sess₃, hreq₃, -, hdec₃⟩ := decode_whole req hnone (by simp) hneg hafter
  rw [hdec₃] at hdec
  have hlen := (afterHeader_result hafter).length
  cases o with
  | some o => cases hdec; rw [hreq₃, hlen]; simp
  | none =>
    rw [waitBody] at hdec
    simp only at hdec
    split at hdec <;> (cases hdec; rw [hreq₃, hlen]; simp)

/-- The cut into a single read is clean. -/
theorem cleanRun_single {hs : HTTP} {sess : HSSESSION} (req : IsRequest lead header body)
    (hh : Holding sess.rBuffer []) (hreq : sess.headerLength = -1 ∧ sess.bodyLength = -1) :
    CleanRun alloc now [lead ++ (header ++ body)] hs sess := by
  intro grown hgrow hroom out sess₁ hread
  refine ⟨?_, fun _ _ _ _ _ => trivial⟩
  have hne : lead ++ (header ++ body) ≠ [] := by
    obtain ⟨k, -, hlen⟩ := req.ends
    rintro hnil
    have := congrArg List.length hnil
    simp only [List.length_append, List.length_nil] at this
    omega
  rw [grow_early hh hreq] at hgrow
  cases hgrow
  obtain ⟨sess', hread', -, hh₁⟩ := read_early alloc now hh hreq hne hroom
  rw [hread'] at hread
  cases hread
  rw [List.nil_append] at hh₁
  cases lead with
  | nil => exact clean_of_whole req hh₁
  | cons c cs =>
    exact fun _ => .inl ⟨c, hh₁.bytes.rd, req.lead c (List.mem_cons_self ..)⟩

/-- Without leading CR or LF bytes every cut is clean: nothing but zeros ever lies behind the
data while the header is incomplete. -/
theorem cleanRun_of_no_lead (req : IsRequest [] header body) :
    ∀ {chunks : List (List UInt8)} {got : List UInt8} {hs : HTTP} {sess : HSSESSION},
    Holding sess.rBuffer got → (∀ k, got.length ≤ k → sess.rBuffer.data.byte k = 0) →
    sess.headerLength = -1 ∧ sess.bodyLength = -1 → got ++ chunks.flatten = header ++ body →
    got.length < header.length → (∀ c ∈ chunks, c ≠ []) → CleanRun alloc now chunks hs sess
  | [], _, _, _, _, _, _, _, _, _ => trivial
  | chunk :: chunks, got, hs, sess, hh, hz, hreq, hall, hlt, hne => by
    intro grown hgrow hroom out sess₁ hread
    have hc := hne chunk (List.mem_cons_self ..)
    rw [grow_early hh hreq] at hgrow
    cases hgrow
    obtain ⟨sess', hread', hsame, hh₁⟩ := read_early alloc now hh hreq hc hroom
    rw [hread'] at hread
    cases hread
    rw [List.flatten_cons, ← List.append_assoc] at hall
    have hneg : sess₁.headerLength < 0 := by rw [hsame, hreq.1]; omega
    by_cases hpart : (got ++ chunk).length < header.length
    · have hpre : got ++ chunk <+: header :=
        List.prefix_of_prefix_length_le ⟨chunks.flatten, hall⟩
          (List.prefix_append header body) (by omega)
      have hz₁ : ∀ k, (got ++ chunk).length ≤ k → sess₁.rBuffer.data.byte k = 0 :=
        read_zero hh hreq hz hread'
      have hclean : Clean sess₁ := clean_of_part req hh₁ hpre (hz₁ _ (by omega))
      refine ⟨hclean, fun out₂ hs₂ sess₂ hdec _ => ?_⟩
      have hnone : Holding sess₁.rBuffer ([] ++ (got ++ chunk)) := hh₁
      obtain ⟨sess₃, hdec₃, hsame₃, hh₃, hkeep⟩ :=
        decode_early hs req hnone (by simp) (by simp [hc]) hpre hpart hneg hclean
      rw [hdec₃] at hdec
      cases hdec
      refine cleanRun_of_no_lead req hh₃ ?_ (by rw [hsame₃, hsame]; exact hreq) hall hpart
        fun c hc => hne c (List.mem_cons_of_mem _ hc)
      rw [hkeep rfl]
      exact hz₁
    · have hpre : header <+: got ++ chunk :=
        List.prefix_of_prefix_length_le (List.prefix_append header body)
          ⟨chunks.flatten, hall⟩ (by omega)
      obtain ⟨g, hg⟩ := hpre
      rw [← hg] at hh₁
      exact ⟨clean_of_whole req hh₁, fun out₂ hs₂ sess₂ hdec _ =>
        cleanRun_of_header (decode_whole_header req hh₁ hneg hdec)⟩

end CleanRuns

/-! ## The cut does not matter -/

/-- A session that HTTP_sess_open has just set up. -/
structure Opened (sess : HSSESSION) : Prop where
  holding : Holding sess.rBuffer []
  lengths : sess.headerLength = -1 ∧ sess.bodyLength = -1

theorem opened_opened (now : Int) (sess : HSSESSION) : Opened (sess.opened now) where
  holding := ⟨rfl, rfl, by simp [HSSESSION.opened, httpDataBuffer], by simp [HSSESSION.opened],
    .nil (Nat.zero_le _), rfl⟩
  lengths := ⟨rfl, rfl⟩

/-- Two cuts of one request have the same first result, the same request behind it, and neither
has it too early.  `other` is the whole string in one read, or any other clean cut. -/
theorem result_independent_of_cut (alloc : Alloc) (now : Int) (hs : HTTP) (sess : HSSESSION)
    (lead header body : List UInt8) (chunks other : List (List UInt8)) (r ref : Except Fault Progress)
    (opened : Opened sess) (req : IsRequest lead header body)
    (hchunks : chunks.flatten = lead ++ (header ++ body)) (hne : ∀ c ∈ chunks, c ≠ [])
    (hother : other = [lead ++ (header ++ body)] ∨
      other.flatten = lead ++ (header ++ body) ∧ (∀ c ∈ other, c ≠ []) ∧
        CleanRun alloc now other hs sess)
    (clean : CleanRun alloc now chunks hs sess) (small : NoOverflow hs sess.toRequest header)
    (hrun : feed alloc now chunks 0 hs sess = some r)
    (href : feed alloc now other 0 hs sess = some ref) :
    ∃ p p', r = .ok p ∧ ref = .ok p' ∧ p.result = p'.result ∧
      p.sess.toRequest = p'.sess.toRequest ∧ Timely lead p := by
  obtain ⟨k, -, hlen⟩ := req.ends
  have hother' : other.flatten = lead ++ (header ++ body) ∧ (∀ c ∈ other, c ≠ []) ∧
      CleanRun alloc now other hs sess := by
    rcases hother with rfl | h
    · refine ⟨by simp, ?_, cleanRun_single req opened.holding opened.lengths⟩
      intro c hc hnil
      have := congrArg List.length ((List.mem_singleton.1 hc).symm.trans hnil)
      simp only [List.length_append, List.length_nil] at this
      omega
    · exact h
  have total : ∀ {cut : List (List UInt8)}, cut.flatten = lead ++ (header ++ body) →
      0 + cut.flatten.length = lead.length + header.length + body.length := by
    intro cut h
    rw [h, List.length_append, List.length_append]
    omega
  have short : ([] : List UInt8).length < header.length := by
    simp only [List.length_nil]; omega
  obtain ⟨p, rfl, hres, htime⟩ := feed_eq req opened.holding opened.lengths req.lead
    (by simpa using hchunks) (.inl rfl) short hne clean (total hchunks) hrun
  obtain ⟨p', rfl, hres', -⟩ := feed_eq req opened.holding opened.lengths req.lead
    (by simpa using hother'.1) (.inl rfl) short hother'.2.1 hother'.2.2 (total hother'.1) href
  have hsame := hres.trans hres'.symm
  exact ⟨p, p', rfl, rfl, congrArg (·.1) hsame, congrArg (·.2.2) hsame, htime small⟩

/-- The session of slot 0 of a new server, opened. -/
def newSession : HSSESSION :=
  HSSESSION.opened 0 { no := 0, rBuffer := ⟨0, 0, ⟨0, fun _ => 0⟩⟩ }

/-- A GET request in two reads and in one. -/
theorem result_independent_of_cut_get :
    ∃ p p', feed none 0 [ascii "GET /a HT", ascii "TP/1.1\r\n\r\n"] 0 {} newSession =
        some (.ok p) ∧
      feed none 0 [ascii "GET /a HTTP/1.1\r\n\r\n"] 0 {} newSession = some (.ok p') ∧
      p.result = p'.result ∧ p.sess.toRequest = p'.sess.toRequest ∧ Timely [] p := by
  have req : IsRequest [] (ascii "GET /a HTTP/1.1\r\n\r\n") [] := by
    refine ⟨by simp, fun c hc => ?_, ⟨15, by decide, by decide⟩, by decide, by decide⟩
    have : c = 71 := by simpa [ascii] using hc.symm
    subst this
    simp [IsCrlf]
  have opened : Opened newSession := opened_opened ..
  have hne : ∀ c ∈ [ascii "GET /a HT", ascii "TP/1.1\r\n\r\n"], c ≠ [] := by decide
  have clean : CleanRun none 0 [ascii "GET /a HT", ascii "TP/1.1\r\n\r\n"] {} newSession :=
    cleanRun_of_no_lead req opened.holding (fun _ _ => rfl) opened.lengths (by decide) (by decide)
      hne
  have small : NoOverflow {} newSession.toRequest (ascii "GET /a HTTP/1.1\r\n\r\n") := by
    intro hs' req' h
    have hsome : (afterHeader {} newSession.toRequest (ascii "GET /a HTTP/1.1\r\n\r\n")).1 =
      some ⟨.dataAvailable, none⟩ := by decide
    rw [h] at hsome
    cases hsome
  obtain ⟨r, hr⟩ : ∃ r, feed none 0 [ascii "GET /a HT", ascii "TP/1.1\r\n\r\n"] 0 {} newSession =
    some r := ⟨_, rfl⟩
  obtain ⟨ref, href⟩ : ∃ ref, feed none 0 [ascii "GET /a HTTP/1.1\r\n\r\n"] 0 {} newSession =
    some ref := ⟨_, rfl⟩
  obtain ⟨p, p', rfl, rfl, h⟩ := result_independent_of_cut none 0 {} newSession [] _ [] _ _ r ref
    opened req (by decide) hne (.inl rfl) clean small hr href
  exact ⟨p, p', hr, href, h⟩

/-- The header length at the end of a run, to evaluate runs. -/
def headerLengthOf : Option (Except Fault Progress) → Option Int
  | some (.ok p) => some p.sess.headerLength
  | _ => none

theorem headerLengthOf_eq {r : Option (Except Fault Progress)} {n : Int}
    (h : headerLengthOf r = some n) : ∃ p, r = some (.ok p) ∧ p.sess.headerLength = n := by
  unfold headerLengthOf at h
  split at h
  · exact ⟨_, rfl, Option.some.inj h⟩
  · cases h

/-- Eighteen CR and LF bytes in one read, the request line in the next: the line is completed to a
header by bytes that the first read left behind, nine bytes before the header ends. -/
theorem cut_changes_result :
    ¬ ∀ (lead header body : List UInt8) (chunks : List (List UInt8)) (r ref : Except Fault Progress),
      IsRequest lead header body → chunks.flatten = lead ++ (header ++ body) →
      (∀ c ∈ chunks, c ≠ []) → feed none 0 chunks 0 {} newSession = some r →
      feed none 0 [lead ++ (header ++ body)] 0 {} newSession = some ref →
      ∃ p p', r = .ok p ∧ ref = .ok p' ∧ p.result = p'.result ∧
        p.sess.toRequest = p'.sess.toRequest ∧ Timely lead p := by
  intro hclaim
  have req : IsRequest (List.replicate 9 [13, 10]).flatten
      (ascii "GET / HTTP/1.1\r\n" ++ ascii "Host: a\r\n\r\n") [] := by
    refine ⟨by decide +kernel, fun c hc => ?_, ⟨23, by decide, by decide⟩, by decide, by decide⟩
    have : c = 71 := by simpa [ascii] using hc.symm
    subst this
    simp [IsCrlf]
  obtain ⟨p, hp, h18⟩ := headerLengthOf_eq (n := 18) (r := feed none 0
    [(List.replicate 9 [13, 10]).flatten, ascii "GET / HTTP/1.1\r\n", ascii "Host: a\r\n\r\n"]
    0 {} newSession) (by decide +kernel)
  obtain ⟨p', hp', h27⟩ := headerLengthOf_eq (n := 27) (r := feed none 0
    [(List.replicate 9 [13, 10]).flatten ++
      ((ascii "GET / HTTP/1.1\r\n" ++ ascii "Host: a\r\n\r\n") ++ [])]
    0 {} newSession) (by decide +kernel)
  obtain ⟨q, q', hq, hq', -, hsame, -⟩ :=
    hclaim _ _ _ _ _ _ req (by decide +kernel) (by decide) hp hp'
  cases hq
  cases hq'
  have hlen := congrArg (fun q => q.headerLength) hsame
  simp only [h18, h27] at hlen
  omega

end CassandraApi.Http
