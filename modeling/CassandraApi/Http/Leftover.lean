/-
# `Http.Leftover` — what a slot keeps of its last session

Two servers with different pasts let a peer in, in the same slot, and then receive
the same bytes there.  HTTP_sess_open resets what describes the request, except for
`header_version`; it keeps the memory for the URI, and drops what is in it.  So the
two sessions look alike, from the codes of HTTP_sess_decode to the pages, exactly
when the slots had the same `header_version`, and both or neither of them had memory
for the URI (`new_session_alike_iff`).

What new memory holds may differ between the two servers all along.
-/
import CassandraApi.Http.Pages
import CassandraApi.Http.Rejected
import CassandraApi.Http.SessionTable

namespace CassandraApi.Http

open C Lib SessionTable

/-! ## What is seen of a session -/

/-- The session in slot `i`, to be served from now on. -/
def SessionTable.Hs.served (counters : HTTP) (hs : Hs) (i : Nat) : Except Fault Served := do
  let s ← hs.slot i
  match s.rBuffer with
  | none => throw .null
  | some d => pure ⟨counters, { s.toRequest with
      rBuffer := d, readTime := s.readTime, activeTime := s.activeTime }, []⟩

/-- The calls are the same, but new memory may hold something else. -/
inductive Alike : ServedCall → ServedCall → Prop where
  | read {alloc alloc' : Alloc} (h : alloc'.isSome = alloc.isSome) (recv : Recv) (now : Int) :
      Alike (.read alloc recv now) (.read alloc' recv now)
  | decode : Alike .decode .decode

/-- The results of HTTP_sess_decode, the request, and all pages are the same. -/
structure SameSeen (st st' : Served) : Prop where
  results : st'.log = st.log
  request : st'.sess.toRequest = st.sess.toRequest
  pages : ∀ (sdfVersion : List UInt8) (garbage garbage' : Nat → UInt8) (page : Page),
    page.bytes sdfVersion (some garbage') st'.sess.toRequest =
      page.bytes sdfVersion (some garbage) st.sess.toRequest

/-- Two servers whose slot `i` was just taken are the same to whoever is there now. -/
def SameToPeer (hs hs' : Hs) (i : Nat) : Prop :=
  ∀ (counters counters' : HTTP) (st st' : Served) (calls calls' : List ServedCall),
    hs.served counters i = .ok st → hs'.served counters' i = .ok st' →
      List.Forall₂ Alike calls calls' → Along Served.step (fun _ => Served.Known) st calls →
        Both SameSeen (run Served.step st calls) (run Served.step st' calls')

/-! ## Decoding does not ask about anything else -/

section

variable {s s' : HSSESSION}

/-- The results, the request and the buffer are the same. -/
structure Decoded (x y : Outcome × HTTP × HSSESSION) : Prop where
  reply : y.1 = x.1
  request : y.2.2.toRequest = x.2.2.toRequest
  buffer : y.2.2.rBuffer = x.2.2.rBuffer

theorem decodeUri_counters (hs hs' : HTTP) (req : Request) (uri : List UInt8) :
    ∃ h, decodeUri hs' req uri = ((decodeUri hs req uri).1, h, (decodeUri hs req uri).2.2) := by
  unfold decodeUri
  simp only
  split
  · split
    · exact ⟨_, rfl⟩
    · split <;> exact ⟨_, rfl⟩
  · exact ⟨_, rfl⟩

theorem decodeHeader_counters (hs hs' : HTTP) (req : Request) (head : List UInt8) :
    ∃ h, decodeHeader hs' req head =
      ((decodeHeader hs req head).1, h, (decodeHeader hs req head).2.2) := by
  unfold decodeHeader
  simp only
  split
  · exact ⟨_, rfl⟩
  · rename_i method methodLen _
    split
    · exact ⟨_, rfl⟩
    · rename_i uriLen _
      obtain ⟨h, heq⟩ := decodeUri_counters (hs.countMethod method) (hs'.countMethod method)
        { req with
          errorResponse := 0, httpMethod := method
          headerVersion := ((head ++ [0]).drop (methodLen + uriLen + 1)).take 8 ++
            req.headerVersion.drop 8 }
        ((head.drop methodLen).take uriLen)
      rw [heq]
      generalize decodeUri (hs.countMethod method) _ _ = x
      obtain ⟨out, _, req⟩ := x
      cases out <;> exact ⟨_, rfl⟩

theorem waitBody_both (hs hs' : HTTP) (hreq : s'.toRequest = s.toRequest)
    (hlen : s'.rBuffer.len = s.rBuffer.len) :
    (waitBody hs' s').1 = (waitBody hs s).1 ∧ (waitBody hs' s').2.2 = s' ∧
      (waitBody hs s).2.2 = s := by
  unfold waitBody
  rw [hreq, hlen]
  split <;> exact ⟨rfl, rfl, rfl⟩

theorem takeHeader_both (hs hs' : HTTP) (hreq : s'.toRequest = s.toRequest)
    (hbuf : s'.rBuffer = s.rBuffer) : Both Decoded (takeHeader hs s) (takeHeader hs' s') := by
  unfold takeHeader closeHeader
  rw [hreq, hbuf]
  split
  · exact .ok ⟨rfl, hreq, hbuf⟩
  · refine (Both.of_eq rfl).bind fun head head' hhead => ?_
    subst hhead
    obtain ⟨h, heq⟩ := decodeHeader_counters hs hs' s.toRequest head
    rw [heq]
    generalize decodeHeader hs s.toRequest head = x
    obtain ⟨out, counters, req, refused⟩ := x
    refine (Both.of_eq rfl).bind fun data data' hdata => ?_
    subst hdata
    cases out with
    | some out => exact .ok ⟨rfl, rfl, rfl⟩
    | none =>
      obtain ⟨hout, hleft, hright⟩ := @waitBody_both
        { s with toRequest := req, rBuffer := { s.rBuffer with data := data } }
        { s' with toRequest := req, rBuffer := { s.rBuffer with data := data } } counters h rfl rfl
      refine .ok ⟨hout, ?_, ?_⟩
      · exact (congrArg HSSESSION.toRequest hleft).trans (congrArg HSSESSION.toRequest hright).symm
      · exact (congrArg HSSESSION.rBuffer hleft).trans (congrArg HSSESSION.rBuffer hright).symm

/-- The decoder looks at the request and the buffer. -/
theorem httpSessDecode_both (hs hs' : HTTP) (hreq : s'.toRequest = s.toRequest)
    (hbuf : s'.rBuffer = s.rBuffer) : Both Decoded (httpSessDecode hs s) (httpSessDecode hs' s') := by
  unfold httpSessDecode
  rw [hreq, hbuf]
  split
  · exact .ok ⟨rfl, hreq, hbuf⟩
  · split
    · refine (Both.of_eq rfl).bind fun buf buf' heq => ?_
      subst heq
      cases buf with
      | none => exact .ok ⟨rfl, rfl, rfl⟩
      | some buf =>
        simp only [findHeader]
        split
        · exact .ok ⟨rfl, rfl, rfl⟩
        · refine (Both.of_eq rfl).bind fun text text' heq => ?_
          subst heq
          split
          · split <;> exact .ok ⟨rfl, rfl, rfl⟩
          · refine (Both.of_eq rfl).bind fun data data' heq => ?_
            subst heq
            exact takeHeader_both hs hs' rfl rfl
    · obtain ⟨hout, hleft, hright⟩ := waitBody_both hs hs' hreq (by rw [hbuf])
      refine .ok ⟨hout, ?_, ?_⟩
      · rw [hleft, hright, hreq]
      · rw [hleft, hright, hbuf]

/-! ## Reading does not ask what is in new memory -/

theorem growForRequest_shape {alloc alloc' : Alloc} (hreq : s'.toRequest = s.toRequest)
    (hbuf : SameShape s.rBuffer s'.rBuffer) (halloc : alloc'.isSome = alloc.isSome) :
    Both (Option.Rel fun a b => b.toRequest = a.toRequest ∧ SameShape a.rBuffer b.rBuffer)
      (growForRequest alloc s) (growForRequest alloc' s') := by
  unfold growForRequest
  rw [hreq, hbuf.len]
  split
  · refine (httpAllocBuffer_shape hbuf halloc _).bind fun d d' hd => .ok ?_
    cases hd with
    | none => exact .none
    | some hd => exact .some ⟨rfl, hd⟩
  · exact .ok (.some ⟨hreq, hbuf⟩)

theorem httpSessRead_shape {alloc alloc' : Alloc} (recv : Recv) (now : Int)
    (hreq : s'.toRequest = s.toRequest) (hbuf : SameShape s.rBuffer s'.rBuffer)
    (halloc : alloc'.isSome = alloc.isSome) :
    Both (fun x y => y.1 = x.1 ∧ y.2.toRequest = x.2.toRequest ∧ SameShape x.2.rBuffer y.2.rBuffer)
      (httpSessRead alloc recv now s) (httpSessRead alloc' recv now s') := by
  refine (growForRequest_shape hreq hbuf halloc).bind fun grown grown' hgrown => ?_
  cases hgrown with
  | none => exact .ok ⟨rfl, hreq, hbuf⟩
  | @some g g' hg =>
    obtain ⟨hreq', hbuf'⟩ := hg
    cases recv with
    | failed e => exact .ok ⟨rfl, hreq', hbuf'⟩
    | data bytes =>
      cases bytes with
      | nil => exact .ok ⟨rfl, hreq', hbuf'⟩
      | cons c cs =>
        simp only [hbuf'.len, hbuf'.size]
        exact (write_shape hbuf'.block _ _).bind fun x y hxy =>
          .ok ⟨rfl, hreq', rfl, rfl, hxy⟩

/-- As long as the header has not been found there is no new memory. -/
theorem httpSessRead_early {alloc alloc' : Alloc} (recv : Recv) (now : Int) (h : Undecided s)
    (hreq : s'.toRequest = s.toRequest) (hbuf : s'.rBuffer = s.rBuffer) :
    Both (fun x y => y.1 = x.1 ∧ y.2.toRequest = x.2.toRequest ∧ y.2.rBuffer = x.2.rBuffer)
      (httpSessRead alloc recv now s) (httpSessRead alloc' recv now s') := by
  have h' : Undecided s' := by
    constructor
    · rw [hreq]; exact h.header
    · rw [hreq]; exact h.body
    · rw [hbuf]; exact h.size
    · rw [hbuf]; exact h.low
    · rw [hbuf]; exact h.high
  unfold httpSessRead
  rw [h.grow alloc, h'.grow alloc']
  cases recv with
  | failed e => exact .ok ⟨rfl, hreq, hbuf⟩
  | data bytes =>
    cases bytes with
    | nil => exact .ok ⟨rfl, hreq, hbuf⟩
    | cons c cs =>
      simp only [ok_bind, hbuf]
      refine (Both.of_eq rfl).bind fun data data' heq => ?_
      subst heq
      exact .ok ⟨rfl, hreq, rfl⟩

end

/-! ## Two sessions that receive the same -/

/-- Two sessions that cannot be told apart. -/
structure Twins (s s' : HSSESSION) : Prop where
  request : s'.toRequest = s.toRequest
  shape : SameShape s.rBuffer s'.rBuffer
  early : s.headerLength < 0 → Undecided s ∧ s'.rBuffer = s.rBuffer

theorem SameShape.of_eq {d d' : HSDATA} (h : d' = d) : SameShape d d' := by
  subst h
  exact ⟨rfl, rfl, rfl⟩

/-- One call on both. -/
theorem Twins.step {st st' : Served} {c c' : ServedCall} (h : Twins st.sess st'.sess)
    (hlog : st'.log = st.log) (alike : Alike c c') (known : st.Known c) :
    Both (fun a b => b.log = a.log ∧ Twins a.sess b.sess) (st.step c) (st'.step c') := by
  cases alike with
  | @read alloc alloc' halloc recv now =>
    by_cases hneg : st.sess.headerLength < 0
    · obtain ⟨hund, hbuf⟩ := h.early hneg
      refine (httpSessRead_early recv now hund h.request hbuf).left_eq.bind fun x y hxy => ?_
      obtain ⟨⟨-, hreq, hbuf'⟩, hread⟩ := hxy
      exact .ok ⟨hlog, hreq, .of_eq hbuf', fun _ =>
        ⟨(@Undecided.read st.hs st.sess x.2 x.1 hund alloc recv now known hread).1, hbuf'⟩⟩
    · refine (httpSessRead_shape recv now h.request h.shape halloc).left_eq.bind fun x y hxy => ?_
      obtain ⟨⟨-, hreq, hshape⟩, hread⟩ := hxy
      have hlen := read_header hread
      exact .ok ⟨hlog, hreq, hshape, fun hneg' => absurd (hlen ▸ hneg') hneg⟩
  | decode =>
    by_cases hneg : st.sess.headerLength < 0
    · obtain ⟨hund, hbuf⟩ := h.early hneg
      refine (httpSessDecode_both st.hs st'.hs h.request hbuf).left_eq.bind fun x y hxy => ?_
      obtain ⟨hdec, hx⟩ := hxy
      refine .ok ⟨?_, hdec.request, .of_eq hdec.buffer,
        fun hneg' => ⟨(hund.decode hx hneg').1, hdec.buffer⟩⟩
      simp only [hlog, hdec.reply]
    · have hneg' : ¬ st'.sess.headerLength < 0 := by
        rw [h.request]
        exact hneg
      have hkeep : Twins st.sess st'.sess := h
      simp only [Served.step, httpSessDecode, if_neg hneg, if_neg hneg', h.shape.len]
      split
      · exact .ok ⟨by simp only [hlog], hkeep⟩
      · obtain ⟨hout, hleft, hright⟩ := waitBody_both st.hs st'.hs h.request h.shape.len
        refine .ok ⟨?_, ?_⟩
        · simp only [hlog, hout]
        · simp only [hleft, hright]
          exact hkeep

/-- A whole run on both. -/
theorem Twins.run {st st' : Served} (h : Twins st.sess st'.sess) (hlog : st'.log = st.log)
    {calls calls' : List ServedCall} (alike : List.Forall₂ Alike calls calls')
    (known : Along Served.step (fun _ => Served.Known) st calls) :
    Both SameSeen (run Served.step st calls) (run Served.step st' calls') := by
  have hkeep : ∀ s s' : Served, ∀ c c' : ServedCall, s'.log = s.log ∧ Twins s.sess s'.sess →
      Alike c c' → s.Known c →
        Both (fun a b => b.log = a.log ∧ Twins a.sess b.sess) (s.step c) (s'.step c') :=
    fun s s' c c' hs hc known => hs.2.step hs.1 hc known
  refine (Both.run hkeep alike ⟨hlog, h⟩ known).mono fun a b hab => ?_
  obtain ⟨hlog', htwins⟩ := hab
  exact ⟨hlog', htwins.request, fun sdfVersion garbage garbage' page =>
    page.bytes_eq (congrArg Request.headerVersion htwins.request) sdfVersion garbage garbage'⟩

/-! ## The slots along the past -/

/-- A slot that is free has no buffer, and its number goes with its memory. -/
structure SessionTable.Slot.Sane (s : Slot) (i : Nat) : Prop where
  vacant : s.sock < 0 → s.rBuffer = none
  held : s.accepted.isSome → 0 ≤ s.sock
  memory : s.requestUri.isSome ∧ s.no = i ∨ s.requestUri = none ∧ s.no = 0

def SessionTable.Hs.Sane (hs : Hs) : Prop :=
  ∀ (i : Nat) (s : Slot), hs.session[i]? = some s → s.Sane i

section

variable {hs hs' : Hs} {s new : Slot} {i no : Nat}

theorem sane_set (h : hs.Sane) (hnew : new.Sane no) {k : Nat} {t : Slot}
    (ht : (hs.session.set no new)[k]? = some t) : t.Sane k := by
  rcases getElem?_set_cases ht with ⟨rfl, rfl⟩ | ⟨-, hold⟩
  · exact hnew
  · exact h k t hold

/-- What HTTP_sess_open can do: nothing, or take a free slot. -/
theorem httpSessOpen_cases {accept : Rauthen.Accept} {alloc : Alloc} {reply : Outcome}
    {taken : Option Nat} (h : httpSessOpen accept alloc hs = .ok (reply, taken, hs')) :
    taken = none ∧ hs' = hs ∨
      ∃ i s p grown, taken = some i ∧ hs.session[i]? = some s ∧ s.sock < 0 ∧
        accept.admit = .ok p ∧ httpAllocBuffer alloc s.rBuffer httpDataBuffer = .ok grown ∧
        hs'.session = hs.session.set i (s.opened (hs.version + 1) (grown <|> s.rBuffer) p) := by
  unfold httpSessOpen at h
  split at h
  · cases h
    exact .inl ⟨rfl, rfl⟩
  · rename_i i s hfree
    obtain ⟨hget, hsock, -⟩ := freeSlot_some hfree
    split at h
    · cases h
      exact .inl ⟨rfl, rfl⟩
    · rename_i p hadmit
      obtain ⟨grown, hgrown, h⟩ := bind_eq_ok.1 h
      cases h
      exact .inr ⟨i, s, p, grown, rfl, hget, hsock, hadmit, hgrown, rfl⟩

/-- What HTTP_sess_close can do to the slots. -/
theorem httpSessClose_cases {close : Option String} {reply : Outcome}
    (h : httpSessClose close hs no = .ok (reply, hs')) :
    hs'.session = hs.session ∨ ∃ s, hs.session[no]? = some s ∧
      hs'.session = hs.session.set no { s.closed with blockRequest := 0 } := by
  obtain ⟨s, hslot, h⟩ := bind_eq_ok.1 h
  split at h
  · cases h
    exact .inl rfl
  · cases h
    refine .inr ⟨s, ?_, rfl⟩
    unfold Hs.slot at hslot
    split at hslot
    · cases hslot
    · rename_i hget
      cases hslot
      exact hget

theorem SessionTable.Slot.Sane.closed (h : s.Sane i) (blockRequest : Int) :
    Slot.Sane { s.closed with blockRequest := blockRequest } i :=
  ⟨fun _ => rfl, fun hheld => absurd hheld Bool.false_ne_true, h.memory⟩

theorem SessionTable.Slot.Sane.opened (h : s.Sane i) (version : UInt32) (rBuffer : Option HSDATA)
    (p : Rauthen.Peer) : (s.opened version rBuffer p).Sane i := by
  have hsock : 0 ≤ (s.opened version rBuffer p).sock := Int.natCast_nonneg _
  refine ⟨fun hneg => absurd hsock (by omega), fun _ => hsock, ?_⟩
  simpa [Slot.opened] using h.memory

theorem SessionTable.Hs.Sane.sessClose (h : hs.Sane) {close : Option String} {reply : Outcome}
    (hclose : httpSessClose close hs no = .ok (reply, hs')) : hs'.Sane := by
  intro k t ht
  rcases httpSessClose_cases hclose with heq | ⟨s, hget, heq⟩
  · rw [heq] at ht
    exact h k t ht
  · rw [heq] at ht
    exact sane_set h ((h no s hget).closed 0) ht

theorem SessionTable.Hs.Sane.verifyFrom (h : hs.Sane) {ct : Int} {close : Option String}
    {left : Nat} {reply : Outcome}
    (hverify : verifyFrom ct close hs left i = .ok (reply, hs')) : hs'.Sane := by
  induction left generalizing i with
  | zero =>
    cases hverify
    exact h
  | succ left ih =>
    obtain ⟨s, -, hverify⟩ := bind_eq_ok.1 hverify
    split at hverify
    · split at hverify
      · obtain ⟨⟨_, hs''⟩, hclose, hverify⟩ := bind_eq_ok.1 hverify
        cases hverify
        exact h.sessClose hclose
      · exact ih hverify
    · exact ih hverify

theorem SessionTable.Hs.Sane.svrClose (h : hs.Sane) (close : Nat → Option String)
    (listener : Option String) : (httpSvrClose close listener hs).2.2.Sane := by
  intro k t ht
  obtain ⟨s, hold, hcase⟩ := (closeSlots_spec close hs.lastSession hs.session 0).2 k t ht
  have hsane := h k s hold
  rcases hcase with ⟨rfl, -⟩ | ⟨-, ⟨-, rfl⟩ | ⟨-, rfl⟩⟩
  · exact hsane
  · exact hsane.closed _
  · exact ⟨fun _ => rfl, hsane.held, hsane.memory⟩

theorem SessionTable.Hs.Sane.step (h : hs.Sane) {c : Call} (hstep : step hs c = .ok hs') :
    hs'.Sane := by
  cases c with
  | setMaxSession n =>
    cases hstep
    unfold httpSvrSetMaxSession
    split <;> exact h
  | sessOpen accept alloc =>
    obtain ⟨⟨reply, taken, _⟩, hopen, hstep⟩ := bind_eq_ok.1 hstep
    cases hstep
    rcases httpSessOpen_cases hopen with ⟨-, rfl⟩ | ⟨i, s, p, grown, -, hget, -, -, -, heq⟩
    · exact h
    · intro k t ht
      rw [heq] at ht
      exact sane_set h ((h i s hget).opened _ _ p) ht
  | sessClose close no =>
    obtain ⟨⟨reply, _⟩, hclose, hstep⟩ := bind_eq_ok.1 hstep
    cases hstep
    exact h.sessClose hclose
  | verifyConnection ct close =>
    obtain ⟨⟨reply, _⟩, hverify, hstep⟩ := bind_eq_ok.1 hstep
    cases hstep
    exact h.verifyFrom hverify
  | svrClose close listener =>
    cases hstep
    exact h.svrClose close listener
  | used no change =>
    obtain ⟨s, hslot, hstep⟩ := bind_eq_ok.1 hstep
    unfold Hs.slot at hslot
    split at hslot
    · cases hslot
    · rename_i hget
      cases hslot
      split at hstep
      · rename_i huse
        cases hstep
        have hsane := h no s hget
        have hsock := hsane.held huse
        have hmemory : (s.usedBy change).requestUri.isSome ∧ s.no = no ∨
            (s.usedBy change).requestUri = none ∧ s.no = 0 := by
          rcases hsane.memory with ⟨hsome, hno⟩ | ⟨hnone, hno⟩
          · obtain ⟨uri, huri⟩ := Option.isSome_iff_exists.1 hsome
            exact .inl ⟨by simp [Slot.usedBy, huri], hno⟩
          · exact .inr ⟨by simp [Slot.usedBy, hnone], hno⟩
        have hnew : (s.usedBy change).Sane no :=
          ⟨fun hneg => absurd hsock (not_le.2 hneg), fun _ => hsock, hmemory⟩
        exact fun k t ht => sane_set h hnew ht
      · cases hstep
        exact h
  | setTimeouts read write idle =>
    cases hstep
    exact h
  | svrOpen sock =>
    cases hstep
    exact h

theorem httpSvrInit_sane (version : UInt32) (maxSession : Int) :
    (httpSvrInit version maxSession).Sane := by
  intro i s hget
  rw [httpSvrInit_slot hget]
  split
  · exact ⟨fun _ => rfl, fun hheld => absurd hheld Bool.false_ne_true, .inl ⟨rfl, rfl⟩⟩
  · exact ⟨fun _ => rfl, fun hheld => absurd hheld Bool.false_ne_true, .inr ⟨rfl, rfl⟩⟩

theorem run_sane {version : UInt32} {maxSession : Int} {past : List Call}
    (h : run step (httpSvrInit version maxSession) past = .ok hs) : hs.Sane := by
  have hany : Along step (fun _ _ _ => True) (httpSvrInit version maxSession) past :=
    fun _ _ _ _ _ _ => trivial
  exact run_invariant (I := fun _ => Hs.Sane) (httpSvrInit_sane version maxSession)
    (fun tr s e s' hs _ hstep => hs.step hstep) hany h

/-! ## The new session -/

/-- The request of a slot that is taken. -/
def SessionTable.Slot.newRequest (s : Slot) : Request :=
  { s.toRequest with
    headerLength := -1, bodyLength := -1, requestUri := s.requestUri.map fun _ => []
    httpMethod := .post, errorResponse := 0 }

/-- The read buffer of a session that starts. -/
def newBuffer : HSDATA := ⟨httpDataBuffer, 0, ⟨httpDataBuffer + 8, fun _ => 0⟩⟩

theorem httpAllocBuffer_first (garbage : Nat → UInt8) :
    httpAllocBuffer (some garbage) none httpDataBuffer = .ok (some newBuffer) := by
  have hsize : adjustSize (httpDataBuffer : Nat) (httpDataBuffer : Nat) = 65536 := by decide
  simp only [httpAllocBuffer, hsize]
  rfl

theorem served_new (h : hs.Sane) {accept : Rauthen.Accept} {garbage : Nat → UInt8}
    {reply : Outcome} (hopen : httpSessOpen accept (some garbage) hs = .ok (reply, some i, hs'))
    (hget : hs.session[i]? = some s) (counters : HTTP) :
    ∃ p, accept.admit = .ok p ∧ hs'.served counters i = .ok ⟨counters, { s.newRequest with
      rBuffer := newBuffer, readTime := 0, activeTime := p.now }, []⟩ := by
  rcases httpSessOpen_cases hopen with ⟨hnone, -⟩ |
    ⟨k, t, p, grown, hk, hslot, hsock, hadmit, hgrown, heq⟩
  · cases hnone
  · cases hk
    rw [hget] at hslot
    cases hslot
    have hempty := (h i s hget).vacant hsock
    rw [hempty, httpAllocBuffer_first] at hgrown
    cases hgrown
    have hnew : hs'.session[i]? = some (s.opened (hs.version + 1) (some newBuffer) p) := by
      rw [heq, List.getElem?_set_self (List.getElem?_eq_some_iff.1 hget).1]
      rfl
    refine ⟨p, hadmit, ?_⟩
    simp only [Hs.served, Hs.slot, hnew, ok_bind]
    rfl

/-- The new requests are the same when the version is, and the memory for the URI. -/
theorem newRequest_eq_iff {s' : Slot} (h : s.Sane i) (h' : s'.Sane i) :
    s'.newRequest = s.newRequest ↔
      s'.headerVersion = s.headerVersion ∧ s'.requestUri.isSome = s.requestUri.isSome := by
  constructor
  · intro heq
    have huri := congrArg (fun r : Request => r.requestUri.isSome) heq
    simp only [Slot.newRequest, Option.isSome_map] at huri
    have hversion : s'.newRequest.headerVersion = s.newRequest.headerVersion := by
      rw [heq]
    exact ⟨hversion, huri⟩
  · rintro ⟨hversion, huri⟩
    have hmap : (s'.requestUri.map fun _ => ([] : List UInt8)) = s.requestUri.map fun _ => [] := by
      cases hs : s.requestUri with
      | none =>
        rw [hs] at huri
        have hnone : s'.requestUri = none := by simpa using huri
        rw [hnone]
      | some uri =>
        rw [hs] at huri
        obtain ⟨uri', huri'⟩ := Option.isSome_iff_exists.1 huri
        rw [huri']
        rfl
    have hno : s'.no = s.no := by
      rcases h.memory with ⟨hsome, hno⟩ | ⟨hnone, hno⟩
      · rcases h'.memory with ⟨-, hno'⟩ | ⟨hnone', -⟩
        · rw [hno, hno']
        · rw [hnone', hsome] at huri
          cases huri
      · rcases h'.memory with ⟨hsome', -⟩ | ⟨-, hno'⟩
        · rw [hnone, hsome'] at huri
          cases huri
        · rw [hno, hno']
    simp only [Slot.newRequest, hversion, hmap, hno]

end

/-- Two servers with any past let a peer in, in the same slot.  The peer sees the same in both, in
what HTTP_sess_decode returns, in the request and in the pages, if and only if the slot had the same
`header_version` in both, and memory for the URI in both or in neither. -/
theorem new_session_alike_iff {version version' : UInt32} {maxSession maxSession' : Int}
    {past past' : List Call} {hs hs' : Hs}
    (hpast : run step (httpSvrInit version maxSession) past = .ok hs)
    (hpast' : run step (httpSvrInit version' maxSession') past' = .ok hs')
    {accept accept' : Rauthen.Accept} {garbage garbage' : Nat → UInt8} {reply reply' : Outcome}
    {i : Nat} {new new' : Hs}
    (hopen : httpSessOpen accept (some garbage) hs = .ok (reply, some i, new))
    (hopen' : httpSessOpen accept' (some garbage') hs' = .ok (reply', some i, new'))
    {s s' : Slot} (hget : hs.session[i]? = some s) (hget' : hs'.session[i]? = some s') :
    SameToPeer new new' i ↔
      s'.headerVersion = s.headerVersion ∧ s'.requestUri.isSome = s.requestUri.isSome := by
  have hsane := run_sane hpast
  have hsane' := run_sane hpast'
  rw [← newRequest_eq_iff (hsane i s hget) (hsane' i s' hget')]
  constructor
  · intro same
    obtain ⟨p, -, hserved⟩ := served_new hsane hopen hget {}
    obtain ⟨p', -, hserved'⟩ := served_new hsane' hopen' hget' {}
    exact (same {} {} _ _ [] [] hserved hserved' .nil (along_nil _)).inv_ok.request
  · intro heq counters counters' st st' calls calls' hst hst' alike known
    obtain ⟨p, -, hserved⟩ := served_new hsane hopen hget counters
    obtain ⟨p', -, hserved'⟩ := served_new hsane' hopen' hget' counters'
    rw [hserved] at hst
    rw [hserved'] at hst'
    cases hst
    cases hst'
    refine @Twins.run ⟨counters, _, []⟩ ⟨counters', _, []⟩ ?_ rfl _ _ alike known
    exact ⟨heq, ⟨rfl, rfl, rfl⟩, fun _ =>
      ⟨⟨rfl, rfl, rfl, le_refl _, Int.natCast_nonneg httpDataBuffer⟩, rfl⟩⟩

/-! ## A guest behind another -/

/-- What calls on the session in a slot leave of it. -/
def SessionTable.Slot.after (calls : List ServedCall) (s : Slot) : Slot :=
  match s.rBuffer with
  | none => s
  | some d =>
      match run Served.step ⟨{}, { s.toRequest with
        rBuffer := d, readTime := s.readTime, activeTime := s.activeTime }, []⟩ calls with
      | .error _ => s
      | .ok st => { s with
          toRequest := st.sess.toRequest, rBuffer := some st.sess.rBuffer
          readTime := st.sess.readTime, activeTime := st.sess.activeTime }

def guest : Rauthen.Peer := ⟨5, "10.0.0.1", 1, none, ⟨.pass, none⟩, 0⟩

def receive (bytes : String) : List ServedCall := [.read none (.data (ascii bytes)) 0, .decode]

/-- The slot of a guest who has sent a request and left. -/
def usedSlot : Slot :=
  { (((readySlot 0).opened 1 (some newBuffer) guest).usedBy
      (Slot.after (receive "GET / HTTP/1.1\r\n\r\n"))).closed with blockRequest := 0 }

/-- A guest comes, sends a request, and leaves. -/
def visit : List Call :=
  [.sessOpen (.peer guest) (some fun _ => 0),
    .used 0 (Slot.after (receive "GET / HTTP/1.1\r\n\r\n")), .sessClose none 0]

theorem httpSvrInit_one : ∃ rest, httpSvrInit 0 1 = ⟨1, readySlot 0 :: rest, 0, -1, 0, 0, 0, 0, 0⟩ := by
  obtain ⟨s, hget⟩ : ∃ s, (httpSvrInit 0 1).session[0]? = some s :=
    slot_exists (by simp [httpSvrInit, httpMaxSession])
  have hslot := httpSvrInit_slot hget
  rw [if_pos (by decide)] at hslot
  obtain ⟨hlt, heq⟩ := List.getElem?_eq_some_iff.1 hget
  have hsession : (httpSvrInit 0 1).session =
      readySlot 0 :: (httpSvrInit 0 1).session.drop 1 := by
    rw [← hslot, ← heq, ← List.drop_eq_getElem_cons hlt, List.drop_zero]
  have hmax : (1 : Int) < httpMaxSession := by decide
  refine ⟨(httpSvrInit 0 1).session.drop 1, ?_⟩
  rw [← hsession]
  simp only [httpSvrInit, if_pos hmax]

theorem run_visit : ∃ hs rest, run step (httpSvrInit 0 1) visit = .ok hs ∧
    hs.session = usedSlot :: rest ∧ hs.maxSession = 1 := by
  obtain ⟨rest, hinit⟩ := httpSvrInit_one
  rw [hinit]
  exact ⟨_, rest, rfl, rfl, rfl⟩

theorem open_first {hs : Hs} {s : Slot} {rest : List Slot} (hsession : hs.session = s :: rest)
    (hmax : hs.maxSession = 1) (hsock : s.sock = -1) (hbuf : s.rBuffer = none) :
    ∃ reply new, httpSessOpen (.peer guest) (some fun _ => 0) hs = .ok (reply, some 0, new) := by
  have hfree : hs.freeSlot = some (0, s) := by
    simp [Hs.freeSlot, hsession, hmax, hsock]
  simp only [httpSessOpen, hfree, hbuf, httpAllocBuffer_first]
  exact ⟨_, _, rfl⟩

theorem new_session_alike_iff_visit :
    ∃ hs' reply reply' new new', run step (httpSvrInit 0 1) visit = .ok hs' ∧
      httpSessOpen (.peer guest) (some fun _ => 0) (httpSvrInit 0 1) = .ok (reply, some 0, new) ∧
      httpSessOpen (.peer guest) (some fun _ => 0) hs' = .ok (reply', some 0, new') ∧
      (SameToPeer new new' 0 ↔
        usedSlot.headerVersion = (readySlot 0).headerVersion ∧
          usedSlot.requestUri.isSome = (readySlot 0).requestUri.isSome) := by
  obtain ⟨rest, hinit⟩ := httpSvrInit_one
  obtain ⟨hs', rest', hrun, hsession, hmax⟩ := run_visit
  obtain ⟨reply, new, hopen⟩ := open_first (congrArg Hs.session hinit) (congrArg Hs.maxSession hinit)
    rfl rfl
  obtain ⟨reply', new', hopen'⟩ := open_first hsession hmax rfl rfl
  have hget : (httpSvrInit 0 1).session[0]? = some (readySlot 0) := by
    rw [hinit]
    rfl
  have hget' : hs'.session[0]? = some usedSlot := by
    rw [hsession]
    rfl
  exact ⟨hs', reply, reply', new, new', hrun, hopen, hopen',
    new_session_alike_iff (run_nil (httpSvrInit 0 1)) hrun hopen hopen' hget hget'⟩

/-- What a new guest in the slot is told about a method that does not exist. -/
def refusal (s : Slot) : Option (List RetCode × List UInt8) :=
  match run Served.step ⟨{}, { s.newRequest with
    rBuffer := newBuffer, readTime := 0, activeTime := 0 }, []⟩ (receive "X / HTTP/1.1\r\n\r\n") with
  | .ok st =>
      match Page.notImplemented.bytes [] (some fun _ => 0) st.sess.toRequest with
      | .ok (_, some page) => some (st.log, page)
      | _ => none
  | .error _ => none

theorem refusal_ready : refusal (readySlot 0) =
    some ([.errorAvailable], ascii " 501 Method Not Implemented\r\n\r\n") := by
  decide +kernel

theorem refusal_used : refusal usedSlot =
    some ([.errorAvailable], ascii "HTTP/1.1 501 Method Not Implemented\r\n\r\n") := by
  decide +kernel

theorem refusal_eq {s : Slot} {log : List RetCode} {page : List UInt8}
    (h : refusal s = some (log, page)) :
    ∃ st r, run Served.step ⟨{}, { s.newRequest with
        rBuffer := newBuffer, readTime := 0, activeTime := 0 }, []⟩
        (receive "X / HTTP/1.1\r\n\r\n") = .ok st ∧
      Page.notImplemented.bytes [] (some fun _ => 0) st.sess.toRequest = .ok (r, some page) := by
  unfold refusal at h
  split at h
  · rename_i st hrun
    split at h
    · rename_i r found hpage
      cases h
      exact ⟨st, r, hrun, hpage⟩
    · cases h
  · cases h

/-- The guest who comes first is refused without a version, and the one behind another guest with
the version of that guest. -/
theorem guest_told_apart :
    ∃ hs hs' reply reply' new new', run step (httpSvrInit 0 1) [] = .ok hs ∧
      run step (httpSvrInit 0 1) visit = .ok hs' ∧
      httpSessOpen (.peer guest) (some fun _ => 0) hs = .ok (reply, some 0, new) ∧
      httpSessOpen (.peer guest) (some fun _ => 0) hs' = .ok (reply', some 0, new') ∧
      ¬ SameToPeer new new' 0 := by
  obtain ⟨rest, hinit⟩ := httpSvrInit_one
  obtain ⟨hs', rest', hrun, hsession, hmax⟩ := run_visit
  obtain ⟨reply, new, hopen⟩ := open_first (congrArg Hs.session hinit) (congrArg Hs.maxSession hinit)
    rfl rfl
  obtain ⟨reply', new', hopen'⟩ := open_first hsession hmax rfl rfl
  refine ⟨_, hs', reply, reply', new, new', rfl, hrun, hopen, hopen', fun same => ?_⟩
  obtain ⟨p, hp, hserved⟩ := served_new (httpSvrInit_sane 0 1) hopen
    (by rw [hinit]; rfl : (httpSvrInit 0 1).session[0]? = some (readySlot 0)) {}
  obtain ⟨p', hp', hserved'⟩ := served_new (run_sane hrun) hopen'
    (by rw [hsession]; rfl : hs'.session[0]? = some usedSlot) {}
  cases hp
  cases hp'
  obtain ⟨st, r, hst, hpage⟩ := refusal_eq refusal_ready
  obtain ⟨st', r', hst', hpage'⟩ := refusal_eq refusal_used
  have alike : List.Forall₂ Alike (receive "X / HTTP/1.1\r\n\r\n")
      (receive "X / HTTP/1.1\r\n\r\n") := .cons (.read rfl _ _) (.cons .decode .nil)
  have hseen := same {} {} _ _ _ _ hserved hserved' alike (by
    refine along_cons ?_ fun s _ => along_cons trivial fun s _ => along_nil s
    intro grown hgrow
    have hund : Undecided { (readySlot 0).newRequest with
        rBuffer := newBuffer, readTime := 0, activeTime := guest.now } :=
      ⟨rfl, rfl, rfl, le_refl _, Int.natCast_nonneg httpDataBuffer⟩
    rw [hund.grow none] at hgrow
    cases hgrow
    decide)
  change Both SameSeen (run Served.step ⟨{}, { (readySlot 0).newRequest with
      rBuffer := newBuffer, readTime := 0, activeTime := 0 }, []⟩ _)
    (run Served.step ⟨{}, { usedSlot.newRequest with
      rBuffer := newBuffer, readTime := 0, activeTime := 0 }, []⟩ _) at hseen
  rw [hst, hst'] at hseen
  have hpages := hseen.inv_ok.pages [] (fun _ => 0) (fun _ => 0) .notImplemented
  rw [hpage, hpage'] at hpages
  have hbytes := Option.some.inj (Prod.mk.inj (Except.ok.inj hpages)).2
  revert hbytes
  decide

end CassandraApi.Http
