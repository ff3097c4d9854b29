/-
# `Http.Announced` — the body that was announced

A POST or PUT request is delivered when as many bytes are there as its
Content-Length says.  The field is found by a plain search for `Content-Length:`
in the header, and its value goes through `strtol`, a cast to `int` and an `int`
addition.  So a delivered body is the announced one when the first
`Content-Length:` is the start of a line, and behind it stand digits whose number,
with the header, is no more than an `int` holds.
-/
import CassandraApi.Http.Room

namespace CassandraApi.Http

open C Lib

/-! ## The field -/

/-- A blank or a tab. -/
def IsBlank (c : UInt8) : Prop := c = 32 ∨ c = 9

instance : DecidablePred IsBlank := fun c => inferInstanceAs (Decidable (c = 32 ∨ c = 9))

def crlf : List UInt8 := [13, 10]

/-- `digits` with blanks around them, then the end of the line. -/
structure IsNumberLine (line : List UInt8) (v : Nat) : Prop where
  split : ∃ blanks digits blanks' post, line = blanks ++ digits ++ blanks' ++ crlf ++ post ∧
    (∀ c ∈ blanks, IsBlank c) ∧ (∀ c ∈ blanks', IsBlank c) ∧ digits ≠ [] ∧
    (∀ c ∈ digits, isDigit c = true) ∧ decimal digits = v

/-- The header has a line for the field Content-Length, in any letter case, with the value `v`. -/
def HasContentLength (head : List UInt8) (v : Nat) : Prop :=
  ∃ pre name line, head = pre ++ crlf ++ name ++ [58] ++ line ∧
    name.map toLower = ascii "content-length" ∧ IsNumberLine line v

/-- The bytes of the header without its last CRLF. -/
def HSSESSION.headerText (sess : HSSESSION) : List UInt8 :=
  sess.rBuffer.data.slice 0 (sess.headerLength - 2).toNat

/-- The delivered body is the one that the header announces, and has arrived. -/
def Delivered (sess : HSSESSION) : Prop :=
  ∃ v : Nat, HasContentLength sess.headerText v ∧ sess.bodyLength = v ∧
    sess.headerLength + v ≤ sess.rBuffer.len

def IsUpload (m : Method) : Prop := m = .post ∨ m = .put

/-- The search finds the field at the start of a line, with digits behind at most some blanks, for a
request that is not longer than the largest `int`. -/
def FieldPlain (head : List UInt8) : Prop :=
  ∀ p, strstr head (ascii "Content-Length:") = some p →
    (∃ pre, head.take p = pre ++ crlf) ∧
    ∃ blanks digits post, head.drop (p + 15) = blanks ++ digits ++ crlf ++ post ∧
      (∀ c ∈ blanks, IsBlank c) ∧ digits ≠ [] ∧ (∀ c ∈ digits, isDigit c = true) ∧
      head.length + 2 + decimal digits < 2 ^ 31

/-- The header of an upload whose Content-Length is accepted has it plainly. -/
def Announces (head : List UInt8) : Prop :=
  ∀ m n ll, findMethod (head.take 9) = some (m, n) → IsUpload m →
    contentLength head = some (.ok ll) → FieldPlain head

/-! ## Reading the number -/

section Number

theorem takeWhile_stop {α : Type} {p : α → Bool} {xs ys : List α} (hxs : ∀ x ∈ xs, p x = true)
    (hys : ∀ y, ys.head? = some y → p y = false) : (xs ++ ys).takeWhile p = xs := by
  induction xs with
  | nil =>
    cases ys with
    | nil => rfl
    | cons y ys => simp [hys y rfl]
  | cons x xs ih =>
    rw [List.cons_append, List.takeWhile_cons_of_pos (hxs x List.mem_cons_self),
      ih fun z hz => hxs z (List.mem_cons_of_mem x hz)]

theorem isDigit_not_space : ∀ {c : UInt8}, isDigit c = true → isSpace c = false := by
  decide +kernel

theorem isBlank_space {c : UInt8} (h : IsBlank c) : isSpace c = true := by
  rcases h with rfl | rfl <;> decide

variable {blanks digits post : List UInt8}

/-- `strtol` on digits behind white space, up to the end of the line. -/
theorem strtol_digits (hblanks : ∀ c ∈ blanks, isSpace c = true) (hne : digits ≠ [])
    (hdigits : ∀ c ∈ digits, isDigit c = true) (hsmall : (decimal digits : Int) ≤ longMax) :
    strtol (blanks ++ (digits ++ crlf ++ post)) =
      ((decimal digits : Int), blanks.length + digits.length) := by
  obtain ⟨d, ds, rfl⟩ := List.exists_cons_of_ne_nil hne
  have hd := hdigits d List.mem_cons_self
  have hspaces : (blanks ++ ((d :: ds) ++ crlf ++ post)).takeWhile isSpace = blanks := by
    refine takeWhile_stop hblanks fun y hy => ?_
    cases hy
    exact isDigit_not_space hd
  have hrest : (blanks ++ ((d :: ds) ++ crlf ++ post)).drop blanks.length =
      (d :: ds) ++ (crlf ++ post) := by
    rw [List.drop_left, List.append_assoc]
  have hstop : ((d :: ds) ++ (crlf ++ post)).takeWhile isDigit = d :: ds := by
    refine takeWhile_stop hdigits fun y hy => ?_
    cases hy
    decide
  have hne45 : d ≠ 45 := by
    rintro rfl
    revert hd
    decide
  have hne43 : d ≠ 43 := by
    rintro rfl
    revert hd
    decide
  have hmin : longMin ≤ (decimal (d :: ds) : Int) := by
    have : longMin < 0 := by decide
    omega
  simp only [strtol, hspaces, hrest]
  rw [List.cons_append]
  split
  · rename_i heq
    cases heq
    exact absurd rfl hne45
  · rename_i heq
    cases heq
    exact absurd rfl hne43
  · rw [List.drop_zero, ← List.cons_append, hstop, if_neg (List.cons_ne_nil d ds)]
    simp only [Bool.false_eq_true, if_false, Nat.add_zero]
    rw [min_eq_right hsmall, max_eq_right hmin]

end Number

/-! ## The header -/

/-- The source skips one blank by itself, and `strtol` the others. -/
theorem skip_blank {head blanks rest : List UInt8} {pp : Nat}
    (h : head.drop pp = blanks ++ rest) (hblanks : ∀ c ∈ blanks, IsBlank c)
    (hrest : ∀ c, rest.head? = some c → c ≠ 32) :
    ∃ blanks', (∀ c ∈ blanks', isSpace c = true) ∧
      head.drop (if (head.drop pp).head? = some 32 then pp + 1 else pp) = blanks' ++ rest := by
  cases blanks with
  | nil =>
    rw [List.nil_append] at h
    rw [h, if_neg fun h32 => hrest 32 h32 rfl, h]
    exact ⟨[], fun _ hc => absurd hc List.not_mem_nil, rfl⟩
  | cons b blanks =>
    have hall : ∀ c ∈ blanks, isSpace c = true := fun c hc =>
      isBlank_space (hblanks c (List.mem_cons_of_mem b hc))
    rcases hblanks b List.mem_cons_self with rfl | rfl
    · refine ⟨blanks, hall, ?_⟩
      rw [h, if_pos (show (32 :: blanks ++ rest).head? = some 32 from rfl), ← List.drop_drop, h]
      rfl
    · refine ⟨9 :: blanks, fun c hc => ?_, ?_⟩
      · rcases List.mem_cons.1 hc with rfl | hmem
        · decide
        · exact hall c hmem
      · rw [h, if_neg fun h32 => by cases h32]
        exact h

/-- A plain field is read as it stands. -/
theorem contentLength_plain {head : List UInt8} {ll : Int} (h : contentLength head = some (.ok ll))
    (hplain : FieldPlain head) :
    ∃ v : Nat, HasContentLength head v ∧ ll = v ∧ head.length + 2 + v < 2 ^ 31 := by
  unfold contentLength at h
  split at h
  · cases h
  · rename_i p hp
    obtain ⟨⟨pre, hpre⟩, blanks, digits, post, hline, hblanks, hne, hdigits, hsmall⟩ := hplain p hp
    have hlen : (ascii "Content-Length:").length = 15 := by decide
    have hmax : (decimal digits : Int) ≤ longMax := by
      have : (2 : Int) ^ 31 ≤ longMax := by decide
      omega
    have hsplit : head.drop (p + 15) = blanks ++ (digits ++ crlf ++ post) := by
      rw [hline]
      simp only [List.append_assoc]
    have hfirst : ∀ c, (digits ++ crlf ++ post).head? = some c → c ≠ 32 := by
      obtain ⟨d, ds, rfl⟩ := List.exists_cons_of_ne_nil hne
      rintro c hc rfl
      cases hc
      have := hdigits 32 List.mem_cons_self
      revert this
      decide
    obtain ⟨blanks', hspaces, hdrop⟩ := skip_blank hsplit hblanks hfirst
    have hread := @strtol_digits blanks' digits post hspaces hne hdigits hmax
    simp only [hlen, hdrop, hread] at h
    refine ⟨decimal digits, ⟨pre, ascii "Content-Length", head.drop (p + 15), ?_, by decide,
      ⟨blanks, digits, [], post, by rw [hline]; simp, hblanks,
        fun c hc => absurd hc List.not_mem_nil, hne, hdigits, rfl⟩⟩, ?_, hsmall⟩
    · -- the text before the field, the field's name, and what is behind it
      have hmatch := (strstr_match hp).1
      obtain ⟨rest, hrest⟩ := hmatch
      have hbehind : head.drop (p + 15) = rest := by
        rw [← List.drop_drop, ← hrest, ← hlen, List.drop_left]
      have hname : ascii "Content-Length:" = ascii "Content-Length" ++ [58] := by decide
      calc head = head.take p ++ head.drop p := (List.take_append_drop p head).symm
        _ = pre ++ crlf ++ (ascii "Content-Length:" ++ rest) := by rw [hpre, hrest]
        _ = pre ++ crlf ++ ascii "Content-Length" ++ [58] ++ head.drop (p + 15) := by
          rw [hname, hbehind]
          simp only [List.append_assoc]
    · rcases ite_eq_iff.1 h with ⟨-, herr⟩ | ⟨-, hok⟩
      · cases herr
      · cases hok
        rfl

/-- What is known of a header that is not rejected: the body is waited for when an upload's
Content-Length is accepted, and otherwise the request is no upload. -/
theorem decodeHeader_cases (hs : HTTP) (req : Request) (head : List UInt8) :
    (∃ m n ll hs' req', findMethod (head.take 9) = some (m, n) ∧ IsUpload m ∧
      contentLength head = some (.ok ll) ∧ decodeHeader hs req head = (none, hs', req', false) ∧
      req'.headerLength = req.headerLength ∧ req'.bodyLength = int32 ll) ∨
    ∃ out hs' req' refused, decodeHeader hs req head = (some out, hs', req', refused) ∧
      (IsRejection out.code ∨ ¬ IsUpload req'.httpMethod) := by
  unfold decodeHeader
  simp only
  cases hm : findMethod (head.take 9) with
  | none =>
    refine .inr ⟨_, _, _, _, rfl, .inl ?_⟩
    exact .inr rfl
  | some found =>
    obtain ⟨m, n⟩ := found
    simp only
    cases hv : strstr (head.drop n) (ascii " HTTP/1.") with
    | none =>
      refine .inr ⟨_, _, _, _, rfl, .inl ?_⟩
      exact .inr rfl
    | some uriLen =>
      simp only
      -- the query string
      unfold decodeUri
      simp only
      by_cases hlen : 1 ≤ ((head.drop n).take uriLen).length ∧
          ((head.drop n).take uriLen).length < httpMaxQueryStringLen
      · rw [if_pos hlen]
        cases huri : req.requestUri with
        | none =>
          refine .inr ⟨_, _, _, _, rfl, .inl ?_⟩
          exact .inl rfl
        | some uri =>
          simp only [Option.map_some]
          by_cases hup : m ≠ .put ∧ m ≠ .post
          · rw [if_pos hup]
            refine .inr ⟨_, _, _, _, rfl, .inr ?_⟩
            rintro (rfl | rfl)
            · exact hup.2 rfl
            · exact hup.1 rfl
          · rw [if_neg hup]
            have hupload : IsUpload m := by
              unfold IsUpload
              tauto
            simp only [decodeBodyLength]
            cases hc : contentLength head with
            | none =>
              refine .inr ⟨_, _, _, _, rfl, .inl ?_⟩
              exact .inl rfl
            | some r =>
              cases r with
              | error line =>
                refine .inr ⟨_, _, _, _, rfl, .inl ?_⟩
                exact .inl rfl
              | ok ll => exact .inl ⟨m, n, ll, _, _, rfl, hupload, rfl, rfl, rfl, rfl⟩
      · rw [if_neg hlen]
        refine .inr ⟨_, _, _, _, rfl, .inl ?_⟩
        exact .inr rfl

/-! ## One call -/

/-- The header this call of the decoder finds, if it finds one: it lies within what was received, and
its Content-Length is announced plainly. -/
def Served.Announced (st : Served) : ServedCall → Prop
  | .read .. => True
  | .decode => st.sess.headerLength < 0 → ∀ buf s k, skipCrlf st.sess.rBuffer = .ok (some buf) →
      buf.data.cstr 0 = .ok s → strstr s crlfcrlf = some k →
        (k + 4 : Nat) ≤ buf.len ∧ Announces (s.take (k + 2))

/-- What is waited for is what was announced. -/
def Awaiting (sess : HSSESSION) : Prop :=
  0 ≤ sess.headerLength → IsUpload sess.httpMethod →
    ∃ v : Nat, HasContentLength sess.headerText v ∧ sess.bodyLength = v ∧
      sess.headerLength + v < 2 ^ 31 ∧ sess.headerLength ≤ sess.rBuffer.len

section Call

variable {hs hs' : HTTP} {sess sess' : HSSESSION} {out : Outcome} {n : Nat}

theorem Awaiting.read (h : Awaiting sess) (hfilled : Filled sess.rBuffer n) {alloc : Alloc}
    {recv : Recv} {now : Int} (known : Served.Known ⟨hs, sess, []⟩ (.read alloc recv now))
    (hread : httpSessRead alloc recv now sess = .ok (out, sess')) : Awaiting sess' := by
  obtain ⟨hreq, ⟨n', hle, hfilled'⟩, -, hbytes⟩ := read_keeps hfilled known hread
  intro hhl hup
  have hlen := hfilled.len
  have hlen' := hfilled'.len
  rw [hreq] at hhl hup
  obtain ⟨v, hfield, hbl, hsum, hin⟩ := h hhl hup
  have htext : sess'.headerText = sess.headerText := by
    unfold HSSESSION.headerText
    rw [hreq]
    refine Block.slice_congr fun k hk => ?_
    rw [Nat.zero_add]
    exact hbytes k (by omega)
  rw [htext, hreq]
  exact ⟨v, hfield, hbl, hsum, by omega⟩

/-- The last test, of a request whose length does not overflow. -/
theorem Awaiting.delivered (h : Awaiting sess) (hhl : 0 ≤ sess.headerLength)
    (hup : IsUpload sess.httpMethod) (hdata : (waitBody hs sess).1.code = .dataAvailable) :
    Delivered sess := by
  obtain ⟨v, hfield, hbl, hsum, hin⟩ := h hhl hup
  refine ⟨v, hfield, hbl, ?_⟩
  unfold waitBody at hdata
  rw [hbl, int32_of_range (by omega) (by omega)] at hdata
  split at hdata
  · cases hdata
  · omega

/-- A NUL behind the header makes it the C string in the buffer. -/
theorem cut_header {data data' : Block} {s : List UInt8} {k : Nat} (hs : data.cstr 0 = .ok s)
    (hk : strstr s crlfcrlf = some k) (hwrite : data.write (k + 2 : Nat) [0] = .ok data') :
    data'.cstr 0 = .ok (s.take (k + 2)) ∧ data'.slice 0 (k + 2) = s.take (k + 2) := by
  obtain ⟨hholds, h0⟩ := Block.cstrFrom_sound hs (by omega)
  have hlen : (s.take (k + 2)).length = k + 2 := by
    have hle : k + 4 ≤ s.length := (strstr_match hk).2
    rw [List.length_take]
    omega
  have hfront : Holds data' 0 (s.take (k + 2)) := by
    refine Holds.write_frame hwrite (@Holds.left _ _ _ (s.drop (k + 2) ++ [0]) ?_) (.inl ?_)
    · rw [← List.append_assoc, List.take_append_drop]
      exact hholds
    · omega
  have hnul : Holds data' (0 + (s.take (k + 2)).length) [0] := by
    rw [hlen, Nat.zero_add]
    exact (Holds.written hwrite).1
  have hno : (0 : UInt8) ∉ s.take (k + 2) := fun hmem => h0 (List.mem_of_mem_take hmem)
  refine ⟨Block.cstr_eq (Holds.append_iff.2 ⟨hfront, hnul⟩) hno, ?_⟩
  have hbytes := hfront.bytes
  rwa [hlen] at hbytes

/-- The header was found, `k` bytes before its CRLFCRLF. -/
theorem takeHeader_awaiting {head : List UInt8} {k : Nat} (hcstr : sess.rBuffer.data.cstr 0 = .ok head)
    (hslice : sess.rBuffer.data.slice 0 (k + 2) = head) (hhl : sess.headerLength = (k + 4 : Nat))
    (hin : ((k + 4 : Nat) : Int) ≤ sess.rBuffer.len) (hplain : Announces head)
    (htake : takeHeader hs sess = .ok (out, hs', sess')) :
    (IsRejection out.code ∨ Awaiting sess') ∧
      (out.code = .dataAvailable → IsUpload sess'.httpMethod → Delivered sess') := by
  have hlen : head.length = k + 2 := by
    rw [← hslice, Block.slice_length]
  unfold takeHeader at htake
  split at htake
  · cases htake
    exact ⟨.inl (.inl rfl), fun hdata => by cases hdata⟩
  · rw [hcstr, ok_bind] at htake
    rcases decodeHeader_cases hs sess.toRequest head with
      ⟨m, n, ll, hs₁, req, hmethod, hup, hcl, hdec, hhl', hbl⟩ | ⟨o, hs₁, req, refused, hdec, hno⟩
    · rw [hdec] at htake
      simp only [closeHeader, Bool.false_eq_true, if_false, ok_bind, pure_eq_ok,
        Except.ok.injEq] at htake
      obtain ⟨v, hfield, rfl, hsum⟩ := contentLength_plain hcl (hplain m n ll hmethod hup hcl)
      have hbl' : req.bodyLength = v := by
        rw [hbl, int32_of_range (by omega) (by omega)]
      have hawait : Awaiting { sess with toRequest := req } := by
        intro _ _
        refine ⟨v, ?_, hbl', ?_, ?_⟩
        · have htext : HSSESSION.headerText { sess with toRequest := req } = head := by
            rw [HSSESSION.headerText]
            simp only [hhl', hhl]
            rw [← hslice]
            congr 1
            omega
          rw [htext]
          exact hfield
        · simp only [hhl', hhl]
          omega
        · simp only [hhl', hhl]
          exact hin
      have hsess := congrArg (fun r => r.2.2) htake
      have hout := congrArg (fun r => r.1) htake
      rw [waitBody_sess] at hsess
      simp only at hsess hout
      subst hsess hout
      exact ⟨.inr hawait, fun hdata hup' =>
        hawait.delivered (by simp only [hhl', hhl]; omega) hup' hdata⟩
    · rw [hdec] at htake
      obtain ⟨data, -, htake⟩ := bind_eq_ok.1 htake
      cases htake
      rcases hno with hrej | hnot
      · refine ⟨.inl hrej, fun hdata => ?_⟩
        rcases hrej with hcode | hcode <;> rw [hcode] at hdata <;> cases hdata
      · exact ⟨.inr fun _ hup => absurd hup hnot, fun _ hup => absurd hup hnot⟩

/-- One call of the decoder that is not behind a rejection. -/
theorem Awaiting.decode (h : Awaiting sess) (announced : Served.Announced ⟨hs, sess, []⟩ .decode)
    (hdec : httpSessDecode hs sess = .ok (out, hs', sess')) :
    (IsRejection out.code ∨ Awaiting sess') ∧
      (out.code = .dataAvailable → IsUpload sess'.httpMethod → Delivered sess') := by
  have hwait : ∀ s, Awaiting s → (IsRejection RetCode.waitMoreData ∨ Awaiting s) ∧
      (RetCode.waitMoreData = .dataAvailable → IsUpload s.httpMethod → Delivered s) :=
    fun s hs => ⟨.inr hs, fun hdata => by cases hdata⟩
  by_cases hneg : sess.headerLength < 0
  · have hearly : ∀ buf readTime, Awaiting { sess with rBuffer := buf, readTime := readTime } :=
      fun _ _ hpos => absurd hneg (not_lt.2 hpos)
    unfold httpSessDecode at hdec
    split at hdec
    · cases hdec
      exact hwait sess h
    · obtain ⟨buf, hskip, hdec⟩ := bind_eq_ok.1 hdec
      cases buf with
      | none =>
        cases hdec
        exact hwait _ (hearly _ _)
      | some buf =>
        simp only [findHeader] at hdec
        split at hdec
        · cases hdec
          exact hwait _ (hearly _ _)
        · obtain ⟨s, hs, hdec⟩ := bind_eq_ok.1 hdec
          split at hdec
          · split at hdec
            · cases hdec
              exact ⟨.inl (.inl rfl), fun hdata => by cases hdata⟩
            · cases hdec
              exact hwait _ (hearly _ _)
          · rename_i k hk
            obtain ⟨data, hwrite, hdec⟩ := bind_eq_ok.1 hdec
            obtain ⟨hin, hplain⟩ := announced hneg buf s k hskip hs hk
            obtain ⟨hcstr, hslice⟩ := cut_header hs hk hwrite
            exact takeHeader_awaiting hcstr hslice rfl hin hplain hdec
  · obtain rfl := decode_known hneg hdec
    unfold httpSessDecode at hdec
    split at hdec
    · cases hdec
      exact hwait _ h
    · rw [Except.ok.injEq] at hdec
      have hout := congrArg (fun r => r.1) hdec
      simp only at hout
      subst hout
      exact ⟨.inr h, fun hdata hup => h.delivered (not_lt.1 hneg) hup hdata⟩

end Call

/-! ## Whole runs -/

/-- When the headers that are found announce their bodies plainly, and no rejected request is decoded
again, every body of an upload that is delivered is the announced one. -/
theorem delivered_as_announced (now : Int) (hs : HTTP) (sess : HSSESSION) {calls : List ServedCall}
    {st : Served} (hrun : run Served.step (served now hs sess) calls = .ok st)
    (known : Along Served.step (fun _ => Served.Known) (served now hs sess) calls)
    (alone : Along Served.step (fun _ => Served.LeftAlone) (served now hs sess)
      (calls ++ [.decode]))
    (announced : Along Served.step (fun _ => Served.Announced) (served now hs sess)
      (calls ++ [.decode]))
    {out : Outcome} {hs' : HTTP} {sess' : HSSESSION}
    (hdec : httpSessDecode st.hs st.sess = .ok (out, hs', sess'))
    (hdata : out.code = .dataAvailable) (hup : IsUpload sess'.httpMethod) : Delivered sess' := by
  have hinv : Sized st.sess ∧ ((∃ c ∈ st.log, IsRejection c) ∨ Awaiting st.sess) := by
    refine run_invariant
      (I := fun _ st => Sized st.sess ∧ ((∃ c ∈ st.log, IsRejection c) ∨ Awaiting st.sess))
      ⟨Sized.opened now sess, .inr fun hpos => ?_⟩ ?_
      ((known.and alone.left).and announced.left) hrun
    · exact absurd hpos (by decide : ¬ (0 : Int) ≤ -1)
    · rintro tr s call s' ⟨hsized, hstate⟩ ⟨⟨hknown, halone⟩, hann⟩ hstep
      cases call with
      | read alloc recv now =>
        obtain ⟨⟨out, sess'⟩, hread, hpure⟩ := bind_eq_ok.1 hstep
        cases hpure
        obtain ⟨n, hfilled⟩ := hsized.filled
        have hkept := @Sized.read s.hs s.sess sess' out hsized alloc recv now hknown hread
        have hawait := fun h : Awaiting s.sess =>
          @Awaiting.read s.hs s.sess sess' out n h hfilled alloc recv now hknown hread
        exact ⟨hkept, hstate.imp_right hawait⟩
      | decode =>
        obtain ⟨⟨out, hs', sess'⟩, hdec, hpure⟩ := bind_eq_ok.1 hstep
        cases hpure
        refine ⟨(hsized.decode hdec).1, ?_⟩
        rcases hstate with ⟨c, hc, hrej⟩ | hawait
        · exact .inl ⟨c, List.mem_append_left _ hc, hrej⟩
        · rcases (hawait.decode hann hdec).1 with hrej | hnext
          · exact .inl ⟨out.code, List.mem_append_right _ (List.mem_singleton_self _), hrej⟩
          · exact .inr hnext
  have halone := alone calls .decode [] st rfl hrun
  have hann := announced calls .decode [] st rfl hrun
  have hawait : Awaiting st.sess := by
    rcases hinv.2 with hrej | hawait
    · -- a header without an end is not delivered
      intro hpos
      exact absurd (halone hrej).1 (not_lt.2 hpos)
    · exact hawait
  exact (hawait.decode hann hdec).2 hdata hup

/-- What a read and a call of the decoder came to, to evaluate them. -/
def uploadOf (r : Except Fault Served) : Option (List RetCode × Method × Int) :=
  match r with
  | .ok st => some (st.log, st.sess.httpMethod, st.sess.bodyLength)
  | .error _ => none

theorem uploadOf_eq {recv : Recv} {c : RetCode} {m : Method} {bl : Int}
    (h : uploadOf (run Served.step (served 0 {} newSession) [.read none recv 0, .decode]) =
      some ([c], m, bl)) :
    ∃ st out hs' sess', run Served.step (served 0 {} newSession) [.read none recv 0] = .ok st ∧
      httpSessDecode st.hs st.sess = .ok (out, hs', sess') ∧ out.code = c ∧
      sess'.httpMethod = m ∧ sess'.bodyLength = bl := by
  cases hrun : run Served.step (served 0 {} newSession) [.read none recv 0, .decode] with
  | error f =>
    rw [hrun] at h
    cases h
  | ok st₂ =>
    rw [hrun] at h
    obtain ⟨st, hread, hlast⟩ := run_cons hrun
    obtain ⟨st₁, hstep, hend⟩ := run_cons hlast
    cases hend
    obtain ⟨⟨out, hs', sess'⟩, hdec, hpure⟩ := bind_eq_ok.1 hstep
    cases hpure
    simp only [uploadOf, Option.some.injEq, Prod.mk.injEq] at h
    obtain ⟨hlog, hm, hbl⟩ := h
    refine ⟨st, out, hs', sess', run_single hread, hdec, ?_, hm, hbl⟩
    have hmem : out.code ∈ st.log ++ [out.code] :=
      List.mem_append_right _ (List.mem_singleton_self _)
    rw [hlog] at hmem
    exact List.mem_singleton.1 hmem

/-- A body of three bytes, announced and sent. -/
def smallUpload : List UInt8 := ascii "POST /a HTTP/1.1\r\nContent-Length: 3\r\n\r\nabc"

theorem smallUpload_plain :
    FieldPlain (ascii "POST /a HTTP/1.1\r\nContent-Length: 3\r\n") := by
  intro p hp
  have hat : strstr (ascii "POST /a HTTP/1.1\r\nContent-Length: 3\r\n")
      (ascii "Content-Length:") = some 18 := by decide +kernel
  rw [hat] at hp
  cases hp
  exact ⟨⟨ascii "POST /a HTTP/1.1", by decide +kernel⟩, [32], ascii "3", [],
    by decide +kernel, fun c hc => .inl (List.mem_singleton.1 hc), by decide, by decide +kernel,
    by decide +kernel⟩

theorem smallUpload_known : Along Served.step (fun _ => Served.Known) (served 0 {} newSession)
    [.read none (.data smallUpload) 0] := by
  refine along_cons ?_ fun s _ => along_nil s
  intro grown hgrow
  have hopen : Undecided (served 0 {} newSession).sess := .opened 0 newSession
  rw [hopen.grow none] at hgrow
  cases hgrow
  decide +kernel

theorem smallUpload_announced {st : Served}
    (hrun : run Served.step (served 0 {} newSession) [.read none (.data smallUpload) 0] = .ok st) :
    st.Announced .decode := by
  cases hrun
  intro _ buf s k hskip hs hk
  cases hskip
  cases hs
  cases hk
  exact ⟨by decide +kernel, fun _ _ _ _ _ _ => smallUpload_plain⟩

theorem delivered_as_announced_small : ∃ st out hs' sess',
    run Served.step (served 0 {} newSession) [.read none (.data smallUpload) 0] = .ok st ∧
      httpSessDecode st.hs st.sess = .ok (out, hs', sess') ∧ Delivered sess' := by
  obtain ⟨st, out, hs', sess', hrun, hdec, hcode, hm, -⟩ :=
    @uploadOf_eq (.data smallUpload) .dataAvailable .post 3 (by decide +kernel)
  refine ⟨st, out, hs', sess', hrun, hdec, ?_⟩
  refine delivered_as_announced 0 {} newSession hrun ?_ ?_ ?_ hdec hcode (.inl hm)
  · exact smallUpload_known
  · -- nothing was decoded before
    refine along_cons trivial fun s hs => along_cons ?_ fun s _ => along_nil s
    cases hs
    rintro ⟨c, hc, -⟩
    cases hc
  · refine along_cons trivial fun s hs => along_cons ?_ fun s _ => along_nil s
    exact smallUpload_announced (run_single hs)

/-- A body of -5 bytes is delivered at once. -/
theorem negative_length_delivered : ∃ st out hs' sess',
    run Served.step (served 0 {} newSession)
      [.read none (.data (ascii "POST /a HTTP/1.1\r\nContent-Length: -5\r\n\r\n")) 0] = .ok st ∧
      httpSessDecode st.hs st.sess = .ok (out, hs', sess') ∧ out.code = .dataAvailable ∧
      IsUpload sess'.httpMethod ∧ ¬ Delivered sess' := by
  obtain ⟨st, out, hs', sess', hrun, hdec, hcode, hm, hbl⟩ := @uploadOf_eq
    (.data (ascii "POST /a HTTP/1.1\r\nContent-Length: -5\r\n\r\n")) .dataAvailable .post (-5)
    (by decide +kernel)
  refine ⟨st, out, hs', sess', hrun, hdec, hcode, .inl hm, ?_⟩
  rintro ⟨v, -, hv, -⟩
  omega

end CassandraApi.Http
