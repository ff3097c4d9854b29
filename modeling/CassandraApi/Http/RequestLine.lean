/-
# `Http.RequestLine` — the request line and its grammar

A request line is a method, a blank, a target and a version.  The code looks for the
method among the first nine bytes and for ` HTTP/1.` in all of the header, so what
it takes for the version may stand in a later line, or end a line that has nothing
behind it.  `parsed_iff` says for which headers it reads what the grammar says.
The target is read with its escapes decoded, up to the first NUL they stand for.
-/
import CassandraApi.Http.Announced

namespace CassandraApi.Http

open C Codec

/-! ## The grammar -/

/-- The name of a method. -/
def Method.text : Method → List UInt8
  | .post => ascii "POST"
  | .get => ascii "GET"
  | .put => ascii "PUT"
  | .delete => ascii "DELETE"
  | .trace => ascii "TRACE"
  | .options => ascii "OPTIONS"
  | .head => ascii "HEAD"
  | .connect => ascii "CONNECT"

/-- The name of a method and the blank behind it. -/
def Method.token (m : Method) : List UInt8 := m.text ++ [32]

def versionMark : List UInt8 := ascii " HTTP/1."

/-- The first line of the header, up to the first CRLF, is a request line. -/
structure IsRequestLine (header : List UInt8) (m : Method) (target version : List UInt8) :
    Prop where
  line : ∃ c more, strstr header crlf = some c ∧
    header.take c = m.token ++ (target ++ (versionMark ++ more)) ∧ more ≠ [] ∧
    version = (ascii "HTTP/1." ++ more).take 8
  length : 1 ≤ target.length ∧ target.length < httpMaxQueryStringLen
  unmarked : ¬ versionMark <:+: target

/-- The header is refused unless its first line is a request line, and what is stored of it then is
what stands there. -/
structure Parsed (header : List UInt8) (out : Outcome) (req : Request) : Prop where
  accepted_iff : ¬ IsRejection out.code ↔ ∃ m target version, IsRequestLine header m target version
  stored : ∀ m target version, IsRequestLine header m target version →
    req.httpMethod = m ∧ (∀ uri, percentDecode target = some uri → req.requestUri = some uri) ∧
      req.headerVersion.take 8 = version

/-- The method `m` of `n` bytes at the front, and `u` bytes behind it the first version mark. -/
structure MarkFound (head : List UInt8) (m : Method) (n u : Nat) : Prop where
  method : findMethod (head.take 9) = some (m, n)
  mark : strstr (head.drop n) versionMark = some u
  length : 1 ≤ u ∧ u < httpMaxQueryStringLen

/-- The first line goes on behind byte `i`. -/
def InFirstLine (header : List UInt8) (i : Nat) : Prop := ∃ c, strstr header crlf = some c ∧ i < c

/-- Where a mark is found, a byte of the first line is behind it, except for an upload whose
Content-Length is refused, and no escape before it stands for a NUL. -/
def MarkPlain (header : List UInt8) : Prop :=
  ∀ m n u, MarkFound (headText header) m n u →
    (InFirstLine header (n + u + 8) ↔
      (IsUpload m → ∃ ll, contentLength (headText header) = some (.ok ll))) ∧
    (InFirstLine header (n + u + 8) → ∀ uri,
      percentDecode (((headText header).drop n).take u) = some uri → 0 ∉ uri)

/-! ## The method -/

theorem token_length (m : Method) : m.token.length ≤ 8 := by
  cases m <;> decide

theorem token_inj : ∀ {m m' : Method}, m.token <+: m'.token → m = m' := by
  intro m m' h
  cases m <;> cases m' <;> first | rfl | exact absurd h (by decide)

theorem findMethod_token {first : List UInt8} {m : Method} {n : Nat}
    (h : findMethod first = some (m, n)) : m.token <+: first ∧ n = m.token.length := by
  unfold findMethod at h
  split_ifs at h
  all_goals
    cases h
    exact ⟨strstr_zero.1 ‹_›, rfl⟩

theorem findMethod_none {first : List UInt8} (h : findMethod first = none) (m : Method) :
    ¬ m.token <+: first := by
  unfold findMethod at h
  split_ifs at h
  intro hm
  have hfound := strstr_zero.2 hm
  cases m <;> contradiction

theorem findMethod_iff {first : List UInt8} {m : Method} {n : Nat} :
    findMethod first = some (m, n) ↔ m.token <+: first ∧ n = m.token.length := by
  refine ⟨findMethod_token, ?_⟩
  rintro ⟨hm, rfl⟩
  cases hfound : findMethod first with
  | none => exact absurd hm (findMethod_none hfound m)
  | some found =>
    obtain ⟨m', n'⟩ := found
    obtain ⟨hm', rfl⟩ := findMethod_token hfound
    rcases List.prefix_or_prefix_of_prefix hm hm' with h | h
    · rw [token_inj h]
    · rw [token_inj h]

/-! ## The first line -/

section FirstLine

variable {header body : List UInt8} {m : Method} {n u : Nat} {target version : List UInt8}

theorem versionMark_first : (32 : UInt8) ∉ ascii "HTTP/1." := by
  decide

/-- The text that is searched starts with the first line. -/
theorem headText_take {c : Nat} (hc : strstr header crlf = some c) :
    header.take c = (headText header).take c := by
  have hle : c + 2 ≤ header.length := (strstr_match hc).2
  rw [headText, List.take_take, min_eq_left (by omega)]

/-- The mark of a request line is the one that is found. -/
theorem IsRequestLine.found (h : IsRequestLine header m target version) :
    ∃ c more rest, strstr header crlf = some c ∧ more ≠ [] ∧
      headText header = m.token ++ (target ++ (versionMark ++ (more ++ rest))) ∧
      version = (ascii "HTTP/1." ++ more).take 8 ∧
      m.token.length + target.length + 8 < c ∧
      MarkFound (headText header) m m.token.length target.length := by
  obtain ⟨c, more, hc, hline, hmore, hversion⟩ := h.line
  have hpos : 0 < more.length := List.length_pos_iff.2 hmore
  have hle : c + 2 ≤ header.length := (strstr_match hc).2
  have hmark : versionMark.length = 8 := by decide
  have hlen := congrArg List.length hline
  simp only [List.length_append, List.length_take, hmark] at hlen
  have hhead : headText header =
      m.token ++ (target ++ (versionMark ++ (more ++ (headText header).drop c))) := by
    calc headText header = (headText header).take c ++ (headText header).drop c :=
          (List.take_append_drop c _).symm
      _ = _ := by
        rw [← headText_take hc, hline]
        simp only [List.append_assoc]
  refine ⟨c, more, _, hc, hmore, hhead, hversion, by omega, ?_, ?_, h.length⟩
  · rw [findMethod_iff, hhead]
    refine ⟨?_, rfl⟩
    exact List.prefix_take_iff.2 ⟨List.prefix_append _ _, (token_length m).trans (by decide)⟩
  · rw [hhead, List.drop_left]
    exact strstr_behind versionMark_first h.unmarked

/-- A mark that is found makes the first line a request line if the line goes on behind it. -/
theorem MarkFound.isRequestLine (h : MarkFound (headText header) m n u)
    (hin : InFirstLine header (n + u + 8)) :
    ∃ version, IsRequestLine header m (((headText header).drop n).take u) version := by
  obtain ⟨hm, rfl⟩ := findMethod_iff.1 h.method
  obtain ⟨c, hc, hlt⟩ := hin
  obtain ⟨hmatch, hfits⟩ := strstr_match h.mark
  have hmark : versionMark.length = 8 := by decide
  have hle : c + 2 ≤ header.length := (strstr_match hc).2
  have hall : (headText header).length = header.length - 2 := by
    rw [headText, List.length_take, min_eq_left (Nat.sub_le ..)]
  have htoken : (headText header).take m.token.length = m.token :=
    (List.prefix_iff_eq_take.1 (hm.trans (List.take_prefix _ _))).symm
  obtain ⟨rest, hrest⟩ := hmatch
  have hhead : headText header = m.token ++ (((headText header).drop m.token.length).take u ++
      (versionMark ++ rest)) := by
    calc headText header = (headText header).take m.token.length ++
          (headText header).drop m.token.length := (List.take_append_drop _ _).symm
      _ = m.token ++ (((headText header).drop m.token.length).take u ++
          ((headText header).drop m.token.length).drop u) := by
        rw [htoken, List.take_append_drop]
      _ = _ := by rw [hrest]
  have hu : (((headText header).drop m.token.length).take u).length = u := by
    rw [List.length_take]
    omega
  have hlen := congrArg List.length hhead
  simp only [List.length_append, hu, hmark, hall] at hlen
  -- what the first line has behind the mark
  obtain ⟨more, hmore⟩ : ∃ more, rest.take (c - (m.token.length + u + 8)) = more := ⟨_, rfl⟩
  have hmorelen : more.length = c - (m.token.length + u + 8) := by
    rw [← hmore, List.length_take]
    omega
  have hsplit : headText header = (m.token ++ (((headText header).drop m.token.length).take u ++
      (versionMark ++ more))) ++ rest.drop (c - (m.token.length + u + 8)) := by
    conv_lhs => rw [hhead, ← List.take_append_drop (c - (m.token.length + u + 8)) rest, hmore]
    simp only [List.append_assoc]
  refine ⟨_, ⟨c, more, hc, ?_, ?_, rfl⟩, hu.symm ▸ h.length, ?_⟩
  · rw [headText_take hc]
    conv_lhs => rw [hsplit]
    refine List.take_left' ?_
    simp only [List.length_append, hu, hmark, hmorelen]
    omega
  · rintro rfl
    rw [List.length_nil] at hmorelen
    omega
  · rw [← strstr_none_iff (by decide), strstr_take (by decide) (k := u) (t :=
      ((headText header).drop m.token.length).drop u), if_neg]
    · rw [hu, hmark]
      omega
    · rw [List.take_append_drop]
      exact h.mark

/-- A request line is there exactly if a mark is found that the first line goes on behind. -/
theorem isRequestLine_iff :
    (∃ m target version, IsRequestLine header m target version) ↔
      ∃ m n u, MarkFound (headText header) m n u ∧ InFirstLine header (n + u + 8) := by
  constructor
  · rintro ⟨m, target, version, h⟩
    obtain ⟨c, more, rest, hc, -, -, -, hlt, hfound⟩ := h.found
    exact ⟨m, _, _, hfound, c, hc, hlt⟩
  · rintro ⟨m, n, u, hfound, hin⟩
    obtain ⟨version, h⟩ := hfound.isRequestLine hin
    exact ⟨m, _, version, h⟩

theorem MarkFound.unique {head : List UInt8} {m m' : Method} {n n' u u' : Nat}
    (h : MarkFound head m n u) (h' : MarkFound head m' n' u') : m = m' ∧ n = n' ∧ u = u' := by
  have hmethod := h.method.symm.trans h'.method
  cases hmethod
  exact ⟨rfl, rfl, Option.some.inj (h.mark.symm.trans h'.mark)⟩

end FirstLine

/-! ## What is stored -/

/-- The result is a rejection. -/
def Rejects (out : Option Outcome) : Prop := ∃ o, out = some o ∧ IsRejection o.code

/-- What is stored for a mark that is found. -/
structure Stored (head : List UInt8) (m : Method) (n u : Nat) (before after : Request) : Prop where
  method : after.httpMethod = m
  uri : after.requestUri = some (beforeNul (urlDecodeInit ((head.drop n).take u)))
  version : after.headerVersion =
    ((head ++ [0]).drop (n + u + 1)).take 8 ++ before.headerVersion.drop 8

section Decode

variable {hs : HTTP} {req : Request} {head : List UInt8} {m : Method} {n u : Nat}

theorem decodeBodyLength_stored (req : Request) (head : List UInt8) :
    (Rejects (decodeBodyLength req head).1 ↔ ¬ ∃ ll, contentLength head = some (.ok ll)) ∧
      (decodeBodyLength req head).2.httpMethod = req.httpMethod ∧
      (decodeBodyLength req head).2.requestUri = req.requestUri ∧
      (decodeBodyLength req head).2.headerVersion = req.headerVersion := by
  unfold decodeBodyLength
  cases hc : contentLength head with
  | none => exact ⟨iff_of_true ⟨_, rfl, .inl rfl⟩ (by simp), rfl, rfl, rfl⟩
  | some r =>
    cases r with
    | error line => exact ⟨iff_of_true ⟨_, rfl, .inl rfl⟩ (by simp), rfl, rfl, rfl⟩
    | ok ll =>
      refine ⟨iff_of_false ?_ (not_not.2 ⟨ll, rfl⟩), rfl, rfl, rfl⟩
      rintro ⟨o, ho, -⟩
      cases ho

/-- With a mark, the method, the target and the version are stored, and only the length of the body
can still be refused. -/
theorem decodeHeader_found (h : MarkFound head m n u) (memory : req.requestUri.isSome = true)
    (hfits : u ≤ (head.drop n).length) :
    Stored head m n u req (decodeHeader hs req head).2.2.1 ∧
      (Rejects (decodeHeader hs req head).1 ↔
        ¬ (IsUpload m → ∃ ll, contentLength head = some (.ok ll))) := by
  obtain ⟨uri, huri⟩ := Option.isSome_iff_exists.1 memory
  have hlen : ((head.drop n).take u).length = u := by
    rw [List.length_take, min_eq_left hfits]
  have hmark : strstr (head.drop n) (ascii " HTTP/1.") = some u := h.mark
  unfold decodeHeader decodeUri
  simp only [h.method, hmark, hlen, if_pos h.length, huri, Option.map_some]
  by_cases hup : m ≠ .put ∧ m ≠ .post
  · rw [if_pos hup]
    refine ⟨⟨rfl, rfl, rfl⟩, iff_of_false ?_ (not_not.2 ?_)⟩
    · rintro ⟨o, ho, hrej⟩
      cases ho
      rcases hrej with hcode | hcode <;> cases hcode
    · rintro (rfl | rfl)
      · exact absurd rfl hup.2
      · exact absurd rfl hup.1
  · rw [if_neg hup]
    have hupload : IsUpload m := by
      unfold IsUpload
      tauto
    simp only
    obtain ⟨hrej, hm, hu, hv⟩ := decodeBodyLength_stored
      { req with
        errorResponse := 0
        httpMethod := m
        headerVersion := ((head ++ [0]).drop (n + u + 1)).take 8 ++ req.headerVersion.drop 8
        requestUri := some (beforeNul (urlDecodeInit ((head.drop n).take u))) } head
    refine ⟨⟨hm, hu, hv⟩, hrej.trans (not_congr ⟨fun hll _ => hll, fun hll => hll hupload⟩)⟩

/-- Without a mark the header is refused. -/
theorem decodeHeader_unfound (h : ∀ m n u, ¬ MarkFound head m n u) :
    Rejects (decodeHeader hs req head).1 := by
  unfold decodeHeader
  simp only
  cases hm : findMethod (head.take 9) with
  | none => exact ⟨_, rfl, .inr rfl⟩
  | some found =>
    obtain ⟨m, n⟩ := found
    simp only
    cases hv : strstr (head.drop n) (ascii " HTTP/1.") with
    | none => exact ⟨_, rfl, .inr rfl⟩
    | some u =>
      have hfits : u ≤ (head.drop n).length := by
        have := (strstr_match hv).2
        omega
      unfold decodeUri
      simp only
      rw [if_neg]
      · exact ⟨_, rfl, .inr rfl⟩
      · rw [List.length_take, min_eq_left hfits]
        exact fun hlen => h m n u ⟨hm, hv, hlen⟩

end Decode

/-! ## What is stored and what stands there -/

section StoredLine

variable {header : List UInt8} {m : Method} {n u : Nat} {before after : Request}

theorem version_taken {rest : List UInt8} (b : UInt8) :
    (ascii "HTTP/1." ++ b :: rest).take 8 = ascii "HTTP/1." ++ [b] := by
  have hlen : (ascii "HTTP/1.").length = 7 := by decide
  rw [List.take_append, hlen, List.take_of_length_le (by rw [hlen]; decide)]
  rfl

/-- The version of a request line is the one that is stored. -/
theorem Stored.version_eq {target version : List UInt8}
    (h : Stored (headText header) m m.token.length target.length before after)
    (hline : IsRequestLine header m target version) : after.headerVersion.take 8 = version := by
  obtain ⟨c, more, rest, -, hmore, hhead, rfl, -, -⟩ := hline.found
  obtain ⟨b, more, rfl⟩ := List.exists_cons_of_ne_nil hmore
  have hsplit : headText header ++ [0] = (m.token ++ target ++ [32]) ++
      (ascii "HTTP/1." ++ b :: (more ++ rest ++ [0])) := by
    have hmark : versionMark = 32 :: ascii "HTTP/1." := by decide
    rw [hhead, hmark]
    simp
  have hdrop : (headText header ++ [0]).drop (m.token.length + target.length + 1) =
      ascii "HTTP/1." ++ b :: (more ++ rest ++ [0]) := by
    rw [hsplit]
    refine List.drop_left' ?_
    simp only [List.length_append, List.length_singleton]
  rw [h.version, hdrop, version_taken, version_taken]
  refine List.take_left' ?_
  rw [List.length_append, List.length_singleton]
  decide

/-- The target of a request line. -/
theorem IsRequestLine.target_eq {target version : List UInt8}
    (h : IsRequestLine header m target version) :
    ((headText header).drop m.token.length).take target.length = target := by
  obtain ⟨c, more, rest, -, -, hhead, -⟩ := h.found
  rw [hhead, List.drop_left, List.take_left]

/-- What is stored is what stands in the first line if no escape stands for a NUL. -/
theorem Stored.line_iff (h : Stored (headText header) m n u before after)
    (hfound : MarkFound (headText header) m n u) (hin : InFirstLine header (n + u + 8)) :
    (∀ m' target version, IsRequestLine header m' target version →
      after.httpMethod = m' ∧
        (∀ uri, percentDecode target = some uri → after.requestUri = some uri) ∧
        after.headerVersion.take 8 = version) ↔
    ∀ uri, percentDecode (((headText header).drop n).take u) = some uri → 0 ∉ uri := by
  constructor
  · intro hstored uri huri
    obtain ⟨version, hline⟩ := hfound.isRequestLine hin
    have heq := (hstored _ _ _ hline).2.1 uri huri
    rw [h.uri, urlDecodeInit_eq huri] at heq
    exact beforeNul_eq_self.1 (Option.some.inj heq)
  · intro hplain m' target version hline
    obtain ⟨c, more, rest, -, -, -, -, -, hfound'⟩ := hline.found
    obtain ⟨rfl, rfl, rfl⟩ := hfound.unique hfound'
    rw [hline.target_eq] at hplain
    refine ⟨h.method, fun uri huri => ?_, h.version_eq hline⟩
    rw [h.uri, hline.target_eq, urlDecodeInit_eq huri, beforeNul_eq_self.2 (hplain uri huri)]

end StoredLine

/-! ## One read -/

theorem waitBody_not_rejected (hs : HTTP) (sess : HSSESSION) :
    ∃ out hs', waitBody hs sess = (out, hs', sess) ∧ ¬ IsRejection out.code := by
  unfold waitBody
  split
  · exact ⟨_, _, rfl, by rintro (h | h) <;> cases h⟩
  · exact ⟨_, _, rfl, by rintro (h | h) <;> cases h⟩

/-- What comes of a request that arrives with its whole header in the first read. -/
theorem whole_read (alloc : Alloc) (now : Int) (hs : HTTP) {sess : HSSESSION}
    {header body : List UInt8} (opened : Opened sess) (req : IsRequest [] header body)
    (big : 10 ≤ header.length) (room : ((header ++ body).length : Int) ≤ sess.room) :
    ∃ out hs' sess', readAndDecode alloc now (header ++ body) hs sess = .ok (out, hs', sess') ∧
      sess'.toRequest = (decodeHeader hs { sess.toRequest with headerLength := header.length }
        (headText header)).2.2.1 ∧
      (IsRejection out.code ↔ Rejects (decodeHeader hs
        { sess.toRequest with headerLength := header.length } (headText header)).1) := by
  have hne : header ++ body ≠ [] := by
    rintro hnil
    have := congrArg List.length hnil
    simp only [List.length_append, List.length_nil] at this
    omega
  obtain ⟨sess₁, hread, hsame, hheld⟩ :=
    read_early alloc now opened.holding opened.lengths hne room
  rcases hdec : decodeHeader hs { sess.toRequest with headerLength := header.length }
    (headText header) with ⟨o, hs', req', refused⟩
  have hafter : afterHeader hs sess₁.toRequest header = (o, hs', req') := by
    rw [afterHeader, hsame, if_neg (by omega), hdec]
  obtain ⟨sess', hreq, -, hcall⟩ := decode_whole req hheld (by simp)
    (by rw [hsame, opened.lengths.1]; decide) hafter
  rw [readAndDecode, hread, ok_bind]
  simp only [hcall]
  cases o with
  | some o =>
    refine ⟨o, hs', sess', rfl, hreq, fun h => ⟨o, rfl, h⟩, ?_⟩
    rintro ⟨o', ho, h⟩
    cases ho
    exact h
  | none =>
    obtain ⟨out, hs'', hwait, hnot⟩ := waitBody_not_rejected hs' sess'
    refine ⟨out, hs'', sess', congrArg Except.ok hwait, hreq, iff_of_false hnot ?_⟩
    rintro ⟨o, ho, -⟩
    cases ho

/-- A header in one read is parsed by the grammar exactly if its mark is plain. -/
theorem request_line_parsed_iff (alloc : Alloc) (now : Int) (hs : HTTP) {sess : HSSESSION}
    {header body : List UInt8} (opened : Opened sess) (memory : sess.requestUri.isSome = true)
    (req : IsRequest [] header body) (big : 10 ≤ header.length)
    (room : ((header ++ body).length : Int) ≤ sess.room) :
    ∃ out hs' sess', readAndDecode alloc now (header ++ body) hs sess = .ok (out, hs', sess') ∧
      (Parsed header out sess'.toRequest ↔ MarkPlain header) := by
  obtain ⟨out, hs', sess', hcall, hreq, hrej⟩ := whole_read alloc now hs opened req big room
  refine ⟨out, hs', sess', hcall, ?_⟩
  by_cases hmark : ∃ m n u, MarkFound (headText header) m n u
  · obtain ⟨m, n, u, hfound⟩ := hmark
    have hfits : u ≤ ((headText header).drop n).length := by
      have := (strstr_match hfound.mark).2
      omega
    obtain ⟨hstored, hrejects⟩ := @decodeHeader_found hs
      { sess.toRequest with headerLength := header.length } (headText header) m n u hfound memory
      hfits
    rw [← hreq] at hstored
    have haccepted := not_congr (hrej.trans hrejects)
    rw [not_not] at haccepted
    have hline : (∃ m target version, IsRequestLine header m target version) ↔
        InFirstLine header (n + u + 8) := by
      rw [isRequestLine_iff]
      refine ⟨?_, fun hin => ⟨m, n, u, hfound, hin⟩⟩
      rintro ⟨m', n', u', hfound', hin⟩
      obtain ⟨-, rfl, rfl⟩ := hfound.unique hfound'
      exact hin
    constructor
    · intro parsed m' n' u' hfound'
      obtain ⟨rfl, rfl, rfl⟩ := hfound.unique hfound'
      refine ⟨hline.symm.trans (parsed.accepted_iff.symm.trans haccepted), fun hin => ?_⟩
      exact (hstored.line_iff hfound hin).1 parsed.stored
    · intro hplain
      obtain ⟨hin, hnul⟩ := hplain m n u hfound
      refine ⟨haccepted.trans (hin.symm.trans hline.symm), fun m' target version h => ?_⟩
      have hin' := hline.1 ⟨m', target, version, h⟩
      exact (hstored.line_iff hfound hin').2 (hnul hin') m' target version h
  · -- no mark: refused, and no request line
    have hnone : ∀ m n u, ¬ MarkFound (headText header) m n u := fun m n u h => hmark ⟨m, n, u, h⟩
    have hno : ¬ ∃ m target version, IsRequestLine header m target version := by
      rw [isRequestLine_iff]
      rintro ⟨m, n, u, h, -⟩
      exact hnone m n u h
    refine iff_of_true ⟨?_, fun m target version h => ?_⟩ fun m n u h => absurd h (hnone m n u)
    · exact iff_of_false (not_not.2 (hrej.2 (decodeHeader_unfound hnone))) hno
    · exact absurd ⟨m, target, version, h⟩ hno

/-- An upload of three bytes. -/
theorem request_line_parsed_iff_small :
    ∃ out hs' sess', readAndDecode none 0
        (ascii "POST /%61 HTTP/1.1\r\nContent-Length: 3\r\n\r\n" ++ ascii "abc") {} newSession =
          .ok (out, hs', sess') ∧
      Parsed (ascii "POST /%61 HTTP/1.1\r\nContent-Length: 3\r\n\r\n") out sess'.toRequest := by
  have req : IsRequest [] (ascii "POST /%61 HTTP/1.1\r\nContent-Length: 3\r\n\r\n")
      (ascii "abc") := by
    refine ⟨by simp, fun c hc => ?_, ⟨37, by decide +kernel, by decide⟩, by decide, by decide⟩
    cases hc
    decide
  obtain ⟨out, hs', sess', hcall, hiff⟩ := request_line_parsed_iff none 0 {}
    (opened_opened 0 _ : Opened newSession) rfl req (by decide) (by decide)
  refine ⟨out, hs', sess', hcall, hiff.2 fun m n u hfound => ?_⟩
  have hmark : MarkFound (headText (ascii "POST /%61 HTTP/1.1\r\nContent-Length: 3\r\n\r\n"))
      .post 5 4 := ⟨by decide +kernel, by decide +kernel, by decide⟩
  obtain ⟨rfl, rfl, rfl⟩ := hfound.unique hmark
  refine ⟨iff_of_true ⟨18, by decide +kernel, by decide⟩ fun _ => ⟨3, by decide +kernel⟩, ?_⟩
  intro _ uri huri
  have hdecoded : percentDecode (((headText
      (ascii "POST /%61 HTTP/1.1\r\nContent-Length: 3\r\n\r\n")).drop 5).take 4) =
        some (ascii "/a") := by decide +kernel
  rw [hdecoded] at huri
  cases huri
  decide

/-- A version mark that ends its line is accepted, and is no version. -/
theorem bare_mark_accepted :
    IsRequest [] (ascii "GET / HTTP/1.\r\nContent-Length: 0\r\n\r\n") [] ∧
      HasContentLength (headText (ascii "GET / HTTP/1.\r\nContent-Length: 0\r\n\r\n")) 0 ∧
      ∃ out hs' sess', readAndDecode none 0 (ascii "GET / HTTP/1.\r\nContent-Length: 0\r\n\r\n")
          {} newSession = .ok (out, hs', sess') ∧
        ¬ Parsed (ascii "GET / HTTP/1.\r\nContent-Length: 0\r\n\r\n") out sess'.toRequest := by
  have req : IsRequest [] (ascii "GET / HTTP/1.\r\nContent-Length: 0\r\n\r\n") [] := by
    refine ⟨by simp, fun c hc => ?_, ⟨32, by decide +kernel, by decide⟩, by decide, by decide⟩
    cases hc
    decide
  refine ⟨req, ⟨ascii "GET / HTTP/1.", ascii "Content-Length", ascii " 0\r\n",
    by decide +kernel, by decide +kernel, [32], ascii "0", [], [], by decide +kernel,
    fun c hc => .inl (List.mem_singleton.1 hc), by simp, by decide, by decide +kernel,
    by decide +kernel⟩, ?_⟩
  obtain ⟨out, hs', sess', hcall, -, hrej⟩ := whole_read none 0 {}
    (opened_opened 0 _ : Opened newSession) req (by decide +kernel) (by decide +kernel)
  refine ⟨out, hs', sess', hcall, fun parsed => ?_⟩
  have haccepted : ¬ IsRejection out.code := by
    intro h
    obtain ⟨o, ho, hcode⟩ := hrej.1 h
    have hdata : (decodeHeader {} { newSession.toRequest with headerLength :=
        (ascii "GET / HTTP/1.\r\nContent-Length: 0\r\n\r\n").length }
        (headText (ascii "GET / HTTP/1.\r\nContent-Length: 0\r\n\r\n"))).1 =
          some ⟨.dataAvailable, none⟩ := by decide +kernel
    cases ho.symm.trans hdata
    rcases hcode with h | h <;> cases h
  obtain ⟨m, n, u, hfound, c, hc, hlt⟩ := isRequestLine_iff.1 (parsed.accepted_iff.1 haccepted)
  have hmark : MarkFound (headText (ascii "GET / HTTP/1.\r\nContent-Length: 0\r\n\r\n"))
      .get 4 1 := ⟨by decide +kernel, by decide +kernel, by decide⟩
  obtain ⟨rfl, rfl, rfl⟩ := hfound.unique hmark
  have hend : strstr (ascii "GET / HTTP/1.\r\nContent-Length: 0\r\n\r\n") crlf = some 13 := by
    decide +kernel
  cases hc.symm.trans hend
  exact absurd hlt (by decide)

end CassandraApi.Http
