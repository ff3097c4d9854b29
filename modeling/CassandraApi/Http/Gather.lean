/-
# `Http.Gather` — one read and one call while a request comes in

As long as the header has not been found the buffer holds what has arrived of it
(`Holding`).  A read appends its chunk (`read_early`), and a call of the decoder
either keeps waiting (`decode_early`) or finds the header complete and decodes it
(`decode_whole`).  What the header says is a function of its text, `afterHeader`.
From there on only the number of bytes counts (`Filled`, `read_late`).

The call that waits is the one that can go wrong: `strstr` does not know where the
data ends.  Skipping leading CR and LF bytes leaves old bytes behind the data, with
one NUL in front of them that the next read overwrites.  `Clean` is the state in
which none of them completes a CRLFCRLF.
-/
import CassandraApi.Http.Session

namespace CassandraApi.Http

open C

/-! ## The bytes of one request -/

def IsCrlf (c : UInt8) : Prop := c = 13 ∨ c = 10

instance : DecidablePred IsCrlf := fun c => inferInstanceAs (Decidable (c = 13 ∨ c = 10))

/-- Leading CR and LF bytes, then a header that ends with its first CRLFCRLF, then a body. -/
structure IsRequest (lead header body : List UInt8) : Prop where
  lead : ∀ c ∈ lead, IsCrlf c
  first : ∀ c, header.head? = some c → ¬ IsCrlf c
  ends : ∃ k, strstr header crlfcrlf = some k ∧ k + 4 = header.length
  noNul : 0 ∉ header
  small : header.length < httpMaxHeaderSize

/-- The header without its last CRLF, as the C string at the front of the buffer. -/
def headText (header : List UInt8) : List UInt8 := header.take (header.length - 2)

/-- What is known once the header is complete: the result if there is one, and the request. -/
def afterHeader (hs : HTTP) (req : Request) (header : List UInt8) :
    Option Outcome × HTTP × Request :=
  let req := { req with headerLength := header.length }
  if (header.length : Int) < 10 then
    (some ⟨.errDecode, some s!"session({req.no}), HTTP header is too small"⟩, hs, req)
  else
    let (out, hs, req, _) := decodeHeader hs req (headText header)
    (out, hs, req)

/-- The C string in the buffer does not have its first CRLFCRLF behind the data.  (A buffer that
starts with CR or LF is shifted first, and has a NUL behind its data then.) -/
def Clean (sess : HSSESSION) : Prop :=
  sess.headerLength < 0 →
    (∃ c, sess.rBuffer.data.rd 0 = .ok c ∧ (c = 13 ∨ c = 10)) ∨
    ∀ s k, sess.rBuffer.data.cstr 0 = .ok s → strstr s crlfcrlf = some k →
      (k + 4 : Nat) ≤ sess.rBuffer.len

/-! ## The buffer -/

/-- The buffer holds `held` and ends in a byte that is zero. -/
structure Holding (buf : HSDATA) (held : List UInt8) : Prop where
  len : buf.len = held.length
  block : (buf.data.size : Int) = buf.size + 8
  small : buf.size < 2 ^ 31
  fits : (held.length : Int) ≤ buf.size
  bytes : Holds buf.data 0 held
  pad : buf.data.byte buf.size.toNat = 0

namespace Holding

variable {buf : HSDATA} {held : List UInt8}

/-- There is a C string in the buffer, and it starts with what is held of the header. -/
theorem cstr {pre : List UInt8} (h : Holding buf held) (hpre : pre <+: held) (h0 : 0 ∉ pre) :
    ∃ t, buf.data.cstr 0 = .ok (pre ++ t) := by
  obtain ⟨u, rfl⟩ := hpre
  have hblock := h.block
  have hfits := h.fits
  rw [List.length_append] at hfits
  exact Block.cstrFrom_exists h.pad (by omega) h.bytes.left h0 (by omega) (by omega)

/-- A NUL written over held bytes ends the C string there. -/
theorem cut {pre rest : List UInt8} {c : UInt8} (h : Holding buf (pre ++ c :: rest)) :
    ∃ data, buf.data.write pre.length [0] = .ok data ∧ data.size = buf.data.size ∧
      Holds data 0 (pre ++ [0]) := by
  have hin := h.bytes.inside
  simp only [List.length_append, List.length_cons] at hin
  obtain ⟨data, hw⟩ : ∃ data, buf.data.write pre.length [0] = .ok data := by
    rw [Block.write, if_pos ⟨by omega, by simp only [List.length_singleton]; omega⟩]
    exact ⟨_, rfl⟩
  obtain ⟨hnew, hsize⟩ := Holds.written hw
  have hold := Holds.write_frame hw h.bytes.left (by simp)
  refine ⟨data, hw, hsize, Holds.append_iff.2 ⟨hold, ?_⟩⟩
  simpa using hnew

/-- A read appends its chunk. -/
theorem append (h : Holding buf held) (chunk : List UInt8)
    (hroom : (held ++ chunk).length ≤ buf.size) :
    ∃ data, buf.data.write buf.len chunk = .ok data ∧
      Holding ⟨buf.size, int32 (buf.len + chunk.length), data⟩ (held ++ chunk) := by
  have hblock := h.block
  have hlen := h.len
  have hsmall := h.small
  rw [List.length_append] at hroom
  have hw : buf.data.write buf.len chunk = .ok { buf.data with
      byte := fun k => if buf.len.toNat ≤ k ∧ k < buf.len.toNat + chunk.length
        then chunk.getD (k - buf.len.toNat) 0 else buf.data.byte k } := by
    rw [Block.write, if_pos ⟨by omega, by omega⟩]
  obtain ⟨hnew, hsize⟩ := Holds.written hw
  have hold := Holds.write_frame hw h.bytes (by omega)
  have hn : buf.len.toNat = 0 + held.length := by omega
  refine ⟨_, hw, ?_, by simpa using hblock, hsmall, by rw [List.length_append]; exact hroom,
    Holds.append_iff.2 ⟨hold, hn ▸ hnew⟩, ?_⟩
  · simp only
    rw [int32_of_range (by omega) (by omega), hlen, List.length_append]
    push_cast
    ring
  · simp only
    rw [if_neg (by omega)]
    exact h.pad

end Holding

/-! ## Leading CR and LF bytes -/

theorem countCrlf_eq {data : Block} : ∀ {xs ys : List UInt8} {i : Nat},
    Holds data i (xs ++ ys) → (∀ c ∈ xs, IsCrlf c) → (∀ c, ys.head? = some c → ¬ IsCrlf c) →
    countCrlf data (xs ++ ys).length i = .ok (i + xs.length)
  | [], [], i, _, _, _ => rfl
  | [], y :: ys, i, h, _, hy => by
    have hne : y ≠ 13 ∧ y ≠ 10 := not_or.1 (hy y rfl)
    simp only [List.nil_append, List.length_cons, countCrlf]
    rw [List.nil_append] at h
    rw [h.rd, ok_bind, if_pos hne]
    rfl
  | x :: xs, ys, i, h, hx, hy => by
    have ih := countCrlf_eq (i := i + 1) h.tail (fun c hc => hx c (List.mem_cons_of_mem _ hc)) hy
    have hcr : ¬ (x ≠ 13 ∧ x ≠ 10) := not_and_or.2 <|
      (hx x (List.mem_cons_self ..)).imp not_not.2 not_not.2
    simp only [List.cons_append, List.length_cons, countCrlf]
    rw [List.cons_append] at h
    rw [h.rd, ok_bind, if_neg hcr, ih]
    congr 1
    omega

/-- Leading CR and LF bytes are dropped; a buffer of nothing else is emptied. -/
theorem skipCrlf_eq {buf : HSDATA} {xs ys : List UInt8} (h : Holding buf (xs ++ ys))
    (hx : ∀ c ∈ xs, IsCrlf c) (hy : ∀ c, ys.head? = some c → ¬ IsCrlf c)
    (hne : xs ++ ys ≠ []) :
    if ys = [] then skipCrlf buf = .ok none
    else ∃ buf', skipCrlf buf = .ok (some buf') ∧ Holding buf' ys ∧
      (xs = [] → buf' = buf) ∧ (xs ≠ [] → Holds buf'.data 0 (ys ++ [0])) := by
  have hcount : countCrlf buf.data buf.len.toNat 0 = .ok xs.length := by
    rw [h.len, Int.toNat_natCast, countCrlf_eq h.bytes hx hy, Nat.zero_add]
  have hlen := h.len
  have hblock := h.block
  have hfits := h.fits
  rw [List.length_append] at hlen hfits
  by_cases hxs : xs = []
  · subst hxs
    rw [if_neg (by simpa using hne)]
    refine ⟨buf, ?_, by simpa using h, fun _ => rfl, fun h => absurd rfl h⟩
    simp [skipCrlf, hcount]
  · have hpos : xs.length ≠ 0 := fun h0 => hxs (List.length_eq_zero_iff.1 h0)
    by_cases hys : ys = []
    · subst hys
      simp only [List.length_nil] at hlen
      rw [if_pos rfl, skipCrlf, hcount, ok_bind, if_neg hpos, if_pos (by omega)]
      rfl
    · have hypos : 0 < ys.length := List.length_pos_iff.2 hys
      rw [if_neg hys]
      have hn : buf.len - xs.length = ys.length := by omega
      have hright : Holds buf.data xs.length ys := by simpa using h.bytes.right
      -- the bytes behind the moved ones stay, with a NUL between
      obtain ⟨d₁, hmove⟩ : ∃ d, buf.data.memmove 0 (xs.length : Nat) ys.length = .ok d := by
        rw [Block.memmove, if_pos ⟨le_refl _, by omega, by omega, by omega, by omega⟩]
        exact ⟨_, rfl⟩
      obtain ⟨hmoved, hsize₁⟩ := hright.moved hmove rfl
      obtain ⟨d₂, hwrite⟩ : ∃ d, d₁.write (ys.length : Nat) [0] = .ok d := by
        rw [Block.write, if_pos ⟨by omega, by simp only [List.length_singleton]; omega⟩]
        exact ⟨_, rfl⟩
      obtain ⟨hnul, hsize₂⟩ := Holds.written hwrite
      have hold := hmoved.write_frame hwrite (by simp)
      refine ⟨⟨buf.size, ys.length, d₂⟩, ?_, ?_, fun h => absurd h hxs,
        fun _ => Holds.append_iff.2 ⟨hold, by simpa using hnul⟩⟩
      · rw [skipCrlf, hcount, ok_bind, if_neg hpos, if_neg (by omega), hn, hmove, ok_bind, hwrite]
        rfl
      · refine ⟨rfl, by simp only; omega, h.small, by simp only; omega, hold, ?_⟩
        simp only
        rw [Block.write_byte hwrite (by simp only [List.length_singleton]; omega),
          Block.memmove_byte hmove (by omega)]
        exact h.pad

/-! ## One call of the decoder -/

section Decode

variable {lead header body held xs got : List UInt8} {hs : HTTP} {sess : HSSESSION}

theorem IsRequest.header_eq (h : IsRequest lead header body) :
    header = headText header ++ [13, 10] ∧
      strstr header crlfcrlf = some ((headText header).length - 2) ∧
      2 ≤ (headText header).length := by
  obtain ⟨k, hk, hlen⟩ := h.ends
  obtain ⟨hpre, -⟩ := strstr_match hk
  have hdrop : header.drop k = crlfcrlf := by
    refine (hpre.eq_of_length ?_).symm
    rw [List.length_drop, show crlfcrlf.length = 4 from rfl]
    omega
  have hd2 : header.drop (header.length - 2) = [13, 10] := by
    rw [show header.length - 2 = k + 2 by omega, ← List.drop_drop, hdrop]
    rfl
  have hl : (headText header).length = header.length - 2 := by
    rw [headText, List.length_take]; omega
  refine ⟨?_, ?_, by omega⟩
  · conv_lhs => rw [← List.take_append_drop (header.length - 2) header, hd2]
    rfl
  · rw [hk, hl]
    congr 1
    omega

theorem Holding.emptied (h : Holding sess.rBuffer held) :
    Holding { sess.rBuffer with len := 0 } [] := by
  have := h.fits
  exact ⟨rfl, h.block, h.small, by simp only [List.length_nil]; omega, .nil (Nat.zero_le _), h.pad⟩

/-- While the header is incomplete, a call on a clean buffer waits and keeps what it has. -/
theorem decode_early (hs : HTTP) (req : IsRequest lead header body)
    (h : Holding sess.rBuffer (xs ++ got)) (hx : ∀ c ∈ xs, IsCrlf c) (hne : xs ++ got ≠ [])
    (hpre : got <+: header)
    (hlt : got.length < header.length) (hneg : sess.headerLength < 0) (clean : Clean sess) :
    ∃ sess', httpSessDecode hs sess = .ok (⟨.waitMoreData, none⟩, hs, sess') ∧
      sess'.toRequest = sess.toRequest ∧ Holding sess'.rBuffer got ∧
      (xs = [] → sess'.rBuffer = sess.rBuffer) := by
  have hgot : ∀ c, got.head? = some c → ¬ IsCrlf c := by
    intro c hc
    obtain ⟨t, rfl⟩ := hpre
    exact req.first c (by rw [List.head?_append, hc]; rfl)
  have hpos : ¬ sess.rBuffer.len ≤ 0 := by
    have := List.length_pos_iff.2 hne
    rw [h.len]; omega
  have h0 : 0 ∉ got := fun h => req.noNul (hpre.subset h)
  have hskip := skipCrlf_eq h hx hgot hne
  split at hskip
  · rename_i hnil
    subst hnil
    refine ⟨{ sess with rBuffer := { sess.rBuffer with len := 0 }, readTime := 0 }, ?_, rfl,
      h.emptied, fun hxs => absurd hxs (by simpa using hne)⟩
    rw [httpSessDecode, if_neg hpos, if_pos hneg, hskip]
    rfl
  · rename_i hgne
    obtain ⟨buf', hskip, hh, hkeep, hnul⟩ := hskip
    obtain ⟨t, ht⟩ := hh.cstr (List.prefix_refl got) h0
    have hpos' : ¬ buf'.len ≤ 0 := by
      have := List.length_pos_iff.2 hgne
      rw [hh.len]; omega
    -- no CRLFCRLF in the C string: it would end in the data, and be the header's own
    have hnone : strstr (got ++ t) crlfcrlf = none := by
      cases hk : strstr (got ++ t) crlfcrlf with
      | none => rfl
      | some k =>
        exfalso
        have hle : k + 4 ≤ got.length := by
          by_cases hxs : xs = []
          · obtain rfl := hkeep hxs
            rcases clean hneg with ⟨c, hc, hcr⟩ | hclean
            · obtain ⟨g, gs, rfl⟩ := List.exists_cons_of_ne_nil hgne
              have hrd : sess.rBuffer.data.rd 0 = .ok g := hh.bytes.rd
              rw [hrd] at hc
              cases hc
              exact absurd hcr (hgot _ rfl)
            · have := hclean _ k ht hk
              rw [hh.len] at this
              omega
          · have hexact := Block.cstr_eq (hnul hxs) h0
            rw [ht] at hexact
            have htnil : t = [] := by simpa using hexact
            subst htnil
            have := (strstr_match hk).2
            simpa [crlfcrlf] using this
        have hgk : strstr got crlfcrlf = some k := by
          rw [strstr_take (by decide) hk, if_pos (by simpa [crlfcrlf] using hle)]
        obtain ⟨u, hu⟩ := hpre
        have hhead : strstr header crlfcrlf = some k := hu ▸ strstr_append hgk
        obtain ⟨k', hk', hlen⟩ := req.ends
        have : k = k' := Option.some.inj (hhead.symm.trans hk')
        omega
    have hsmall := req.small
    have hbig : ¬ buf'.len ≥ httpMaxHeaderSize := by rw [hh.len]; omega
    refine ⟨{ sess with rBuffer := buf' }, ?_, rfl, hh, hkeep⟩
    rw [httpSessDecode, if_neg hpos, if_pos hneg, hskip]
    simp only [ok_bind, findHeader, if_neg hpos', ht, hnone, if_neg hbig]
    rfl

/-- A buffer of which only the number of bytes still matters. -/
structure Filled (buf : HSDATA) (n : Nat) : Prop where
  len : buf.len = n
  block : (buf.data.size : Int) = buf.size + 8
  small : buf.size < 2 ^ 31
  fits : (n : Int) ≤ buf.size

theorem Holding.filled {buf : HSDATA} (h : Holding buf held) : Filled buf held.length :=
  ⟨h.len, h.block, h.small, h.fits⟩

theorem Filled.with_data {buf : HSDATA} {n : Nat} {data : Block} (h : Filled buf n)
    (hsize : data.size = buf.data.size) : Filled { buf with data := data } n :=
  ⟨h.len, by rw [← h.block, hsize], h.small, h.fits⟩

/-- The header is complete: what follows is a function of its text. -/
theorem takeHeader_eq {n : Nat} (hf : Filled sess.rBuffer n) (hle : header.length ≤ n)
    (hhead : Holds sess.rBuffer.data 0 (headText header ++ [0])) (h0 : 0 ∉ headText header)
    (hlen : sess.headerLength = header.length) {out : Option Outcome} {hs' : HTTP} {req' : Request}
    (hafter : afterHeader hs sess.toRequest header = (out, hs', req')) :
    ∃ sess', sess'.toRequest = req' ∧ Filled sess'.rBuffer n ∧
      takeHeader hs sess = .ok (match out with
        | some out => (out, hs', sess')
        | none => waitBody hs' sess') := by
  have hreq : { sess.toRequest with headerLength := (header.length : Int) } = sess.toRequest := by
    rw [← hlen]
  rw [afterHeader] at hafter
  simp only [hreq] at hafter
  by_cases hsmall : (header.length : Int) < 10
  · rw [if_pos hsmall] at hafter
    cases hafter
    exact ⟨sess, rfl, hf, by rw [takeHeader, hlen, if_pos hsmall]⟩
  · rw [if_neg hsmall] at hafter
    rcases hdec : decodeHeader hs sess.toRequest (headText header) with ⟨o, h₁, r₁, refused⟩
    rw [hdec] at hafter
    cases hafter
    have hblock := hf.block
    have hfits := hf.fits
    -- the NUL behind the header of a request that is refused stays inside the block
    obtain ⟨data, hdata, hsize⟩ : ∃ data, closeHeader sess refused = .ok data ∧
        data.size = sess.rBuffer.data.size := by
      cases refused with
      | false => exact ⟨_, rfl, rfl⟩
      | true =>
        rw [closeHeader, if_pos rfl, hlen, Block.write,
          if_pos ⟨by omega, by simp only [List.length_singleton]; omega⟩]
        exact ⟨_, rfl, rfl⟩
    refine ⟨{ sess with toRequest := r₁, rBuffer := { sess.rBuffer with data := data } }, rfl,
      hf.with_data hsize, ?_⟩
    rw [takeHeader, hlen, if_neg hsmall, Block.cstr_eq hhead h0]
    simp only [ok_bind, hdec, hdata]
    cases o <;> rfl

/-- A call that finds the whole header. -/
theorem decode_whole (req : IsRequest lead header body)
    (h : Holding sess.rBuffer (xs ++ (header ++ got))) (hx : ∀ c ∈ xs, IsCrlf c)
    (hneg : sess.headerLength < 0) {out : Option Outcome} {hs' : HTTP} {req' : Request}
    (hafter : afterHeader hs sess.toRequest header = (out, hs', req')) :
    ∃ sess', sess'.toRequest = req' ∧ Filled sess'.rBuffer (header.length + got.length) ∧
      httpSessDecode hs sess = .ok (match out with
        | some out => (out, hs', sess')
        | none => waitBody hs' sess') := by
  obtain ⟨heq, hstr, htwo⟩ := req.header_eq
  have hlen : header.length = (headText header).length + 2 := by
    conv_lhs => rw [heq]
    rw [List.length_append]; rfl
  have hfirst : ∀ c, (header ++ got).head? = some c → ¬ IsCrlf c := by
    intro c hc
    refine req.first c ?_
    rwa [List.head?_append_of_ne_nil] at hc
    rintro rfl
    simp at hlen
  have hne : header ++ got ≠ [] := by
    rintro hnil
    have := congrArg List.length hnil
    rw [List.length_append] at this
    simp only [List.length_nil] at this
    omega
  have hpos : ¬ sess.rBuffer.len ≤ 0 := by
    rw [h.len]; simp only [List.length_append]; omega
  have hskip := skipCrlf_eq h hx hfirst (by simp [hne])
  rw [if_neg hne] at hskip
  obtain ⟨buf, hskip, hh, -⟩ := hskip
  obtain ⟨t, ht⟩ := hh.cstr (List.prefix_append header got) req.noNul
  have hpos' : ¬ buf.len ≤ 0 := by
    rw [hh.len]; simp only [List.length_append]; omega
  have hsplit : header ++ got = headText header ++ 13 :: (10 :: got) := by
    conv_lhs => rw [heq]
    simp
  obtain ⟨data, hwrite, hsize, hhead⟩ := (hsplit ▸ hh).cut
  have h0 : 0 ∉ headText header := fun h => req.noNul (List.mem_of_mem_take h)
  let found : HSSESSION := { sess with
    rBuffer := { buf with data := data }, headerLength := header.length }
  have hf : Filled found.rBuffer (header.length + got.length) := by
    have := hh.filled.with_data hsize
    rwa [List.length_append] at this
  have hafter' : afterHeader hs found.toRequest header = (out, hs', req') := hafter
  obtain ⟨sess', hreq, hfill, htake⟩ := takeHeader_eq hf (by omega) hhead h0 rfl hafter'
  refine ⟨sess', hreq, hfill, ?_⟩
  rw [← htake, httpSessDecode, if_neg hpos, if_pos hneg, hskip]
  simp only [ok_bind, findHeader, if_neg hpos', ht, strstr_append hstr]
  rw [show (headText header).length - 2 + 2 = (headText header).length by omega, hwrite,
    show (headText header).length - 2 + 4 = header.length by omega]
  rfl

end Decode

/-! ## Reading -/

section Read

variable {held : List UInt8} {sess : HSSESSION} {alloc : Alloc} {now : Int} {n : Nat}

theorem adjustSize_ge {x : Int} (hx : 0 ≤ x) (hx' : x < 2 ^ 31)
    (hpos : 0 ≤ adjustSize x httpDataBuffer) :
    x ≤ adjustSize x httpDataBuffer ∧ adjustSize x httpDataBuffer < 2 ^ 31 := by
  have hr : x.tmod (httpDataBuffer : Nat) = x % 65536 := Int.tmod_eq_emod_of_nonneg hx
  unfold adjustSize at hpos ⊢
  rw [hr, show ((httpDataBuffer : Nat) : Int) = 65536 from rfl] at hpos ⊢
  by_cases hgt : x % 65536 > 0
  · rw [if_pos hgt] at hpos ⊢
    refine ⟨?_, (int32_range _).2⟩
    by_cases hfit : x + (65536 - x % 65536) < 2 ^ 31
    · rw [int32_of_range (by omega) hfit]; omega
    · -- an overflow makes the size negative
      exfalso
      unfold int32 at hpos
      rw [Int.bmod_def] at hpos
      split at hpos <;> omega
  · rw [if_neg hgt]
    exact ⟨le_refl _, hx'⟩

/-- A buffer that grows keeps what it has. -/
theorem alloc_filled (alloc : Alloc) {d : HSDATA} (h : Filled d n) (want : Int) :
    httpAllocBuffer alloc (some d) want = .ok none ∨
    ∃ d', httpAllocBuffer alloc (some d) want = .ok (some d') ∧ Filled d' n := by
  have hlen := h.len
  have hfits := h.fits
  rw [httpAllocBuffer]
  by_cases hgt : int32 (d.len + want) > d.size
  · rw [if_pos hgt]
    rw [Int.add_comm d.len want] at hgt
    obtain ⟨new, hnew⟩ : ∃ new, adjustSize (int32 (want + d.len)) httpDataBuffer = new := ⟨_, rfl⟩
    simp only [hnew]
    by_cases hneg : new < 0
    · exact .inl (if_pos hneg)
    · rw [if_neg hneg]
      cases alloc with
      | none => exact .inl rfl
      | some garbage =>
        obtain ⟨hge, hlt⟩ := adjustSize_ge (by omega) (int32_range (want + d.len)).2
          (by rw [hnew]; omega)
        rw [hnew] at hge hlt
        obtain ⟨block, hclear, hsize⟩ : ∃ block, (d.data.realloc (new + 8).toNat garbage).clear
            d.len (new - d.len) = .ok block ∧ block.size = (new + 8).toNat := by
          rw [Block.clear, if_pos ⟨by omega, by omega, by simp only [Block.realloc]; omega⟩]
          exact ⟨_, rfl, rfl⟩
        simp only [hclear]
        exact .inr ⟨_, rfl, hlen, by simp only; omega, hlt, by simp only; omega⟩
  · rw [if_neg hgt]
    exact .inr ⟨d, rfl, h⟩

theorem grow_filled (alloc : Alloc) (h : Filled sess.rBuffer n) :
    growForRequest alloc sess = .ok none ∨ ∃ grown, growForRequest alloc sess = .ok (some grown) ∧
      grown.toRequest = sess.toRequest ∧ Filled grown.rBuffer n := by
  unfold growForRequest
  by_cases hgt : int32 (sess.headerLength + sess.bodyLength) > sess.rBuffer.len
  · rw [if_pos hgt]
    rcases alloc_filled alloc h (int32 (sess.headerLength + sess.bodyLength)) with
      hnone | ⟨d', hd, hf⟩
    · exact .inl (by rw [hnone]; rfl)
    · exact .inr ⟨{ sess with rBuffer := d' }, by rw [hd]; rfl, rfl, hf⟩
  · rw [if_neg hgt]
    exact .inr ⟨sess, rfl, rfl, h⟩

/-- While the header is unknown the buffer does not grow. -/
theorem grow_early (h : Holding sess.rBuffer held)
    (hreq : sess.headerLength = -1 ∧ sess.bodyLength = -1) :
    growForRequest alloc sess = .ok (some sess) := by
  rw [growForRequest, hreq.1, hreq.2, if_neg]
  rw [int32_of_range (by omega) (by omega), h.len]
  omega

/-- A read appends its chunk. -/
theorem read_early (alloc : Alloc) (now : Int) {chunk : List UInt8} (h : Holding sess.rBuffer held)
    (hreq : sess.headerLength = -1 ∧ sess.bodyLength = -1) (hne : chunk ≠ [])
    (hroom : (chunk.length : Int) ≤ sess.room) :
    ∃ sess', httpSessRead alloc (.data chunk) now sess = .ok (⟨.ok, none⟩, sess') ∧
      sess'.toRequest = sess.toRequest ∧ Holding sess'.rBuffer (held ++ chunk) := by
  have hlen := h.len
  have hfits := h.fits
  have hsmall := h.small
  have hgrow : growForRequest alloc sess = .ok (some sess) := grow_early h hreq
  have hr : sess.room = sess.rBuffer.size - sess.rBuffer.len :=
    int32_of_range (by omega) (by omega)
  obtain ⟨data, hwrite, hh⟩ := h.append chunk (by
    rw [List.length_append]; push_cast; omega)
  obtain ⟨c, cs, rfl⟩ := List.exists_cons_of_ne_nil hne
  refine ⟨{ sess with
    recvCount := sess.recvCount + 1
    rBuffer := ⟨sess.rBuffer.size, int32 (sess.rBuffer.len + (c :: cs).length), data⟩
    activeTime := now
    readTime := now }, ?_, rfl, hh⟩
  rw [httpSessRead, hgrow]
  simp only [ok_bind, hwrite]
  rfl

/-- Zeros behind the data stay zeros behind the data. -/
theorem read_zero {chunk : List UInt8} {sess' : HSSESSION} (h : Holding sess.rBuffer held)
    (hreq : sess.headerLength = -1 ∧ sess.bodyLength = -1)
    (hz : ∀ k, held.length ≤ k → sess.rBuffer.data.byte k = 0)
    (hread : httpSessRead alloc (.data chunk) now sess = .ok (⟨.ok, none⟩, sess')) :
    ∀ k, (held ++ chunk).length ≤ k → sess'.rBuffer.data.byte k = 0 := by
  intro k hk
  rw [List.length_append] at hk
  rw [httpSessRead, grow_early h hreq, ok_bind] at hread
  cases chunk with
  | nil => cases hread
  | cons c cs =>
    obtain ⟨data, hwrite, hd⟩ := bind_eq_ok.1 hread
    cases hd
    simp only
    rw [Block.write_byte hwrite (by rw [h.len]; omega)]
    exact hz k (by omega)

/-- Once the header is known only the number of bytes counts. -/
theorem read_late (now : Int) {chunk : List UInt8} {grown : HSSESSION} (h : Filled grown.rBuffer n)
    (hgrow : growForRequest alloc sess = .ok (some grown)) (hne : chunk ≠ [])
    (hroom : (chunk.length : Int) ≤ grown.room) :
    ∃ sess', httpSessRead alloc (.data chunk) now sess = .ok (⟨.ok, none⟩, sess') ∧
      sess'.toRequest = grown.toRequest ∧ Filled sess'.rBuffer (n + chunk.length) := by
  have hlen := h.len
  have hfits := h.fits
  have hsmall := h.small
  have hblock := h.block
  have hr : grown.room = grown.rBuffer.size - grown.rBuffer.len :=
    int32_of_range (by omega) (by omega)
  obtain ⟨data, hwrite⟩ : ∃ data, grown.rBuffer.data.write grown.rBuffer.len chunk = .ok data := by
    rw [Block.write, if_pos ⟨by omega, by omega⟩]
    exact ⟨_, rfl⟩
  have hsize := (Holds.written hwrite).2
  obtain ⟨c, cs, rfl⟩ := List.exists_cons_of_ne_nil hne
  refine ⟨{ grown with
    recvCount := grown.recvCount + 1
    rBuffer := ⟨grown.rBuffer.size, (n + (c :: cs).length : Nat), data⟩
    activeTime := now
    readTime := now }, ?_, rfl, rfl, by simp only; omega, hsmall, by simp only; omega⟩
  rw [httpSessRead, hgrow]
  simp only [ok_bind, hwrite]
  rw [int32_of_range (by omega) (by omega), hlen]
  push_cast
  rfl

end Read

end CassandraApi.Http
