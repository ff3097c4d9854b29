/-
# `Http.Rejected` — a request that was rejected

HTTP_sess_decode sets `header_length` when it has found the end of the header,
and may reject the header after that.  A later call finds `header_length` set and
only asks whether the body is there: it answers "wait" or "data available",
whatever the earlier call has said.  Only a header without an end, which is too
big, is looked at again, and rejected again as long as it has no end.
-/
import CassandraApi.Http.Cut
import CassandraApi.Lib.Machine

namespace CassandraApi.Http

open C Lib

/-! ## Runs -/

/-- A session, and what HTTP_sess_decode has returned on it so far. -/
structure Served where
  hs : HTTP
  sess : HSSESSION
  log : List RetCode := []

/-- A call on the session, with what the outside does during it. -/
inductive ServedCall where
  | read (alloc : Alloc) (recv : Recv) (now : Int)
  | decode

def Served.step (st : Served) : ServedCall → Except Fault Served
  | .read alloc recv now => do
      let (_, sess) ← httpSessRead alloc recv now st.sess
      pure { st with sess := sess }
  | .decode => do
      let (out, hs, sess) ← httpSessDecode st.hs st.sess
      pure ⟨hs, sess, st.log ++ [out.code]⟩

/-- `recv` delivers no more than it was asked for. -/
def Served.Known (st : Served) : ServedCall → Prop
  | .read alloc (.data bytes) _ =>
      ∀ grown, growForRequest alloc st.sess = .ok (some grown) → (bytes.length : Int) ≤ grown.room
  | _ => True

/-- The request is rejected. -/
def IsRejection (c : RetCode) : Prop := c = .errDecode ∨ c = .errorAvailable

/-- What does not follow a rejection. -/
def StaysRejected (before after : RetCode) : Prop :=
  IsRejection before → after ≠ .dataAvailable ∧ after ≠ .waitMoreData

/-- The header has no end. -/
def Endless (sess : HSSESSION) : Prop :=
  sess.headerLength < 0 ∧ ∀ s, sess.rBuffer.data.cstr 0 = .ok s → strstr s crlfcrlf = none

/-- A request that was rejected is decoded again only if its header has no end. -/
def Served.LeftAlone (st : Served) : ServedCall → Prop
  | .decode => (∃ c ∈ st.log, IsRejection c) → Endless st.sess
  | _ => True

/-! ## Before the end of the header -/

/-- The read side of a session whose header has not been found. -/
structure Undecided (sess : HSSESSION) : Prop where
  header : sess.headerLength = -1
  body : sess.bodyLength = -1
  size : sess.rBuffer.size = httpDataBuffer
  low : 0 ≤ sess.rBuffer.len
  high : sess.rBuffer.len ≤ sess.rBuffer.size

/-- A buffer that starts with neither CR nor LF. -/
def Trimmed (buf : HSDATA) : Prop := ∃ c, buf.data.rd 0 = .ok c ∧ c ≠ 13 ∧ c ≠ 10

/-- The header is too big. -/
def TooBig (sess : HSSESSION) : Prop :=
  (httpMaxHeaderSize : Int) ≤ sess.rBuffer.len ∧ Trimmed sess.rBuffer

section

variable {hs hs' : HTTP} {sess sess' : HSSESSION} {out : Outcome}

theorem Undecided.opened (now : Int) (sess : HSSESSION) : Undecided (sess.opened now) :=
  ⟨rfl, rfl, rfl, le_refl _, by simp only [HSSESSION.opened]; decide⟩

/-- The buffer does not grow before the length of the request is known. -/
theorem Undecided.grow (h : Undecided sess) (alloc : Alloc) :
    growForRequest alloc sess = .ok (some sess) := by
  have hlow := h.low
  have hneg : int32 (sess.headerLength + sess.bodyLength) = -2 := by
    rw [h.header, h.body]
    decide
  rw [growForRequest, hneg, if_neg (by omega)]

theorem rd_zero_write {data data' : Block} {i : Int} {xs : List UInt8} {c : UInt8}
    (hw : data.write i xs = .ok data') (hi : 0 < i) (hc : data.rd 0 = .ok c) :
    data'.rd 0 = .ok c := by
  have hsize := (Holds.written hw).2
  have hbyte := Block.write_byte hw (k := 0) (.inl (by exact_mod_cast hi))
  simp only [Block.rd, hsize, Int.toNat_zero, hbyte] at hc ⊢
  exact hc

theorem rd_zero_memmove {data data' : Block} {i : Nat} {n : Int} {c : UInt8}
    (hm : data.memmove 0 i n = .ok data') (hn : 0 < n) (hc : data.rd i = .ok c) :
    data'.rd 0 = .ok c := by
  unfold Block.memmove at hm
  split at hm
  · rename_i hin
    cases hm
    have hget : data.byte i = c := by
      rw [Block.rd, if_pos (by omega)] at hc
      cases hc
      rfl
    rw [Block.rd, if_pos ⟨le_refl _, by simp only; omega⟩]
    simp only [Int.toNat_zero, Int.toNat_natCast, Nat.sub_zero, Nat.add_zero, hget]
    rw [if_pos ⟨le_refl _, by omega⟩]
  · cases hm

/-- HTTP_sess_read leaves what is known of the header, and the front of the buffer. -/
theorem Undecided.read (h : Undecided sess) {alloc : Alloc} {recv : Recv} {now : Int}
    (known : Served.Known ⟨hs, sess, []⟩ (.read alloc recv now))
    (hread : httpSessRead alloc recv now sess = .ok (out, sess')) :
    Undecided sess' ∧ (TooBig sess → TooBig sess') := by
  rw [httpSessRead, h.grow, ok_bind] at hread
  cases recv with
  | failed e =>
    cases hread
    exact ⟨h, id⟩
  | data bytes =>
    cases bytes with
    | nil =>
      cases hread
      exact ⟨h, id⟩
    | cons c cs =>
      have hroom := known sess (h.grow alloc)
      obtain ⟨data, hw, hpure⟩ := bind_eq_ok.1 hread
      cases hpure
      have hlow := h.low
      have hhigh := h.high
      have hsize := h.size
      have hbuf : (httpDataBuffer : Int) = 65536 := rfl
      rw [HSSESSION.room, int32_of_range (by omega) (by omega)] at hroom
      have hlen : int32 (sess.rBuffer.len + ((c :: cs).length : Nat)) =
          sess.rBuffer.len + ((c :: cs).length : Nat) :=
        int32_of_range (by omega) (by omega)
      refine ⟨⟨h.header, h.body, h.size, ?_, ?_⟩, ?_⟩
      · simp only [hlen]
        omega
      · simp only [hlen]
        omega
      · rintro ⟨hbig, x, hx, hcr⟩
        have hmax : (httpMaxHeaderSize : Int) = 16384 := rfl
        refine ⟨?_, x, rd_zero_write hw (by omega) hx, hcr⟩
        simp only [hlen]
        omega

/-- A header that is taken has a length. -/
theorem takeHeader_length (h : takeHeader hs sess = .ok (out, hs', sess')) :
    sess'.headerLength = sess.headerLength := by
  unfold takeHeader at h
  split at h
  · cases h
    rfl
  · obtain ⟨head, -, h⟩ := bind_eq_ok.1 h
    have hres := (decodeHeader_result hs sess.toRequest head).length
    generalize decodeHeader hs sess.toRequest head = d at h hres
    obtain ⟨o, hs₁, req, refused⟩ := d
    obtain ⟨data, -, h⟩ := bind_eq_ok.1 h
    cases o with
    | some o =>
      cases h
      exact hres
    | none =>
      simp only [waitBody, pure_eq_ok, Except.ok.injEq] at h
      split at h <;> cases h <;> exact hres

/-- The scan over leading CR and LF bytes ends at another byte, or at the end of the data. -/
theorem countCrlf_stop {data : Block} {left i n : Nat} (h : countCrlf data left i = .ok n) :
    i ≤ n ∧ (n < i + left → ∃ c, data.rd (n : Int) = .ok c ∧ c ≠ 13 ∧ c ≠ 10) := by
  induction left generalizing i with
  | zero =>
    cases h
    exact ⟨le_refl _, fun hlt => absurd hlt (lt_irrefl _)⟩
  | succ left ih =>
    obtain ⟨c, hc, h⟩ := bind_eq_ok.1 h
    split at h
    · rename_i hstop
      cases h
      exact ⟨le_refl _, fun _ => ⟨c, hc, hstop⟩⟩
    · obtain ⟨hle, hfound⟩ := ih h
      exact ⟨by omega, fun hlt => hfound (by omega)⟩

/-- The buffer after leading CR and LF bytes. -/
theorem skipCrlf_some {buf buf' : HSDATA} (h : skipCrlf buf = .ok (some buf'))
    (hlow : 0 ≤ buf.len) :
    buf'.size = buf.size ∧ 0 ≤ buf'.len ∧ buf'.len ≤ buf.len ∧ (0 < buf'.len → Trimmed buf') := by
  obtain ⟨i, hcount, h⟩ := bind_eq_ok.1 h
  have hstop := countCrlf_stop hcount
  split at h
  · rename_i hi
    subst hi
    cases h
    exact ⟨rfl, hlow, le_refl _, fun hpos => hstop.2 (by omega)⟩
  · split at h
    · cases h
    · obtain ⟨data, hmove, h⟩ := bind_eq_ok.1 h
      obtain ⟨data', hw, h⟩ := bind_eq_ok.1 h
      cases h
      refine ⟨rfl, by simp only; omega, by simp only; omega, fun hpos => ?_⟩
      obtain ⟨c, hc, hcr⟩ := hstop.2 (by omega)
      exact ⟨c, rd_zero_write hw (by simpa using hpos) (rd_zero_memmove hmove (by simpa using hpos) hc),
        hcr⟩

/-- One call of the decoder that does not find the end of the header. -/
theorem Undecided.decode (h : Undecided sess) (hdec : httpSessDecode hs sess = .ok (out, hs', sess'))
    (hneg : sess'.headerLength < 0) :
    Undecided sess' ∧ (IsRejection out.code → TooBig sess') := by
  have hlow := h.low
  have hhigh := h.high
  have hwait : ¬ IsRejection RetCode.waitMoreData := by
    rintro (hc | hc) <;> cases hc
  unfold httpSessDecode at hdec
  split at hdec
  · cases hdec
    exact ⟨h, fun hc => absurd hc hwait⟩
  · rw [if_pos (by rw [h.header]; decide)] at hdec
    obtain ⟨buf, hskip, hdec⟩ := bind_eq_ok.1 hdec
    cases buf with
    | none =>
      cases hdec
      exact ⟨⟨h.header, h.body, h.size, le_refl _, hlow.trans hhigh⟩, fun hc => absurd hc hwait⟩
    | some buf =>
      obtain ⟨hsize, hlow', hhigh', htrim⟩ := skipCrlf_some hskip hlow
      have hund : Undecided { sess with rBuffer := buf } :=
        ⟨h.header, h.body, hsize.trans h.size, hlow', by simp only; omega⟩
      simp only [findHeader] at hdec
      split at hdec
      · cases hdec
        exact ⟨hund, fun hc => absurd hc hwait⟩
      · rename_i hpos
        obtain ⟨s, -, hdec⟩ := bind_eq_ok.1 hdec
        split at hdec
        · split at hdec
          · rename_i hbig
            cases hdec
            exact ⟨hund, fun _ => ⟨hbig, htrim (by omega)⟩⟩
          · cases hdec
            exact ⟨hund, fun hc => absurd hc hwait⟩
        · obtain ⟨data, -, hdec⟩ := bind_eq_ok.1 hdec
          have hlen := takeHeader_length hdec
          simp only at hlen
          omega

end

/-! ## Whole runs -/

/-- What holds of a session along a run. -/
structure Served.Inv (st : Served) : Prop where
  undecided : st.sess.headerLength < 0 → Undecided st.sess
  big : (∃ c ∈ st.log, IsRejection c) → st.sess.headerLength < 0 → TooBig st.sess
  log : st.log.Pairwise StaysRejected

/-- Once there is a header the decoder leaves the session alone. -/
theorem decode_known {hs hs' : HTTP} {sess sess' : HSSESSION} {out : Outcome}
    (h : ¬ sess.headerLength < 0) (hdec : httpSessDecode hs sess = .ok (out, hs', sess')) :
    sess' = sess := by
  unfold httpSessDecode at hdec
  split at hdec
  · cases hdec
    rfl
  · rw [waitBody] at hdec
    split at hdec <;> cases hdec <;> rfl

/-- A session that was just opened. -/
def served (now : Int) (hs : HTTP) (sess : HSSESSION) : Served := ⟨hs, sess.opened now, []⟩

/-- What a run has logged, to evaluate runs. -/
def logOf (r : Except Fault Served) : Option (List RetCode) :=
  match r with
  | .ok st => some st.log
  | .error _ => none

theorem logOf_eq {r : Except Fault Served} {log : List RetCode} (h : logOf r = some log) :
    ∃ st, r = .ok st ∧ st.log = log := by
  cases r with
  | ok st => exact ⟨st, rfl, Option.some.inj h⟩
  | error f => cases h

end CassandraApi.Http
