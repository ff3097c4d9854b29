/-
# `Http.Room` — the room HTTP_sess_read offers while data is awaited

HTTP_sess_read makes the buffer grow when the length of the request is known and
more than the buffer holds.  Whether it must grow is decided by an `int` sum of the
two: it overflows for a body of almost 2^31 bytes, the buffer is taken to be large
enough, and when it is full `recv` is called with a size of 0.
-/
import CassandraApi.Http.Rejected

namespace CassandraApi.Http

open C Lib

/-! ## What `recv` does -/

/-- What there is at the socket. -/
inductive Incoming where
  | failed (strerror : String)
  | closed
  | bytes (c : UInt8) (cs : List UInt8)

/-- `recv` with a size: no more than `n` bytes, and none when `n` is 0. -/
def Incoming.recv (n : Int) : Incoming → Recv
  | .failed e => .failed e
  | .closed => .data []
  | .bytes c cs => .data ((c :: cs).take n.toNat)

/-- HTTP_sess_read can be called: for `recv` there is at least one byte of room in the block, what
was received stays, and the peer is said to have closed only when it has. -/
def HasRoom (sess : HSSESSION) : Prop :=
  ∀ alloc, (∃ grown, growForRequest alloc sess = .ok grown) ∧
    ∀ grown, growForRequest alloc sess = .ok (some grown) →
      1 ≤ grown.room ∧ 0 ≤ grown.rBuffer.len ∧
      grown.rBuffer.len + grown.room ≤ grown.rBuffer.data.size ∧
      ∀ (incoming : Incoming) (now : Int), ∃ out sess',
        httpSessRead alloc (incoming.recv grown.room) now sess = .ok (out, sess') ∧
        sess.rBuffer.len ≤ sess'.rBuffer.len ∧
        (∀ k < sess.rBuffer.len.toNat, sess'.rBuffer.data.byte k = sess.rBuffer.data.byte k) ∧
        (out.code = .errClose → incoming = .closed)

/-- The length of the request, as the source computes it. -/
def HSSESSION.wanted (sess : HSSESSION) : Int := int32 (sess.headerLength + sess.bodyLength)

/-! ## Growing -/

section Grow

variable {alloc : Alloc} {sess grown : HSSESSION} {d d' : HSDATA} {n : Nat}

/-- A buffer that has grown has room, and holds what it held. -/
theorem httpAllocBuffer_cases (h : Filled d n) {want : Int}
    (halloc : httpAllocBuffer alloc (some d) want = .ok (some d')) :
    Filled d' n ∧ (∀ k < n, d'.data.byte k = d.data.byte k) ∧
      (int32 (d.len + want) ≤ d.size ∧ d' = d ∨
        int32 (d.len + want) > d.size ∧ d.size < d'.size) := by
  have hfilled : Filled d' n := by
    rcases alloc_filled alloc h want with hnone | ⟨d₁, hd, hf⟩
    · rw [halloc] at hnone
      cases hnone
    · rw [halloc] at hd
      cases hd
      exact hf
  refine ⟨hfilled, ?_⟩
  have hlen := h.len
  have hfits := h.fits
  have hblock := h.block
  rw [httpAllocBuffer] at halloc
  by_cases hgt : int32 (d.len + want) > d.size
  · obtain ⟨new, hnew⟩ : ∃ new, adjustSize (int32 (want + d.len)) httpDataBuffer = new := ⟨_, rfl⟩
    simp only [if_pos hgt, hnew] at halloc
    by_cases hneg : new < 0
    · rw [if_pos hneg] at halloc
      cases halloc
    · rw [if_neg hneg] at halloc
      cases alloc with
      | none => cases halloc
      | some garbage =>
        obtain ⟨block, hclear, hd⟩ := bind_eq_ok.1 halloc
        cases hd
        have hsum : int32 (want + d.len) > d.size := by rwa [Int.add_comm]
        have hge := (adjustSize_ge (by omega) (int32_range (want + d.len)).2 (by omega)).1
        refine ⟨fun k hk => ?_, .inr ⟨hgt, by simp only; omega⟩⟩
        unfold Block.clear at hclear
        split at hclear
        · cases hclear
          simp only [Block.realloc]
          rw [if_neg (by omega), if_pos (by omega)]
        · cases hclear
  · rw [if_neg hgt] at halloc
    cases halloc
    exact ⟨fun _ _ => rfl, .inl ⟨not_lt.1 hgt, rfl⟩⟩

theorem growForRequest_cases (h : Filled sess.rBuffer n)
    (hgrow : growForRequest alloc sess = .ok (some grown)) :
    Filled grown.rBuffer n ∧ (∀ k < n, grown.rBuffer.data.byte k = sess.rBuffer.data.byte k) ∧
      (grown = sess ∨ sess.rBuffer.size < grown.rBuffer.size) := by
  unfold growForRequest at hgrow
  split at hgrow
  · obtain ⟨d, halloc, hd⟩ := bind_eq_ok.1 hgrow
    cases d with
    | none => cases hd
    | some d =>
      cases hd
      obtain ⟨hfilled, hbytes, ⟨-, rfl⟩ | ⟨-, hlt⟩⟩ := httpAllocBuffer_cases h halloc
      · exact ⟨hfilled, hbytes, .inl rfl⟩
      · exact ⟨hfilled, hbytes, .inr hlt⟩
  · cases hgrow
    exact ⟨h, fun _ _ => rfl, .inl rfl⟩

/-- The buffer is left as it is when the sum is not larger than it. -/
theorem growForRequest_stays
    (h : sess.wanted ≤ sess.rBuffer.len ∨ int32 (sess.rBuffer.len + sess.wanted) ≤ sess.rBuffer.size)
    (alloc : Alloc) : growForRequest alloc sess = .ok (some sess) := by
  unfold HSSESSION.wanted at h
  unfold growForRequest
  by_cases hgt : int32 (sess.headerLength + sess.bodyLength) > sess.rBuffer.len
  · rw [if_pos hgt, httpAllocBuffer, if_neg (by omega)]
    rfl
  · rw [if_neg hgt]

/-- Otherwise it grows, if it can. -/
theorem growForRequest_grows (h : Filled sess.rBuffer n) (hgt : sess.wanted > sess.rBuffer.len)
    (hsum : int32 (sess.rBuffer.len + sess.wanted) > sess.rBuffer.size)
    (hgrow : growForRequest alloc sess = .ok (some grown)) : (n : Int) < grown.rBuffer.size := by
  unfold HSSESSION.wanted at hgt hsum
  rw [growForRequest, if_pos hgt] at hgrow
  obtain ⟨d, halloc, hd⟩ := bind_eq_ok.1 hgrow
  cases d with
  | none => cases hd
  | some d =>
    cases hd
    obtain ⟨-, -, ⟨hle, -⟩ | ⟨-, hlt⟩⟩ := httpAllocBuffer_cases h halloc
    · omega
    · exact lt_of_le_of_lt h.fits hlt

theorem Filled.room (h : Filled grown.rBuffer n) :
    grown.room = grown.rBuffer.size - n ∧ grown.rBuffer.len + grown.room ≤ grown.rBuffer.data.size := by
  have hlen := h.len
  have hfits := h.fits
  have hsmall := h.small
  have hblock := h.block
  have hroom : grown.room = grown.rBuffer.size - n := by
    rw [HSSESSION.room, hlen, int32_of_range (by omega) (by omega)]
  exact ⟨hroom, by omega⟩

/-- The read itself, into a buffer with room. -/
theorem read_room (h : Filled sess.rBuffer n) (hgrow : growForRequest alloc sess = .ok (some grown))
    (hroom : 1 ≤ grown.room) (incoming : Incoming) (now : Int) :
    ∃ out sess', httpSessRead alloc (incoming.recv grown.room) now sess = .ok (out, sess') ∧
      (n : Int) ≤ sess'.rBuffer.len ∧
      (∀ k < n, sess'.rBuffer.data.byte k = sess.rBuffer.data.byte k) ∧
      (out.code = .errClose → incoming = .closed) := by
  obtain ⟨hfilled, hbytes, -⟩ := growForRequest_cases h hgrow
  obtain ⟨hsize, hin⟩ := hfilled.room
  have hlen := hfilled.len
  cases incoming with
  | failed e =>
    exact ⟨_, grown, by rw [httpSessRead, hgrow]; rfl, hlen.ge, hbytes, fun hcode => by cases hcode⟩
  | closed => exact ⟨_, grown, by rw [httpSessRead, hgrow]; rfl, hlen.ge, hbytes, fun _ => rfl⟩
  | bytes c cs =>
    obtain ⟨m, hm⟩ : ∃ m, grown.room.toNat = m + 1 := ⟨grown.room.toNat - 1, by omega⟩
    have htake : (c :: cs).take grown.room.toNat = c :: cs.take m := by rw [hm, List.take_succ_cons]
    have hfit : ((c :: cs.take m).length : Int) ≤ grown.room := by
      rw [List.length_cons, List.length_take]
      omega
    obtain ⟨data, hwrite⟩ : ∃ data,
        grown.rBuffer.data.write grown.rBuffer.len (c :: cs.take m) = .ok data := by
      rw [Block.write, if_pos ⟨by omega, by omega⟩]
      exact ⟨_, rfl⟩
    refine ⟨⟨.ok, none⟩, { grown with
      recvCount := grown.recvCount + 1
      rBuffer := ⟨grown.rBuffer.size,
        int32 (grown.rBuffer.len + ((c :: cs.take m).length : Nat)), data⟩
      activeTime := now
      readTime := now }, ?_, ?_, fun k hk => ?_, fun hcode => by cases hcode⟩
    · rw [httpSessRead, hgrow, Incoming.recv, htake]
      simp only [ok_bind, hwrite]
      rfl
    · have hsmall := hfilled.small
      have hblock := hfilled.block
      have hint : int32 (grown.rBuffer.len + ((c :: cs.take m).length : Nat)) =
          grown.rBuffer.len + ((c :: cs.take m).length : Nat) :=
        int32_of_range (by omega) (by omega)
      simp only [hint]
      omega
    · exact (Block.write_byte hwrite (.inl (by omega))).trans (hbytes k hk)

/-- There is room exactly when the buffer is not full or is seen to be too small. -/
theorem hasRoom_iff (h : Filled sess.rBuffer n) :
    HasRoom sess ↔ sess.rBuffer.len < sess.rBuffer.size ∨
      (sess.wanted > sess.rBuffer.len ∧
        int32 (sess.rBuffer.len + sess.wanted) > sess.rBuffer.size) := by
  have hlen := h.len
  constructor
  · intro hroom
    by_contra hno
    obtain ⟨hfull, hstays⟩ := not_or.1 hno
    have hgrow := @growForRequest_stays sess (by omega) none
    obtain ⟨hone, -⟩ := (hroom none).2 sess hgrow
    have := h.room.1
    omega
  · intro hcond alloc
    refine ⟨?_, fun grown hgrow => ?_⟩
    · rcases grow_filled alloc h with hnone | ⟨grown, hgrow, -⟩
      · exact ⟨_, hnone⟩
      · exact ⟨_, hgrow⟩
    · obtain ⟨hfilled, -, hsame⟩ := growForRequest_cases h hgrow
      obtain ⟨hroom, hin⟩ := hfilled.room
      have hlt : (n : Int) < grown.rBuffer.size := by
        rcases hcond with hfree | ⟨hgt, hsum⟩
        · rcases hsame with rfl | hlt
          · omega
          · exact lt_of_le_of_lt h.fits hlt
        · exact growForRequest_grows h hgt hsum hgrow
      have hone : 1 ≤ grown.room := by omega
      refine ⟨hone, by rw [hfilled.len]; omega, hin, fun incoming now => ?_⟩
      rw [hlen, Int.toNat_natCast]
      exact read_room h hgrow hone incoming now

end Grow

/-! ## Any history -/

/-- The read side of a session, whatever it has gone through. -/
structure Sized (sess : HSSESSION) : Prop where
  undecided : sess.headerLength < 0 → Undecided sess
  filled : ∃ n, Filled sess.rBuffer n
  large : (httpDataBuffer : Int) ≤ sess.rBuffer.size

section History

variable {hs hs' : HTTP} {sess sess' : HSSESSION} {out : Outcome} {n : Nat}

theorem Sized.opened (now : Int) (sess : HSSESSION) : Sized (sess.opened now) :=
  ⟨fun _ => .opened now sess, ⟨0, rfl, rfl, by simp only [HSSESSION.opened]; decide,
    by simp only [HSSESSION.opened]; decide⟩, le_refl _⟩

theorem memmove_size {b b' : Block} {dst src n : Int} (h : b.memmove dst src n = .ok b') :
    b'.size = b.size := by
  unfold Block.memmove at h
  split at h
  · cases h
    rfl
  · cases h

/-- Skipping CR and LF bytes leaves a buffer that is filled less. -/
theorem skipCrlf_filled {buf buf' : HSDATA} (h : Filled buf n) (hskip : skipCrlf buf = .ok (some buf')) :
    (∃ n', Filled buf' n') ∧ buf'.size = buf.size := by
  have hlen := h.len
  have hfits := h.fits
  obtain ⟨hsize, hlow, hhigh, -⟩ := skipCrlf_some hskip (by omega)
  refine ⟨⟨buf'.len.toNat, by omega, ?_, by rw [hsize]; exact h.small, by omega⟩, hsize⟩
  have hblock : buf'.data.size = buf.data.size := by
    obtain ⟨i, -, hskip⟩ := bind_eq_ok.1 hskip
    split at hskip
    · cases hskip
      rfl
    · split at hskip
      · cases hskip
      · obtain ⟨data, hmove, hskip⟩ := bind_eq_ok.1 hskip
        obtain ⟨data', hwrite, hskip⟩ := bind_eq_ok.1 hskip
        cases hskip
        exact (Holds.written hwrite).2.trans (memmove_size hmove)
  rw [hblock, hsize]
  exact h.block

/-- Waiting means that the request is longer than what is held of it. -/
theorem waitBody_wait (hwait : (waitBody hs sess).1.code = .waitMoreData) :
    sess.rBuffer.len < sess.wanted := by
  unfold waitBody at hwait
  split at hwait
  · assumption
  · cases hwait

theorem waitBody_sess : (waitBody hs sess).2.2 = sess := by
  unfold waitBody
  split <;> rfl

theorem takeHeader_filled (h : Filled sess.rBuffer n)
    (htake : takeHeader hs sess = .ok (out, hs', sess')) :
    Filled sess'.rBuffer n ∧ sess'.rBuffer.size = sess.rBuffer.size ∧
      (out.code = .waitMoreData → sess'.rBuffer.len < sess'.wanted) := by
  unfold takeHeader at htake
  split at htake
  · cases htake
    exact ⟨h, rfl, fun hwait => by cases hwait⟩
  · obtain ⟨head, -, htake⟩ := bind_eq_ok.1 htake
    have hres := (decodeHeader_result hs sess.toRequest head).code
    generalize decodeHeader hs sess.toRequest head = d at htake hres
    obtain ⟨o, hs₁, req, refused⟩ := d
    obtain ⟨data, hclose, htake⟩ := bind_eq_ok.1 htake
    have hsize : data.size = sess.rBuffer.data.size := by
      unfold closeHeader at hclose
      split at hclose
      · exact (Holds.written hclose).2
      · cases hclose
        rfl
    cases o with
    | some o =>
      cases htake
      exact ⟨h.with_data hsize, rfl, fun hwait => absurd hwait (hres _ rfl)⟩
    | none =>
      simp only [pure_eq_ok, Except.ok.injEq] at htake
      have hsess := congrArg (fun r => r.2.2) htake
      have hout := congrArg (fun r => r.1) htake
      rw [waitBody_sess] at hsess
      simp only at hsess hout
      subst hsess hout
      exact ⟨h.with_data hsize, rfl, waitBody_wait⟩

/-- One call of the decoder: when it waits, the buffer is not full or the request is longer. -/
theorem Sized.decode (h : Sized sess) (hdec : httpSessDecode hs sess = .ok (out, hs', sess')) :
    Sized sess' ∧ (out.code = .waitMoreData →
      sess'.rBuffer.len < sess'.rBuffer.size ∨ sess'.rBuffer.len < sess'.wanted) := by
  obtain ⟨n, hfilled⟩ := h.filled
  have hlarge := h.large
  have hbuf : (httpDataBuffer : Int) = 65536 := rfl
  have hmax : (httpMaxHeaderSize : Int) = 16384 := rfl
  by_cases hneg : sess.headerLength < 0
  · have hundecided : sess'.headerLength < 0 → Undecided sess' := fun hneg' =>
      ((h.undecided hneg).decode hdec hneg').1
    unfold httpSessDecode at hdec
    split at hdec
    · cases hdec
      exact ⟨h, fun _ => .inl (by omega)⟩
    · obtain ⟨buf, hskip, hdec⟩ := bind_eq_ok.1 hdec
      cases buf with
      | none =>
        cases hdec
        exact ⟨⟨hundecided, ⟨0, rfl, hfilled.block, hfilled.small, by simp only; omega⟩, hlarge⟩,
          fun _ => .inl (by simp only; omega)⟩
      | some buf =>
        obtain ⟨⟨n', hfilled'⟩, hsize⟩ := skipCrlf_filled hfilled hskip
        simp only [findHeader] at hdec
        split at hdec
        · cases hdec
          exact ⟨⟨hundecided, ⟨n', hfilled'⟩, by simp only; omega⟩,
            fun _ => .inl (by simp only; omega)⟩
        · obtain ⟨s, -, hdec⟩ := bind_eq_ok.1 hdec
          split at hdec
          · split at hdec
            · cases hdec
              exact ⟨⟨hundecided, ⟨n', hfilled'⟩, by simp only; omega⟩, fun hwait => by cases hwait⟩
            · cases hdec
              exact ⟨⟨hundecided, ⟨n', hfilled'⟩, by simp only; omega⟩,
                fun _ => .inl (by simp only; omega)⟩
          · obtain ⟨data, hwrite, hdec⟩ := bind_eq_ok.1 hdec
            have hdata := hfilled'.with_data (Holds.written hwrite).2
            obtain ⟨hend, hsize', hwait⟩ := takeHeader_filled hdata hdec
            simp only at hsize'
            exact ⟨⟨hundecided, ⟨n', hend⟩, by omega⟩, fun hcode => .inr (hwait hcode)⟩
  · obtain rfl := decode_known hneg hdec
    refine ⟨h, fun hwait => ?_⟩
    unfold httpSessDecode at hdec
    split at hdec
    · exact .inl (by omega)
    · rw [Except.ok.injEq] at hdec
      have hout := congrArg (fun r => r.1) hdec
      simp only at hout
      rw [← hout] at hwait
      exact .inr (waitBody_wait hwait)

/-- A read of no more than the room adds to what is held, and keeps that. -/
theorem read_keeps (h : Filled sess.rBuffer n) {alloc : Alloc} {recv : Recv} {now : Int}
    (known : Served.Known ⟨hs, sess, []⟩ (.read alloc recv now))
    (hread : httpSessRead alloc recv now sess = .ok (out, sess')) :
    sess'.toRequest = sess.toRequest ∧ (∃ n', n ≤ n' ∧ Filled sess'.rBuffer n') ∧
      sess.rBuffer.size ≤ sess'.rBuffer.size ∧
      ∀ k < n, sess'.rBuffer.data.byte k = sess.rBuffer.data.byte k := by
  rw [httpSessRead] at hread
  obtain ⟨grown, hgrow, hread⟩ := bind_eq_ok.1 hread
  cases grown with
  | none =>
    cases hread
    exact ⟨rfl, ⟨n, le_refl n, h⟩, le_refl _, fun _ _ => rfl⟩
  | some grown =>
    obtain ⟨hfilled, hbytes, hsame⟩ := growForRequest_cases h hgrow
    have hsize : sess.rBuffer.size ≤ grown.rBuffer.size := by
      rcases hsame with rfl | hlt
      · exact le_refl _
      · exact hlt.le
    have hreq : grown.toRequest = sess.toRequest := by
      rcases grow_filled alloc h with hnone | ⟨grown', hgrow', hreq, -⟩
      · rw [hgrow] at hnone
        cases hnone
      · rw [hgrow] at hgrow'
        cases hgrow'
        exact hreq
    have hkept : sess' = grown →
        sess'.toRequest = sess.toRequest ∧ (∃ n', n ≤ n' ∧ Filled sess'.rBuffer n') ∧
          sess.rBuffer.size ≤ sess'.rBuffer.size ∧
          ∀ k < n, sess'.rBuffer.data.byte k = sess.rBuffer.data.byte k := by
      rintro rfl
      exact ⟨hreq, ⟨n, le_refl n, hfilled⟩, hsize, hbytes⟩
    cases recv with
    | failed e =>
      cases hread
      exact hkept rfl
    | data bytes =>
      cases bytes with
      | nil =>
        cases hread
        exact hkept rfl
      | cons c cs =>
        have hle := known grown hgrow
        obtain ⟨hroom, -⟩ := hfilled.room
        obtain ⟨data, hwrite, hpure⟩ := bind_eq_ok.1 hread
        cases hpure
        have hlen := hfilled.len
        have hsmall := hfilled.small
        have hint : int32 (grown.rBuffer.len + ((c :: cs).length : Nat)) =
            (n + (c :: cs).length : Nat) := by
          rw [int32_of_range (by omega) (by omega), hlen]
          push_cast
          rfl
        refine ⟨hreq, ⟨n + (c :: cs).length, by omega, hint, ?_, hsmall, by simp only; omega⟩, hsize,
          fun k hk => (Block.write_byte hwrite (.inl (by omega))).trans (hbytes k hk)⟩
        simp only [(Holds.written hwrite).2]
        exact hfilled.block

theorem Sized.read (h : Sized sess) {alloc : Alloc} {recv : Recv} {now : Int}
    (known : Served.Known ⟨hs, sess, []⟩ (.read alloc recv now))
    (hread : httpSessRead alloc recv now sess = .ok (out, sess')) : Sized sess' := by
  obtain ⟨n, hfilled⟩ := h.filled
  obtain ⟨-, ⟨n', -, hfilled'⟩, hsize, -⟩ := read_keeps hfilled known hread
  refine ⟨fun hneg => ?_, ⟨n', hfilled'⟩, h.large.trans hsize⟩
  rw [read_header hread] at hneg
  exact ((h.undecided hneg).read known hread).1

/-- A read fills the buffer it has grown, and no other. -/
theorem read_size {alloc : Alloc} {recv : Recv} {now : Int} {grown : HSSESSION}
    (hgrow : growForRequest alloc sess = .ok (some grown))
    (hread : httpSessRead alloc recv now sess = .ok (out, sess')) :
    sess'.rBuffer.size = grown.rBuffer.size := by
  rw [httpSessRead, hgrow, ok_bind] at hread
  cases recv with
  | failed e =>
    cases hread
    rfl
  | data bytes =>
    cases bytes with
    | nil =>
      cases hread
      rfl
    | cons c cs =>
      obtain ⟨data, -, hpure⟩ := bind_eq_ok.1 hread
      cases hpure
      rfl

end History

/-- After any history the buffer lies within its block. -/
theorem sized_of_run {now : Int} {hs : HTTP} {sess : HSSESSION} {calls : List ServedCall}
    {st : Served} (hrun : run Served.step (served now hs sess) calls = .ok st)
    (known : Along Served.step (fun _ => Served.Known) (served now hs sess) calls) :
    Sized st.sess := by
  refine run_invariant (I := fun _ st => Sized st.sess) (Sized.opened now sess) ?_ known hrun
  intro tr s call s' inv hc hstep
  cases call with
  | read alloc recv now =>
    obtain ⟨⟨out, sess'⟩, hread, hpure⟩ := bind_eq_ok.1 hstep
    cases hpure
    exact @Sized.read s.hs s.sess sess' out inv alloc recv now hc hread
  | decode =>
    obtain ⟨⟨out, hs', sess'⟩, hdec, hpure⟩ := bind_eq_ok.1 hstep
    cases hpure
    exact (inv.decode hdec).1

/-- After any history: while data is awaited there is room for the next read, exactly when the buffer
is not full or its length and that of the request do not overflow an `int`. -/
theorem awaits_with_room_iff (now : Int) (hs : HTTP) (sess : HSSESSION) {calls : List ServedCall}
    {st : Served} (hrun : run Served.step (served now hs sess) calls = .ok st)
    (known : Along Served.step (fun _ => Served.Known) (served now hs sess) calls)
    {out : Outcome} {hs' : HTTP} {sess' : HSSESSION}
    (hdec : httpSessDecode st.hs st.sess = .ok (out, hs', sess'))
    (hwait : out.code = .waitMoreData) :
    HasRoom sess' ↔ sess'.rBuffer.len < sess'.rBuffer.size ∨
      sess'.rBuffer.len + sess'.wanted < 2 ^ 31 := by
  obtain ⟨hsized', hawaits⟩ := (sized_of_run hrun known).decode hdec
  obtain ⟨n, hfilled⟩ := hsized'.filled
  have hlen := hfilled.len
  have hfits := hfilled.fits
  have hsmall := hfilled.small
  have hrange := int32_range (sess'.headerLength + sess'.bodyLength)
  rw [hasRoom_iff hfilled]
  by_cases hfree : sess'.rBuffer.len < sess'.rBuffer.size
  · exact ⟨fun _ => .inl hfree, fun _ => .inl hfree⟩
  · -- the buffer is full, so the request is longer
    have hgt : sess'.rBuffer.len < sess'.wanted := (hawaits hwait).resolve_left hfree
    have hwanted : sess'.wanted < 2 ^ 31 := hrange.2
    simp only [hfree, false_or]
    constructor
    · rintro ⟨-, hsum⟩
      by_contra hover
      -- the sum has wrapped around to a negative number
      unfold int32 at hsum
      rw [Int.bmod_def] at hsum
      split at hsum <;> omega
    · intro hsum
      exact ⟨hgt, by rw [int32_of_range (by omega) hsum]; omega⟩

/-! ## A body of almost 2^31 bytes -/

/-- A header of 48 bytes, for a request of 2147483637 bytes. -/
def hugeHeader : List UInt8 := ascii "POST /a HTTP/1.1\r\nContent-Length: 2147483589\r\n\r\n"

/-- The lengths of a session, to evaluate runs. -/
def lengthsOf (r : Except Fault Served) : Option (Int × Int × Int × Int) :=
  match r with
  | .ok st => some (st.sess.headerLength, st.sess.bodyLength, st.sess.rBuffer.len,
      st.sess.rBuffer.size)
  | .error _ => none

theorem lengthsOf_eq {r : Except Fault Served} {hl bl len size : Int}
    (h : lengthsOf r = some (hl, bl, len, size)) :
    ∃ st, r = .ok st ∧ st.sess.headerLength = hl ∧ st.sess.bodyLength = bl ∧
      st.sess.rBuffer.len = len ∧ st.sess.rBuffer.size = size := by
  cases r with
  | ok st =>
    cases h
    exact ⟨st, rfl, rfl, rfl, rfl, rfl⟩
  | error f => cases h

/-- The header has arrived, and nothing of the body. -/
def hugeStart : List ServedCall := [.read none (.data hugeHeader) 0]

theorem hugeStart_known :
    Along Served.step (fun _ => Served.Known) (served 0 {} newSession) hugeStart := by
  refine along_cons ?_ fun s _ => along_nil s
  intro grown hgrow
  have hopen : Undecided (served 0 {} newSession).sess := .opened 0 newSession
  rw [hopen.grow none] at hgrow
  cases hgrow
  decide

/-- What the decoder says then. -/
theorem hugeStart_decoded : ∃ st out hs' sess',
    run Served.step (served 0 {} newSession) hugeStart = .ok st ∧
      httpSessDecode st.hs st.sess = .ok (out, hs', sess') ∧ out.code = .waitMoreData ∧
      sess'.headerLength = 48 ∧ sess'.bodyLength = 2147483589 ∧ sess'.rBuffer.len = 48 ∧
      sess'.rBuffer.size = 65536 := by
  obtain ⟨st', hrun', hhl, hbl, hlen, hsize⟩ := @lengthsOf_eq
    (run Served.step (served 0 {} newSession) (hugeStart ++ [.decode])) 48 2147483589 48 65536
    (by decide +kernel)
  obtain ⟨st₂, hrun₂, hlog⟩ := @logOf_eq
    (run Served.step (served 0 {} newSession) (hugeStart ++ [.decode])) [.waitMoreData]
    (by decide +kernel)
  cases hrun'.symm.trans hrun₂
  obtain ⟨st, hrun, hlast⟩ := run_append hrun'
  obtain ⟨s, hstep, hend⟩ := run_cons hlast
  cases hend
  obtain ⟨⟨out, hs', sess'⟩, hdec, hpure⟩ := bind_eq_ok.1 hstep
  cases hpure
  refine ⟨st, out, hs', sess', hrun, hdec, ?_, hhl, hbl, hlen, hsize⟩
  have hmem : out.code ∈ st.log ++ [out.code] := List.mem_append_right _ (List.mem_singleton_self _)
  replace hlog : st.log ++ [out.code] = [.waitMoreData] := hlog
  rw [hlog] at hmem
  exact List.mem_singleton.1 hmem

theorem awaits_with_room_iff_huge : ∃ st out hs' sess',
    run Served.step (served 0 {} newSession) hugeStart = .ok st ∧
      httpSessDecode st.hs st.sess = .ok (out, hs', sess') ∧ out.code = .waitMoreData ∧
      (HasRoom sess' ↔ sess'.rBuffer.len < sess'.rBuffer.size ∨
        sess'.rBuffer.len + sess'.wanted < 2 ^ 31) := by
  obtain ⟨st, out, hs', sess', hrun, hdec, hwait, -⟩ := hugeStart_decoded
  exact ⟨st, out, hs', sess', hrun, hdec, hwait,
    awaits_with_room_iff 0 {} newSession hrun hugeStart_known hdec hwait⟩

/-- When 65536 bytes have arrived the buffer is full, and does not grow. -/
theorem full_buffer_stays : ∃ calls st out hs' sess',
    run Served.step (served 0 {} newSession) calls = .ok st ∧
      Along Served.step (fun _ => Served.Known) (served 0 {} newSession) calls ∧
      httpSessDecode st.hs st.sess = .ok (out, hs', sess') ∧ out.code = .waitMoreData ∧
      ¬ HasRoom sess' := by
  obtain ⟨st, out, hs', sess', hrun, hdec, hwait, hhl, hbl, hlen, hsize⟩ := hugeStart_decoded
  obtain ⟨hsized, -⟩ := (sized_of_run hrun hugeStart_known).decode hdec
  obtain ⟨n, hfilled⟩ := hsized.filled
  obtain rfl : n = 48 := by
    have := hfilled.len
    omega
  have hwanted : sess'.wanted = 2147483637 := by
    rw [HSSESSION.wanted, hhl, hbl]
    decide
  have hover : int32 (48 + 2147483637) < 0 := by decide
  have hgrow : growForRequest none sess' = .ok (some sess') :=
    growForRequest_stays (.inr (by rw [hwanted, hlen]; omega)) none
  obtain ⟨hroom, -⟩ := hfilled.room
  have hfit : ((List.replicate 65488 (120 : UInt8)).length : Int) ≤ sess'.room := by
    rw [List.length_replicate]
    omega
  have hne : List.replicate 65488 (120 : UInt8) ≠ [] :=
    List.ne_nil_of_length_pos (by rw [List.length_replicate]; omega)
  obtain ⟨full, hread, hreq, hfull⟩ := read_late 0 hfilled hgrow hne hfit
  rw [List.length_replicate] at hfull
  -- the three calls
  obtain ⟨st₀, hfirst, hnil⟩ := run_cons hrun
  cases hnil
  have hsecond : Served.step st .decode = .ok ⟨hs', sess', st.log ++ [out.code]⟩ := by
    rw [Served.step, hdec]
    rfl
  have hthird : Served.step ⟨hs', sess', st.log ++ [out.code]⟩
      (.read none (.data (List.replicate 65488 120)) 0) = .ok ⟨hs', full, st.log ++ [out.code]⟩ := by
    rw [Served.step, hread]
    rfl
  have hhl' : full.headerLength = 48 := (congrArg Request.headerLength hreq).trans hhl
  have hbl' : full.bodyLength = 2147483589 := (congrArg Request.bodyLength hreq).trans hbl
  have hlen' : full.rBuffer.len = 65536 := hfull.len
  have hwanted' : full.wanted = 2147483637 := by
    rw [HSSESSION.wanted, hhl', hbl']
    decide
  have hlast : httpSessDecode hs' full = .ok (⟨.waitMoreData, none⟩, hs', full) := by
    have hless : full.rBuffer.len < int32 (full.headerLength + full.bodyLength) := by
      rw [← HSSESSION.wanted, hwanted', hlen']
      decide
    rw [httpSessDecode, if_neg (by omega), if_neg (by omega), waitBody, if_pos hless]
  refine ⟨hugeStart ++ [.decode, .read none (.data (List.replicate 65488 120)) 0],
    ⟨hs', full, st.log ++ [out.code]⟩, _, hs', full,
    run_append_ok hrun (run_cons_ok hsecond (run_single hthird)), ?_, hlast, rfl, ?_⟩
  · refine along_cons (hugeStart_known [] _ [] _ rfl rfl) fun s hs => ?_
    cases hs.symm.trans hfirst
    refine along_cons trivial fun s hs => ?_
    cases hs.symm.trans hsecond
    refine along_cons (fun grown hgrown => ?_) fun s _ => along_nil s
    cases hgrown.symm.trans hgrow
    exact hfit
  · have hsize' : full.rBuffer.size = 65536 := (read_size hgrow hread).trans hsize
    have hover' : int32 (65536 + 2147483637) < 0 := by decide
    rw [hasRoom_iff hfull, hlen', hsize', hwanted']
    rintro (hfree | ⟨-, hsum⟩)
    · exact lt_irrefl _ hfree
    · exact absurd hsum (not_lt.2 (hover'.le.trans (by decide)))

end CassandraApi.Http
