/-
# `Ldap.Hostile` — framing of arbitrary bytes

What the loop of LDAP_sess_decode and LDAP_clnt_decode does with bytes that need
not be LDAP messages.  Each turn looks for the first `0x30` and reads the length
octets behind it without regard to `r_len`, and adds the value up in 32 bits.  It
does what it should when the whole header lies below `r_len` and the end of the
frame is a number of 31 bits; then everything the rest of the turn computes is in
bounds as well.

The decoder is a parameter, as in `Ldap.Frame`: both the server's and the
client's are covered.
-/
import CassandraApi.Ldap.Framing
import CassandraApi.Ldap.Outbound

namespace CassandraApi.Ldap

open C Ber Lib

/-! ## The true length -/

/-- The length of the frame that starts with these bytes, header included; `none` when they do not
start with a `0x30` and all octets of a definite length. -/
def trueLength : List UInt8 → Option Nat
  | tag :: b :: rest =>
      if tag ≠ 0x30 then none
      else if b.toNat < 128 then some (2 + b.toNat)
      else if 128 < b.toNat ∧ b.toNat - 128 ≤ rest.length then
        some (2 + (b.toNat - 128) + beVal (rest.take (b.toNat - 128)))
      else none
  | _ => none

/-- The two forms. -/
theorem trueLength_cases {xs : List UInt8} {n : Nat} (h : trueLength xs = some n) :
    (∃ b rest, xs = 0x30 :: b :: rest ∧ b.toNat < 128 ∧ n = 2 + b.toNat) ∨
      ∃ os rest, xs = 0x30 :: UInt8.ofNat (128 + os.length) :: (os ++ rest) ∧ 1 ≤ os.length ∧
        os.length < 128 ∧ n = 2 + os.length + beVal os := by
  unfold trueLength at h
  split at h
  · rename_i tag b rest
    split at h
    · cases h
    · rename_i htag
      have htag := not_not.1 htag
      subst htag
      split at h
      · rename_i hshort
        have hn := Option.some.inj h
        subst hn
        exact .inl ⟨b, rest, rfl, hshort, rfl⟩
      · split at h
        · rename_i hlong
          have hn := Option.some.inj h
          subst hn
          have hb := b.toNat_lt
          have hlen : (rest.take (b.toNat - 128)).length = b.toNat - 128 :=
            List.length_take_of_le hlong.2
          refine .inr ⟨rest.take (b.toNat - 128), rest.drop (b.toNat - 128), ?_, by omega, by omega,
            by rw [hlen]⟩
          rw [hlen, List.take_append_drop, show 128 + (b.toNat - 128) = b.toNat by omega,
            UInt8.ofNat_toNat]
        · cases h
  · cases h

theorem trueLength_short {b : UInt8} (h : b.toNat < 128) (rest : List UInt8) :
    trueLength (0x30 :: b :: rest) = some (2 + b.toNat) := by
  rw [trueLength, if_neg (by decide), if_pos h]

theorem trueLength_long {os : List UInt8} (hpos : 1 ≤ os.length) (hlt : os.length < 128)
    (rest : List UInt8) :
    trueLength (0x30 :: UInt8.ofNat (128 + os.length) :: (os ++ rest)) =
      some (2 + os.length + beVal os) := by
  have hb : (UInt8.ofNat (128 + os.length)).toNat = 128 + os.length := by
    rw [UInt8.toNat_ofNat']
    omega
  rw [trueLength, if_neg (by decide), if_neg (by omega), hb, Nat.add_sub_cancel_left, if_pos]
  · rw [List.take_left]
  · exact ⟨by omega, by rw [List.length_append]; omega⟩

theorem two_le_trueLength {xs : List UInt8} {n : Nat} (h : trueLength xs = some n) : 2 ≤ n := by
  obtain ⟨b, rest, -, -, rfl⟩ | ⟨os, rest, -, -, -, rfl⟩ := trueLength_cases h
  · exact Nat.le_add_right 2 _
  · omega

/-- More bytes do not change it. -/
theorem trueLength_append {xs : List UInt8} {n : Nat} (h : trueLength xs = some n)
    (ys : List UInt8) : trueLength (xs ++ ys) = some n := by
  obtain ⟨b, rest, rfl, hb, rfl⟩ | ⟨os, rest, rfl, hpos, hlt, rfl⟩ := trueLength_cases h
  · exact trueLength_short hb (rest ++ ys)
  · rw [List.cons_append, List.cons_append, List.append_assoc]
    exact trueLength_long hpos hlt (rest ++ ys)

/-! ## What the code computes of it -/

/-- r_ber_body_length, for a header that is there. -/
theorem frameLength_trueLength {buf : Block} {p n : Nat} {xs : List UInt8}
    (hx : trueLength xs = some n) (hn : n < 2 ^ 31) (h : Holds buf p xs) :
    frameLength buf p = .ok (n : Int) := by
  obtain ⟨b, rest, rfl, hb, rfl⟩ | ⟨os, rest, rfl, hpos, hlt, rfl⟩ := trueLength_cases hx
  · have hr : buf.rd (p + 1) = .ok b := by exact_mod_cast h.tail.rd
    have hlow : ¬ uint32 (schar b) > 0xffffff00 := by
      rw [uint32_schar_gt]
      omega
    rw [frameLength, hr, ok_bind, if_neg hlow, schar_of_lt hb, pure_eq_ok]
    congr 1
    push_cast
    ring
  · obtain ⟨hgt, hsz⟩ := lengthSize_eq hlt
    have hne : os ≠ [] := List.ne_nil_of_length_pos hpos
    have hr : buf.rd (p + 1) = .ok (UInt8.ofNat (128 + os.length)) := by exact_mod_cast h.tail.rd
    have hacc : accLength buf os.length (p + 1) 0 = .ok (int32 (beVal os)) := by
      have := accLength_eq (p := p + 1) 0 h.tail.tail.left hne
      rw [Int.zero_mul, Int.zero_add] at this
      exact_mod_cast this
    rw [int32_natCast (by omega)] at hacc
    rw [frameLength, hr, ok_bind, if_pos hgt]
    simp only [hsz, Int.toNat_natCast, hacc, ok_bind, pure_eq_ok]
    rw [int32_of_range (by omega) (by omega)]
    push_cast
    rfl

/-- The search for `0x30` ends at the first one. -/
theorem scan30_first {buf : Block} {xs : List UInt8} :
    ∀ {junk : List UInt8} {left p : Nat}, Holds buf p (junk ++ 0x30 :: xs) → 0x30 ∉ junk →
      junk.length < left → scan30 buf left p = .ok ((p + junk.length : Nat) : Int)
  | [], left + 1, p, h, _, _ => by
    have hr : buf.rd p = .ok 0x30 := h.rd
    rw [scan30, hr, ok_bind, if_pos rfl]
    rfl
  | c :: junk, left + 1, p, h, hjunk, hlt => by
    have hr : buf.rd p = .ok c := h.rd
    have hc : c ≠ 0x30 := fun hc => hjunk (by rw [hc]; exact List.mem_cons_self)
    have ih : scan30 buf left ((p + 1 : Nat) : Int) = .ok ((p + 1 + junk.length : Nat) : Int) :=
      scan30_first h.tail (fun hm => hjunk (List.mem_cons_of_mem _ hm)) (Nat.lt_of_succ_lt_succ hlt)
    rw [scan30, hr, ok_bind, if_neg hc, ← Nat.cast_succ, ih]
    congr 2
    rw [List.length_cons, Nat.add_assoc, Nat.add_comm 1]

/-! ## One turn -/

/-- The bytes below `r_len`. -/
def ReadBuffer.held (rb : ReadBuffer) : List UInt8 :=
  match rb.rBuffer with
  | none => []
  | some buf => buf.slice 0 rb.rLen.toNat

/-- The `n` of the turn after the decoder was called: how many bytes are moved to the front. -/
def ReadBuffer.behind (rb : ReadBuffer) : Int :=
  int32 (rb.rLen - int32 (rb.rBerBody + rb.rBerBodyLength))

/-- A turn that starts with `rb` is safe.  What it reads lies below `r_len`: it reads the same of
a block that ends there.  `r_ber_body_length` is the true length of the frame, or the turn ends
the call with an error if that is none of 31 bits.  And `n` is between 0 and `r_len`. -/
def SafeTurn (alloc : Alloc) (rb : ReadBuffer) : Prop :=
  ∀ buf, rb.rBuffer = some buf → 5 ≤ rb.rLen →
    ∃ rb₁ n, findFrame rb ⟨rb.rLen.toNat, buf.byte⟩ = .ok rb₁ ∧ findFrame rb buf = .ok rb₁ ∧
      trueLength (rb.held.drop rb₁.rBerBody.toNat) = some n ∧
      (n < 2 ^ 31 → 2 ≤ rb₁.rBerBodyLength ∧ rb₁.rBerBodyLength = n) ∧
      (¬ n < 2 ^ 31 → ∃ m rb₂, nextFrame alloc rb = .ok (.noMemory m rb₂)) ∧
      ∀ rb₂, nextFrame alloc rb = .ok (.frame rb₂) → 0 ≤ rb₂.behind ∧ rb₂.behind ≤ rb.rLen

/-- The header of a frame is there, and the frame ends below 2^31. -/
def HeaderThere (held : List UInt8) : Prop :=
  ∃ junk frame n, held = junk ++ frame ∧ 0x30 ∉ junk ∧ trueLength frame = some n ∧
    junk.length + n < 2 ^ 31

/-- A turn that has to measure a frame finds its header. -/
def ReadBuffer.Measurable (rb : ReadBuffer) : Prop :=
  5 ≤ rb.rLen → rb.rBerBody < 0 → HeaderThere rb.held

/-- The frame at `p` is `n` bytes long. -/
structure FrameAt (held : List UInt8) (p n : Nat) : Prop where
  length : trueLength (held.drop p) = some n
  fits : p + n < 2 ^ 31

/-- What is known of the frame at the front. -/
inductive Front (rb : ReadBuffer) (held : List UInt8) : Prop where
  | unmeasured (un : Unmeasured rb)
  | measured (p n : Nat) (body : rb.rBerBody = p) (len : rb.rBerBodyLength = n)
      (frame : FrameAt held p n)

/-- The loop's invariant: no buffer yet, or one that holds some bytes. -/
inductive Sound (rb : ReadBuffer) : Prop where
  | fresh (none : rb.rBuffer = none) (empty : rb.rLen = 0) (un : Unmeasured rb)
  | holding (held : List UInt8) (buffered : Buffered rb held) (front : Front rb held)

section Turn

variable {rb rb' : ReadBuffer} {held : List UInt8} {alloc : Alloc} {p n : Nat}

theorem Buffered.held_eq (h : Buffered rb held) : rb.held = held := by
  obtain ⟨buf, hb, -, -, hbytes⟩ := h.block
  rw [ReadBuffer.held, hb, h.len]
  exact hbytes.bytes

theorem FrameAt.append (h : FrameAt held p n) (more : List UInt8) :
    FrameAt (held ++ more) p n := by
  refine ⟨?_, h.fits⟩
  have hle : p ≤ held.length := by
    by_contra hgt
    have hlen := h.length
    rw [List.drop_of_length_le (by omega)] at hlen
    cases hlen
  rw [List.drop_append_of_le_length hle]
  exact trueLength_append h.length more

/-- The first part of a turn, on any block that holds the bytes. -/
theorem findFrame_frameAt {buf : Block} (hbytes : Holds buf 0 held) (front : Front rb held)
    (there : rb.rBerBody < 0 → HeaderThere held) :
    ∃ p n, FrameAt held p n ∧ ∀ buf, Holds buf 0 held →
      findFrame rb buf = .ok { rb with rBerBody := p, rBerBodyLength := n } := by
  cases front with
  | unmeasured un =>
    have hneg : rb.rBerBody < 0 := by rw [un.body]; decide
    obtain ⟨junk, frame, n, rfl, hjunk, hlen, hfits⟩ := there hneg
    refine ⟨junk.length, n, ⟨by rw [List.drop_left]; exact hlen, hfits⟩, fun buf hbytes => ?_⟩
    have hframe : ∃ xs, frame = 0x30 :: xs := by
      obtain ⟨b, rest, rfl, -⟩ | ⟨os, rest, rfl, -⟩ := trueLength_cases hlen
      · exact ⟨_, rfl⟩
      · exact ⟨_, rfl⟩
    have hin := hbytes.inside
    rw [List.length_append] at hin
    have hat : Holds buf junk.length frame := by simpa using hbytes.right
    have hmeasure := frameLength_trueLength hlen (by omega) hat
    obtain ⟨xs, rfl⟩ := hframe
    have hscan := scan30_first (p := 0) hbytes hjunk (show junk.length < buf.size + 1 by omega)
    rw [Nat.zero_add] at hscan
    have hscan' : scan30 buf (buf.size + 1) 0 = .ok (junk.length : Int) := hscan
    have hlneg : rb.rBerBodyLength < 0 := by rw [un.length]; decide
    simp only [findFrame, if_pos hneg, hscan', if_pos hlneg, hmeasure, ok_bind, pure_eq_ok,
      Functor.map, Except.map]
  | measured p n body len frame =>
    refine ⟨p, n, frame, fun buf _ => ?_⟩
    have hpos : ¬ rb.rBerBody < 0 := by rw [body]; omega
    have hlpos : ¬ rb.rBerBodyLength < 0 := by rw [len]; omega
    simp only [findFrame, if_neg hpos, if_neg hlpos, ok_bind, pure_eq_ok, ← body, ← len]

/-- The buffer grows, or there is no memory. -/
theorem growTo_buffered (alloc : Alloc) {buf : Block} {m : Int} (h : Buffered rb held)
    (hb : rb.rBuffer = some buf) (hm : m < 2 ^ 31) :
    growTo alloc m rb buf = none ∨
      ∃ rb', growTo alloc m rb buf = some rb' ∧ Buffered rb' held ∧
        rb'.rBerBody = rb.rBerBody ∧ rb'.rBerBodyLength = rb.rBerBodyLength := by
  by_cases hgt : m > rb.rSize
  · cases alloc with
    | none => exact .inl (by simp only [growTo, if_pos hgt])
    | some g =>
      have hpos : ((m.toNat : Nat) : Int) = m := Int.toNat_of_nonneg (by have := h.spare; omega)
      obtain ⟨rb', hgrow, hbuf, -, hbody, hlen⟩ := growTo_eq (g := g) (n := m.toNat) h hb (by omega)
      rw [hpos] at hgrow
      exact .inr ⟨rb', hgrow, hbuf, hbody, hlen⟩
  · exact .inr ⟨rb, by simp only [growTo, if_neg hgt], h, rfl, rfl⟩

theorem nextFrame_of_noMemory {rb₁ : ReadBuffer} {buf : Block} (hb : rb.rBuffer = some buf)
    (hidle : ¬ rb.rLen < 5) (hfind : findFrame rb buf = .ok rb₁)
    (hno : growTo alloc (int32 (rb₁.rBerBody + rb₁.rBerBodyLength + 1)) rb₁ buf = none) :
    nextFrame alloc rb = .ok (.noMemory (int32 (rb₁.rBerBody + rb₁.rBerBodyLength + 1)) rb₁) := by
  simp only [nextFrame, hb, if_neg hidle, hfind, ok_bind, hno, pure_eq_ok]

/-- A turn that finds the header it looks for. -/
theorem turn_frameAt (alloc : Alloc) (h : Buffered rb held) (front : Front rb held) (five : 5 ≤ rb.rLen)
    (there : rb.rBerBody < 0 → HeaderThere held) :
    ∃ p n, FrameAt held p n ∧
      (∀ buf, Holds buf 0 held →
        findFrame rb buf = .ok { rb with rBerBody := p, rBerBodyLength := n }) ∧
      ∃ rb', Buffered rb' held ∧ rb'.rBerBody = p ∧ rb'.rBerBodyLength = n ∧
        ((∃ m, nextFrame alloc rb = .ok (.noMemory m rb')) ∨
          nextFrame alloc rb = .ok (if p + n ≤ held.length then .frame rb' else .partly rb')) := by
  obtain ⟨buf, hb, hsize, hsmall, hbytes⟩ := h.block
  obtain ⟨p, n, frame, hfind⟩ := findFrame_frameAt hbytes front there
  refine ⟨p, n, frame, hfind, ?_⟩
  have hfits := frame.fits
  have hidle : ¬ rb.rLen < 5 := by omega
  have hbuf : Buffered { rb with rBerBody := p, rBerBodyLength := n } held :=
    ⟨h.len, ⟨buf, hb, hsize, hsmall, hbytes⟩, h.size, h.spare⟩
  have hend : int32 ((p : Int) + n) = p + n := int32_of_range (by omega) (by omega)
  obtain hno | ⟨rb', hgrow, hbuf', hbody, hlen⟩ :=
    growTo_buffered alloc hbuf hb (int32_range ((p : Int) + n + 1)).2
  · exact ⟨_, hbuf, rfl, rfl, .inl ⟨_, nextFrame_of_noMemory hb hidle (hfind buf hbytes) hno⟩⟩
  · refine ⟨rb', hbuf', hbody, hlen, .inr ?_⟩
    rw [nextFrame_of_found hb hidle (hfind buf hbytes) hgrow, hbody, hlen]
    simp only [hend, hbuf'.len]
    by_cases hle : p + n ≤ held.length
    · rw [if_neg (by omega), if_pos hle]
    · rw [if_pos (by omega), if_neg hle]

/-- From a sound buffer a turn that finds its header is safe. -/
theorem Sound.safeTurn (alloc : Alloc) (sound : Sound rb) (measurable : rb.Measurable) :
    SafeTurn alloc rb := by
  intro buf hb five
  cases sound with
  | fresh none => rw [none] at hb; cases hb
  | holding held h front =>
    have there : rb.rBerBody < 0 → HeaderThere held := fun hneg => by
      have := measurable five hneg
      rwa [h.held_eq] at this
    obtain ⟨p, n, frame, hfind, rb', hbuf', hbody, hlen, hnext⟩ :=
      turn_frameAt alloc h front five there
    obtain ⟨buf', hb', hsize, hsmall, hbytes⟩ := h.block
    obtain rfl : buf' = buf := Option.some.inj (hb'.symm.trans hb)
    have hcut : Holds ⟨rb.rLen.toNat, buf'.byte⟩ 0 held := by
      refine hbytes.frame ?_ fun _ _ _ => rfl
      have := h.len
      simp only
      omega
    have htwo := two_le_trueLength frame.length
    have hfits := frame.fits
    refine ⟨_, n, hfind _ hcut, hfind _ hbytes, ?_, fun _ => ⟨?_, rfl⟩, fun hbig => ?_,
      fun rb₂ hframe => ?_⟩
    · rw [h.held_eq]
      exact frame.length
    · simp only
      omega
    · omega
    · obtain ⟨m, hno⟩ | hdone := hnext
      · rw [hno] at hframe
        cases hframe
      · rw [hdone] at hframe
        split at hframe
        · rename_i hle
          cases hframe
          have hsum : int32 (rb'.rBerBody + rb'.rBerBodyLength) = p + n := by
            rw [hbody, hlen, int32_of_range (by omega) (by omega)]
          have hl := h.len
          have hl' := hbuf'.len
          have hspare := h.spare
          rw [ReadBuffer.behind, hsum, hl', int32_of_range (by omega) (by omega)]
          omega
        · cases hframe

/-- What a turn that finds its header leaves is sound, after the frame is taken out as well. -/
theorem Sound.turn (alloc : Alloc) (sound : Sound rb) (measurable : rb.Measurable) :
    (nextFrame alloc rb = .ok .idle) ∨
      (∃ rb', Sound rb' ∧ (nextFrame alloc rb = .ok (.partly rb') ∨
        ∃ m, nextFrame alloc rb = .ok (.noMemory m rb'))) ∨
      ∃ rb' rb₂ empty, nextFrame alloc rb = .ok (.frame rb') ∧ consume rb' = .ok (rb₂, empty) ∧
        Sound rb₂ := by
  cases sound with
  | fresh hnone _ _ => exact .inl (by simp only [nextFrame, hnone])
  | holding held h front =>
    by_cases five : 5 ≤ rb.rLen
    · have there : rb.rBerBody < 0 → HeaderThere held := fun hneg => by
        have := measurable five hneg
        rwa [h.held_eq] at this
      obtain ⟨p, n, frame, -, rb', hbuf', hbody, hlen, hnext⟩ :=
        turn_frameAt alloc h front five there
      have sound' : Sound rb' := .holding held hbuf' (.measured p n hbody hlen frame)
      obtain ⟨m, hno⟩ | hdone := hnext
      · exact .inr (.inl ⟨rb', sound', .inr ⟨m, hno⟩⟩)
      · split at hdone
        · rename_i hle
          have hsum : rb'.rBerBody + rb'.rBerBodyLength = (held.take (p + n)).length := by
            rw [hbody, hlen, List.length_take_of_le hle]
            exact (Nat.cast_add p n).symm
          rw [← List.take_append_drop (p + n) held] at hbuf'
          obtain ⟨rb₂, hcons, hbuf₂, hun, -⟩ := consume_eq hbuf' hsum
          exact .inr (.inr ⟨rb', rb₂, _, hdone, hcons, .holding _ hbuf₂ (.unmeasured hun)⟩)
        · exact .inr (.inl ⟨rb', sound', .inl hdone⟩)
    · obtain ⟨buf, hb, -⟩ := h.block
      exact .inl (by simp only [nextFrame, hb, if_pos (not_le.1 five)])

/-- A sound buffer keeps a byte back. -/
theorem Sound.inBounds (sound : Sound rb) : rb.rBuffer.isSome → 0 ≤ rb.rLen ∧ rb.rLen < rb.rSize := by
  intro hsome
  cases sound with
  | fresh hnone _ _ =>
    rw [hnone] at hsome
    cases hsome
  | holding held h _ =>
    have hlen := h.len
    have hspare := h.spare
    omega

end Turn

/-! ## Calls -/

section Calls

variable {σ : Type}

/-- The read buffer at the start of each turn of a call. -/
def Decoder.turns (D : Decoder σ) (alloc : Alloc) : Nat → σ → ReadBuffer → List ReadBuffer
  | 0, _, _ => []
  | turns + 1, s, rb => rb ::
      match nextFrame alloc rb with
      | .ok (.frame rb₁) =>
          match D.call s rb₁, consume rb₁ with
          | .ok (ret, s), .ok (rb₂, empty) =>
              if ret.code = .waitMoreData then
                D.turns alloc turns (if empty then D.emptied s else s) rb₂
              else []
          | _, _ => []
      | _ => []

/-- What happens to a read buffer and the rest `σ` of its owner's state: a read, a call of
LDAP_sess_decode or LDAP_clnt_decode with some decoder, or the owner changes the rest. -/
inductive FrameCall (σ : Type) where
  | read (closed : RetCode) (alloc : Alloc) (recv : Recv)
  | decode (D : Decoder σ) (alloc : Alloc)
  | owner (s : σ)

def FrameCall.step (st : σ × ReadBuffer) : FrameCall σ → Except Fault (σ × ReadBuffer)
  | .read closed alloc recv => do
      let (_, rb) ← st.2.read closed alloc recv
      pure (st.1, rb)
  | .decode D alloc => do
      let (_, s, rb) ← D.decode alloc st.1 st.2
      pure (s, rb)
  | .owner s => .ok (s, st.2)

/-- `recv` delivers no more than it was asked for. -/
def Delivers (st : σ × ReadBuffer) : FrameCall σ → Prop
  | .read _ alloc (.data chunk) => (chunk.length : Int) ≤ ((st.2.prepare alloc).getD st.2).room
  | _ => True

/-- The condition, for every turn of a call. -/
def FindsHeaders (st : σ × ReadBuffer) : FrameCall σ → Prop
  | .decode D alloc => ∀ rb ∈ D.turns alloc (st.2.rLen.toNat + 1) st.1 st.2, rb.Measurable
  | _ => True

/-- A call is safe: every turn of it is. -/
def SafeCall (st : σ × ReadBuffer) : FrameCall σ → Prop
  | .decode D alloc => ∀ rb ∈ D.turns alloc (st.2.rLen.toNat + 1) st.1 st.2, SafeTurn alloc rb
  | _ => True

variable {D : Decoder σ} {alloc : Alloc}

/-- The turns of a call are safe and leave a sound buffer. -/
theorem Decoder.loop_safe {turns : Nat} {s : σ} {rb : ReadBuffer} (out : Outcome) (sound : Sound rb)
    (finds : ∀ rb' ∈ D.turns alloc turns s rb, rb'.Measurable) :
    (∀ rb' ∈ D.turns alloc turns s rb, SafeTurn alloc rb') ∧
      ∀ r, D.loop alloc turns out s rb = .ok r → Sound r.2.2 := by
  induction turns generalizing s rb out with
  | zero =>
    refine ⟨fun _ hmem => (by cases hmem), fun r h => ?_⟩
    cases h
  | succ turns ih =>
    have first : rb.Measurable := finds rb List.mem_cons_self
    have safe : SafeTurn alloc rb := sound.safeTurn alloc first
    obtain hidle | ⟨rb', sound', hend⟩ | ⟨rb', rb₂, empty, hframe, hcons, sound₂⟩ :=
      sound.turn alloc first
    · simp only [Decoder.turns, Decoder.loop, hidle, ok_bind, List.mem_singleton]
      refine ⟨fun rb' hmem => hmem ▸ safe, fun r h => ?_⟩
      cases h
      exact sound
    · obtain hpart | ⟨m, hno⟩ := hend
      · simp only [Decoder.turns, Decoder.loop, hpart, ok_bind, List.mem_singleton]
        refine ⟨fun rb' hmem => hmem ▸ safe, fun r h => ?_⟩
        cases h
        exact sound'
      · simp only [Decoder.turns, Decoder.loop, hno, ok_bind, List.mem_singleton]
        refine ⟨fun rb' hmem => hmem ▸ safe, fun r h => ?_⟩
        cases h
        exact sound'
    · cases hcall : D.call s rb' with
      | error f =>
        simp only [Decoder.turns, Decoder.loop, hframe, hcall, ok_bind, error_bind,
          List.mem_singleton]
        refine ⟨fun rb' hmem => hmem ▸ safe, fun r h => ?_⟩
        cases h
      | ok r =>
        obtain ⟨ret, s'⟩ := r
        simp only [Decoder.turns, Decoder.loop, hframe, hcall, hcons, ok_bind, Reply.after_code,
          List.mem_cons] at finds ⊢
        by_cases hwait : ret.code = .waitMoreData
        · simp only [if_pos hwait] at finds ⊢
          have rest := ih (ret.after out.error) sound₂ fun rb' hmem => finds rb' (.inr hmem)
          exact ⟨fun rb' hmem => hmem.elim (fun heq => heq ▸ safe) (rest.1 rb'), rest.2⟩
        · simp only [if_neg hwait]
          refine ⟨fun rb' hmem => ?_, fun r h => ?_⟩
          · obtain rfl | hmem := hmem
            · exact safe
            · cases hmem
          · cases h
            exact sound₂

/-- A read leaves a sound buffer. -/
theorem Sound.read {rb : ReadBuffer} {closed : RetCode} {alloc : Alloc} {recv : Recv}
    {r : Outcome × ReadBuffer} (sound : Sound rb)
    (delivers : ∀ chunk, recv = .data chunk →
      (chunk.length : Int) ≤ ((rb.prepare alloc).getD rb).room)
    (h : rb.read closed alloc recv = .ok r) : Sound r.2 := by
  -- without memory there is nothing to read into
  obtain hno | ⟨rb₁, hprep, held, hbuf, hfront⟩ : (rb.prepare alloc = none ∧
      Sound { rb with rSize := ldapReadBuffer }) ∨
      ∃ rb₁, rb.prepare alloc = some rb₁ ∧ ∃ held, Buffered rb₁ held ∧ Front rb₁ held := by
    cases sound with
    | fresh hnone empty un =>
      cases alloc with
      | none =>
        exact .inl ⟨by simp only [ReadBuffer.prepare, hnone],
          .fresh hnone empty ⟨un.body, un.length⟩⟩
      | some g =>
        refine .inr ⟨{ rb with
          rBuffer := some ⟨ldapReadBuffer, g⟩, rSize := ldapReadBuffer, rLen := 0 },
          by simp only [ReadBuffer.prepare, hnone], [], ?_, .unmeasured ⟨un.body, un.length⟩⟩
        exact ⟨rfl, ⟨_, rfl, rfl, by simp [ldapReadBuffer], .nil (Nat.zero_le _)⟩, le_refl _,
          by simp [ldapReadBuffer]⟩
    | holding held hbuf hfront =>
      obtain ⟨buf, hb, -⟩ := hbuf.block
      exact .inr ⟨rb, by simp only [ReadBuffer.prepare, hb], held, hbuf, hfront⟩
  · rw [ReadBuffer.read, hno.1] at h
    cases h
    exact hno.2
  · obtain ⟨buf, hb, -⟩ := hbuf.block
    have sound₁ : Sound rb₁ := .holding held hbuf hfront
    have hself : rb₁.prepare alloc = some rb₁ := by simp only [ReadBuffer.prepare, hb]
    rw [hprep, Option.getD_some] at delivers
    rw [read_prepared closed recv hprep (by rw [hb]; rfl)] at h
    cases recv with
    | failed e =>
      simp only [ReadBuffer.read, hself] at h
      split at h
      · cases h
        exact sound₁
      · cases h
        exact sound₁
    | data chunk =>
      cases chunk with
      | nil =>
        simp only [ReadBuffer.read, hself] at h
        split at h
        · cases h
          exact sound₁
        · cases h
          exact sound₁
      | cons c cs =>
        obtain ⟨rb', hread, hbuf', hbody, hlen⟩ :=
          hbuf.read closed alloc (List.cons_ne_nil c cs) (delivers _ rfl)
        rw [hread] at h
        cases h
        refine .holding _ hbuf' ?_
        cases hfront with
        | unmeasured un => exact .unmeasured ⟨hbody.trans un.body, hlen.trans un.length⟩
        | measured p n hp hn frame =>
          exact .measured p n (hbody.trans hp) (hlen.trans hn) (frame.append _)

/-- A call that finds the headers it looks for leaves a sound buffer. -/
theorem Sound.step {st st' : σ × ReadBuffer} {call : FrameCall σ} (sound : Sound st.2)
    (delivers : Delivers st call) (finds : FindsHeaders st call) (h : call.step st = .ok st') :
    Sound st'.2 := by
  cases call with
  | read closed alloc recv =>
    obtain ⟨r, hread, heq⟩ := bind_eq_ok.1 h
    cases heq
    refine sound.read (fun chunk hchunk => ?_) hread
    subst hchunk
    exact delivers
  | decode D alloc =>
    obtain ⟨r, hdec, heq⟩ := bind_eq_ok.1 h
    cases heq
    exact (D.loop_safe _ sound finds).2 r hdec
  | owner s =>
    cases h
    exact sound

/-! ## Runs -/

/-- On a connection whose headers are found below `r_len`, every call is safe and a byte of the
buffer is kept back after it. -/
theorem safe_of_findsHeaders {s : σ} {calls : List (FrameCall σ)}
    (delivers : Along FrameCall.step (fun _ => Delivers) (s, {}) calls)
    (finds : Along FrameCall.step (fun _ => FindsHeaders) (s, {}) calls) :
    Along FrameCall.step (fun _ => SafeCall) (s, {}) calls ∧
      ∀ st, run FrameCall.step (s, {}) calls = .ok st →
        st.2.rBuffer.isSome → 0 ≤ st.2.rLen ∧ st.2.rLen < st.2.rSize := by
  have both : Along FrameCall.step (fun _ st call => Delivers st call ∧ FindsHeaders st call)
      (s, {}) calls := fun before e after s' he hs =>
    ⟨delivers before e after s' he hs, finds before e after s' he hs⟩
  have sound : ∀ calls st, Along FrameCall.step (fun _ st call => Delivers st call ∧
      FindsHeaders st call) (s, {}) calls → run FrameCall.step (s, {}) calls = .ok st →
      Sound st.2 := fun calls st along hrun =>
    run_invariant (I := fun _ st => Sound st.2) (.fresh rfl rfl ⟨rfl, rfl⟩)
      (fun _ _ _ _ sound ok h => sound.step ok.1 ok.2 h) along hrun
  refine ⟨fun before call after st he hs => ?_, fun st hrun => (sound calls st both hrun).inBounds⟩
  subst he
  have hst := sound before st both.left hs
  cases call with
  | read closed alloc recv => trivial
  | owner s => trivial
  | decode D alloc =>
    exact (D.loop_safe ⟨.ok, none⟩ hst (finds before _ after st rfl hs)).1

end Calls

/-! ## Server and client -/

/-- LDAP_sess_decode is the loop, and what comes after it leaves the read buffer alone. -/
theorem ldapSessDecode_frame {grow : Alloc} {env : DecodeEnv} {alloc : Bool} {send : Send}
    {ds : DsT} {sess sess' : DsSession} {out : ServOutcome} {log : List SessEvent}
    (h : ldapSessDecode grow env alloc send ds sess = .ok (out, sess', log)) :
    run FrameCall.step (sess.rdata, sess.rb)
      [.decode (sessDecoder (ldapDecodeRequest env)) grow, .owner sess'.rdata] =
        .ok (sess'.rdata, sess'.rb) := by
  obtain ⟨⟨o, rdata, rb⟩, hdec, h⟩ := bind_eq_ok.1 h
  have hstep : FrameCall.step (sess.rdata, sess.rb)
      (.decode (sessDecoder (ldapDecodeRequest env)) grow) = .ok (rdata, rb) := by
    simp only [FrameCall.step, hdec, ok_bind, pure_eq_ok]
  have hrb : sess'.rb = rb := by
    simp only at h
    split at h
    · unfold countRequest at h
      split at h
      · cases h
        rfl
      · obtain ⟨_, _, -, -, rfl, -⟩ := refuse_eq_ok h
        rfl
    · cases h
      rfl
  rw [hrb]
  exact run_cons_ok hstep (run_single rfl)

/-- LDAP_sess_read of a bound session is the read. -/
theorem ldapSessRead_frame {sockErr : SockErr} {stack : Nat → UInt8} {send : Send} {alloc : Alloc}
    {recv : Recv} {ds : DsT} {sess sess' : DsSession} {out : ServOutcome}
    (hready : sess.state = .stateReady)
    (h : ldapSessRead sockErr stack send alloc recv ds sess = .ok (out, sess')) :
    FrameCall.step (sess.rdata, sess.rb) (.read .errClosed alloc recv) =
      .ok (sess'.rdata, sess'.rb) := by
  unfold ldapSessRead at h
  rw [hready] at h
  obtain ⟨⟨o, rb⟩, hread, h⟩ := bind_eq_ok.1 h
  cases h
  simp only [FrameCall.step, hread, ok_bind, pure_eq_ok]

/-- LDAP_clnt_decode is the loop as well. -/
theorem ldapClntDecode_frame {now : Int} {clock : Timeval} {grow : Alloc} {alloc : Bool} {c : Ptr}
    {dc dc' : LdapT} {out : Outcome} {log : List Event}
    (h : ldapClntDecode now clock grow alloc c dc = .ok (out, dc', log)) :
    ∃ seen, FrameCall.step ((dc.clients c, []), (dc.clients c).rb)
      (.decode (clntDecoder now alloc) grow) = .ok (seen, (dc'.clients c).rb) := by
  obtain ⟨o, lc, seen, rb, hdec, kept⟩ := ldapClntDecode_loop h
  refine ⟨(lc, seen), ?_⟩
  simp only [FrameCall.step, hdec, ok_bind, pure_eq_ok, kept.rb]

/-! ## A length of 2^31 -/

/-- A frame of 2^31 + 5 bytes starts like this. -/
def hugeFrame : List UInt8 := [0x30, 0x84, 0x7f, 0xff, 0xff, 0xff]

/-- The server decodes after one read of `chunk`. -/
def readAndDecode (chunk : List UInt8) : List (FrameCall (List LdapMessage)) :=
  [.read .errClosed (some fun _ => 0) (.data chunk),
    .decode (sessDecoder (ldapDecodeRequest { depth := 0 })) none]

theorem delivers_readAndDecode {chunk : List UInt8} (hlen : chunk.length < ldapReadBuffer) :
    Along FrameCall.step (fun _ => Delivers) (([] : List LdapMessage), {}) (readAndDecode chunk) := by
  refine along_cons ?_ fun _ _ => along_cons trivial fun _ _ => along_nil _
  have hroom : (ReadBuffer.room { rSize := ldapReadBuffer }) = ldapReadBuffer - 1 := by decide
  change (chunk.length : Int) ≤ ReadBuffer.room { rSize := ldapReadBuffer }
  omega

/-- What is computed of the first frame: its length, and whether it counts as complete. -/
def ReadBuffer.measure (rb : ReadBuffer) : Option (Int × Bool) :=
  match rb.rBuffer with
  | none => none
  | some buf =>
      match findFrame rb buf, nextFrame none rb with
      | .ok rb₁, .ok (.frame _) => some (rb₁.rBerBodyLength, true)
      | .ok rb₁, .ok _ => some (rb₁.rBerBodyLength, false)
      | _, _ => none

theorem hugeFrame_measure {st : List LdapMessage × ReadBuffer}
    (h : FrameCall.step ([], {}) (.read .errClosed (some fun _ => 0) (.data hugeFrame)) = .ok st) :
    st.2.rLen = 6 ∧ st.2.measure = some (-2147483643, true) := by
  have heval : (fun st => (st.2.rLen, st.2.measure)) <$> FrameCall.step
      (([] : List LdapMessage), {}) (.read .errClosed (some fun _ => 0) (.data hugeFrame)) =
        .ok (6, some (-2147483643, true)) := by decide +kernel
  rw [h] at heval
  exact Prod.mk.inj (Except.ok.inj heval)

/-- The length wraps to a negative one, and the frame counts as complete. -/
theorem hugeFrame_not_safe :
    ¬ ∀ calls, Along FrameCall.step (fun _ => Delivers) (([] : List LdapMessage), {}) calls →
      Along FrameCall.step (fun _ => SafeCall) (([] : List LdapMessage), {}) calls := by
  intro h
  have along := h (readAndDecode hugeFrame) (delivers_readAndDecode (by decide))
  obtain ⟨st, hst⟩ : ∃ st, FrameCall.step (([] : List LdapMessage), {})
      (.read .errClosed (some fun _ => 0) (.data hugeFrame)) = .ok st := ⟨_, rfl⟩
  obtain ⟨hlen, hmeasure⟩ := hugeFrame_measure hst
  have safe : SafeTurn none st.2 := along [_] _ [] st rfl (run_single hst) st.2 List.mem_cons_self
  unfold ReadBuffer.measure at hmeasure
  split at hmeasure
  · cases hmeasure
  · rename_i buf hb
    obtain ⟨rb₁, n, -, hfind, -, htrue, herror, -⟩ := safe buf hb (by rw [hlen]; decide)
    rw [hfind] at hmeasure
    split at hmeasure
    · rename_i hsame hframe
      cases hsame
      have hneg : rb₁.rBerBodyLength = -2147483643 := congrArg Prod.fst (Option.some.inj hmeasure)
      by_cases hn : n < 2 ^ 31
      · have htwo := (htrue hn).1
        rw [hneg] at htwo
        exact absurd htwo (by decide)
      · obtain ⟨m, rb₂, hno⟩ := herror hn
        rw [hframe] at hno
        cases hno
    · exact Bool.noConfusion (congrArg Prod.snd (Option.some.inj hmeasure))
    · cases hmeasure

/-! ## A delete request -/

/-- With a whole message in the buffer every call is safe. -/
theorem safe_of_findsHeaders_delete :
    Along FrameCall.step (fun _ => SafeCall) (([] : List LdapMessage), {})
      (readAndDecode (deleteRoot 1)) := by
  refine (safe_of_findsHeaders (delivers_readAndDecode (by decide)) ?_).1
  refine along_cons trivial fun st hst => along_cons ?_ fun _ _ => along_nil _
  have heval : (fun st => (st.2.held, ((sessDecoder (ldapDecodeRequest { depth := 0 })).turns none
      (st.2.rLen.toNat + 1) st.1 st.2).length)) <$> FrameCall.step (([] : List LdapMessage), {})
        (.read .errClosed (some fun _ => 0) (.data (deleteRoot 1))) = .ok (deleteRoot 1, 1) := by
    decide +kernel
  rw [hst] at heval
  obtain ⟨hheld, hone⟩ := Prod.mk.inj (Except.ok.inj heval)
  intro rb hmem
  obtain ⟨rb', heq⟩ := List.length_eq_one_iff.1 hone
  have hfirst : st.2 = rb' := by
    have := List.head?_eq_some_iff.2 ⟨[], heq⟩
    exact Option.some.inj this
  rw [heq, List.mem_singleton, ← hfirst] at hmem
  subst hmem
  intro _ _
  rw [hheld]
  exact ⟨[], deleteRoot 1, 7, rfl, List.not_mem_nil, by decide, by decide⟩

end CassandraApi.Ldap
