/-
# `Ldap.Framing` — the loop hands over the messages of the stream

However TCP cuts a stream of messages, the loop of `Ldap.Frame` hands the
decoder exactly those messages, whole, once each and in order.  Three things
are needed for it, and the code checks none of them:

  * the last message has at least five bytes, since the loop does not look at
    fewer;
  * no message is longer than `2 ^ 31 - 2`, since lengths are `int`;
  * no read ends exactly five bytes into a message whose length has four
    octets.  The only guard before the length is read is `r_len >= 5`, and such
    a header has six bytes: the last one is then whatever lies behind the data.

The third is the one an ordinary stream can meet (`frames_depend_on_cut`).

The state between two calls is described by what is buffered (`Buffered`) and by
whether the frame at the front has been measured (`Measured`).  `findFrame` …
`consume` each have one lemma about such a state, the loop and the connection
one each by induction over them.
-/
import CassandraApi.Ldap.Frame

namespace CassandraApi.Ldap

open C Ber

/-! ## Messages -/

/-- `0x30`, a definite length, and as many bytes as it says. -/
inductive IsMessage : List UInt8 → Prop where
  | mk (L content : List UInt8) (len : DefLen content.length L) :
      IsMessage (0x30 :: (L ++ content))

theorem IsMessage.two_le {m : List UInt8} : IsMessage m → 2 ≤ m.length
  | .mk _ _ len => by
    have := len.length_pos
    simp only [List.length_cons, List.length_append]
    omega

/-- The length of the message has four octets. -/
def FourOctets (m : List UInt8) : Prop := m[1]? = some 0x84

instance : DecidablePred FourOctets := fun m => inferInstanceAs (Decidable (m[1]? = some 0x84))

/-- A stream cut after `t` bytes is cut five bytes into a message whose length has four
octets. -/
def CutInHeader (msgs : List (List UInt8)) (t : Nat) : Prop :=
  ∃ before m after, msgs = before ++ m :: after ∧ FourOctets m ∧ t = before.flatten.length + 5

theorem CutInHeader.append {rest : List (List UInt8)} {t : Nat} (h : CutInHeader rest t)
    (done : List (List UInt8)) : CutInHeader (done ++ rest) (done.flatten.length + t) := by
  obtain ⟨before, m, after, rfl, hm, rfl⟩ := h
  exact ⟨done ++ before, m, after, by simp, hm, by simp [Nat.add_assoc]⟩

/-! ## A buffer that holds a piece of the stream -/

/-- The buffer holds the bytes `held`, and a last byte is kept back. -/
structure Buffered (rb : ReadBuffer) (held : List UInt8) : Prop where
  len : rb.rLen = held.length
  block : ∃ buf, rb.rBuffer = some buf ∧ rb.rSize = buf.size ∧ buf.size < 2 ^ 31 ∧
    Holds buf 0 held
  size : ldapReadBuffer ≤ rb.rSize
  spare : held.length + 1 ≤ rb.rSize

/-- The frame at the front is not measured yet. -/
structure Unmeasured (rb : ReadBuffer) : Prop where
  body : rb.rBerBody = -1
  length : rb.rBerBodyLength = -1

/-- The frame at the front is measured, and is `n` bytes long. -/
structure Measured (rb : ReadBuffer) (n : Nat) : Prop where
  body : rb.rBerBody = 0
  length : rb.rBerBodyLength = n

theorem Measured.sum {rb : ReadBuffer} {n : Nat} (h : Measured rb n) :
    rb.rBerBody + rb.rBerBodyLength = n := by
  rw [h.body, h.length, Int.zero_add]

theorem frameLength_eq {buf : Block} {p n : Nat} {L : List UInt8} (hL : DefLen n L)
    (hn : 1 + L.length + n < 2 ^ 31) (h : Holds buf p (0x30 :: L)) :
    frameLength buf p = .ok ((1 + L.length + n : Nat) : Int) := by
  have h1 : Holds buf (p + 1) L := h.tail
  cases hL with
  | short hlt =>
    have ht : (UInt8.ofNat n).toNat = n := by rw [UInt8.toNat_ofNat']; omega
    have hn' : ¬ uint32 (schar (UInt8.ofNat n)) > 0xffffff00 := by
      rw [uint32_schar_gt, ht]; omega
    have hs : schar (UInt8.ofNat n) = n := by rw [schar_of_lt (by omega), ht]
    have hr : buf.rd (p + 1) = .ok (UInt8.ofNat n) := by exact_mod_cast h1.rd
    rw [frameLength, hr, ok_bind, if_neg hn', hs]
    simp only [pure_eq_ok, List.length_singleton]
    congr 1
    push_cast
    ring
  | long os pos four =>
    obtain ⟨hgt, hsz⟩ := lengthSize_eq (k := os.length) (by omega)
    have hne : os ≠ [] := by rintro rfl; simp at pos
    have hr : buf.rd (p + 1) = .ok (UInt8.ofNat (128 + os.length)) := by exact_mod_cast h1.rd
    have hacc : accLength buf os.length (p + 1) 0 = .ok (int32 (beVal os)) := by
      have := accLength_eq (p := p + 1) 0 h1.tail hne
      rw [Int.zero_mul, Int.zero_add] at this
      exact_mod_cast this
    simp only [List.length_cons] at hn ⊢
    rw [int32_natCast (by omega)] at hacc
    rw [frameLength, hr, ok_bind, if_pos hgt]
    simp only [hsz, Int.toNat_natCast, hacc, ok_bind, pure_eq_ok]
    rw [int32_of_range (by omega) (by omega)]
    congr 1
    push_cast
    ring

/-- Whatever is buffered of a message, its header is, once five bytes are there and the cut is
not inside a header of six. -/
theorem header_buffered {L content rest held t : List UInt8} (len : DefLen content.length L)
    (hpre : held ++ t = 0x30 :: (L ++ content) ++ rest) (five : 5 ≤ held.length)
    (hcut : ¬ (L.length = 5 ∧ held.length = 5)) : ∃ u, held = 0x30 :: L ++ u := by
  have hle := len.length_le
  have hpre' : (0x30 :: L) <+: held := by
    have hmsg : (0x30 :: L) <+: held ++ t := ⟨content ++ rest, by rw [hpre]; simp⟩
    refine List.prefix_of_prefix_length_le hmsg ⟨t, rfl⟩ ?_
    simp only [List.length_cons]
    omega
  exact hpre'.imp fun u hu => hu.symm

/-! ## One turn -/

section Turn

variable {rb : ReadBuffer} {alloc : Alloc} {held : List UInt8}

theorem scan30_zero {buf : Block} {xs : List UInt8} (h : Holds buf 0 (0x30 :: xs)) :
    scan30 buf (buf.size + 1) 0 = .ok 0 := by
  have hr : buf.rd 0 = .ok 0x30 := h.rd
  rw [scan30, hr, ok_bind, if_pos rfl]

/-- The first part of a turn measures the frame at the front. -/
theorem findFrame_eq {buf : Block} {L content u : List UInt8} (len : DefLen content.length L)
    (hbuf : Holds buf 0 (0x30 :: L ++ u)) (hlen : (0x30 :: (L ++ content)).length < 2 ^ 31)
    (hm : Unmeasured rb ∨ Measured rb (0x30 :: (L ++ content)).length) :
    findFrame rb buf = .ok { rb with
      rBerBody := 0, rBerBodyLength := (0x30 :: (L ++ content)).length } := by
  simp only [List.length_cons, List.length_append] at hlen hm ⊢
  rcases hm with ⟨hb, hl⟩ | ⟨hb, hl⟩
  · have hf : frameLength buf 0 = .ok ((1 + L.length + content.length : Nat) : Int) :=
      frameLength_eq (p := 0) len (by omega) hbuf.left
    rw [findFrame, if_pos (by rw [hb]; decide), scan30_zero hbuf]
    simp only [Functor.map, Except.map, ok_bind, hl, hf]
    rw [if_pos (by decide), pure_eq_ok]
    congr 3
    omega
  · rw [findFrame, if_neg (by rw [hb]; decide)]
    simp only [pure_eq_ok, ok_bind, hl]
    rw [if_neg (by omega)]
    cases rb
    simp_all

/-- The buffer grows to hold `n` bytes and keeps what it has. -/
theorem growTo_eq {n : Nat} {g : Nat → UInt8} {buf : Block} (h : Buffered rb held)
    (hb : rb.rBuffer = some buf) (hn : n < 2 ^ 31) :
    ∃ rb', growTo (some g) n rb buf = some rb' ∧ Buffered rb' held ∧ n ≤ rb'.rSize ∧
      rb'.rBerBody = rb.rBerBody ∧ rb'.rBerBodyLength = rb.rBerBodyLength := by
  obtain ⟨buf', hb', hsize, _, hbytes⟩ := h.block
  obtain rfl : buf' = buf := Option.some.inj (hb'.symm.trans hb)
  unfold growTo
  by_cases hgt : (n : Int) > rb.rSize
  · rw [if_pos hgt, Int.toNat_natCast]
    refine ⟨_, rfl, ?_, le_refl _, rfl, rfl⟩
    exact {
      len := h.len
      block := ⟨_, rfl, rfl, hn, hbytes.realloc (by omega)⟩
      size := h.size.trans (le_of_lt hgt)
      spare := h.spare.trans (le_of_lt hgt) }
  · rw [if_neg hgt]
    exact ⟨rb, rfl, h, by omega, rfl, rfl⟩

theorem nextFrame_of_found {rb₁ rb₂ : ReadBuffer} {buf : Block} (hb : rb.rBuffer = some buf)
    (hidle : ¬ rb.rLen < 5) (hfind : findFrame rb buf = .ok rb₁)
    (hgrow : growTo alloc (int32 (rb₁.rBerBody + rb₁.rBerBodyLength + 1)) rb₁ buf = some rb₂) :
    nextFrame alloc rb = .ok (if int32 (rb₂.rBerBody + rb₂.rBerBodyLength) > rb₂.rLen
      then .partly rb₂ else .frame rb₂) := by
  simp only [nextFrame, hb, if_neg hidle, hfind, ok_bind, hgrow]
  split <;> rfl

/-- A turn on a buffer with the header of `m` measures `m`, makes room for it, and goes on to
the decoder exactly when `m` is complete. -/
theorem nextFrame_eq {g : Nat → UInt8} {L content u : List UInt8}
    (len : DefLen content.length L) (hheld : held = 0x30 :: L ++ u) (h : Buffered rb held)
    (five : 5 ≤ held.length) (hlen : (0x30 :: (L ++ content)).length + 1 < 2 ^ 31)
    (hm : Unmeasured rb ∨ Measured rb (0x30 :: (L ++ content)).length) :
    ∃ rb', Buffered rb' held ∧ Measured rb' (0x30 :: (L ++ content)).length ∧
      (0x30 :: (L ++ content)).length + 1 ≤ rb'.rSize ∧
      nextFrame (some g) rb = .ok (if (0x30 :: (L ++ content)).length ≤ held.length
        then .frame rb' else .partly rb') := by
  obtain ⟨buf, hb, hsize, hsmall, hbytes⟩ := h.block
  have hfind := findFrame_eq len (hheld ▸ hbytes) (by omega) hm
  generalize (0x30 :: (L ++ content)).length = m at *
  have hn : int32 (0 + (m : Int) + 1) = (m + 1 : Nat) := by
    rw [int32_of_range (by omega) (by omega)]; push_cast; ring
  have hf : int32 (0 + (m : Int)) = m := by
    rw [int32_of_range (by omega) (by omega)]; ring
  have hidle : ¬ rb.rLen < 5 := by rw [h.len]; omega
  have hbuf₀ : Buffered { rb with rBerBody := 0, rBerBodyLength := m } held :=
    ⟨h.len, ⟨buf, hb, hsize, hsmall, hbytes⟩, h.size, h.spare⟩
  obtain ⟨rb', hgrow, hbuf', hroom, hbody, hlength⟩ :=
    growTo_eq (g := g) (n := m + 1) hbuf₀ hb (by omega)
  refine ⟨rb', hbuf', ⟨hbody, hlength⟩, by omega, ?_⟩
  rw [nextFrame_of_found hb hidle hfind (by rw [hn]; exact hgrow), hbody, hlength, hf, hbuf'.len]
  by_cases hle : m ≤ held.length
  · rw [if_neg (by omega), if_pos hle]
  · rw [if_pos (by omega), if_neg hle]

/-- A frame that has been handed over leaves, and what was behind it moves to the front. -/
theorem consume_eq {m held : List UInt8} (h : Buffered rb (m ++ held))
    (hm : rb.rBerBody + rb.rBerBodyLength = m.length) :
    ∃ rb', consume rb = .ok (rb', held.isEmpty) ∧ Buffered rb' held ∧ Unmeasured rb' ∧
      rb'.rSize = rb.rSize := by
  obtain ⟨buf, hb, hsize, hsmall, hbytes⟩ := h.block
  have hlen := h.len
  have hspare := h.spare
  simp only [List.length_append] at hlen hspare
  have hf : int32 (rb.rBerBody + rb.rBerBodyLength) = m.length := by
    rw [hm, int32_of_range (by omega) (by omega)]
  have hn : int32 (rb.rLen - m.length) = held.length := by
    rw [hlen, int32_of_range (by omega) (by omega)]; push_cast; ring
  have hright : Holds buf m.length held := by simpa using hbytes.right
  unfold consume
  simp only [hf, hn]
  by_cases hpos : (held.length : Int) > 0
  · have hin := hright.inside
    obtain ⟨buf', hmove⟩ : ∃ buf', buf.memmove 0 (rb.rBerBody + rb.rBerBodyLength) held.length =
        .ok buf' := by
      unfold Block.memmove
      rw [hm, if_pos ⟨le_refl _, by omega, by omega, by omega, by omega⟩]
      exact ⟨_, rfl⟩
    have hsrc : Holds buf (rb.rBerBody + rb.rBerBodyLength).toNat held := by
      rw [hm, Int.toNat_natCast]; exact hright
    have hmoved := hsrc.moved hmove rfl
    rw [if_pos hpos]
    simp only [hb, hmove, ok_bind, pure_eq_ok]
    refine ⟨{ rb with
      rBuffer := some buf', rLen := held.length, rBerBody := -1, rBerBodyLength := -1 },
      ?_, ⟨rfl, ⟨buf', rfl, ?_, ?_, hmoved.1⟩, h.size, ?_⟩, ⟨rfl, rfl⟩, rfl⟩
    · rw [List.isEmpty_eq_false_iff.2 (by rintro rfl; simp at hpos)]
    · rw [hmoved.2]; exact hsize
    · omega
    · simp only; omega
  · obtain rfl : held = [] := List.length_eq_zero_iff.1 (by omega)
    rw [if_neg hpos]
    refine ⟨{ rb with rLen := 0, rBerBody := -1, rBerBodyLength := -1 }, rfl, ?_, ⟨rfl, rfl⟩, rfl⟩
    exact ⟨rfl, ⟨buf, hb, hsize, hsmall, .nil (Nat.zero_le _)⟩, h.size, by
      simp only [List.length_nil]; omega⟩

end Turn

/-! ## The loop -/

/-- Between two turns: the messages `msgs` are still to be handed over, the bytes `held` of them
are buffered, and the first one may be measured already. -/
structure Waiting (rb : ReadBuffer) (msgs : List (List UInt8)) (held : List UInt8) : Prop where
  buffered : Buffered rb held
  pre : held <+: msgs.flatten
  front : Unmeasured rb ∨ ∃ m ms, msgs = m :: ms ∧ Measured rb m.length

/-- Nothing complete is left that the loop would look at, and `recv` has room for more. -/
structure Settled (rb : ReadBuffer) (msgs : List (List UInt8)) (held : List UInt8) : Prop where
  short : held.length < 5 ∨ ∃ m ms, msgs = m :: ms ∧ held.length < m.length
  room : held.length + 1 < rb.rSize

/-- The messages that the loop can deal with once they are cut in the right places. -/
def Deliverable (msgs : List (List UInt8)) : Prop :=
  ∀ m ∈ msgs, IsMessage m ∧ m.length + 1 < 2 ^ 31

theorem fourOctets_of_length {n : Nat} {L content : List UInt8} (len : DefLen n L)
    (h : L.length = 5) : FourOctets (0x30 :: (L ++ content)) := by
  cases len with
  | short => simp at h
  | long os _ _ =>
    have hos : os.length = 4 := by simpa using h
    simp [FourOctets, hos]

section Loop

variable {σ : Type} {D : Decoder σ} {g : Nat → UInt8} {rb : ReadBuffer}
  {msgs : List (List UInt8)} {held : List UInt8}

/-- The first turn on a waiting buffer: nothing to do, or the first message is handed over. -/
theorem Waiting.turn (h : Waiting rb msgs held) (ok : Deliverable msgs)
    (hcut : ¬ CutInHeader msgs held.length) :
    (∃ t rb', nextFrame (some g) rb = .ok t ∧ (t = .idle ∧ rb' = rb ∨ t = .partly rb') ∧
        Waiting rb' msgs held ∧ Settled rb' msgs held) ∨
    (∃ m ms held' rb', msgs = m :: ms ∧ held = m ++ held' ∧
        nextFrame (some g) rb = .ok (.frame rb') ∧ Buffered rb' held ∧ Measured rb' m.length) := by
  by_cases five : 5 ≤ held.length
  · obtain ⟨t, ht⟩ := h.pre
    match msgs, ok, h, ht with
    | [], _, _, ht => simp at ht; simp [ht.1] at five
    | m :: ms, ok, h, ht =>
      obtain ⟨hmsg, hsmall⟩ := ok m (List.mem_cons_self ..)
      have hfront : Unmeasured rb ∨ Measured rb m.length :=
        h.front.imp_right fun ⟨_, _, heq, hm⟩ => by cases heq; exact hm
      cases hmsg with
      | mk L content len =>
        obtain ⟨u, hu⟩ := header_buffered len (by simpa using ht) five fun ⟨h5, hh⟩ =>
          hcut ⟨[], _, ms, rfl, fourOctets_of_length len h5, by simpa using hh⟩
        obtain ⟨rb', hbuf, hmeas, hsize, hnext⟩ :=
          nextFrame_eq (g := g) len hu h.buffered five hsmall hfront
        split at hnext
        · rename_i hle
          right
          have hall : (0x30 :: (L ++ content)) <+: held ++ t := ⟨ms.flatten, by rw [ht]; simp⟩
          have hpre := List.prefix_of_prefix_length_le hall ⟨t, rfl⟩ hle
          obtain ⟨held', hheld⟩ := hpre
          exact ⟨_, ms, held', rb', rfl, hheld.symm, hnext, hbuf, hmeas⟩
        · rename_i hle
          left
          exact ⟨_, rb', hnext, .inr rfl, ⟨hbuf, ⟨t, ht⟩, .inr ⟨_, ms, rfl, hmeas⟩⟩,
            .inr ⟨_, ms, rfl, by omega⟩, by omega⟩
  · left
    obtain ⟨buf, hb, hsize, _, _⟩ := h.buffered.block
    refine ⟨.idle, rb, ?_, .inl ⟨rfl, rfl⟩, h, .inl (by omega), ?_⟩
    · have := h.buffered.len
      simp only [nextFrame, hb]
      rw [if_pos (by omega)]
    · have := h.buffered.size
      simp only [ldapReadBuffer] at this
      omega

/-- One call of the loop hands over some of the messages, in order, and leaves the rest waiting.
It hands over none only when there is nothing complete. -/
theorem Decoder.loop_delivers (hD : ∀ s rb, ∃ r, D.call s rb = .ok r) :
    ∀ (turns : Nat) (out : Outcome) (s : σ) (log : List (List UInt8))
      {msgs : List (List UInt8)} {held : List UInt8} {rb : ReadBuffer},
    held.length < turns → Waiting rb msgs held → Deliverable msgs →
    ¬ CutInHeader msgs held.length →
    ∃ done rest held' out' s' rb', msgs = done ++ rest ∧ held = done.flatten ++ held' ∧
      D.logged.loop (some g) turns out (s, log) rb = .ok (out', (s', log ++ done), rb') ∧
      Waiting rb' rest held' ∧ (done = [] → Settled rb' rest held')
  | 0, _, _, _, _, _, _, hlt, _, _, _ => absurd hlt (Nat.not_lt_zero _)
  | turns + 1, out, s, log, msgs, held, rb, hlt, h, ok, hcut => by
    rcases h.turn (g := g) ok hcut with ⟨t, rb', hnext, ht, hw, hs⟩ |
      ⟨m, ms, held', rb', rfl, rfl, hnext, hbuf, hmeas⟩
    · refine ⟨[], msgs, held, ?_⟩
      rcases ht with ⟨rfl, rfl⟩ | rfl
      · exact ⟨out, s, rb', rfl, rfl, by simp [Decoder.loop, hnext], hw, fun _ => hs⟩
      · exact ⟨C.Reply.after ⟨.ok, none⟩ out.error, s, rb', rfl, rfl,
          by simp [Decoder.loop, hnext], hw, fun _ => hs⟩
    · obtain ⟨⟨ret, s₁⟩, hcall⟩ := hD s rb'
      obtain ⟨rb₁, hcons, hbuf₁, hun, -⟩ := consume_eq hbuf hmeas.sum
      have hframe : rb'.frame = m := by
        obtain ⟨buf, hb, -, -, hbytes⟩ := hbuf.block
        simpa [ReadBuffer.frame, hb, hmeas.body, hmeas.length] using hbytes.left.bytes
      have hw₁ : Waiting rb₁ ms held' := by
        refine ⟨hbuf₁, ?_, .inl hun⟩
        obtain ⟨t, ht⟩ := h.pre
        exact ⟨t, by simpa using ht⟩
      have ok₁ : Deliverable ms := fun x hx => ok x (List.mem_cons_of_mem _ hx)
      have hcut₁ : ¬ CutInHeader ms held'.length := fun hc => hcut (by
        rw [List.length_append]; simpa using hc.append [m])
      let s₂ := if held'.isEmpty then D.emptied s₁ else s₁
      have hstep : D.logged.loop (some g) (turns + 1) out (s, log) rb =
          if ret.code = .waitMoreData
          then D.logged.loop (some g) turns (ret.after out.error) (s₂, log ++ [m]) rb₁
          else .ok (ret.after out.error, (s₂, log ++ [m]), rb₁) := by
        rw [Decoder.loop, hnext]
        simp only [ok_bind, Decoder.logged, hcall, hframe, pure_eq_ok, hcons, Reply.after_code]
        cases held' <;> rfl
      have htwo := (ok m (List.mem_cons_self ..)).1.two_le
      rw [hstep]
      split
      · obtain ⟨done, rest, held₂, out₂, s₃, rb₂, rfl, rfl, hrun, hw₂, -⟩ :=
          Decoder.loop_delivers hD turns (ret.after out.error) s₂ (log ++ [m])
            (by simp only [List.length_append] at hlt; omega) hw₁ ok₁ hcut₁
        exact ⟨m :: done, rest, held₂, out₂, s₃, rb₂, rfl, by simp, by simpa using hrun, hw₂,
          fun h => absurd h (by simp)⟩
      · exact ⟨[m], ms, held', _, s₂, rb₁, rfl, by simp, rfl, hw₁, fun h => absurd h (by simp)⟩

/-- The calls after a read hand over everything complete. -/
theorem Decoder.drain_delivers (hD : ∀ s rb, ∃ r, D.call s rb = .ok r) :
    ∀ (calls : Nat) (s : σ) (log : List (List UInt8)) {msgs : List (List UInt8)}
      {held : List UInt8} {rb : ReadBuffer},
    held.length < calls → Waiting rb msgs held → Deliverable msgs →
    ¬ CutInHeader msgs held.length →
    ∃ done rest held' s' rb', msgs = done ++ rest ∧ held = done.flatten ++ held' ∧
      D.logged.drain (some g) calls (s, log) rb = .ok ((s', log ++ done), rb') ∧
      Waiting rb' rest held' ∧ Settled rb' rest held'
  | 0, _, _, _, _, _, hlt, _, _, _ => absurd hlt (Nat.not_lt_zero _)
  | calls + 1, s, log, msgs, held, rb, hlt, h, ok, hcut => by
    obtain ⟨done, rest, held', out', s', rb', rfl, rfl, hrun, hw, hs⟩ :=
      Decoder.loop_delivers (g := g) hD (rb.rLen.toNat + 1) ⟨.ok, none⟩ s log
        (by rw [h.buffered.len]; omega) h ok hcut
    have hlen := h.buffered.len
    have hlen' := hw.buffered.len
    simp only [List.length_append] at hlen hlt hcut
    rw [Decoder.drain, Decoder.decode, hrun]
    simp only [ok_bind]
    cases done with
    | nil =>
      refine ⟨[], rest, held', s', rb', rfl, rfl, ?_, hw, hs rfl⟩
      rw [if_neg (by simp at hlen; omega), List.append_nil, pure_eq_ok]
    | cons m done =>
      have htwo := (ok m (by simp)).1.two_le
      simp only [List.flatten_cons, List.length_append] at hlen hlt
      obtain ⟨done₂, rest₂, held₂, s₂, rb₂, rfl, rfl, hrun₂, hw₂, hs₂⟩ :=
        Decoder.drain_delivers hD calls s' (log ++ m :: done) (by omega) hw
          (fun x hx => ok x (List.mem_append_right _ hx)) fun hc => hcut (hc.append _)
      refine ⟨m :: done ++ done₂, rest₂, held₂, s₂, rb₂, by simp, by simp, ?_, hw₂, hs₂⟩
      rw [if_pos (by omega), hrun₂]
      simp

end Loop

/-! ## The connection -/

/-- No byte is buffered: the connection is new, or everything has been handed over. -/
inductive ReadBuffer.Start (rb : ReadBuffer) : Prop where
  | fresh (none : rb.rBuffer = none) (un : Unmeasured rb)
  | empty (buffered : Buffered rb []) (un : Unmeasured rb)

/-- A buffer as a read finds it. -/
structure Reading (g : Nat → UInt8) (rb : ReadBuffer) (msgs : List (List UInt8))
    (held : List UInt8) : Prop where
  prepared : ∃ rb', rb.prepare (some g) = some rb' ∧ Waiting rb' msgs held
  short : held.length < 5 ∨ ∃ m ms, msgs = m :: ms ∧ held.length < m.length

section Connection

variable {σ : Type} {D : Decoder σ} {g : Nat → UInt8} {rb : ReadBuffer}
  {msgs : List (List UInt8)} {held : List UInt8}

theorem ReadBuffer.Start.reading (h : rb.Start) : Reading g rb msgs [] := by
  refine ⟨?_, .inl (by simp)⟩
  cases h with
  | fresh hnone hun =>
    refine ⟨{ rb with rBuffer := some ⟨ldapReadBuffer, g⟩, rSize := ldapReadBuffer, rLen := 0 },
      by simp [ReadBuffer.prepare, hnone], ?_, List.nil_prefix, .inl ⟨hun.body, hun.length⟩⟩
    exact ⟨rfl, ⟨_, rfl, rfl, by simp [ldapReadBuffer], .nil (Nat.zero_le _)⟩, le_refl _,
      by simp [ldapReadBuffer]⟩
  | empty hbuf hun =>
    obtain ⟨buf, hb, -⟩ := hbuf.block
    exact ⟨rb, by simp [ReadBuffer.prepare, hb], hbuf, List.nil_prefix, .inl hun⟩

theorem Waiting.reading (h : Waiting rb msgs held) (hs : Settled rb msgs held) :
    Reading g rb msgs held := by
  obtain ⟨buf, hb, -⟩ := h.buffered.block
  exact ⟨⟨rb, by simp [ReadBuffer.prepare, hb], h⟩, hs.short⟩

/-- A read appends its chunk. -/
theorem Buffered.read (closed : RetCode) (alloc : Alloc) {chunk : List UInt8}
    (h : Buffered rb held) (hne : chunk ≠ []) (hroom : (chunk.length : Int) ≤ rb.room) :
    ∃ rb', rb.read closed alloc (.data chunk) = .ok (⟨.ok, none⟩, rb') ∧
      Buffered rb' (held ++ chunk) ∧ rb'.rBerBody = rb.rBerBody ∧
      rb'.rBerBodyLength = rb.rBerBodyLength := by
  obtain ⟨buf, hb, hsize, hsmall, hbytes⟩ := h.block
  have hlen := h.len
  have hspare := h.spare
  have hprep : rb.prepare alloc = some rb := by simp [ReadBuffer.prepare, hb]
  have hr : rb.room = rb.rSize - 1 - rb.rLen := int32_of_range (by omega) (by omega)
  rw [hr] at hroom
  obtain ⟨c, cs, rfl⟩ := List.exists_cons_of_ne_nil hne
  obtain ⟨buf', hwrite⟩ : ∃ buf', buf.write rb.rLen (c :: cs) = .ok buf' := by
    rw [Block.write, if_pos ⟨by omega, by omega⟩]
    exact ⟨_, rfl⟩
  have hnew := Holds.written hwrite
  have hold := Holds.write_frame hwrite hbytes (by omega)
  have hrl : rb.rLen.toNat = 0 + held.length := by omega
  have hlen' : int32 (rb.rLen + (c :: cs).length) = (held ++ c :: cs).length := by
    rw [int32_of_range (by omega) (by omega), hlen, List.length_append]; push_cast; ring
  refine ⟨{ rb with rBuffer := some buf', rLen := (held ++ c :: cs).length }, ?_, ?_, rfl, rfl⟩
  · have hpos : ¬ rb.room ≤ 0 := by
      rw [hr]; simp only [List.length_cons] at hroom; omega
    simp only [ReadBuffer.read, hprep, if_neg hpos, hb, hwrite, ok_bind, hlen']
  · refine ⟨rfl, ⟨buf', rfl, by rw [hnew.2]; exact hsize, by omega,
      Holds.append_iff.2 ⟨hold, hrl ▸ hnew.1⟩⟩, h.size, ?_⟩
    simp only [List.length_append]
    push_cast
    omega

/-- A read of a buffer that has to be prepared is one of the prepared buffer. -/
theorem read_prepared {rb₁ : ReadBuffer} {alloc : Alloc} (closed : RetCode) (recv : Recv)
    (hprep : rb.prepare alloc = some rb₁) (hsome : rb₁.rBuffer.isSome) :
    rb.read closed alloc recv = rb₁.read closed alloc recv := by
  obtain ⟨buf, hb⟩ := Option.isSome_iff_exists.1 hsome
  have hself : rb₁.prepare alloc = some rb₁ := by simp [ReadBuffer.prepare, hb]
  unfold ReadBuffer.read
  rw [hprep, hself]

/-- A read of the next bytes of the stream. -/
theorem Reading.read (closed : RetCode) {chunk : List UInt8} (h : Reading g rb msgs held)
    (hne : chunk ≠ []) (hpre : held ++ chunk <+: msgs.flatten)
    (hroom : (chunk.length : Int) ≤ ((rb.prepare (some g)).getD rb).room) :
    ∃ rb', rb.read closed (some g) (.data chunk) = .ok (⟨.ok, none⟩, rb') ∧
      Waiting rb' msgs (held ++ chunk) := by
  obtain ⟨⟨rb₁, hprep, hw⟩, -⟩ := h
  obtain ⟨buf, hb, -⟩ := hw.buffered.block
  rw [hprep, Option.getD_some] at hroom
  obtain ⟨rb', hread, hbuf, hbody, hlength⟩ := hw.buffered.read closed (some g) hne hroom
  rw [read_prepared closed _ hprep (by rw [hb]; rfl)]
  refine ⟨rb', hread, hbuf, hpre, hw.front.imp (fun un => ?_) fun ⟨m, ms, heq, me⟩ => ?_⟩
  · exact ⟨hbody.trans un.body, hlength.trans un.length⟩
  · exact ⟨m, ms, heq, hbody.trans me.body, hlength.trans me.length⟩

/-- Whatever has arrived of the stream, every complete message of it has been handed over. -/
theorem Decoder.feed_prefix (hD : ∀ s rb, ∃ r, D.call s rb = .ok r) {closed : RetCode} :
    ∀ {chunks : List (List UInt8)} {s : σ} {log msgs : List (List UInt8)} {held : List UInt8}
      {rb : ReadBuffer} {r : Except Fault ((σ × List (List UInt8)) × ReadBuffer)},
    Reading g rb msgs held → Deliverable msgs → held ++ chunks.flatten <+: msgs.flatten →
    (∀ c ∈ chunks, c ≠ []) →
    (∀ head tail, chunks = head ++ tail → head ≠ [] →
      ¬ CutInHeader msgs (held.length + head.flatten.length)) →
    D.logged.feed closed (some g) chunks (s, log) rb = some r →
    ∃ done rest tail s' rb', msgs = done ++ rest ∧ held ++ chunks.flatten = done.flatten ++ tail ∧
      r = .ok ((s', log ++ done), rb') ∧
      (tail.length < 5 ∨ ∃ m ms, rest = m :: ms ∧ tail.length < m.length)
  | [], s, log, msgs, held, rb, r, h, _, _, _, _, hfeed => by
    refine ⟨[], msgs, held, s, rb, rfl, List.append_nil held, ?_, h.short⟩
    simpa [Decoder.feed] using hfeed.symm
  | chunk :: chunks, s, log, msgs, held, rb, r, h, ok, hall, hne, hcut, hfeed => by
    have hall' : (held ++ chunk) ++ chunks.flatten <+: msgs.flatten := by simpa using hall
    rw [Decoder.feed] at hfeed
    split at hfeed
    · rename_i hroom
      obtain ⟨rb₁, hread, hw₁⟩ := h.read closed (hne _ (List.mem_cons_self ..))
        ((List.prefix_append _ _).trans hall') hroom
      have hcut₁ : ¬ CutInHeader msgs (held ++ chunk).length := by
        simpa using hcut [chunk] chunks rfl (by simp)
      obtain ⟨done, rest, held₂, s₂, rb₂, rfl, hheld, hdrain, hw₂, hs₂⟩ :=
        Decoder.drain_delivers (g := g) hD (rb₁.rLen.toNat + 1) s log
          (by rw [hw₁.buffered.len]; omega) hw₁ ok hcut₁
      have hrd : D.logged.readAndDrain closed (some g) chunk (s, log) rb =
          .ok ((s₂, log ++ done), rb₂) := by
        rw [Decoder.readAndDrain, hread, ok_bind]
        exact hdrain
      rw [hrd] at hfeed
      have hlen : held.length + chunk.length = done.flatten.length + held₂.length := by
        have := congrArg List.length hheld
        simpa using this
      obtain ⟨done₂, rest₂, tail, s₃, rb₃, rfl, htail, rfl, hrest⟩ :=
        Decoder.feed_prefix hD (hw₂.reading hs₂)
          (fun x hx => ok x (List.mem_append_right _ hx))
          (by rw [hheld, List.append_assoc, List.flatten_append] at hall'
              exact (List.prefix_append_right_inj _).1 hall')
          (fun c hc => hne c (List.mem_cons_of_mem _ hc))
          (fun head tail heq hhead hc => hcut (chunk :: head) tail (by rw [heq]; rfl) (by simp)
            (by
              have := hc.append done
              rwa [← Nat.add_assoc, ← hlen, Nat.add_assoc, ← List.length_append,
                ← List.flatten_cons] at this))
          hfeed
      refine ⟨done ++ done₂, rest₂, tail, s₃, rb₃, by simp, ?_, by simp, hrest⟩
      rw [List.flatten_cons, ← List.append_assoc, hheld, List.append_assoc, htail,
        List.flatten_append, List.append_assoc]
    · cases hfeed

/-- Over the whole connection, every complete message is handed over. -/
theorem Decoder.feed_delivers (hD : ∀ s rb, ∃ r, D.call s rb = .ok r) {closed : RetCode}
    {chunks : List (List UInt8)} {s : σ} {log msgs : List (List UInt8)} {held : List UInt8}
    {rb : ReadBuffer} {r : Except Fault ((σ × List (List UInt8)) × ReadBuffer)}
    (h : Reading g rb msgs held) (ok : Deliverable msgs)
    (hall : held ++ chunks.flatten = msgs.flatten) (hne : ∀ c ∈ chunks, c ≠ [])
    (hcut : ∀ head tail, chunks = head ++ tail → head ≠ [] →
      ¬ CutInHeader msgs (held.length + head.flatten.length))
    (hfeed : D.logged.feed closed (some g) chunks (s, log) rb = some r) :
    ∃ done rest s' rb', msgs = done ++ rest ∧ r = .ok ((s', log ++ done), rb') ∧
      (rest.flatten.length < 5 ∨ ∃ m ms, rest = m :: ms ∧ rest.flatten.length < m.length) := by
  obtain ⟨done, rest, tail, s', rb', rfl, htail, rfl, hrest⟩ :=
    Decoder.feed_prefix hD h ok (hall ▸ List.prefix_refl _) hne hcut hfeed
  obtain rfl : rest.flatten = tail := by
    rw [hall, List.flatten_append] at htail
    exact List.append_cancel_left htail
  exact ⟨done, rest, s', rb', rfl, rfl, hrest⟩

end Connection

/-! ## Framing does not depend on the cut -/

/-- The cuts and messages the loop gets right. -/
structure CutSafely (msgs chunks : List (List UInt8)) : Prop where
  /-- no frame length overflows an `int` -/
  small : ∀ m ∈ msgs, m.length ≤ 2 ^ 31 - 2
  /-- the loop looks at the last message -/
  last : ∀ m, msgs.getLast? = some m → 5 ≤ m.length
  /-- no read ends before the last byte of a six byte header -/
  header : ∀ head tail, chunks = head ++ tail → ¬ CutInHeader msgs head.flatten.length

/-- A decoder that returns whatever it likes, but returns. -/
def Decoder.ofTotal {σ : Type} (call : σ → ReadBuffer → Outcome × σ) (emptied : σ → σ)
    (noMemory : Int → Option String) : Decoder σ where
  call s rb := .ok (call s rb)
  emptied := emptied
  noMemory := noMemory

/-- What is left when the stream ends: a suffix of the messages that is either empty or ends in
the last message, which the loop has then not looked at. -/
theorem rest_eq_nil {done rest : List (List UInt8)}
    (hlast : ∀ m, (done ++ rest).getLast? = some m → 5 ≤ m.length)
    (hrest : rest.flatten.length < 5 ∨ ∃ m ms, rest = m :: ms ∧ rest.flatten.length < m.length) :
    rest = [] := by
  rcases hrest with hshort | ⟨m, ms, rfl, hlt⟩
  · by_contra hne
    have hl := hlast (rest.getLast hne) (by
      rw [List.getLast?_append_of_ne_nil _ hne, List.getLast?_eq_some_getLast hne])
    have : (rest.getLast hne).length ≤ rest.flatten.length :=
      (List.sublist_flatten_of_mem (List.getLast_mem hne)).length_le
    omega
  · simp at hlt

/-- However the stream is cut, the decoder is called on exactly its messages, whole, once each
and in order.  This is the loop of LDAP_sess_decode and of LDAP_clnt_decode, for every behaviour
of ldap_decode_request or ldap_decode_response (`call`) and whatever the allocator leaves in the
buffer (`garbage`). -/
theorem frames_eq_messages {σ : Type} (call : σ → ReadBuffer → Outcome × σ) (emptied : σ → σ)
    (noMemory : Int → Option String) (closed : RetCode) (garbage : Nat → UInt8)
    (msgs chunks : List (List UInt8)) (s : σ) (rb : ReadBuffer)
    (r : Except Fault ((σ × List (List UInt8)) × ReadBuffer)) (start : rb.Start)
    (hmsgs : ∀ m ∈ msgs, IsMessage m) (hchunks : chunks.flatten = msgs.flatten)
    (hne : ∀ c ∈ chunks, c ≠ []) (safe : CutSafely msgs chunks)
    (hfeed : (Decoder.ofTotal call emptied noMemory).logged.feed closed (some garbage)
      chunks (s, []) rb = some r) :
    ∃ s' rb', r = .ok ((s', msgs), rb') := by
  have hD : ∀ s rb, ∃ r, (Decoder.ofTotal call emptied noMemory).call s rb = .ok r :=
    fun s rb => ⟨_, rfl⟩
  have ok : Deliverable msgs := fun m hm => ⟨hmsgs m hm, by have := safe.small m hm; omega⟩
  obtain ⟨done, rest, s', rb', rfl, rfl, hrest⟩ :=
    Decoder.feed_delivers hD start.reading ok hchunks hne
      (fun head tail heq _ => by simpa using safe.header head tail heq) hfeed
  obtain rfl := rest_eq_nil safe.last hrest
  exact ⟨s', rb', by simp⟩

/-- A recording decoder that finds data in every frame. -/
def recorder : Decoder Unit :=
  .ofTotal (fun s _ => (⟨.dataAvailable, none⟩, s)) id fun _ => none

/-- Two messages in three reads, cut inside a header of two bytes and inside a body. -/
theorem frames_eq_messages_pair :
    ∃ s' rb', recorder.logged.feed .errClosed (some fun _ => 0xff)
      [[0x30], [0x03, 1, 2, 3, 0x30, 0x81], [0x04, 9, 9, 9, 9]] ((), []) {} =
      some (.ok ((s', [[0x30, 0x03, 1, 2, 3], [0x30, 0x81, 0x04, 9, 9, 9, 9]]), rb')) := by
  have hmsgs : ∀ m ∈ ([[0x30, 0x03, 1, 2, 3], [0x30, 0x81, 0x04, 9, 9, 9, 9]] : List (List UInt8)),
      IsMessage m := by
    intro m hm
    simp only [List.mem_cons, List.not_mem_nil, or_false] at hm
    rcases hm with rfl | rfl
    · exact .mk [0x03] [1, 2, 3] (.short (by decide))
    · exact .mk [0x81, 0x04] [9, 9, 9, 9] (.long [0x04] (by decide) (by decide))
  obtain ⟨r, hr⟩ : ∃ r, recorder.logged.feed .errClosed (some fun _ => 0xff)
      [[0x30], [0x03, 1, 2, 3, 0x30, 0x81], [0x04, 9, 9, 9, 9]] ((), []) {} = some r := ⟨_, rfl⟩
  obtain ⟨s', rb', rfl⟩ := frames_eq_messages _ _ _ _ _ _ _ _ _ r (.fresh rfl ⟨rfl, rfl⟩) hmsgs
    (by decide) (by decide) ⟨by decide, by decide, by
      rintro head tail heq ⟨before, m, after, hsplit, hfour, -⟩
      have hm : m ∈ [[0x30, 0x03, 1, 2, 3], [0x30, 0x81, 0x04, 9, 9, 9, 9]] := by
        rw [hsplit]; simp
      simp only [List.mem_cons, List.not_mem_nil, or_false] at hm
      rcases hm with rfl | rfl <;> exact absurd hfour (by decide)⟩ hr
  exact ⟨s', rb', hr⟩

/-- A read that ends five bytes into a message of ten: the length is read with the byte `0` that
the allocator left behind the data, and a frame of six bytes is handed over. -/
theorem frames_depend_on_cut :
    ¬ ∀ (garbage : Nat → UInt8) (msgs chunks : List (List UInt8))
      (r : Except Fault ((Unit × List (List UInt8)) × ReadBuffer)),
      (∀ m ∈ msgs, IsMessage m) → chunks.flatten = msgs.flatten → (∀ c ∈ chunks, c ≠ []) →
      recorder.logged.feed .errClosed (some garbage) chunks ((), []) {} = some r →
      ∃ s' rb', r = .ok ((s', msgs), rb') := by
  intro hclaim
  have hmsg : IsMessage [0x30, 0x84, 0, 0, 0, 4, 1, 2, 3, 4] :=
    .mk [0x84, 0, 0, 0, 4] [1, 2, 3, 4] (.long [0, 0, 0, 4] (by decide) (by decide))
  obtain ⟨s', rb', heq⟩ := hclaim (fun _ => 0) [[0x30, 0x84, 0, 0, 0, 4, 1, 2, 3, 4]]
    [[0x30, 0x84, 0, 0, 0], [4, 1, 2, 3, 4]] _ (by simpa using hmsg) (by decide) (by decide) rfl
  have hlog := congrArg (Except.map (·.1.2)) heq
  have hrun : (recorder.logged.feed .errClosed (some fun _ => 0)
      [[0x30, 0x84, 0, 0, 0], [4, 1, 2, 3, 4]] ((), []) {}).map (Except.map (·.1.2)) =
      some (.ok [[0x30, 0x84, 0, 0, 0, 4]]) := rfl
  have hsome := congrArg some hlog
  change (recorder.logged.feed .errClosed (some fun _ => 0)
      [[0x30, 0x84, 0, 0, 0], [4, 1, 2, 3, 4]] ((), []) {}).map (Except.map (·.1.2)) = _ at hsome
  rw [hrun] at hsome
  simp [Except.map] at hsome

end CassandraApi.Ldap
