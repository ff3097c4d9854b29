/-
# `Ldap.Arriving` — a read buffer while the stream grows

`Ldap.Framing` knows the whole stream and an allocator that has memory.  Here the
stream is still being written, and any call may find no memory: between two calls
the buffer holds the bytes `held` of the messages `msgs` that follow the ones taken
out of it (`Arriving`), and

    a read      appends what `recv` gave, if it says LDAP_RET_OK, and nothing else
    the loop    takes whole messages off the front, none unless it calls the decoder

(`Arriving.read`, `Arriving.loop`).  Nothing is said about how many messages a call
takes, so this is the half of the framing that makes nothing up and repeats nothing.
-/
import CassandraApi.Ldap.Channel

namespace CassandraApi.Ldap

open C Ber

/-! ## Between two calls -/

/-- The buffer holds the bytes `held` of `msgs`. -/
inductive Arriving (rb : ReadBuffer) (msgs : List (List UInt8)) (held : List UInt8) : Prop where
  /-- nothing was read yet -/
  | fresh (buffer : rb.rBuffer = none) (front : Unmeasured rb) (none : held = [])
  | waiting (h : Waiting rb msgs held)

/-- The decoder has been called on `m`, at the front of a buffer, and has returned this code. -/
def Decoder.Gives {σ : Type} (D : Decoder σ) (m : List UInt8) (code : RetCode) : Prop :=
  ∃ s rb behind ret s', Buffered rb (m ++ behind) ∧ Measured rb m.length ∧
    D.call s rb = .ok (ret, s') ∧ ret.code = code

section Buffer

variable {rb rb' : ReadBuffer} {msgs : List (List UInt8)} {held : List UInt8} {alloc : Alloc}

theorem Waiting.mono (h : Waiting rb msgs held) (more : List (List UInt8)) :
    Waiting rb (msgs ++ more) held where
  buffered := h.buffered
  pre := by
    rw [List.flatten_append]
    exact h.pre.trans (List.prefix_append _ _)
  front := by
    refine h.front.imp_right ?_
    rintro ⟨m, ms, rfl, measured⟩
    exact ⟨m, ms ++ more, rfl, measured⟩

/-- What is written behind the stream does not matter to what was read. -/
theorem Arriving.mono (h : Arriving rb msgs held) (more : List (List UInt8)) :
    Arriving rb (msgs ++ more) held := by
  cases h with
  | fresh buffer front none => exact .fresh buffer front none
  | waiting h => exact .waiting (h.mono more)

theorem Arriving.front (h : Arriving rb msgs held) : held <+: msgs.flatten := by
  cases h with
  | fresh buffer front none =>
    rw [none]
    exact List.nil_prefix
  | waiting h => exact h.pre

/-- No cut is inside a header of six bytes. -/
theorem not_cutInHeader (written : ∀ m ∈ msgs, IsWritten m) (t : Nat) : ¬ CutInHeader msgs t := by
  rintro ⟨before, m, after, rfl, hfour, -⟩
  exact (written m (by simp)).not_fourOctets hfour

theorem deliverable (written : ∀ m ∈ msgs, IsWritten m) : Deliverable msgs :=
  fun m hm => ⟨(written m hm).isMessage, (written m hm).length.2⟩

/-! ## A read -/

theorem prepare_ready {buf : Block} (hbuf : rb.rBuffer = some buf) :
    rb.prepare alloc = some rb := by
  simp [ReadBuffer.prepare, hbuf]

/-- A buffer that is there, or has just been allocated. -/
theorem Arriving.prepared (h : Arriving rb msgs held) (hprep : rb.prepare alloc = some rb') :
    Waiting rb' msgs held := by
  cases h with
  | fresh buffer front none =>
    subst none
    cases alloc with
    | none => simp [ReadBuffer.prepare, buffer] at hprep
    | some g =>
      have hstart : Reading g rb msgs [] := (ReadBuffer.Start.fresh buffer front).reading
      obtain ⟨rb₁, hprep₁, hw⟩ := hstart.prepared
      obtain rfl : rb₁ = rb' := Option.some.inj (hprep₁.symm.trans hprep)
      exact hw
  | waiting h =>
    obtain ⟨buf, hbuf, -⟩ := h.buffered.block
    rw [prepare_ready hbuf] at hprep
    cases hprep
    exact h

/-- A read that says LDAP_RET_OK has appended what `recv` gave; another has changed nothing. -/
theorem Arriving.read (h : Arriving rb msgs held) {closed : RetCode} (hclosed : closed ≠ .ok)
    {recv : Recv} {out : Outcome} (hread : rb.read closed alloc recv = .ok (out, rb'))
    (fits : ∀ bs, recv = .data bs → held ++ bs <+: msgs.flatten ∧
      (bs.length : Int) ≤ ((rb.prepare alloc).getD rb).room) :
    if out.code = .ok then ∃ bs, recv = .data bs ∧ Arriving rb' msgs (held ++ bs)
    else Arriving rb' msgs held := by
  cases hprep : rb.prepare alloc with
  | none =>
    rw [ReadBuffer.read, hprep] at hread
    cases hread
    rw [if_neg (by decide)]
    cases h with
    | fresh buffer front none => exact .fresh buffer ⟨front.body, front.length⟩ none
    | waiting h =>
      obtain ⟨buf, hbuf, -⟩ := h.buffered.block
      rw [prepare_ready hbuf] at hprep
      cases hprep
  | some rb₁ =>
    have hw := h.prepared hprep
    obtain ⟨buf, hbuf, -⟩ := hw.buffered.block
    rw [hprep, Option.getD_some] at fits
    rw [read_prepared closed recv hprep (by rw [hbuf]; rfl)] at hread
    have hself : rb₁.prepare alloc = some rb₁ := prepare_ready hbuf
    cases recv with
    | failed e =>
      rw [ReadBuffer.read, hself] at hread
      simp only at hread
      split at hread
      · cases hread
        exact .waiting hw
      · cases hread
        exact .waiting hw
    | data bs =>
      obtain ⟨hpre, hroom⟩ := fits bs rfl
      cases bs with
      | nil =>
        rw [ReadBuffer.read, hself] at hread
        simp only at hread
        split at hread
        · cases hread
          exact .waiting hw
        · cases hread
          rw [if_neg hclosed]
          exact .waiting hw
      | cons b bs =>
        obtain ⟨rb₂, hread₂, hbuffered, hbody, hlength⟩ :=
          hw.buffered.read closed alloc (List.cons_ne_nil b bs) hroom
        obtain ⟨rfl, rfl⟩ := Prod.mk.inj (Except.ok.inj (hread₂.symm.trans hread))
        rw [if_pos rfl]
        refine ⟨_, rfl, .waiting ⟨hbuffered, hpre, hw.front.imp (fun un => ?_) ?_⟩⟩
        · exact ⟨hbody.trans un.body, hlength.trans un.length⟩
        · rintro ⟨m, ms, heq, measured⟩
          exact ⟨m, ms, heq, hbody.trans measured.body, hlength.trans measured.length⟩

/-! ## The loop -/

/-- What a turn finds: as much as before, or the first message, whole. -/
def Turn.Finds (rb : ReadBuffer) (msgs : List (List UInt8)) (held : List UInt8) : Turn → Prop
  | .idle => Waiting rb msgs held
  | .partly rb' => Waiting rb' msgs held
  | .noMemory _ rb' => Waiting rb' msgs held
  | .frame rb' => ∃ m ms held', msgs = m :: ms ∧ held = m ++ held' ∧ Buffered rb' held ∧
      Measured rb' m.length

/-- Without memory a turn does the same, as far as it goes. -/
theorem nextFrame_none (g : Nat → UInt8) {turn : Turn} (hnext : nextFrame none rb = .ok turn) :
    nextFrame (some g) rb = .ok turn ∨ ∃ n rb₁ buf, turn = .noMemory n rb₁ ∧
      rb.rBuffer = some buf ∧ ¬ rb.rLen < 5 ∧ findFrame rb buf = .ok rb₁ := by
  unfold nextFrame at hnext ⊢
  cases hbuf : rb.rBuffer with
  | none =>
    rw [hbuf] at hnext
    exact .inl hnext
  | some buf =>
    rw [hbuf] at hnext
    simp only at hnext ⊢
    by_cases hfive : rb.rLen < 5
    · rw [if_pos hfive] at hnext ⊢
      exact .inl hnext
    · rw [if_neg hfive] at hnext ⊢
      obtain ⟨rb₁, hfind, hnext⟩ := bind_eq_ok.1 hnext
      by_cases hgrow : int32 (rb₁.rBerBody + rb₁.rBerBodyLength + 1) > rb₁.rSize
      · simp only [growTo, if_pos hgrow] at hnext
        cases hnext
        exact .inr ⟨_, rb₁, buf, rfl, rfl, hfive, hfind⟩
      · simp only [growTo, if_neg hgrow] at hnext
        rw [hfind, ok_bind]
        simp only [growTo, if_neg hgrow]
        exact .inl hnext

/-- The frame at the front is measured, and nothing else. -/
theorem Waiting.measured (h : Waiting rb msgs held) (written : ∀ m ∈ msgs, IsWritten m)
    {buf : Block} (hbuf : rb.rBuffer = some buf) (five : 5 ≤ held.length)
    (hfind : findFrame rb buf = .ok rb') : Waiting rb' msgs held := by
  obtain ⟨t, ht⟩ := h.pre
  obtain ⟨buf', hbuf', hsize, hsmall, hbytes⟩ := h.buffered.block
  obtain rfl : buf' = buf := Option.some.inj (hbuf'.symm.trans hbuf)
  cases msgs with
  | nil =>
    have hnone : held = [] := (List.append_eq_nil_iff.1 ht).1
    rw [hnone] at five
    cases five
  | cons m ms =>
    have hfront : Unmeasured rb ∨ Measured rb m.length := by
      refine h.front.imp_right ?_
      rintro ⟨_, _, heq, hm⟩
      cases heq
      exact hm
    have hm := written m List.mem_cons_self
    have hlen := hm.length.2
    have hfour := hm.not_fourOctets
    cases hm.isMessage with
    | mk L content len =>
      obtain ⟨u, hu⟩ := header_buffered len (by simpa using ht) five fun h5 =>
        hfour (fourOctets_of_length len h5.1)
      have hfound := findFrame_eq len (hu ▸ hbytes) (by omega) hfront
      obtain rfl := Except.ok.inj (hfound.symm.trans hfind)
      have hbuffered : Buffered { rb with
          rBerBody := 0, rBerBodyLength := (0x30 :: (L ++ content)).length } held :=
        ⟨h.buffered.len, ⟨buf', hbuf', hsize, hsmall, hbytes⟩, h.buffered.size, h.buffered.spare⟩
      exact ⟨hbuffered, ⟨t, ht⟩, .inr ⟨_, ms, rfl, rfl, rfl⟩⟩

theorem Waiting.finds (h : Waiting rb msgs held) (written : ∀ m ∈ msgs, IsWritten m) {turn : Turn}
    (hnext : nextFrame alloc rb = .ok turn) : turn.Finds rb msgs held := by
  have main : ∀ g, nextFrame (some g) rb = .ok turn → turn.Finds rb msgs held := by
    intro g hsome
    obtain ⟨t, rb', ht, hkind, hw, -⟩ | ⟨m, ms, held', rb', rfl, rfl, ht, hbuffered, hmeasured⟩ :=
      h.turn (g := g) (deliverable written) (not_cutInHeader written _)
    · obtain rfl := Except.ok.inj (ht.symm.trans hsome)
      obtain ⟨rfl, rfl⟩ | rfl := hkind
      · exact hw
      · exact hw
    · obtain rfl := Except.ok.inj (ht.symm.trans hsome)
      exact ⟨m, ms, held', rfl, rfl, hbuffered, hmeasured⟩
  cases alloc with
  | some g => exact main g hnext
  | none =>
    obtain hsome | ⟨n, rb₁, buf, rfl, hbuf, hfive, hfind⟩ := nextFrame_none (fun _ => 0) hnext
    · exact main _ hsome
    · have hlen := h.buffered.len
      exact h.measured written hbuf (by omega) hfind

/-- The codes that the loop returns of its own. -/
def RetCode.OfLoop (code : RetCode) : Prop :=
  code = .ok ∨ code = .errMemory ∨ code = .waitMoreData

/-- A call takes messages off the front, and any code that is not of the loop itself is what the
decoder returned for the last of them. -/
theorem Arriving.loop {σ : Type} {D : Decoder σ} {turns : Nat} {out out' : Outcome} {s s' : σ}
    (h : Arriving rb msgs held) (written : ∀ m ∈ msgs, IsWritten m) (hout : out.code.OfLoop)
    (hloop : D.loop alloc turns out s rb = .ok (out', s', rb')) :
    ∃ done rest held', msgs = done ++ rest ∧ held = done.flatten ++ held' ∧
      Arriving rb' rest held' ∧
      (out'.code.OfLoop ∨ ∃ first m, done = first ++ [m] ∧ D.Gives m out'.code) := by
  induction turns generalizing out s rb msgs held with
  | zero => cases hloop
  | succ turns ih =>
    obtain ⟨turn, hnext, hloop⟩ := bind_eq_ok.1 hloop
    cases h with
    | fresh buffer front none =>
      rw [nextFrame, buffer] at hnext
      cases hnext
      cases hloop
      exact ⟨[], msgs, held, rfl, rfl, .fresh buffer front none, .inl hout⟩
    | waiting h =>
      have hfinds := h.finds written hnext
      cases turn with
      | idle =>
        cases hloop
        exact ⟨[], msgs, held, rfl, rfl, .waiting hfinds, .inl hout⟩
      | partly rb₁ =>
        cases hloop
        exact ⟨[], msgs, held, rfl, rfl, .waiting hfinds, .inl (.inl rfl)⟩
      | noMemory n rb₁ =>
        cases hloop
        exact ⟨[], msgs, held, rfl, rfl, .waiting hfinds, .inl (.inr (.inl rfl))⟩
      | frame rb₁ =>
        obtain ⟨m, ms, held', rfl, rfl, hbuffered, hmeasured⟩ := hfinds
        obtain ⟨⟨ret, s₁⟩, hcall, hloop⟩ := bind_eq_ok.1 hloop
        obtain ⟨rb₂, hconsume, hbuffered₂, un, -⟩ := consume_eq hbuffered hmeasured.sum
        have hrest : Arriving rb₂ ms held' := by
          obtain ⟨t, ht⟩ := h.pre
          rw [List.flatten_cons, List.append_assoc] at ht
          exact .waiting ⟨hbuffered₂, ⟨t, List.append_cancel_left ht⟩, .inl un⟩
        have hgives : D.Gives m (ret.after out.error).code :=
          ⟨s, rb₁, held', ret, s₁, hbuffered, hmeasured, hcall, (Reply.after_code ..).symm⟩
        simp only [hconsume, ok_bind] at hloop
        split at hloop
        · rename_i hmore
          obtain ⟨done, rest, held₂, rfl, rfl, harrive, hcode⟩ :=
            ih hrest (fun x hx => written x (List.mem_cons_of_mem _ hx)) (.inr (.inr hmore)) hloop
          refine ⟨m :: done, rest, held₂, rfl, ?_, harrive, hcode.imp_right ?_⟩
          · rw [List.flatten_cons, List.append_assoc]
          · rintro ⟨first, last, rfl, hlast⟩
            exact ⟨m :: first, last, rfl, hlast⟩
        · cases hloop
          refine ⟨[m], ms, held', rfl, ?_, hrest, .inr ⟨[], m, rfl, hgives⟩⟩
          rw [List.flatten_singleton]

/-- A whole call. -/
theorem Arriving.decode {σ : Type} {D : Decoder σ} {out : Outcome} {s s' : σ}
    (h : Arriving rb msgs held) (written : ∀ m ∈ msgs, IsWritten m)
    (hdecode : D.decode alloc s rb = .ok (out, s', rb')) :
    ∃ done rest held', msgs = done ++ rest ∧ held = done.flatten ++ held' ∧
      Arriving rb' rest held' ∧
      (out.code.OfLoop ∨ ∃ first m, done = first ++ [m] ∧ D.Gives m out.code) :=
  h.loop written (.inl rfl) hdecode

end Buffer

/-! ## One direction of a connection -/

/-- What a call that reads asks for, and is given. -/
abbrev Receive := Option (Alloc × Recv)

/-- `recv` gives the next bytes on their way, as many as it was asked for at most. -/
def Possible (rb : ReadBuffer) (way : List UInt8) : Receive → Bool
  | some (alloc, .data bs) =>
      bs.isPrefixOf way && bs.length ≤ ((rb.prepare alloc).getD rb).room
  | _ => true

/-- The bytes still on their way after the call. -/
def remaining (way : List UInt8) (code : RetCode) : Receive → List UInt8
  | some (_, .data bs) => if code = .ok then way.drop bs.length else way
  | _ => way

/-- Of `msgs` the bytes `sent` were sent and `way` are on their way; `done` were taken out of the
buffer, and it holds what is between. -/
def Carried (msgs : List (List UInt8)) (sent way : List UInt8) (rb : ReadBuffer)
    (done : List (List UInt8)) : Prop :=
  ∃ rest held, msgs = done ++ rest ∧ sent = done.flatten ++ held ++ way ∧ Arriving rb rest held

section Carried

variable {msgs done : List (List UInt8)} {sent way : List UInt8} {rb rb' : ReadBuffer}
  {alloc : Alloc} {recv : Recv} {out : Outcome}

theorem Carried.length_le (h : Carried msgs sent way rb done) : done.length ≤ msgs.length := by
  obtain ⟨rest, held, rfl, -, -⟩ := h
  rw [List.length_append]
  exact Nat.le_add_right ..

theorem Carried.sublist (h : Carried msgs sent way rb done) : done.Sublist msgs := by
  obtain ⟨rest, held, rfl, -, -⟩ := h
  exact List.sublist_append_left ..

theorem Carried.write (h : Carried msgs sent way rb done) (more : List (List UInt8))
    (bs : List UInt8) : Carried (msgs ++ more) (sent ++ bs) (way ++ bs) rb done := by
  obtain ⟨rest, held, rfl, rfl, harrive⟩ := h
  exact ⟨rest ++ more, held, List.append_assoc .., List.append_assoc .., harrive.mono more⟩

theorem Carried.read (h : Carried msgs sent way rb done) (front : sent <+: msgs.flatten)
    {closed : RetCode} (hclosed : closed ≠ .ok) (possible : Possible rb way (some (alloc, recv)))
    (hread : rb.read closed alloc recv = .ok (out, rb')) :
    Carried msgs sent (remaining way out.code (some (alloc, recv))) rb' done := by
  obtain ⟨rest, held, rfl, rfl, harrive⟩ := h
  have hway : held ++ way <+: rest.flatten := by
    rw [List.flatten_append, List.append_assoc] at front
    exact (List.prefix_append_right_inj _).1 front
  have fits : ∀ bs, recv = .data bs → bs <+: way ∧
      (bs.length : Int) ≤ ((rb.prepare alloc).getD rb).room := by
    rintro bs rfl
    simpa [Possible] using possible
  have hafter := harrive.read hclosed hread fun bs hbs => by
    obtain ⟨⟨behind, hbehind⟩, hroom⟩ := fits bs hbs
    refine ⟨List.IsPrefix.trans ⟨behind, ?_⟩ hway, hroom⟩
    rw [List.append_assoc, hbehind]
  split at hafter
  · rename_i hok
    obtain ⟨bs, rfl, harrive'⟩ := hafter
    obtain ⟨behind, rfl⟩ := (fits bs rfl).1
    refine ⟨rest, held ++ bs, rfl, ?_, harrive'⟩
    rw [remaining, if_pos hok, List.drop_left]
    simp only [List.append_assoc]
  · rename_i hnot
    refine ⟨rest, held, rfl, ?_, hafter⟩
    cases recv with
    | failed e => rfl
    | data bs => rw [remaining, if_neg hnot]

theorem Carried.decode {σ : Type} {D : Decoder σ} {s s' : σ}
    (h : Carried msgs sent way rb done) (written : ∀ m ∈ msgs, IsWritten m)
    (hdecode : D.decode alloc s rb = .ok (out, s', rb')) :
    ∃ more, Carried msgs sent way rb' (done ++ more) ∧
      (out.code.OfLoop ∨ ∃ first m, more = first ++ [m] ∧ D.Gives m out.code) := by
  obtain ⟨rest, held, rfl, rfl, harrive⟩ := h
  obtain ⟨more, rest', held', rfl, rfl, harrive', hcode⟩ :=
    harrive.decode (fun m hm => written m (List.mem_append_right _ hm)) hdecode
  refine ⟨more, ⟨rest', held', (List.append_assoc ..).symm, ?_, harrive'⟩, hcode⟩
  simp only [List.flatten_append, List.append_assoc]

end Carried

end CassandraApi.Ldap
