/-
# `Ldap.ConnTimers` — the clocks of one connection

LDAP_clnt_check_connection judges a connection by two times that other operations
set and clear, and in which 0 stands for "not running":

    read_time     the last read, until LDAP_clnt_decode has emptied the read buffer
    write_time    the last copy or `send`, until the write buffer has been sent;
                  before that, the bind request until it is answered

`TimersTrue` says that the first runs exactly while there is something to decode, and
the second exactly while there is something to send.
-/
import CassandraApi.Ldap.SendPath

namespace CassandraApi.Ldap

open C Ber Lib

/-! ## The read buffer -/

/-- Its length is that of bytes in a block. -/
structure ReadBuffer.Sized (rb : ReadBuffer) : Prop where
  nonneg : 0 ≤ rb.rLen
  unread : rb.rBuffer = none → rb.rLen = 0
  block : ∀ buf, rb.rBuffer = some buf → buf.size < 2 ^ 31

section Buffer

variable {rb rb' : ReadBuffer} {alloc : Alloc}

theorem ReadBuffer.Sized.of_some {buf : Block} (hbuf : rb.rBuffer = some buf)
    (hsize : buf.size < 2 ^ 31) (hlen : 0 ≤ rb.rLen) : rb.Sized := by
  refine ⟨hlen, fun hnone => ?_, fun buf' hbuf' => ?_⟩
  · rw [hbuf] at hnone
    cases hnone
  · rw [hbuf] at hbuf'
    cases hbuf'
    exact hsize

theorem write_fits {buf buf' : Block} {i : Int} {bs : List UInt8} (h : buf.write i bs = .ok buf') :
    0 ≤ i ∧ i + bs.length ≤ buf.size ∧ buf'.size = buf.size := by
  unfold Block.write at h
  split at h
  · cases h
    exact ⟨by omega, by omega, rfl⟩
  · cases h

theorem ReadBuffer.Sized.prepare (h : rb.Sized) (hprep : rb.prepare alloc = some rb') :
    rb'.Sized ∧ rb'.rLen = rb.rLen := by
  unfold ReadBuffer.prepare at hprep
  split at hprep
  · cases hprep
    exact ⟨h, rfl⟩
  · rename_i hnone
    cases hprep
    refine ⟨⟨le_refl _, fun _ => rfl, fun buf hbuf => ?_⟩, (h.unread hnone).symm⟩
    cases hbuf
    show ldapReadBuffer < 2 ^ 31
    decide
  · cases hprep

theorem recv_not_ready {recv : Recv} {out : Outcome}
    (hread : rb.read .errConnect alloc recv = .ok (out, rb')) : out.code ≠ .ready := by
  unfold ReadBuffer.read at hread
  split at hread
  · cases hread
    decide
  split at hread
  · cases hread
    decide
  split at hread
  · cases hread
    exact RetCode.noConfusion
  · cases hread
    decide
  · cases hread
  · obtain ⟨buf', -, hread⟩ := bind_eq_ok.1 hread
    cases hread
    decide

/-- A read that succeeds leaves something to decode, any other as much as there was. -/
theorem ReadBuffer.Sized.read {recv : Recv} {out : Outcome} (h : rb.Sized)
    (hread : rb.read .errConnect alloc recv = .ok (out, rb')) :
    rb'.Sized ∧ (if out.code = .ok then 0 < rb'.rLen else rb'.rLen = rb.rLen) := by
  unfold ReadBuffer.read at hread
  split at hread
  · cases hread
    exact ⟨⟨h.nonneg, h.unread, h.block⟩, rfl⟩
  rename_i rb₁ hprep
  obtain ⟨h₁, hlen⟩ := h.prepare hprep
  split at hread
  · cases hread
    exact ⟨h₁, hlen⟩
  split at hread
  · cases hread
    exact ⟨h₁, hlen⟩
  · cases hread
    exact ⟨h₁, hlen⟩
  · cases hread
  · rename_i c cs buf hbuf
    obtain ⟨buf', hwrite, hread⟩ := bind_eq_ok.1 hread
    cases hread
    obtain ⟨hpos, hfits, hsize⟩ := write_fits hwrite
    have hsmall := h₁.block buf hbuf
    have hcons : 0 < (c :: cs).length := Nat.succ_pos _
    have hint : int32 (rb₁.rLen + (c :: cs).length) = rb₁.rLen + (c :: cs).length :=
      int32_of_range (by omega) (by omega)
    have hmore : 0 < int32 (rb₁.rLen + (c :: cs).length) := by
      rw [hint]
      omega
    exact ⟨.of_some rfl (by rwa [hsize]) hmore.le, hmore⟩

/-- What a turn of the loop finds, as far as lengths go. -/
def Turn.Sized (rb : ReadBuffer) : Turn → Prop
  | .idle => True
  | .partly rb' => rb'.Sized ∧ rb'.rLen = rb.rLen
  | .noMemory _ rb' => rb'.Sized ∧ rb'.rLen = rb.rLen
  | .frame rb' => rb'.Sized ∧ rb'.rLen = rb.rLen ∧ 0 < rb.rLen

theorem findFrame_same {buf : Block} (h : findFrame rb buf = .ok rb') :
    rb'.rLen = rb.rLen ∧ rb'.rBuffer = rb.rBuffer := by
  unfold findFrame at h
  split at h
  · obtain ⟨found, -, h⟩ := bind_eq_ok.1 h
    cases found with
    | none =>
      simp only at h
      split at h
      · cases h
      · cases h
        exact ⟨rfl, rfl⟩
    | some p =>
      simp only at h
      split at h
      · obtain ⟨length, -, h⟩ := bind_eq_ok.1 h
        cases h
        exact ⟨rfl, rfl⟩
      · cases h
        exact ⟨rfl, rfl⟩
  · rw [pure_eq_ok, ok_bind] at h
    simp only at h
    split at h
    · cases h
    · cases h
      exact ⟨rfl, rfl⟩

theorem ReadBuffer.Sized.growTo {n : Int} {buf : Block} (h : rb.Sized) (hn : n < 2 ^ 31)
    (hgrow : growTo alloc n rb buf = some rb') : rb'.Sized ∧ rb'.rLen = rb.rLen := by
  unfold Ldap.growTo at hgrow
  split at hgrow
  · split at hgrow
    · cases hgrow
    · cases hgrow
      refine ⟨.of_some rfl ?_ h.nonneg, rfl⟩
      show n.toNat < 2 ^ 31
      omega
  · cases hgrow
    exact ⟨h, rfl⟩

theorem ReadBuffer.Sized.nextFrame {turn : Turn} (h : rb.Sized)
    (hnext : nextFrame alloc rb = .ok turn) : turn.Sized rb := by
  unfold Ldap.nextFrame at hnext
  split at hnext
  · cases hnext
    trivial
  split at hnext
  · cases hnext
    trivial
  rename_i buf hbuf hfive
  obtain ⟨rb₁, hfind, hnext⟩ := bind_eq_ok.1 hnext
  obtain ⟨hlen, hsame⟩ := findFrame_same hfind
  have h₁ : rb₁.Sized := by
    refine ⟨by rw [hlen]; exact h.nonneg, ?_, ?_⟩
    · rw [hsame, hlen]
      exact h.unread
    · rw [hsame]
      exact h.block
  simp only at hnext
  split at hnext
  · cases hnext
    exact ⟨h₁, hlen⟩
  · rename_i rb₂ hgrow
    obtain ⟨h₂, hlen₂⟩ := h₁.growTo (int32_range _).2 hgrow
    split at hnext
    · cases hnext
      exact ⟨h₂, hlen₂.trans hlen⟩
    · cases hnext
      exact ⟨h₂, hlen₂.trans hlen, by omega⟩

theorem ReadBuffer.Sized.consume {empty : Bool} (h : rb.Sized)
    (hconsume : consume rb = .ok (rb', empty)) :
    rb'.Sized ∧ (if empty then rb'.rLen = 0 else 0 < rb'.rLen) := by
  unfold Ldap.consume at hconsume
  simp only at hconsume
  split at hconsume
  · rename_i hpos
    split at hconsume
    · cases hconsume
    · rename_i buf hbuf
      obtain ⟨buf', hmove, hconsume⟩ := bind_eq_ok.1 hconsume
      cases hconsume
      unfold Block.memmove at hmove
      split at hmove
      · cases hmove
        exact ⟨.of_some rfl (h.block buf hbuf) (le_of_lt hpos), hpos⟩
      · cases hmove
  · cases hconsume
    exact ⟨⟨le_refl _, fun _ => rfl, h.block⟩, rfl⟩

end Buffer

/-! ## One connection -/

/-- The peer has not yet taken, or not yet answered, what it is sent: a bind request, or bytes of
the write buffer. -/
def LdapClnt.Outgoing (lc : LdapClnt) : Prop := lc.state = .stateConnecting ∨ lc.conn.pending ≠ []

/-- The clock of reading runs exactly while there is something to decode, that of writing exactly
while there is something to send. -/
structure LdapClnt.TimersTrue (lc : LdapClnt) : Prop where
  input : 0 < lc.readTime ↔ 0 < lc.rb.rLen
  output : 0 < lc.writeTime ↔ lc.Outgoing

/-- The clocks are true and both buffers are in order. -/
structure LdapClnt.Timed (lc : LdapClnt) : Prop extends lc.TimersTrue where
  front : lc.conn.Front
  sized : lc.rb.Sized
  /-- nothing is read before the bind request is answered -/
  unbound : lc.state = .stateOpen ∨ lc.state = .stateConnecting → lc.rb.rBuffer = none

section Conn

variable {lc lc' : LdapClnt} {now : Int} {alloc : Bool} {ber : BER}

/-- What the clocks and buffers are. -/
structure SameTimers (lc lc' : LdapClnt) : Prop where
  state : lc'.state = lc.state
  wBuffer : lc'.wBuffer = lc.wBuffer
  wCurr : lc'.wCurr = lc.wCurr
  rb : lc'.rb = lc.rb
  readTime : lc'.readTime = lc.readTime
  writeTime : lc'.writeTime = lc.writeTime

theorem SameTimers.pending (same : SameTimers lc lc') : lc'.conn.pending = lc.conn.pending := by
  simp only [Conn.pending, LdapClnt.conn, same.wBuffer, same.wCurr]

theorem LdapClnt.Timed.same (h : lc.Timed) (same : SameTimers lc lc') : lc'.Timed where
  input := by
    rw [same.readTime, same.rb]
    exact h.input
  output := by
    rw [same.writeTime, Outgoing, same.state, same.pending]
    exact h.output
  front := by
    have hfront := h.front
    simp only [Conn.Front, LdapClnt.conn, same.wBuffer, same.wCurr] at hfront ⊢
    exact hfront
  sized := by
    rw [same.rb]
    exact h.sized
  unbound := by
    rw [same.state, same.rb]
    exact h.unbound

/-- A BER that is not empty is copied, and the clock of writing started. -/
theorem LdapClnt.Timed.copied (h : lc.Timed) (hnow : 0 < now) (hber : ber.berval ≠ [])
    (hcopy : lc.copyBer now alloc ber = .ok (some lc')) :
    lc'.Timed ∧ lc'.conn.pending ≠ [] := by
  have hsome : ∃ buf, lc.wBuffer = some buf ∧ ∃ n, lc' = { lc with
      wBuffer := some (buf ++ ber.berval), writeTime := now, wSize := n } := by
    unfold LdapClnt.copyBer at hcopy
    split at hcopy
    · cases hcopy
    rename_i buf hbuf
    simp only at hcopy
    split at hcopy
    · cases hcopy
    split at hcopy
    · split at hcopy
      · cases hcopy
        exact ⟨buf, hbuf, _, rfl⟩
      · cases hcopy
    · cases hcopy
      exact ⟨buf, hbuf, _, rfl⟩
  obtain ⟨buf, hbuf, n, rfl⟩ := hsome
  have hpending := pending_copied h.front hbuf ber.berval
  have hmore : (buf ++ ber.berval).drop lc.wCurr ≠ [] := by
    rw [show lc.wCurr = lc.conn.wCurr from rfl, hpending]
    exact List.append_ne_nil_of_right_ne_nil _ hber
  have hle : lc.wCurr ≤ buf.length := by simpa [Conn.Front, LdapClnt.conn, hbuf] using h.front
  refine ⟨⟨⟨h.input, iff_of_true hnow (.inr hmore)⟩, ?_, h.sized, h.unbound⟩, hmore⟩
  simp only [Conn.Front, LdapClnt.conn, Option.getD_some, List.length_append]
  omega

/-- Another state, that is reached with the bind request answered. -/
theorem LdapClnt.Timed.bound (h : lc.Timed) {state : ClntState} (hto : state = .stateReady ∨
    state = .stateWaiting) (hat : lc.state ≠ .stateConnecting ∨ lc.conn.pending ≠ []) :
    LdapClnt.Timed { lc with state } where
  input := h.input
  output := by
    have hnot : state ≠ .stateConnecting := by
      rcases hto with rfl | rfl <;> decide
    refine h.output.trans ?_
    rcases hat with hat | hat
    · exact or_congr (iff_of_false hat hnot) Iff.rfl
    · exact iff_of_true (.inr hat) (.inr hat)
  front := h.front
  sized := h.sized
  unbound := by
    rintro (hstate | hstate)
    · rcases hto with rfl | rfl <;> cases hstate
    · rcases hto with rfl | rfl <;> cases hstate

end Conn

/-! ## Decoding -/

section Decoding

variable {lc : LdapClnt} {now : Int} {out : Outcome}

/-- The decoder of a connection leaves the side of writing alone, and keeps the clock of reading
true. -/
structure SameOutput (lc : LdapClnt) (s : ClntSeen) (rb : ReadBuffer) : Prop where
  state : s.1.state = lc.state
  wBuffer : s.1.wBuffer = lc.wBuffer
  wCurr : s.1.wCurr = lc.wCurr
  writeTime : s.1.writeTime = lc.writeTime
  input : 0 < s.1.readTime ↔ 0 < rb.rLen
  sized : rb.Sized

theorem SameOutput.resized {s : ClntSeen} {rb rb' : ReadBuffer} (h : SameOutput lc s rb)
    (sized : rb'.Sized) (hlen : rb'.rLen = rb.rLen) : SameOutput lc s rb' :=
  ⟨h.state, h.wBuffer, h.wCurr, h.writeTime, by rw [hlen]; exact h.input, sized⟩

/-- One frame. -/
theorem SameOutput.turn {alloc : Bool} {s s' : ClntSeen} {rb rb₁ rb' : ReadBuffer} {ret : Outcome}
    {empty : Bool} (h : SameOutput lc s rb) (hpos : 0 < rb.rLen) (h₁ : rb₁.Sized)
    (hcall : (clntDecoder now alloc).call s rb₁ = .ok (ret, s'))
    (hconsume : consume rb₁ = .ok (rb', empty)) :
    SameOutput lc (if empty then (clntDecoder now alloc).emptied s' else s') rb' := by
  obtain ⟨lc₁, seen⟩ := s
  obtain ⟨⟨code, resp, lc₂⟩, hframe, hcall⟩ := bind_eq_ok.1 hcall
  cases hcall
  have heq := (decodeFrame_spec hframe).2.eq
  have hread : lc₂.readTime = lc₁.readTime := by rw [heq]
  obtain ⟨sized, hlen⟩ := h₁.consume hconsume
  have hrest : lc₂.state = lc.state ∧ lc₂.wBuffer = lc.wBuffer ∧ lc₂.wCurr = lc.wCurr ∧
      lc₂.writeTime = lc.writeTime := by
    rw [heq]
    exact ⟨h.state, h.wBuffer, h.wCurr, h.writeTime⟩
  obtain ⟨hstate, hbuf, hcurr, hwrite⟩ := hrest
  cases empty with
  | true =>
    rw [if_pos rfl] at hlen ⊢
    refine ⟨hstate, hbuf, hcurr, hwrite, ?_, sized⟩
    rw [hlen]
    exact Iff.rfl
  | false =>
    have hinput : 0 < lc₂.readTime := by
      rw [hread]
      exact h.input.2 hpos
    exact ⟨hstate, hbuf, hcurr, hwrite, iff_of_true hinput hlen, sized⟩

theorem SameOutput.loop {alloc : Bool} {grow : Alloc} {turns : Nat} {out out' : Outcome}
    {s s' : ClntSeen} {rb rb' : ReadBuffer} (h : SameOutput lc s rb)
    (hloop : (clntDecoder now alloc).loop grow turns out s rb = .ok (out', s', rb')) :
    SameOutput lc s' rb' := by
  induction turns generalizing out s rb with
  | zero => cases hloop
  | succ turns ih =>
    obtain ⟨turn, hnext, hloop⟩ := bind_eq_ok.1 hloop
    have hturn := h.sized.nextFrame hnext
    cases turn with
    | idle =>
      cases hloop
      exact h
    | partly rb₁ =>
      cases hloop
      exact h.resized hturn.1 hturn.2
    | noMemory n rb₁ =>
      cases hloop
      exact h.resized hturn.1 hturn.2
    | frame rb₁ =>
      obtain ⟨⟨ret, s₁⟩, hcall, hloop⟩ := bind_eq_ok.1 hloop
      obtain ⟨⟨rb₂, empty⟩, hconsume, hloop⟩ := bind_eq_ok.1 hloop
      have h₂ := h.turn hturn.2.2 hturn.1 hcall hconsume
      simp only at hloop
      split at hloop
      · exact ih h₂ hloop
      · cases hloop
        exact h₂

/-- Without a read buffer there is nothing to decode. -/
theorem clntDecode_unread {alloc : Bool} {grow : Alloc} {s s' : ClntSeen} {rb rb' : ReadBuffer}
    (hnone : rb.rBuffer = none)
    (hdecode : (clntDecoder now alloc).decode grow s rb = .ok (out, s', rb')) :
    out.code = .ok ∧ rb' = rb := by
  obtain ⟨turn, hnext, hdecode⟩ := bind_eq_ok.1 hdecode
  unfold nextFrame at hnext
  rw [hnone] at hnext
  cases hnext
  cases hdecode
  exact ⟨rfl, rfl⟩

/-- The connection after the loop. -/
theorem LdapClnt.Timed.decoded (h : lc.Timed) {alloc : Bool} {grow : Alloc} {s : ClntSeen}
    {rb : ReadBuffer}
    (hdecode : (clntDecoder now alloc).decode grow (lc, []) lc.rb = .ok (out, s, rb)) :
    LdapClnt.Timed { s.1 with rb } ∧ (LdapClnt.conn { s.1 with rb }).pending = lc.conn.pending ∧
      (out.code = .keepalive → s.1.state ≠ .stateConnecting) := by
  have hstart : SameOutput lc (lc, []) lc.rb := ⟨rfl, rfl, rfl, rfl, h.input, h.sized⟩
  have hend : SameOutput lc s rb := hstart.loop hdecode
  have hpending : (LdapClnt.conn { s.1 with rb }).pending = lc.conn.pending := by
    simp only [Conn.pending, LdapClnt.conn, hend.wBuffer, hend.wCurr]
  refine ⟨⟨⟨hend.input, ?_⟩, ?_, hend.sized, ?_⟩, hpending, ?_⟩
  · rw [LdapClnt.Outgoing, hpending, hend.writeTime, hend.state]
    exact h.output
  · have hfront := h.front
    simp only [Conn.Front, LdapClnt.conn, hend.wBuffer, hend.wCurr] at hfront ⊢
    exact hfront
  · intro hstate
    rw [hend.state] at hstate
    have hnone := h.unbound hstate
    rw [(clntDecode_unread hnone hdecode).2]
    exact hnone
  · intro hcode hconnecting
    rw [hend.state] at hconnecting
    have hok := (clntDecode_unread (h.unbound (.inr hconnecting)) hdecode).1
    rw [hok] at hcode
    cases hcode

end Decoding

end CassandraApi.Ldap
