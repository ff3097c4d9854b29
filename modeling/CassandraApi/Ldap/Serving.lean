/-
# `Ldap.Serving` — what each call on a bound session can do

One lemma an operation, for statements about runs: what it returns, what it
reports, and what becomes of the counter, the list of requests and the bytes
that wait in the write buffer (`pending`).
-/
import CassandraApi.Ldap.Overload

namespace CassandraApi.Ldap

open C Ber Lib

/-! ## What ldap_decode_request ends with -/

/-- When the decoding of an operation ends the call, it is for an error or an unbind. -/
def EndsEarly {α : Type} (x : Except Fault (Except Outcome α)) : Prop :=
  ∀ out, x = .ok (.error out) → out.code = .errDecode ∨ out.code = .recvUnbind

section EndsEarly

variable {α β γ : Type}

theorem endsEarly_ok (a : α) : EndsEarly (.ok (.ok a)) := by
  intro out h
  cases h

theorem endsEarly_error (f : Fault) :
    EndsEarly (.error f : Except Fault (Except Outcome α)) := by
  intro out h
  cases h

theorem endsEarly_decodeError (e : String) :
    EndsEarly (.ok (.error (decodeError e)) : Except Fault (Except Outcome α)) := by
  intro out h
  cases h
  exact .inl rfl

theorem endsEarly_bind {x : Except Fault γ} {f : γ → Except Fault (Except Outcome α)}
    (h : ∀ c, EndsEarly (f c)) : EndsEarly (x >>= f) := by
  intro out he
  obtain ⟨c, -, hc⟩ := bind_eq_ok.1 he
  exact h c out hc

theorem endsEarly_andThen {x : Except Fault (Except Outcome α)}
    {f : α → Except Fault (Except Outcome β)} (hx : EndsEarly x) (h : ∀ a, EndsEarly (f a)) :
    EndsEarly (andThen x f) := by
  intro out he
  obtain ⟨r, hr, hgo⟩ := bind_eq_ok.1 he
  cases r with
  | error out' =>
    cases hgo
    exact hx out hr
  | ok a => exact h a out hgo

theorem endsEarly_requiredString (cap : Nat) (e : String) (buf : Block) (i : Int) :
    EndsEarly (requiredString cap e buf i) := by
  refine endsEarly_bind fun c => ?_
  split
  · exact endsEarly_bind fun r => endsEarly_ok r
  · exact endsEarly_decodeError e

theorem endsEarly_smallField (tag : UInt8) (e : String) (buf : Block) (i : Int) :
    EndsEarly (smallField tag e buf i) := by
  refine endsEarly_bind fun c => ?_
  split
  · exact endsEarly_bind fun r => endsEarly_ok _
  · exact endsEarly_decodeError e

theorem endsEarly_decodeSearch (garbage : Nat → UInt8) (depth : Nat) (buf : Block) (i : Int) :
    EndsEarly (decodeSearch garbage depth buf i) := by
  refine endsEarly_bind fun _ => ?_
  refine endsEarly_andThen (endsEarly_requiredString _ _ _ _) fun _ => ?_
  refine endsEarly_andThen (endsEarly_smallField _ _ _ _) fun _ => ?_
  refine endsEarly_andThen (endsEarly_smallField _ _ _ _) fun _ => ?_
  refine endsEarly_andThen (endsEarly_smallField _ _ _ _) fun _ => ?_
  refine endsEarly_andThen (endsEarly_smallField _ _ _ _) fun _ => ?_
  refine endsEarly_andThen (endsEarly_smallField _ _ _ _) fun _ => ?_
  refine endsEarly_bind fun _ => endsEarly_bind fun c => ?_
  split
  · exact endsEarly_bind fun _ => endsEarly_bind fun _ => endsEarly_ok _
  · exact endsEarly_decodeError _

theorem endsEarly_decodeEntry {ν : Type} (e : String) (item : Int → Except Fault (ν × Int))
    (make : List UInt8 → List ν → Alt) (buf : Block) (i : Int) :
    EndsEarly (decodeEntry e item make buf i) := by
  refine endsEarly_bind fun _ => ?_
  refine endsEarly_andThen (endsEarly_requiredString _ _ _ _) fun _ => endsEarly_bind fun c => ?_
  split
  · exact endsEarly_bind fun _ => endsEarly_bind fun _ => endsEarly_ok _
  · exact endsEarly_ok _

theorem endsEarly_decodeModDn (buf : Block) (i : Int) : EndsEarly (decodeModDn buf i) := by
  refine endsEarly_bind fun _ => ?_
  refine endsEarly_andThen (endsEarly_requiredString _ _ _ _) fun _ => ?_
  refine endsEarly_andThen (endsEarly_requiredString _ _ _ _) fun _ => ?_
  exact endsEarly_andThen (endsEarly_smallField _ _ _ _) fun _ => endsEarly_ok _

theorem endsEarly_decodeExtended (alloc : Bool) (buf : Block) (i : Int) :
    EndsEarly (decodeExtended alloc buf i) := by
  refine endsEarly_bind fun _ => endsEarly_bind fun c => ?_
  split
  · exact endsEarly_ok _
  · refine endsEarly_bind fun _ => ?_
    simp only
    split
    · exact endsEarly_error _
    · refine endsEarly_bind fun _ => endsEarly_bind fun c => ?_
      split
      · exact endsEarly_ok _
      · refine endsEarly_bind fun _ => ?_
        split
        · refine endsEarly_bind fun value => ?_
          split
          · exact endsEarly_error _
          · exact endsEarly_bind fun _ => endsEarly_ok _
        · exact endsEarly_ok _

/-- Whatever the operation is. -/
theorem endsEarly_decodeOp (alloc : Bool) (garbage : Nat → UInt8) (depth : Nat) (buf : Block)
    (op : UInt8) (i : Int) : EndsEarly (decodeOp alloc garbage depth buf op i) := by
  unfold decodeOp
  split
  · intro out h
    cases h
    exact .inr rfl
  · exact endsEarly_andThen (endsEarly_decodeExtended _ _ _) fun _ => endsEarly_ok _
  · exact endsEarly_andThen (endsEarly_decodeSearch _ _ _ _) fun _ => endsEarly_ok _
  · exact endsEarly_andThen (endsEarly_decodeEntry _ _ _ _ _) fun _ => endsEarly_ok _
  · exact endsEarly_andThen (endsEarly_decodeEntry _ _ _ _ _) fun _ => endsEarly_ok _
  · exact endsEarly_andThen (endsEarly_decodeModDn _ _) fun _ => endsEarly_ok _
  · exact endsEarly_andThen (endsEarly_bind fun _ => endsEarly_ok _) fun _ => endsEarly_ok _
  · exact endsEarly_ok _

end EndsEarly

/-- A message is appended when the call says so, and it never asks for more data. -/
theorem ldapDecodeRequest_outcome {env : DecodeEnv} {rb : ReadBuffer} {out : Outcome}
    {msg : Option LdapMessage} (h : ldapDecodeRequest env rb = .ok (out, msg)) :
    out.code ≠ .waitMoreData ∧ (out.code = .dataAvailable ↔ msg.isSome) := by
  unfold ldapDecodeRequest at h
  split at h
  · cases h
  · obtain ⟨c, -, h⟩ := bind_eq_ok.1 h
    split at h
    · cases h
      exact ⟨by decide, by decide⟩
    · obtain ⟨⟨len, i⟩, -, h⟩ := bind_eq_ok.1 h
      simp only at h
      split at h
      · cases h
        exact ⟨by simp [decodeError], by simp [decodeError]⟩
      · split at h
        · cases h
        · obtain ⟨c, -, h⟩ := bind_eq_ok.1 h
          split at h
          · obtain ⟨controls, -, h⟩ := bind_eq_ok.1 h
            cases h
            exact ⟨by simp, by simp⟩
          · obtain ⟨_, -, h⟩ := bind_eq_ok.1 h
            obtain ⟨messageId, -, h⟩ := bind_eq_ok.1 h
            obtain ⟨op, -, h⟩ := bind_eq_ok.1 h
            obtain ⟨r, hop, h⟩ := bind_eq_ok.1 h
            cases r with
            | error out' =>
              cases h
              obtain hcode | hcode := endsEarly_decodeOp _ _ _ _ _ _ _ hop <;> simp [hcode]
            | ok r =>
              obtain ⟨controls, -, h⟩ := bind_eq_ok.1 h
              cases h
              exact ⟨by simp, by simp⟩

/-! ## LDAP_sess_decode -/

/-- The loop of LDAP_sess_decode appends one message, or none. -/
theorem sessDecoder_decode {env : DecodeEnv} {grow : Alloc} {rdata rdata' : List LdapMessage}
    {rb rb' : ReadBuffer} {out : Outcome}
    (h : (sessDecoder (ldapDecodeRequest env)).decode grow rdata rb = .ok (out, rdata', rb')) :
    (out.code = .dataAvailable ∧ ∃ msg, rdata' = rdata ++ [msg]) ∨
      (out.code ≠ .dataAvailable ∧ rdata' = rdata) := by
  unfold Decoder.decode Decoder.loop at h
  obtain ⟨turn, -, h⟩ := bind_eq_ok.1 h
  cases turn with
  | idle =>
    cases h
    exact .inr ⟨by simp, rfl⟩
  | partly rb =>
    cases h
    exact .inr ⟨by simp, rfl⟩
  | noMemory n rb =>
    cases h
    exact .inr ⟨by simp, rfl⟩
  | frame rb =>
    obtain ⟨⟨ret, s⟩, hcall, h⟩ := bind_eq_ok.1 h
    obtain ⟨⟨ret', msg⟩, hreq, heq⟩ := bind_eq_ok.1 hcall
    cases heq
    obtain ⟨hwait, hdata⟩ := ldapDecodeRequest_outcome hreq
    obtain ⟨⟨rb, empty⟩, -, h⟩ := bind_eq_ok.1 h
    have hs : (if empty = true then (sessDecoder (ldapDecodeRequest env)).emptied
        (rdata ++ msg.toList) else rdata ++ msg.toList) = rdata ++ msg.toList := ite_self _
    simp only [hs] at h
    rw [if_neg (by rwa [Reply.after_code])] at h
    cases h
    rw [Reply.after_code]
    cases msg with
    | none => exact .inr ⟨fun hc => Bool.noConfusion (hdata.1 hc), List.append_nil rdata⟩
    | some msg => exact .inl ⟨hdata.2 rfl, msg, rfl⟩

/-- What LDAP_sess_decode has done when it returns. -/
theorem ldapSessDecode_cases {grow : Alloc} {env : DecodeEnv} {alloc : Bool} {send : Send}
    {ds : DsT} {sess sess' : DsSession} {out : ServOutcome} {log : List SessEvent}
    (h : ldapSessDecode grow env alloc send ds sess = .ok (out, sess', log)) :
    (∃ rb, sess' = { sess with rb := rb } ∧ log = []) ∨
    (∃ rb msg, sess.concurrentCount < ds.maxConcurrent ∧
      sess' = { sess with rdata := sess.rdata ++ [msg], rb := rb,
                          concurrentCount := sess.concurrentCount + 1 } ∧
      log = [.delivered msg]) ∨
    (∃ rb msg ber o, ds.maxConcurrent ≤ sess.concurrentCount ∧
      (sessDecoder (ldapDecodeRequest env)).decode grow sess.rdata sess.rb =
        .ok (o, sess.rdata ++ [msg], rb) ∧ o.code = .dataAvailable ∧
      genericResp alloc 0 msg = .ok (some ber) ∧ sess' = { sess with rb := rb } ∧
      log = [.refused msg ber.berval (send.taken ber.berval)]) := by
  obtain ⟨⟨o, rdata, rb⟩, hdec, h⟩ := bind_eq_ok.1 h
  simp only at h
  obtain ⟨hreq, msg, rfl⟩ | ⟨hno, rfl⟩ := sessDecoder_decode hdec
  · rw [if_pos hreq] at h
    unfold countRequest at h
    split at h
    · rename_i hlt
      cases h
      refine .inr (.inl ⟨rb, msg, hlt, rfl, ?_⟩)
      simp
    · rename_i hge
      obtain ⟨msg', ber, hlast, hgen, rfl, rfl⟩ := refuse_eq_ok h
      simp only [List.getLast?_append, List.getLast?_singleton, Option.some_or] at hlast
      cases hlast
      refine .inr (.inr ⟨rb, msg, ber, o, not_lt.1 hge, hdec, hreq, hgen, ?_, rfl⟩)
      simp only [List.dropLast_concat]
  · rw [if_neg hno] at h
    cases h
    exact .inl ⟨rb, rfl, rfl⟩

/-! ## LDAP_sess_read -/

/-- A read of a bound session fills its read buffer. -/
theorem ldapSessRead_bound {sockErr : SockErr} {stack : Nat → UInt8} {send : Send} {alloc : Alloc}
    {recv : Recv} {ds : DsT} {sess sess' : DsSession} {out : ServOutcome}
    (hready : sess.state = .stateReady)
    (h : ldapSessRead sockErr stack send alloc recv ds sess = .ok (out, sess')) :
    ∃ rb, sess' = { sess with rb := rb } := by
  unfold ldapSessRead at h
  rw [hready] at h
  obtain ⟨⟨o, rb⟩, -, h⟩ := bind_eq_ok.1 h
  cases h
  exact ⟨rb, by simp only [hready]⟩

/-! ## The write buffer -/

/-- `w_buffer[w_curr..w_len)` -/
def DsSession.pending (sess : DsSession) : List UInt8 := (sess.wBuffer.getD []).drop sess.wCurr

/-- `w_curr` is inside the buffer. -/
def DsSession.Fits (sess : DsSession) : Prop := sess.wCurr ≤ (sess.wBuffer.getD []).length

/-- A session as LDAP_sess_write leaves it, `sess` being what it was. -/
structure Wrote (sess sess' : DsSession) (bytes : List UInt8) : Prop where
  pending : sess.pending = bytes ++ sess'.pending
  fits : sess.Fits → sess'.Fits
  state : sess'.state = sess.state
  count : sess'.concurrentCount = sess.concurrentCount

/-- A write hands a first part of the pending bytes over. -/
theorem ldapSessWrite_cases {send : Send} {callback : Option Int} {sess sess' : DsSession}
    {out : ServOutcome} {log : List SessEvent}
    (h : ldapSessWrite send callback sess = .ok (out, sess', log)) :
    (log = [] ∧ sess' = sess) ∨ ∃ bytes, log = [.sent bytes] ∧ Wrote sess sess' bytes := by
  unfold ldapSessWrite at h
  split at h
  · cases h
    exact .inl ⟨rfl, rfl⟩
  · cases h
    exact .inl ⟨rfl, rfl⟩
  · rename_i buf hready hbuf
    have hpend : sess.pending = buf.drop sess.wCurr := by rw [DsSession.pending, hbuf]; rfl
    split at h
    · cases h
      exact .inl ⟨rfl, rfl⟩
    · cases send with
      | failed e =>
        cases h
        exact .inl ⟨rfl, rfl⟩
      | wrote r =>
        simp only at h
        generalize hbytes : (buf.drop sess.wCurr).take
          (min r (min (buf.drop sess.wCurr).length ldapWriteBuffer)) = bytes at h
        have hfirst : bytes <+: buf.drop sess.wCurr := hbytes ▸ List.take_prefix _ _
        have hlen := hfirst.length_le
        rw [List.length_drop] at hlen
        obtain ⟨rest, hrest⟩ := hfirst
        split at h
        · rename_i hpart
          have wrote : Wrote sess { sess with wCurr := sess.wCurr + bytes.length } bytes := by
            refine ⟨?_, fun _ => ?_, rfl, rfl⟩
            · rw [hpend, DsSession.pending, hbuf, Option.getD_some, ← List.drop_drop, ← hrest,
                List.drop_left]
            · rw [DsSession.Fits, hbuf]
              exact hpart.le
          split at h
          · cases h
            exact .inr ⟨bytes, rfl, wrote⟩
          · cases h
            exact .inr ⟨bytes, rfl, wrote⟩
        · rename_i hall
          cases h
          refine .inr ⟨bytes, rfl, ?_, fun _ => Nat.zero_le _, rfl, rfl⟩
          have hnil : rest = [] := by
            have hsum := congrArg List.length hrest
            rw [List.length_append, List.length_drop] at hsum
            exact List.length_eq_zero_iff.1 (by omega)
          rw [hpend, ← hrest, hnil]
          rfl

/-- A session as LDAP_sess_send_message leaves it after it has accepted a BER. -/
structure Queued (sess sess' : DsSession) (ber : BER) : Prop where
  pending : sess.Fits → sess'.pending = sess.pending ++ ber.berval
  fits : sess.Fits → sess'.Fits
  state : sess'.state = sess.state
  count : sess'.concurrentCount = int32 (sess.concurrentCount - 1)

/-- There is room for the BER, or memory for it. -/
def DsSession.HasRoom (sess : DsSession) (malloc realloc : Bool) (ber : BER) : Prop :=
  ∃ buf wSize, sess.firstBuffer malloc = some (buf, wSize) ∧
    (buf.length + ber.berval.length ≤ wSize ∨
      (realloc = true ∧ adjustSize (buf.length + ber.berval.length) ldapWriteBuffer < 2 ^ 31))

theorem firstBuffer_eq_some {malloc : Bool} {sess : DsSession} {buf : List UInt8} {wSize : Nat}
    (h : sess.firstBuffer malloc = some (buf, wSize)) : buf = sess.wBuffer.getD [] := by
  unfold DsSession.firstBuffer at h
  split at h
  · rename_i hbuf
    cases h
    rw [hbuf]
    rfl
  · rename_i hbuf
    rw [hbuf]
    split at h
    · cases h
      rfl
    · cases h

/-- The BER behind what is in the buffer. -/
theorem stored_queued (ber : BER) (sess : DsSession) (n : Nat) :
    Queued sess { sess with
      wBuffer := some (sess.wBuffer.getD [] ++ ber.berval), wSize := n
      concurrentCount := int32 (sess.concurrentCount - 1) } ber where
  pending fits := List.drop_append_of_le_length fits
  fits fits := by
    rw [DsSession.Fits, Option.getD_some, List.length_append]
    exact Nat.le_add_right_of_le fits
  state := rfl
  count := rfl

/-- The sizes do not matter, nor whether an empty buffer is allocated. -/
theorem resized_wrote (sess : DsSession) (n : Nat) :
    Wrote sess { sess with wBuffer := some (sess.wBuffer.getD []), wSize := n } [] :=
  ⟨rfl, id, rfl, rfl⟩

/-- A BER is stored, or the session stays as it is but for the sizes. -/
theorem ldapSessSendMessage_cases {malloc realloc : Bool} {callback : Option Int} {ber : BER}
    {sess sess' : DsSession} {out : ServOutcome} {log : List SessEvent}
    (h : ldapSessSendMessage malloc realloc callback ber sess = .ok (out, sess', log)) :
    (log = [] ∧ Wrote sess sess' []) ∨
      (log = [.queued ber] ∧ Queued sess sess' ber ∧ sess.HasRoom malloc realloc ber) := by
  unfold ldapSessSendMessage at h
  split at h
  · cases h
    exact .inl ⟨rfl, rfl, id, rfl, rfl⟩
  · rename_i buf wSize hbuf
    have heq := firstBuffer_eq_some hbuf
    subst heq
    simp only at h
    split at h
    · cases h
    · split at h
      · split at h
        · rename_i hmem
          have room : sess.HasRoom malloc realloc ber := ⟨_, wSize, hbuf, .inr hmem⟩
          split at h
          · cases h
            exact .inr ⟨rfl, stored_queued ber sess _, room⟩
          · cases h
            exact .inr ⟨rfl, stored_queued ber sess _, room⟩
        · cases h
          exact .inl ⟨rfl, resized_wrote sess wSize⟩
      · rename_i hle
        have room : sess.HasRoom malloc realloc ber := ⟨_, wSize, hbuf, .inl (not_lt.1 hle)⟩
        split at h
        · cases h
          exact .inr ⟨rfl, stored_queued ber sess wSize, room⟩
        · cases h
          exact .inr ⟨rfl, stored_queued ber sess wSize, room⟩

end CassandraApi.Ldap
