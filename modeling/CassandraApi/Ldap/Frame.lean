/-
# `Ldap.Frame` — cutting messages out of the byte stream

`LDAP_sess_decode` and `LDAP_clnt_decode` share one loop.  Each turn finds the
first `0x30` in the read buffer, computes the length of the frame that starts
there, grows the buffer to hold it, and, once the whole frame is buffered,
hands it to the decoder and shifts the rest to the front:

    nextFrame    everything before the decoder is called
    consume      everything after
    decodeLoop   do { … } while (ret == LDAP_RET_WAIT_MORE_DATA)

The position `rBerBody` and the length `rBerBodyLength` of an incomplete frame
are kept across calls, `-1` standing for "not known yet".

The decoder is a parameter (`call`): server and client put theirs in.
-/
import CassandraApi.Ber.Length
import CassandraApi.Ldap.Types

namespace CassandraApi.Ldap

open C Ber

/-- The read side of a DSSESSION or LDAP_CLNT. -/
structure ReadBuffer where
  rBuffer : Option Block := none
  rSize : Int := 0
  rLen : Int := 0
  rBerBody : Int := -1
  rBerBodyLength : Int := -1

/-! ## Reading from the socket -/

/-- The part of LDAP_sess_read and LDAP_clnt_read before `recv`: a buffer on the first read. -/
def ReadBuffer.prepare (alloc : Alloc) (rb : ReadBuffer) : Option ReadBuffer :=
  match rb.rBuffer, alloc with
  | some _, _ => some rb
  | none, some garbage =>
      some { rb with rBuffer := some ⟨ldapReadBuffer, garbage⟩, rSize := ldapReadBuffer, rLen := 0 }
  | none, none => none

/-- The room left for `recv`, the last byte of the buffer being kept back. -/
def ReadBuffer.room (rb : ReadBuffer) : Int := int32 (rb.rSize - 1 - rb.rLen)

/-- LDAP_sess_read and LDAP_clnt_read on a ready connection, up to the clocks and counters of
a successful read.  `closed` is what a closed socket returns, the one thing in which they
differ. -/
def ReadBuffer.read (closed : RetCode) (alloc : Alloc) (recv : Recv) (rb : ReadBuffer) :
    Except Fault (Outcome × ReadBuffer) :=
  match rb.prepare alloc with
  | none => .ok (⟨.errMemory, some s!"can not allocate memory size ({ldapReadBuffer})"⟩,
      { rb with rSize := ldapReadBuffer })
  | some rb =>
      if rb.room ≤ 0 then .ok (⟨.errMemory, some "read buffer full"⟩, rb)
      else match recv, rb.rBuffer with
        | .failed e, _ => .ok (⟨.errConnect, some s!"recv return error [{e}]"⟩, rb)
        | .data [], _ => .ok (⟨closed, some "socket has been closed"⟩, rb)
        | .data _, none => .error .null
        | .data (c :: cs), some buf => do
            let buf ← buf.write rb.rLen (c :: cs)
            .ok (⟨.ok, none⟩,
              { rb with rBuffer := some buf, rLen := int32 (rb.rLen + (c :: cs).length) })

/-! ## One turn of the loop -/

/-- `while (*p != 0x30) p++`, from index `p` of a block with `left` more bytes. -/
def scan30 (buf : Block) : Nat → Int → Except Fault Int
  | 0, _ => .error .read
  | left + 1, p => do
    let c ← buf.rd p
    if c = 0x30 then .ok p else scan30 buf left (p + 1)

/-- `r_ber_body_length` of the frame whose `0x30` is at `p`. -/
def frameLength (buf : Block) (p : Int) : Except Fault Int := do
  let c ← buf.rd (p + 1)
  if uint32 (schar c) > 0xffffff00 then
    let lengthSize := int32 (uint32 (schar c) - 0xffffff80)
    -- the loop adds one to r_ber_body_length for each length octet
    let pp ← accLength buf lengthSize.toNat (p + 1) 0
    pure (int32 (1 + 1 + lengthSize + pp))
  else pure (schar c + 2)

/-- The first part of a turn: `r_ber_body` and `r_ber_body_length`, each unless already known.
`p` is only set where `r_ber_body` is looked for, so a length that is still missing for a
known position dereferences NULL. -/
def findFrame (rb : ReadBuffer) (buf : Block) : Except Fault ReadBuffer := do
  let found ← if rb.rBerBody < 0 then some <$> scan30 buf (buf.size + 1) 0 else pure none
  let rb := match found with | some p => { rb with rBerBody := p } | none => rb
  if rb.rBerBodyLength < 0 then
    match found with
    | none => throw .null
    | some p => do
      let length ← frameLength buf p
      pure { rb with rBerBodyLength := length }
  else pure rb

/-- How a turn goes on before the decoder is called. -/
inductive Turn where
  /-- `break`: no buffer, or fewer than five bytes -/
  | idle
  /-- `return LDAP_RET_OK`: the frame is not complete -/
  | partly (rb : ReadBuffer)
  /-- the buffer could not grow to `n` bytes -/
  | noMemory (n : Int) (rb : ReadBuffer)
  /-- a whole frame is there -/
  | frame (rb : ReadBuffer)

/-- The `realloc` to `n` bytes, when the buffer is smaller. -/
def growTo (alloc : Alloc) (n : Int) (rb : ReadBuffer) (buf : Block) : Option ReadBuffer :=
  if n > rb.rSize then
    match alloc with
    | none => none
    | some garbage => some { rb with rBuffer := some (buf.realloc n.toNat garbage), rSize := n }
  else some rb

def nextFrame (alloc : Alloc) (rb : ReadBuffer) : Except Fault Turn :=
  match rb.rBuffer with
  | none => .ok .idle
  | some buf =>
      if rb.rLen < 5 then .ok .idle
      else do
        let rb ← findFrame rb buf
        let n := int32 (rb.rBerBody + rb.rBerBodyLength + 1)
        match growTo alloc n rb buf with
        | none => pure (.noMemory n rb)
        | some rb =>
            if int32 (rb.rBerBody + rb.rBerBodyLength) > rb.rLen then pure (.partly rb)
            else pure (.frame rb)

/-- The bytes behind the frame move to the front.  The flag says that there were none. -/
def consume (rb : ReadBuffer) : Except Fault (ReadBuffer × Bool) :=
  let n := int32 (rb.rLen - int32 (rb.rBerBody + rb.rBerBodyLength))
  if n > 0 then
    match rb.rBuffer with
    | none => .error .null
    | some buf => do
        let buf ← buf.memmove 0 (rb.rBerBody + rb.rBerBodyLength) n
        pure ({ rb with rBuffer := some buf, rLen := n, rBerBody := -1, rBerBodyLength := -1 },
          false)
  else pure ({ rb with rLen := 0, rBerBody := -1, rBerBodyLength := -1 }, true)

/-! ## The loop -/

/-- What the owner of a read buffer puts into the loop; `σ` is the rest of its state. -/
structure Decoder (σ : Type) where
  /-- the call of ldap_decode_request or ldap_decode_response -/
  call : σ → ReadBuffer → Except Fault (Outcome × σ)
  /-- what is reset when the buffer has run empty -/
  emptied : σ → σ
  /-- the error text when `realloc` fails -/
  noMemory : Int → Option String

/-- The loop of LDAP_sess_decode and LDAP_clnt_decode.  `out` is the result so far.  A turn
either ends the call or takes a frame out of the buffer, so `rLen + 1` turns are enough unless
a turn takes nothing; a call that would go on for ever is `stuck`. -/
def Decoder.loop {σ : Type} (D : Decoder σ) (alloc : Alloc) :
    Nat → Outcome → σ → ReadBuffer → Except Fault (Outcome × σ × ReadBuffer)
  | 0, _, _, _ => .error .stuck
  | turns + 1, out, s, rb => do
    match ← nextFrame alloc rb with
    | .idle => pure (out, s, rb)
    | .partly rb => pure (C.Reply.after ⟨.ok, none⟩ out.error, s, rb)
    | .noMemory n rb => pure (C.Reply.after ⟨.errMemory, D.noMemory n⟩ out.error, s, rb)
    | .frame rb =>
        let (ret, s) ← D.call s rb
        let ret := ret.after out.error
        let (rb, empty) ← consume rb
        let s := if empty then D.emptied s else s
        if ret.code = .waitMoreData then D.loop alloc turns ret s rb else pure (ret, s, rb)

/-- The loop, started. -/
def Decoder.decode {σ : Type} (D : Decoder σ) (alloc : Alloc) (s : σ) (rb : ReadBuffer) :
    Except Fault (Outcome × σ × ReadBuffer) :=
  D.loop alloc (rb.rLen.toNat + 1) ⟨.ok, none⟩ s rb

/-- The bytes the decoder is called on: the frame that starts at `r_ber_body`. -/
def ReadBuffer.frame (rb : ReadBuffer) : List UInt8 :=
  match rb.rBuffer with
  | none => []
  | some buf => buf.slice rb.rBerBody.toNat rb.rBerBodyLength.toNat

/-- The same decoder, keeping a log of the frames it is called on. -/
def Decoder.logged {σ : Type} (D : Decoder σ) : Decoder (σ × List (List UInt8)) where
  call := fun (s, log) rb => do
    let (ret, s) ← D.call s rb
    pure (ret, s, log ++ [rb.frame])
  emptied := fun (s, log) => (D.emptied s, log)
  noMemory := D.noMemory

/-! ## A whole connection -/

/-- Calls of the decoder until one of them takes nothing out of the buffer. -/
def Decoder.drain {σ : Type} (D : Decoder σ) (alloc : Alloc) :
    Nat → σ → ReadBuffer → Except Fault (σ × ReadBuffer)
  | 0, _, _ => .error .stuck
  | calls + 1, s, rb => do
    let (_, s, rb') ← D.decode alloc s rb
    if rb'.rLen < rb.rLen then D.drain alloc calls s rb' else pure (s, rb')

/-- One read that delivers `chunk`, and the calls after it. -/
def Decoder.readAndDrain {σ : Type} (D : Decoder σ) (closed : RetCode) (alloc : Alloc)
    (chunk : List UInt8) (s : σ) (rb : ReadBuffer) : Except Fault (σ × ReadBuffer) := do
  let (_, rb) ← rb.read closed alloc (.data chunk)
  D.drain alloc (rb.rLen.toNat + 1) s rb

/-- The stream arrives as `chunks`, one a read.  `none`: some chunk is larger than what the
read asked `recv` for, so the stream cannot have been cut in this way. -/
def Decoder.feed {σ : Type} (D : Decoder σ) (closed : RetCode) (alloc : Alloc) :
    List (List UInt8) → σ → ReadBuffer → Option (Except Fault (σ × ReadBuffer))
  | [], s, rb => some (.ok (s, rb))
  | chunk :: chunks, s, rb =>
      if (chunk.length : Int) ≤ ((rb.prepare alloc).getD rb).room then
        match D.readAndDrain closed alloc chunk s rb with
        | .error e => some (.error e)
        | .ok (s, rb) => D.feed closed alloc chunks s rb
      else none

end CassandraApi.Ldap
