/-
# `Ldap.Client` — the operations of ldap_client.c

An LDAP_t (`LdapT`) has up to 1024 connections in `client_array`; each opened
one is on one of two rings, `ready_queue` and `wait_queue`.  The `prev` and
`next` fields of the connections are the heap `links`, the rest of them
`clients`; an address is allocated when `links` has a node for it.

What the outside world does during a call (whether memory is available, what
the socket calls return, what time it is) comes in as arguments.  Besides its
result an operation reports what it did to the connections, as a list of
`Event`s.  The source has no such list; it is what statements about runs speak
of.

BERs wait in `send_msg_queue`, a ring that is only appended to and taken from
at the front: here the list of its members.
-/
import CassandraApi.Ldap.DecodeResponse
import CassandraApi.Ldap.Queues

namespace CassandraApi.Ldap

open C Ber Lib

def ldapMaxClient : Nat := 1024
def ldapMaxConcurrentRequest : Nat := 1024

/-- `sizeof(LDAP_CLNT)`, where pointers and `long` have eight bytes. -/
def sizeofLdapClnt : Nat := 1744

/-- LDAP_KEEPALIVE_TYPE -/
inductive KeepaliveType where
  | none
  | search
  | extended
  deriving DecidableEq

structure Keepalive where
  oid : List UInt8 := []
  dn : List UInt8 := []
  type : KeepaliveType := .none
  interval : Int := 0

structure LdapT extends Queues where
  username : List UInt8 := []
  password : List UInt8 := []
  maxClient : Int
  maxConcurrent : Int
  maxWbuffer : Int
  connectTimeout : Int := 0
  readTimeout : Int := 0
  writeTimeout : Int := 0
  totalResponseTime : Nat := 0
  maxResponseTime : Nat := 0
  avgResponseTime : Nat := 0
  minResponseTime : Nat := 0
  clientCount : Int := 0
  queueCount : Int := 0
  sentCount : Int := 0
  recvCount : Int := 0
  clientArray : Nat → Option Ptr := fun _ => .none
  clients : Ptr → LdapClnt := fun _ => { no := 0 }
  sendMsgQueue : List BER := []
  tid : Int := 0
  heartbeat : Keepalive := {}

/-- LDAP_clnt_init.  `random` are the three bytes of SDF_random. -/
def ldapClntInit (username password : List UInt8) (wbuffer concurrent maxClient : Int)
    (random : Fin (2 ^ 24)) : LdapT where
  username := username.take 255
  password := password.take 255
  maxWbuffer := wbuffer
  maxConcurrent := concurrent
  maxClient := maxClient
  tid := random.val

/-- The options of LDAP_clnt_set_option that the operations read. -/
inductive ClntOption where
  | username (s : List UInt8)
  | password (s : List UInt8)
  | maxClient (n : Int)
  | maxConcurrent (n : Int)
  | maxWbuffer (n : Int)
  | connectTimeout (n : Int)
  | readTimeout (n : Int)
  | writeTimeout (n : Int)
  | keepaliveType (t : KeepaliveType)
  | keepaliveInterval (n : Int)
  | keepaliveDn (s : List UInt8)
  | keepaliveOid (s : List UInt8)

/-- LDAP_clnt_set_option -/
def ldapClntSetOption (dc : LdapT) : ClntOption → RetCode × LdapT
  | .username s => (.ok, { dc with username := s.take 255 })
  | .password s => (.ok, { dc with password := s.take 255 })
  | .maxClient n =>
      if n > ldapMaxClient then (.errParameter, dc) else (.ok, { dc with maxClient := n })
  | .maxConcurrent n =>
      if n > ldapMaxConcurrentRequest then (.errParameter, dc)
      else (.ok, { dc with maxConcurrent := n })
  | .maxWbuffer n => (.ok, { dc with maxWbuffer := n })
  | .connectTimeout n => (.ok, { dc with connectTimeout := n })
  | .readTimeout n => (.ok, { dc with readTimeout := n })
  | .writeTimeout n => (.ok, { dc with writeTimeout := n })
  | .keepaliveType t => (.ok, { dc with heartbeat := { dc.heartbeat with type := t } })
  | .keepaliveInterval n => (.ok, { dc with heartbeat := { dc.heartbeat with interval := n } })
  | .keepaliveDn s => (.ok, { dc with heartbeat := { dc.heartbeat with dn := s.take 1023 } })
  | .keepaliveOid s => (.ok, { dc with heartbeat := { dc.heartbeat with oid := s.take 1023 } })

/-- A client that has been initialised and configured. -/
structure Setup where
  username : List UInt8 := []
  password : List UInt8 := []
  wbuffer : Int
  concurrent : Int
  maxClient : Int
  random : Fin (2 ^ 24)
  options : List ClntOption

def Setup.start (s : Setup) : LdapT :=
  s.options.foldl (fun dc opt => (ldapClntSetOption dc opt).2)
    (ldapClntInit s.username s.password s.wbuffer s.concurrent s.maxClient s.random)

/-! ## What an operation reports -/

inductive Event where
  /-- a connection was opened in a slot of client_array -/
  | opened (i : Nat) (c : Ptr)
  /-- it was put into client_array, but there was no memory for its write buffer -/
  | leaked (i : Nat) (c : Ptr)
  | closed (i : Nat) (c : Ptr)
  /-- the bind request was sent -/
  | bindSent (c : Ptr)
  /-- the bind response has come in -/
  | established (c : Ptr)
  /-- a BER was copied to the connection the caller named -/
  | direct (c : Ptr) (ber : BER)
  /-- a BER was put into send_msg_queue -/
  | queued (ber : BER)
  /-- the first BER of send_msg_queue was copied to the first connection of ready_queue -/
  | flushed (c : Ptr) (ber : BER)
  /-- a keepalive request with this id was generated -/
  | keepaliveId (c : Ptr) (ktid : UInt32)
  /-- and copied to the connection -/
  | keepaliveCopied (c : Ptr) (ber : BER)
  /-- `send` took these bytes of the write buffer -/
  | sent (c : Ptr) (bytes : List UInt8)
  /-- a search entry was received and kept -/
  | entry (c : Ptr) (resp : Response)
  /-- a search entry was received that answers the keepalive -/
  | keepaliveEntry (c : Ptr) (resp : Response)
  /-- a final response was received, and counted -/
  | answered (c : Ptr) (resp : Response)
  /-- a final response was received while none was outstanding -/
  | unexpected (c : Ptr) (resp : Response)
  /-- the keepalive was answered; the flag says that the connection was found in wait_queue -/
  | keptAlive (c : Ptr) (resp : Response) (waiting : Bool)
  /-- the application has read rber and freed it -/
  | consumed (c : Ptr)
  deriving DecidableEq

abbrev Step := Except Fault (Outcome × LdapT × List Event)

/-! ## Access -/

namespace LdapT

/-- `*c` -/
def clnt (dc : LdapT) (c : Ptr) : Except Fault LdapClnt :=
  if (dc.links c).isSome then .ok (dc.clients c) else .error .freed

def put (dc : LdapT) (c : Ptr) (lc : LdapClnt) : LdapT :=
  { dc with clients := Function.update dc.clients c lc }

end LdapT

/-! ## Opening and closing -/

/-- The socket of LDAP_clnt_open: connected (or connecting), or the call that failed with its
text. -/
inductive Connect where
  | failed (call strerror : String)
  | connected

/-- The first free slot of client_array. -/
def freeSlot (array : Nat → Option Ptr) : Option Nat :=
  (List.range ldapMaxClient).find? fun i => (array i).isNone

/-- LDAP_clnt_open.  `mem` is where the connection is allocated, `wbuf` whether there is memory
for its write buffer. -/
def ldapClntOpen (now : Int) (connect : Connect) (mem : Option Ptr) (wbuf : Bool) (dc : LdapT) :
    Step :=
  if dc.clientCount ≥ dc.maxClient then .ok (⟨.maxConnection, none⟩, dc, [])
  else match connect with
  | .failed call e => .ok (⟨.errConnect, some s!"{call} return error [{e}]"⟩, dc, [])
  | .connected =>
    match freeSlot dc.clientArray with
    | none => .ok (⟨.errUnavailable, some s!"ldap connection exceeds [{ldapMaxClient}]"⟩, dc, [])
    | some i =>
      match mem with
      | none =>
          .ok (⟨.errMemory, some s!"can not allocate memory size ({sizeofLdapClnt})"⟩, dc, [])
      | some c =>
        -- malloc does not return what is in use
        if (dc.links c).isSome then .error .stuck
        else
          let dc := { dc with
            clientArray := Function.update dc.clientArray i (some c)
            links := Function.update dc.links c (some {}) }
          if wbuf then do
            let q ← dc.appendWait c
            let dc := { dc with toQueues := q, clientCount := dc.clientCount + 1 }
            .ok (⟨.ok, none⟩, dc.put c { no := i, createTime := now }, [.opened i c])
          else
            .ok (⟨.errMemory, some s!"can not allocate memory size ({ldapReadBuffer})"⟩,
              dc.put c { no := i, createTime := now, wBuffer := none }, [.leaked i c])

/-- LDAP_clnt_close.  `closeErr` is the errno text when `close` fails. -/
def ldapClntClose (closeErr : Option String) (no : Int) (dc : LdapT) : Step :=
  if no < 0 ∨ no ≥ ldapMaxClient then .error .read
  else match dc.clientArray no.toNat with
  | none => .ok (⟨.errUnavailable, some s!"connection not used ({no})"⟩, dc, [])
  | some c => do
      let lc ← dc.clnt c
      let q ← dc.leave c (lc.state = .stateReady)
      let dc := { dc with
        toQueues := { q with links := Function.update q.links c none }
        clientArray := Function.update dc.clientArray no.toNat none
        clientCount := dc.clientCount - 1 }
      match closeErr with
      | some e =>
          pure (⟨.errConnect, some s!"close socket return error [{e}]"⟩, dc, [.closed no.toNat c])
      | none => pure (⟨.ok, none⟩, dc, [.closed no.toNat c])

/-! ## Binding -/

/-- The octets of the message id in a bind request: those that are positive as `char`. -/
def bindIdOctets (tid : Int) : List UInt8 :=
  ([3, 2, 1, 0].map fun r => toChar (tid / 256 ^ r)).filter fun c => 0 < schar c

/-- The message ldap_send_bind_rqt builds in an array of 128 bytes. -/
def bindRequest (tid : Int) (username password : List UInt8) : Except Fault (List UInt8) :=
  let usrLen := schar (toChar username.length)
  let pwdLen := schar (toChar password.length)
  let id := bindIdOctets tid
  let body := [0x02, 0x01, 0x03, 0x04, toChar usrLen] ++ username.take usrLen.toNat ++
    [0x80, toChar pwdLen] ++ password.take pwdLen.toNat
  let rest := 0x02 :: UInt8.ofNat id.length :: id ++ 0x60 :: UInt8.ofNat body.length :: body
  let msg := 0x30 :: UInt8.ofNat rest.length :: rest
  -- a negative length is a copy of nearly all memory
  if usrLen < 0 ∨ pwdLen < 0 ∨ msg.length > 128 then .error .overrun else .ok msg

/-- What `send` returns: an errno text, or how many bytes it took (at most all of them). -/
inductive Send where
  | failed (strerror : String)
  | wrote (n : Nat)

/-- ldap_recv_bind_resp: 0 or -1.  `stack` is what the array of 128 bytes holds at first. -/
def ldapRecvBindResp (stack : Nat → UInt8) (recv : Recv) : Except Fault Int :=
  match recv with
  | .failed _ => .ok (-1)
  | .data [] => .ok (-1)
  | .data (b :: bs) => do
      let buff ← Block.write ⟨128, stack⟩ 0 (b :: bs)
      if (← buff.rd 0) ≠ 0x30 then pure (-1)
      else if (← buff.rd 2) ≠ 0x02 then pure (-1)
      else do
        let msgIdLen := schar (← buff.rd 3)
        -- the loop over the id reads it, and its value is not used
        let _ ← if 0 < msgIdLen then buff.load 4 msgIdLen else pure []
        let i := 4 + msgIdLen
        if (← buff.rd i) ≠ 0x61 then pure (-1)
        else if (← buff.rd (i + 2)) ≠ 0x0a then pure (-1)
        else if (← buff.rd (i + 4)) ≠ 0x00 then pure (-1)
        else pure 0

/-! ## Reading -/

/-- What getsockopt(SO_ERROR) says: it fails, or the connection has failed, or neither. -/
inductive SockErr where
  | failed (strerror : String)
  | error (strerror : String)
  | none

def SockErr.message : SockErr → Option String
  | .failed e => some s!"getsockopt return error [{e}]"
  | .error e => some s!"connect error [{e}]"
  | .none => Option.none

/-- LDAP_clnt_read -/
def ldapClntRead (now : Int) (sockErr : SockErr) (stack : Nat → UInt8) (alloc : Alloc)
    (recv : Recv) (c : Ptr) (dc : LdapT) : Step := do
  let lc ← dc.clnt c
  match lc.state with
  | .stateOpen => pure (⟨.errConnect, some "connection isn't ready"⟩, dc, [])
  | .stateConnecting =>
      match sockErr.message with
      | some e => pure (⟨.errConnect, some e⟩, dc, [])
      | none => do
          if (← ldapRecvBindResp stack recv) ≠ 0 then
            pure (⟨.errConnect, some "bind resp return error"⟩, dc, [])
          else do
            let lc := { lc with writeTime := 0, keepaliveTime := now, state := .stateReady }
            let q ← dc.toReady c
            pure (⟨.ready, none⟩, LdapT.put { dc with toQueues := q } c lc, [.established c])
  | .stateReady | .stateWaiting => do
      let (out, rb) ← lc.rb.read .errConnect alloc recv
      let lc := { lc with rb := rb }
      let lc := if out.code = .ok then { lc with readTime := now } else lc
      pure (out, dc.put c lc, [])

/-! ## Writing -/

/-- How many bytes are given to `send`. -/
def writeSize (maxWbuffer : Int) (n : Nat) : Nat :=
  if 0 < maxWbuffer ∧ (n : Int) > maxWbuffer then maxWbuffer.toNat else n

/-- LDAP_clnt_write -/
def ldapClntWrite (now : Int) (sockErr : SockErr) (send : Send) (c : Ptr) (dc : LdapT) :
    Step := do
  let lc ← dc.clnt c
  match lc.state with
  | .stateOpen =>
      match sockErr.message with
      | some e => pure (⟨.errConnect, some e⟩, dc, [])
      | none => do
          let dc := { dc with tid := tidIncrement dc.tid }
          let _ ← bindRequest dc.tid dc.username dc.password
          match send with
          | .failed _ | .wrote 0 =>
              pure (⟨.errConnect, some "bind request return error"⟩, dc, [])
          | .wrote _ =>
              let lc := { lc with writeTime := now, state := .stateConnecting }
              pure (⟨.ok, none⟩, dc.put c lc, [.bindSent c])
  | .stateConnecting => pure (⟨.ok, none⟩, dc, [])
  | .stateReady | .stateWaiting =>
      match lc.wBuffer with
      | none => pure (⟨.ok, none⟩, dc, [])
      | some buf =>
        if buf.length = 0 then pure (⟨.ok, none⟩, dc, [])
        else
          let pending := buf.drop lc.wCurr
          match send with
          | .failed e => pure (⟨.errSend, some s!"send return error [{e}]"⟩, dc, [])
          | .wrote r =>
            let bytes := pending.take (min r (writeSize dc.maxWbuffer pending.length))
            let wCurr := lc.wCurr + bytes.length
            if wCurr < buf.length then
              let lc := { lc with wCurr := wCurr, writeTime := now }
              pure (⟨.ok, none⟩, dc.put c lc, [.sent c bytes])
            else
              let lc := { lc with
                wCurr := 0, wBuffer := some [], writeTime := 0, keepaliveTime := now }
              let dc := { dc.put c lc with sentCount := int32 (dc.sentCount + 1) }
              pure (⟨.sent, none⟩, dc, [.sent c bytes])

/-- The copy of a BER into the write buffer, as LDAP_clnt_send_message (twice) and
ldap_send_keepalive_rqt have it.  `none`: there is no buffer, or `realloc` fails. -/
def LdapClnt.copyBer (now : Int) (alloc : Bool) (ber : BER) (lc : LdapClnt) :
    Except Fault (Option LdapClnt) :=
  match lc.wBuffer with
  | none => .ok none
  | some buf =>
    let len := buf.length + ber.berval.length
    let copied := { lc with wBuffer := some (buf ++ ber.berval), writeTime := now }
    -- `w_len + ber->len` is an `int`
    if len ≥ 2 ^ 31 then .error .overrun
    else if len > lc.wSize then
      -- and so is the size up to a multiple of LDAP_WRITE_BUFFER: no memory has a negative one
      if alloc ∧ adjustSize len ldapWriteBuffer < 2 ^ 31 then
        .ok (some { copied with wSize := adjustSize len ldapWriteBuffer })
      else .ok none
    else .ok (some copied)

/-! ## Sending -/

/-- What the allocator and the callback of LDAP_clnt_send_message answer: the `k`-th `realloc`
and the `k`-th call; `none` when there is no callback. -/
structure SendEnv where
  alloc : Nat → Bool
  callback : Option (Nat → Int)

def SendEnv.refused (env : SendEnv) (k : Nat) : Bool :=
  match env.callback with
  | none => false
  | some f => f k ≠ 0

/-- The connection's place after a BER from the queue was copied to it: to wait_queue when it
has reached max_concurrent, else to the end of ready_queue. -/
def LdapT.rotate (dc : LdapT) (c : Ptr) (lc : LdapClnt) : Except Fault LdapT := do
  if lc.concurrentCount ≥ dc.maxConcurrent then
    let q ← dc.toWait c
    pure (LdapT.put { dc with toQueues := q } c { lc with state := .stateWaiting })
  else
    let q ← dc.requeue c
    pure (LdapT.put { dc with toQueues := q } c lc)

/-- The loop that flushes send_msg_queue, `bers`. -/
def flushQueue (now : Int) (clock : Timeval) (env : SendEnv) : Nat → List BER → LdapT → Step
  | _, [], dc => .ok (⟨.ok, none⟩, dc, [])
  | k, ber :: bers, dc =>
    match dc.readyQueue with
    | none => .ok (⟨.ok, none⟩, dc, [])
    | some c => do
      let lc ← dc.clnt c
      match ← lc.copyBer now (env.alloc k) ber with
      | none => pure (⟨.errMemory, some "memory error"⟩, dc, [])
      | some lc => do
        let lc := { lc with
          timestampWrite := clock, concurrentCount := int32 (lc.concurrentCount + 1) }
        let dc ← dc.rotate c lc
        let dc := { dc with sendMsgQueue := bers, queueCount := dc.queueCount - 1 }
        if env.refused k then pure (⟨.errSend, none⟩, dc, [.flushed c ber])
        else do
          let (out, dc, log) ← flushQueue now clock env (k + 1) bers dc
          pure (out, dc, .flushed c ber :: log)

/-- LDAP_clnt_send_message to the connection `c`, up to the flush.  The flag says whether the
call goes on. -/
def sendDirect (now : Int) (env : SendEnv) (c : Ptr) (ber : BER) (dc : LdapT) :
    Except Fault (Bool × Outcome × LdapT × List Event) := do
  let lc ← dc.clnt c
  match ← lc.copyBer now (env.alloc 0) ber with
  | none => pure (false, ⟨.errMemory, some "memory error"⟩, dc, [])
  | some lc =>
      let lc := { lc with concurrentCount := int32 (lc.concurrentCount + 1) }
      pure (! env.refused 0, ⟨.errSend, none⟩, dc.put c lc, [.direct c ber])

/-- LDAP_clnt_send_message -/
def ldapClntSendMessage (now : Int) (clock : Timeval) (env : SendEnv) (lc : Option Ptr)
    (ber : Option BER) (dc : LdapT) : Step := do
  match lc, ber with
  | some c, some ber => do
      let (goOn, out, dc, log) ← sendDirect now env c ber dc
      if ¬ goOn then pure (out, dc, log)
      else do
        let (out, dc, log') ← flushQueue now clock env 1 dc.sendMsgQueue dc
        pure (out, dc, log ++ log')
  | none, some ber => do
      let dc := { dc with
        sendMsgQueue := dc.sendMsgQueue ++ [ber], queueCount := dc.queueCount + 1 }
      let (out, dc, log) ← flushQueue now clock env 1 dc.sendMsgQueue dc
      pure (out, dc, .queued ber :: log)
  | _, none => flushQueue now clock env 1 dc.sendMsgQueue dc

/-! ## Keepalives -/

/-- What the outside world does while one connection is kept alive: memory for the request and
for the write buffer, the socket, `close`. -/
structure KeepaliveEnv where
  ber : Bool
  alloc : Bool
  sockErr : SockErr
  send : Send
  closeErr : Option String

/-- ldap_send_keepalive_rqt -/
def ldapSendKeepaliveRqt (now : Int) (env : KeepaliveEnv) (c : Ptr) (ber : BER) (dc : LdapT) :
    Step := do
  let lc ← dc.clnt c
  match ← lc.copyBer now env.alloc ber with
  | none => pure (⟨.errMemory, some "memory error"⟩, dc, [])
  | some lc => do
      let (out, dc, log) ← ldapClntWrite now env.sockErr env.send c (dc.put c lc)
      if out.code ≠ .sent then
        pure (C.Reply.after ⟨.errSend, none⟩ out.error, dc, .keepaliveCopied c ber :: log)
      else pure (⟨.ok, none⟩, { dc with sentCount := int32 (dc.sentCount - 1) },
        .keepaliveCopied c ber :: log)

/-- The keepalive request, by the type of heartbeat. -/
def keepaliveRequest (alloc : Bool) (dc : LdapT) : Except Fault (Option (Int × BER)) :=
  match dc.heartbeat.type with
  | .none => .ok none
  | .search => some <$> ldapGenSearchRequest alloc dc.tid none dc.heartbeat.dn "base"
      presentObjectClass [] 3 []
  | .extended => some <$> ldapGenExtendedRequest alloc dc.tid none dc.heartbeat.oid none 0 []

/-- The text when no id comes out. -/
def KeepaliveType.failed : KeepaliveType → String
  | .extended => "LDAP_gen_extended_request return error"
  | _ => "LDAP_gen_search_request return error"

/-- LDAP_clnt_close, followed by `return LDAP_RET_ERR_KEEPALIVE`. -/
def giveUp (text : String) (env : KeepaliveEnv) (lc : LdapClnt) (dc : LdapT) :
    Except Fault (Option Outcome × LdapT × List Event) := do
  let (_, dc, log) ← ldapClntClose env.closeErr lc.no dc
  pure (some ⟨.errKeepalive, some text⟩, dc, log)

/-- `ht`: since when the connection has been idle, 0 while it is not. -/
def LdapClnt.idleSince (lc : LdapClnt) : Int :=
  if lc.writeTime = 0 ∧ lc.readTime = 0 then lc.keepaliveTime else 0

/-- One turn of LDAP_clnt_keep_alive, for a connection in client_array; `some` ends the loop. -/
def keepOneAlive (now : Int) (env : KeepaliveEnv) (c : Ptr) (dc : LdapT) :
    Except Fault (Option Outcome × LdapT × List Event) := do
  let lc ← dc.clnt c
  if lc.idleSince > 0 ∧ now - lc.idleSince ≥ dc.heartbeat.interval then
    match ← keepaliveRequest env.ber dc with
    | none => pure (none, dc, [])
    | some (tid, ber) => do
      let ktid := UInt32.ofInt tid
      let lc := { lc with ktid := ktid }
      let dc := LdapT.put { dc with tid := tid } c lc
      if ktid = 0 then
        let (out, dc, log) ← giveUp dc.heartbeat.type.failed env lc dc
        pure (out, dc, .keepaliveId c ktid :: log)
      else do
        let (out, dc, log) ← ldapSendKeepaliveRqt now env c ber dc
        if out.code ≠ .ok then
          let (out, dc, log') ← giveUp "ldap_send_keepalive_rqt return error" env lc dc
          pure (out, dc, .keepaliveId c ktid :: log ++ log')
        else pure (none, dc, .keepaliveId c ktid :: log)
  else pure (none, dc, [])

/-- The loop of LDAP_clnt_keep_alive over the slots `is`. -/
def keepAliveFrom (now : Int) (env : Nat → KeepaliveEnv) : List Nat → LdapT → Step
  | [], dc => .ok (⟨.ok, none⟩, dc, [])
  | i :: is, dc =>
    match dc.clientArray i with
    | none => keepAliveFrom now env is dc
    | some c => do
      let (out, dc, log) ← keepOneAlive now (env i) c dc
      match out with
      | some out => pure (out, dc, log)
      | none => do
        let (out, dc, log') ← keepAliveFrom now env is dc
        pure (out, dc, log ++ log')

/-- LDAP_clnt_keep_alive -/
def ldapClntKeepAlive (now : Int) (env : Nat → KeepaliveEnv) (dc : LdapT) : Step :=
  keepAliveFrom now env (List.range ldapMaxClient) dc

/-! ## Timeouts -/

/-- state_to_string -/
def stateToString : ClntState → String
  | .stateOpen => "UNKNOWN_STATE(0)"
  | .stateConnecting => "STATE_CONNECTING"
  | .stateReady => "STATE_READY"
  | .stateWaiting => "STATE_WAITING"

/-- The timeout that has passed for a connection, as the text of it. -/
def timedOut (now : Int) (dc : LdapT) (lc : LdapClnt) : Option String :=
  if lc.readTime > 0 ∧ dc.readTimeout > 0 ∧ now - lc.readTime ≥ dc.readTimeout then
    some s!"LDAP read timeout while in state [{stateToString lc.state}]"
  else if lc.writeTime > 0 ∧ dc.writeTimeout > 0 ∧ now - lc.writeTime ≥ dc.writeTimeout then
    some s!"LDAP write timeout while in state [{stateToString lc.state}]"
  else if lc.state = .stateConnecting ∧ dc.connectTimeout > 0 ∧
      now - lc.createTime ≥ dc.connectTimeout then
    some "LDAP connect timeout"
  else none

/-- The loop of LDAP_clnt_check_connection over the slots `is`. -/
def checkFrom (now : Int) (closeErr : Nat → Option String) :
    List Nat → Option String → LdapT → Step
  | [], text, dc => .ok (⟨.ok, text⟩, dc, [])
  | i :: is, text, dc =>
    match dc.clientArray i with
    | none => checkFrom now closeErr is text dc
    | some c => do
      let lc ← dc.clnt c
      match timedOut now dc lc with
      | none => checkFrom now closeErr is text dc
      | some e => do
        let (_, dc, log) ← ldapClntClose (closeErr i) lc.no dc
        let (out, dc, log') ← checkFrom now closeErr is (some e) dc
        pure (out, dc, log ++ log')

/-- LDAP_clnt_check_connection -/
def ldapClntCheckConnection (now : Int) (closeErr : Nat → Option String) (dc : LdapT) : Step :=
  checkFrom now closeErr (List.range ldapMaxClient) none dc

/-! ## Decoding -/

/-- The state of the loop of LDAP_clnt_decode: the connection, and the responses so far. -/
abbrev ClntSeen := LdapClnt × List Response

/-- The decoder of a client connection.  `alloc` is for rber. -/
def clntDecoder (now : Int) (alloc : Bool) : Decoder ClntSeen where
  call := fun (lc, seen) rb => do
    let (ret, resp, lc) ← decodeFrame alloc lc rb
    pure (⟨ret, none⟩, lc, seen ++ [resp])
  emptied := fun (lc, seen) => ({ lc with readTime := 0, keepaliveTime := now }, seen)
  noMemory := fun _ => none

/-- timeval_subtract: the difference, and `y`, which it changes. -/
def timevalSubtract (x y : Timeval) : Timeval × Timeval :=
  let y := if x.usec < y.usec then
      let nsec := (y.usec - x.usec) / 1000000 + 1
      { sec := y.sec + nsec, usec := y.usec - 1000000 * nsec : Timeval }
    else y
  let y := if x.usec - y.usec > 1000000 then
      let nsec := (x.usec - y.usec) / 1000000
      { sec := y.sec - nsec, usec := y.usec + 1000000 * nsec : Timeval }
    else y
  (⟨x.sec - y.sec, x.usec - y.usec⟩, y)

/-- The response times, once `recv_count` is counted up. -/
def LdapT.measure (dc : LdapT) (c : Ptr) (clock : Timeval) : LdapT :=
  let lc := dc.clients c
  let (overall, y) := timevalSubtract clock lc.timestampWrite
  let time := ((overall.sec * 1000000 + overall.usec) % 2 ^ 64).toNat
  let total := (dc.totalResponseTime + time) % 2 ^ 64
  { dc.put c { lc with timestampWrite := y } with
    totalResponseTime := total
    maxResponseTime := max time dc.maxResponseTime
    minResponseTime := if 1 < dc.recvCount then min time dc.minResponseTime else time
    avgResponseTime := if 0 < dc.recvCount then total / dc.recvCount.toNat else 0 }

/-- A connection that has fallen below max_concurrent comes back to ready_queue. -/
def LdapT.readyAgain (dc : LdapT) (c : Ptr) (lc : LdapClnt) : Except Fault LdapT :=
  if lc.state = .stateWaiting ∧ lc.concurrentCount < dc.maxConcurrent then do
    let q ← dc.toReady c
    pure (LdapT.put { dc with toQueues := q } c { lc with state := .stateReady })
  else pure (dc.put c lc)

/-- A final response: the connection has one request less outstanding. -/
def countAnswer (clock : Timeval) (c : Ptr) (lc : LdapClnt) (resp : Response) (out : Outcome)
    (dc : LdapT) : Step := do
  if lc.concurrentCount > 0 then
    let lc := { lc with concurrentCount := lc.concurrentCount - 1 }
    let dc ← dc.readyAgain c lc
    let dc := LdapT.measure { dc with recvCount := int32 (dc.recvCount + 1) } c clock
    pure (out, dc, [.answered c resp])
  else
    pure (⟨.errUnexpectedReceive, some "LDAP received unexpected data"⟩, dc.put c lc,
      [.unexpected c resp])

/-- An answer to the keepalive: a connection in wait_queue is moved to ready_queue and its write
buffer emptied.  Its state is not touched. -/
def keepaliveAnswered (c : Ptr) (lc : LdapClnt) (resp : Response) (out : Outcome) (dc : LdapT) :
    Step := do
  if ← dc.waits c (ldapMaxClient + 1) then
    let q ← dc.toReady c
    let lc := { lc with wBuffer := lc.wBuffer.map fun _ => [], wCurr := 0 }
    pure (out, LdapT.put { dc with toQueues := q } c lc, [.keptAlive c resp true])
  else pure (out, dc.put c lc, [.keptAlive c resp false])

/-- The event of a search entry. -/
def entryEvent (c : Ptr) (ktid : UInt32) (resp : Response) : Event :=
  if ktid ≠ 0 ∧ resp.map Answer.tid = some ktid then .keepaliveEntry c resp else .entry c resp

/-- LDAP_clnt_decode.  `grow` is for the read buffer, `alloc` for rber. -/
def ldapClntDecode (now : Int) (clock : Timeval) (grow : Alloc) (alloc : Bool) (c : Ptr)
    (dc : LdapT) : Step := do
  let lc ← dc.clnt c
  let entries := List.map (entryEvent c lc.ktid)
  let (out, (lc, seen), rb) ← (clntDecoder now alloc).decode grow (lc, []) lc.rb
  let lc := { lc with rb := rb }
  let last := seen.getLast?.join
  match out.code with
  | .dataAvailable => do
      let (out, dc, log) ← countAnswer clock c lc last out dc
      pure (out, dc, entries seen.dropLast ++ log)
  | .keepalive => do
      let (out, dc, log) ← keepaliveAnswered c lc last out dc
      pure (out, dc, entries seen.dropLast ++ log)
  | _ => pure (out, dc.put c lc, entries seen)

/-- What counting an answer leaves alone. -/
structure SameDecoded (lc lc' : LdapClnt) : Prop where
  rb : lc'.rb = lc.rb
  tid : lc'.tid = lc.tid
  resultCode : lc'.resultCode = lc.resultCode
  matchedDN : lc'.matchedDN = lc.matchedDN
  diagnosticMessage : lc'.diagnosticMessage = lc.diagnosticMessage

theorem put_clients (dc : LdapT) (c : Ptr) (lc : LdapClnt) : (dc.put c lc).clients c = lc := by
  simp only [LdapT.put, Function.update_self]

theorem readyAgain_same {dc dc' : LdapT} {c : Ptr} {lc : LdapClnt}
    (h : dc.readyAgain c lc = .ok dc') : SameDecoded lc (dc'.clients c) := by
  unfold LdapT.readyAgain at h
  split at h
  · obtain ⟨q, -, h⟩ := bind_eq_ok.1 h
    cases h
    rw [put_clients]
    exact ⟨rfl, rfl, rfl, rfl, rfl⟩
  · cases h
    rw [put_clients]
    exact ⟨rfl, rfl, rfl, rfl, rfl⟩

theorem countAnswer_same {clock : Timeval} {c : Ptr} {lc : LdapClnt} {resp : Response}
    {out out' : Outcome} {dc dc' : LdapT} {log : List Event}
    (h : countAnswer clock c lc resp out dc = .ok (out', dc', log)) :
    SameDecoded lc (dc'.clients c) := by
  unfold countAnswer at h
  split at h
  · obtain ⟨dc₁, hready, h⟩ := bind_eq_ok.1 h
    cases h
    have same := readyAgain_same hready
    simp only [LdapT.measure, put_clients]
    exact ⟨same.rb, same.tid, same.resultCode, same.matchedDN, same.diagnosticMessage⟩
  · cases h
    rw [put_clients]
    exact ⟨rfl, rfl, rfl, rfl, rfl⟩

theorem keepaliveAnswered_same {c : Ptr} {lc : LdapClnt} {resp : Response} {out out' : Outcome}
    {dc dc' : LdapT} {log : List Event}
    (h : keepaliveAnswered c lc resp out dc = .ok (out', dc', log)) :
    SameDecoded lc (dc'.clients c) := by
  obtain ⟨waits, -, h⟩ := bind_eq_ok.1 h
  split at h
  · obtain ⟨q, -, h⟩ := bind_eq_ok.1 h
    cases h
    rw [put_clients]
    exact ⟨rfl, rfl, rfl, rfl, rfl⟩
  · cases h
    rw [put_clients]
    exact ⟨rfl, rfl, rfl, rfl, rfl⟩

/-- LDAP_clnt_decode is the loop, and what comes after it leaves alone what was decoded. -/
theorem ldapClntDecode_loop {now : Int} {clock : Timeval} {grow : Alloc} {alloc : Bool} {c : Ptr}
    {dc dc' : LdapT} {out : Outcome} {log : List Event}
    (h : ldapClntDecode now clock grow alloc c dc = .ok (out, dc', log)) :
    ∃ o lc seen rb, (clntDecoder now alloc).decode grow (dc.clients c, []) (dc.clients c).rb =
        .ok (o, (lc, seen), rb) ∧ SameDecoded { lc with rb := rb } (dc'.clients c) := by
  obtain ⟨lc, hlc, h⟩ := bind_eq_ok.1 h
  have hown : lc = dc.clients c := by
    unfold LdapT.clnt at hlc
    split at hlc
    · exact (Except.ok.inj hlc).symm
    · cases hlc
  subst hown
  obtain ⟨⟨o, ⟨lc, seen⟩, rb⟩, hdec, h⟩ := bind_eq_ok.1 h
  refine ⟨o, lc, seen, rb, hdec, ?_⟩
  simp only at h
  split at h
  · obtain ⟨⟨o, dc₁, log₁⟩, hcount, h⟩ := bind_eq_ok.1 h
    cases h
    exact countAnswer_same hcount
  · obtain ⟨⟨o, dc₁, log₁⟩, hkeep, h⟩ := bind_eq_ok.1 h
    cases h
    exact keepaliveAnswered_same hkeep
  · cases h
    rw [put_clients]
    exact ⟨rfl, rfl, rfl, rfl, rfl⟩

/-- What LBER_attr_decode and LBER_object_decode leave of rber. -/
def lberConsume (c : Ptr) (dc : LdapT) : Step := do
  let lc ← dc.clnt c
  pure (⟨.ok, none⟩, dc.put c { lc with rber := none }, [.consumed c])

/-! ## Runs -/

/-- A call of an operation, with what the outside world does during it. -/
inductive Call where
  | open (now : Int) (connect : Connect) (mem : Option Ptr) (wbuf : Bool)
  | close (closeErr : Option String) (no : Int)
  | read (now : Int) (sockErr : SockErr) (stack : Nat → UInt8) (alloc : Alloc) (recv : Recv)
      (c : Ptr)
  | write (now : Int) (sockErr : SockErr) (send : Send) (c : Ptr)
  | sendMessage (now : Int) (clock : Timeval) (env : SendEnv) (lc : Option Ptr) (ber : Option BER)
  | keepAlive (now : Int) (env : Nat → KeepaliveEnv)
  | checkConnection (now : Int) (closeErr : Nat → Option String)
  | decode (now : Int) (clock : Timeval) (grow : Alloc) (alloc : Bool) (c : Ptr)
  | consume (c : Ptr)

def Call.perform : Call → LdapT → Step
  | .open now connect mem wbuf => ldapClntOpen now connect mem wbuf
  | .close closeErr no => ldapClntClose closeErr no
  | .read now sockErr stack alloc recv c => ldapClntRead now sockErr stack alloc recv c
  | .write now sockErr send c => ldapClntWrite now sockErr send c
  | .sendMessage now clock env lc ber => ldapClntSendMessage now clock env lc ber
  | .keepAlive now env => ldapClntKeepAlive now env
  | .checkConnection now closeErr => ldapClntCheckConnection now closeErr
  | .decode now clock grow alloc c => ldapClntDecode now clock grow alloc c
  | .consume c => lberConsume c

/-- A sequence of calls: the state after it and everything that happened. -/
def runCalls : List Call → LdapT → Except Fault (LdapT × List Event)
  | [], dc => .ok (dc, [])
  | call :: calls, dc => do
      let (_, dc, log) ← call.perform dc
      let (dc, log') ← runCalls calls dc
      pure (dc, log ++ log')

end CassandraApi.Ldap
