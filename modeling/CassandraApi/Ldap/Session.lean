/-
# `Ldap.Session` — the operations of ldap_server.c on one session

A DSSESSION starts in state OPEN, where LDAP_sess_read waits for a bind request;
after a bind that is accepted it is READY.  Requests are decoded into `rdata`, a
ring that is appended to and, when a request is refused, shortened at its end:
here the list of its members.

What the outside world does during a call comes in as arguments.  Besides its
result an operation reports what it did, as a list of `SessEvent`s.  The source
has no such list; it is what statements about runs speak of.

Clocks, counters and response times are left out: nothing modelled here reads
them.
-/
import CassandraApi.Lib.Machine
import CassandraApi.Ldap.Client
import CassandraApi.Ldap.DecodeRequest
import CassandraApi.Ldap.Respond

namespace CassandraApi.Ldap

open C Ber

/-! ## The data -/

/-- A name and a password: DSUSER, and the `user` of a session. -/
structure DsUser where
  name : List UInt8 := []
  password : List UInt8 := []
  deriving DecidableEq

/-- DS_t, as far as the sessions read it. -/
structure DsT where
  userList : List DsUser := []
  maxConcurrent : Int

/-- LDAP_svr_init -/
def ldapSvrInit (maxConcurrent : Int) : DsT where
  maxConcurrent :=
    if maxConcurrent < ldapMaxConcurrentRequest then maxConcurrent else ldapMaxConcurrentRequest

/-- A server with these users. -/
def server (maxConcurrent : Int) (users : List DsUser) : DsT :=
  { ldapSvrInit maxConcurrent with userList := users }

/-- LDAP_SERV_STATE of a session in use. -/
inductive ServState where
  | stateOpen
  | stateReady
  deriving DecidableEq, Repr

/-- DSSESSION.  `wBuffer` are the first `w_len` bytes of `w_buffer`. -/
structure DsSession where
  sock : Int := 0
  user : DsUser := {}
  state : ServState := .stateOpen
  concurrentCount : Int := 0
  wBuffer : Option (List UInt8) := none
  wSize : Nat := 0
  wCurr : Nat := 0
  rb : ReadBuffer := {}
  rdata : List LdapMessage := []

/-- LDPA_svr_user_add: at most 255 bytes of each string are kept. -/
def ldpaSvrUserAdd (ds : DsT) (username password : Option (List UInt8)) : DsT :=
  { ds with userList := ds.userList ++
      [⟨((username.map beforeNul).getD []).take 255, ((password.map beforeNul).getD []).take 255⟩] }

/-! ## Binding -/

/-- What the bind functions return: `none` is -1. -/
abbrev BindRet := Option RetCode

/-- The `do … while` over the user list, which does not expect it to be empty. -/
def authenticate (users : List DsUser) (user : DsUser) : Except Fault Bool :=
  if users.isEmpty then .error .null
  else .ok (users.any fun u =>
    beforeNul user.name = beforeNul u.name ∧ beforeNul user.password = beforeNul u.password)

/-- `len = buff[i++]; memcpy(field, &(buff[i]), len)`, `len` being unsigned. -/
def charString (buff : Block) (i : Int) : Except Fault (List UInt8 × Int) := do
  let len := schar (← buff.rd i)
  let s ← buff.load (i + 1) len
  pure (s, i + 1 + len)

/-- From the tag of the authentication on. -/
def recvBindPassword (users : List DsUser) (buff : Block) (i : Int) (sess : DsSession) :
    Except Fault (BindRet × DsSession) := do
  if (← buff.rd i) ≠ 0x80 then pure (some .errAuthenMethod, sess)
  else do
    let (password, _) ← charString buff (i + 1)
    let sess := { sess with user := { sess.user with password := password } }
    if ← authenticate users sess.user then pure (some .ok, sess)
    else pure (some .errAuthen, sess)

/-- From the tag of the operation on. -/
def recvBindOp (users : List DsUser) (buff : Block) (i : Int) (sess : DsSession) :
    Except Fault (BindRet × DsSession) := do
  if (← buff.rd i) ≠ 0x60 then pure (none, sess)
  else if (← buff.rd (i + 4)) ≠ 3 then pure (some .errLdapversion, sess)
  else if (← buff.rd (i + 5)) ≠ 0x04 then pure (none, sess)
  else do
    let (name, i) ← charString buff (i + 6)
    recvBindPassword users buff i { sess with user := { sess.user with name := name } }

/-- The parser of ldap_recv_bind_rqt, on the array that was received into. -/
def recvBindMsg (users : List DsUser) (buff : Block) (sess : DsSession) :
    Except Fault (BindRet × DsSession) := do
  if (← buff.rd 0) ≠ 0x30 then pure (none, sess)
  else if (← buff.rd 2) ≠ 0x02 then pure (none, sess)
  else do
    let msgIdLen := schar (← buff.rd 3)
    -- unsigned, so a negative length runs over the end of the array
    if msgIdLen < 0 then throw .read
    let msgId ← decodeTid buff msgIdLen.toNat 4 0
    recvBindOp users buff (4 + msgIdLen) { sess with rdata := [{ messageId := msgId }] }

/-- ldap_recv_bind_rqt.  `stack` is what the array of 512 bytes holds at first. -/
def ldapRecvBindRqt (stack : Nat → UInt8) (recv : Recv) (ds : DsT) (sess : DsSession) :
    Except Fault (BindRet × DsSession) :=
  match recv with
  | .failed _ => .ok (none, sess)
  | .data [] => .ok (none, sess)
  | .data (b :: bs) => do
      let buff ← Block.write ⟨512, stack⟩ 0 (b :: bs)
      recvBindMsg ds.userList buff sess

/-- How many octets ldap_send_bind_resp writes for a message id. -/
def bindRespIdSize (messageId : UInt32) : Nat :=
  if messageId.toNat < 0x100 then 1
  else if messageId.toNat < 0x10000 then 2
  else if messageId.toNat < 0x1000000 then 3
  else 4

/-- The message ldap_send_bind_resp builds. -/
def bindResponse (messageId : UInt32) (resultCode : Int) : List UInt8 :=
  let n := bindRespIdSize messageId
  let rest := 0x02 :: UInt8.ofNat n :: octets messageId.toNat n ++
    [0x61, 0x07, 0x0a, 0x01, toChar resultCode, 0x04, 0x00, 0x04, 0x00]
  0x30 :: UInt8.ofNat rest.length :: rest

/-- ldap_send_bind_resp, and the message it gives to `send`.  The request is freed before. -/
def ldapSendBindResp (resultCode : Int) (send : Send) (sess : DsSession) :
    BindRet × DsSession × Option (List UInt8) :=
  match sess.rdata.head? with
  | none => (some .errParameter, sess, none)
  | some msg =>
      let reply := bindResponse msg.messageId resultCode
      match send with
      | .failed _ | .wrote 0 => (none, { sess with rdata := [] }, some reply)
      | .wrote _ => (some .ok, { sess with rdata := [] }, some reply)

/-! ## Reading -/

abbrev ServOutcome := C.Reply BindRet

/-- The value of a return code. -/
def BindRet.value : BindRet → Int
  | none => -1
  | some r => if r.ctorIdx < RetCode.ok.ctorIdx then (r.ctorIdx : Int) - 1000
      else (r.ctorIdx : Int) - RetCode.ok.ctorIdx

/-- The LDAP result that a failed bind is answered with. -/
def bindFailure : BindRet → Int
  | some .errAuthen => 49
  | some .errAuthenMethod => 7
  | _ => 48

/-- LDAP_sess_read -/
def ldapSessRead (sockErr : SockErr) (stack : Nat → UInt8) (send : Send) (alloc : Alloc)
    (recv : Recv) (ds : DsT) (sess : DsSession) : Except Fault (ServOutcome × DsSession) := do
  match sess.state with
  | .stateOpen =>
      match sockErr.message with
      | some e => pure (⟨some .errConnect, some e⟩, sess)
      | none => do
          let (r, sess) ← ldapRecvBindRqt stack recv ds sess
          if r ≠ some .ok then
            let (_, sess, _) := ldapSendBindResp (bindFailure r) send sess
            pure (⟨r, some s!"bind request return error ({BindRet.value r})"⟩, sess)
          else
            match ldapSendBindResp 0 send sess with
            | (some .ok, sess, _) =>
                pure (⟨some .ready, none⟩, { sess with state := .stateReady })
            | (_, sess, _) => pure (⟨some .errConnect, some "can not send bind response"⟩, sess)
  | .stateReady => do
      let (out, rb) ← sess.rb.read .errClosed alloc recv
      pure (⟨some out.code, out.error⟩, { sess with rb := rb })

/-! ## What an operation reports -/

inductive SessEvent where
  /-- a BER was accepted by LDAP_sess_send_message -/
  | queued (ber : BER)
  /-- LDAP_sess_write handed these bytes over to the socket -/
  | sent (bytes : List UInt8)
  /-- a request was delivered -/
  | delivered (msg : LdapMessage)
  /-- a request was refused; the response, and how much of it the socket took -/
  | refused (msg : LdapMessage) (response : List UInt8) (taken : List UInt8)

abbrev SessStep := Except Fault (ServOutcome × DsSession × List SessEvent)

/-! ## Writing -/

/-- LDAP_sess_write.  `callback` is what the write callback returns, when there is one. -/
def ldapSessWrite (send : Send) (callback : Option Int) (sess : DsSession) : SessStep :=
  match sess.state, sess.wBuffer with
  | .stateOpen, _ => .ok (⟨some .errConnect, some "connection isn't ready"⟩, sess, [])
  | .stateReady, none => .ok (⟨some .ok, none⟩, sess, [])
  | .stateReady, some buf =>
      if buf.length = 0 then .ok (⟨some .ok, none⟩, sess, [])
      else
        let pending := buf.drop sess.wCurr
        match send with
        | .failed e => .ok (⟨some .errSend, some s!"send return error [{e}]"⟩, sess, [])
        | .wrote r =>
            let bytes := pending.take (min r (min pending.length ldapWriteBuffer))
            let wCurr := sess.wCurr + bytes.length
            if wCurr < buf.length then
              if callback.getD 0 ≠ 0 then
                .ok (⟨some .errSend, some s!"fd_set_write error for socket ({sess.sock})"⟩,
                  { sess with wCurr := wCurr }, [.sent bytes])
              else .ok (⟨some .sentFragment, none⟩, { sess with wCurr := wCurr }, [.sent bytes])
            else .ok (⟨some .sent, none⟩, { sess with wCurr := 0, wBuffer := some [] },
              [.sent bytes])

/-- The write buffer of a session, allocated with its first message. -/
def DsSession.firstBuffer (malloc : Bool) (sess : DsSession) : Option (List UInt8 × Nat) :=
  match sess.wBuffer with
  | some buf => some (buf, sess.wSize)
  | none => if malloc then some ([], ldapWriteBuffer) else none

/-- LDAP_sess_send_message.  `malloc` and `realloc` say whether memory is available. -/
def ldapSessSendMessage (malloc realloc : Bool) (callback : Option Int) (ber : BER)
    (sess : DsSession) : SessStep :=
  match sess.firstBuffer malloc with
  | none =>
      .ok (⟨some .errMemory, some s!"can not allocate memory size ({sess.rb.rSize})"⟩,
        { sess with wSize := ldapWriteBuffer }, [])
  | some (buf, wSize) =>
    let len := buf.length + ber.berval.length
    let stored := { sess with
      wBuffer := some (buf ++ ber.berval), wSize := wSize
      concurrentCount := int32 (sess.concurrentCount - 1) }
    let done : SessStep :=
      if callback.getD 0 ≠ 0 then
        .ok (⟨some .errSend, some "fd_set_write_callback return error"⟩, stored, [.queued ber])
      else .ok (⟨some .ok, none⟩, stored, [.queued ber])
    -- `w_len + ber->len` is an `int`
    if len ≥ 2 ^ 31 then .error .overrun
    else if len > wSize then
      -- and so is the size up to a multiple of LDAP_WRITE_BUFFER: no memory has a negative one
      if realloc ∧ adjustSize len ldapWriteBuffer < 2 ^ 31 then
        (fun (out, s, log) => (out, { s with wSize := adjustSize len ldapWriteBuffer }, log)) <$> done
      else .ok (⟨some .errMemory, some "memory error"⟩,
        { sess with wBuffer := some buf, wSize := wSize }, [])
    else done

/-! ## Decoding -/

/-- The `request_name` of an extended request. -/
def LdapMessage.requestName (msg : LdapMessage) : List UInt8 :=
  match msg.alt with
  | .extendedRequest name _ => beforeNul name
  | _ => []

/-- The message id as the generators take it: an `int`. -/
def LdapMessage.mid (msg : LdapMessage) : Int := int32 msg.messageId.toNat

/-- The response that ldap_send_generic_resp generates; none for an operation it does not know. -/
def genericResp (alloc : Bool) (resultCode : Int) (msg : LdapMessage) :
    Except Fault (Option BER) :=
  match msg.choice with
  | .searchRequest => some <$> ldapGenSearchDone alloc none msg.mid resultCode none none
  | .modifyRequest => some <$> ldapGenModifyResponse alloc none msg.mid resultCode none none
  | .addRequest => some <$> ldapGenAddResponse alloc none msg.mid resultCode none none
  | .deleteRequest => some <$> ldapGenDeleteResponse alloc none msg.mid resultCode none none
  | .modifydnRequest => some <$> ldapGenModdnResponse alloc none msg.mid resultCode none none
  | .extendedRequest => some <$> ldapGenExtendedResponse alloc none msg.mid resultCode none none
      (some msg.requestName) []
  | .bindRequest => .ok none

/-- The bytes that one `send` takes of those it is given. -/
def Send.taken (send : Send) (bytes : List UInt8) : List UInt8 :=
  match send with
  | .failed _ => []
  | .wrote n => bytes.take n

/-- ldap_send_generic_resp: the response, and how much of it the socket takes. -/
def ldapSendGenericResp (alloc : Bool) (send : Send) (resultCode : Int) (msg : LdapMessage) :
    Except Fault (List UInt8 × List UInt8) := do
  match ← genericResp alloc resultCode msg with
  | none => throw .null
  | some ber => pure (ber.berval, send.taken ber.berval)

/-- The decoder of a session; its state is `rdata`. -/
def sessDecoder (call : ReadBuffer → Except Fault (Outcome × Option LdapMessage)) :
    Decoder (List LdapMessage) where
  call := fun rdata rb => do
    let (out, msg) ← call rb
    pure (out, rdata ++ msg.toList)
  emptied := id
  noMemory := fun n => some s!"cannot allocation memory ({n})"

/-- The newest message is answered and taken off the list. -/
def refuse (alloc : Bool) (send : Send) (ds : DsT) (sess : DsSession) : SessStep :=
  match sess.rdata.getLast? with
  | none => .error .null
  | some msg => do
      let (response, taken) ← ldapSendGenericResp alloc send 0 msg
      pure (⟨some .errUnexpectedReceive,
          some s!"LDAP received data at limited concurrent (max: {ds.maxConcurrent})"⟩,
        { sess with rdata := sess.rdata.dropLast }, [.refused msg response taken])

/-- A request that was decoded is counted, or refused when max_concurrent are outstanding. -/
def countRequest (alloc : Bool) (send : Send) (ds : DsT) (out : Outcome) (sess : DsSession) : SessStep :=
  if sess.concurrentCount < ds.maxConcurrent then
    .ok (⟨some out.code, out.error⟩,
      { sess with concurrentCount := sess.concurrentCount + 1 },
      (sess.rdata.getLast?.map SessEvent.delivered).toList)
  else refuse alloc send ds sess

/-- LDAP_sess_decode.  `grow` is for the read buffer, `env` for ldap_decode_request, `alloc` and
`send` for the response to a request that is refused. -/
def ldapSessDecode (grow : Alloc) (env : DecodeEnv) (alloc : Bool) (send : Send) (ds : DsT)
    (sess : DsSession) : SessStep := do
  let (out, rdata, rb) ← (sessDecoder (ldapDecodeRequest env)).decode grow sess.rdata sess.rb
  let sess := { sess with rdata := rdata, rb := rb }
  if out.code = .dataAvailable then countRequest alloc send ds out sess
  else pure (⟨some out.code, out.error⟩, sess, [])

/-! ## Runs -/

/-- A call on a bound session, with what the outside world does during it. -/
inductive SessCall where
  | read (alloc : Alloc) (recv : Recv)
  | write (send : Send) (callback : Option Int)
  | sendMessage (malloc realloc : Bool) (callback : Option Int) (ber : BER)
  | decode (grow : Alloc) (env : DecodeEnv) (alloc : Bool) (send : Send)

def SessCall.perform (ds : DsT) : SessCall → DsSession → SessStep
  | .read alloc recv => fun sess => do
      let (out, sess) ← ldapSessRead .none (fun _ => 0) (.wrote 0) alloc recv ds sess
      pure (out, sess, [])
  | .write send callback => ldapSessWrite send callback
  | .sendMessage malloc realloc callback ber => ldapSessSendMessage malloc realloc callback ber
  | .decode grow env alloc send => ldapSessDecode grow env alloc send ds

/-- A call in a run: the session, and what its operations have reported so far. -/
def SessCall.step (ds : DsT) (st : DsSession × List SessEvent) (call : SessCall) :
    Except Fault (DsSession × List SessEvent) := do
  let (_, sess, log) ← call.perform ds st.1
  pure (sess, st.2 ++ log)

/-- A session whose bind request was accepted. -/
def boundSession (sock : Int) (user : DsUser) : DsSession :=
  { sock := sock, user := user, state := .stateReady }

end CassandraApi.Ldap
