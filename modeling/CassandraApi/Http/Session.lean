/-
# `Http.Session` — reading and decoding one HTTP request

The session functions of http.c that see the request: the read buffer
(`httpAllocBuffer`, `httpSessRead`), the split of the buffered bytes into header
and body (`httpSessDecode`) and the decoding of the header (`decodeHeader`).

`httpSessDecode` works on the buffer as a C string.  It drops leading CR and LF
bytes with a `memmove`, looks for the first CRLFCRLF with `strstr`, and puts a NUL
in the middle of it; from there on the header is the C string at the front of
the buffer and every pointer of the source is an offset into it.
-/
import CassandraApi.Codec.UrlEncode

namespace CassandraApi.Http

open C Codec

/-! ## Types -/

/-- `HTTP_RET_CODE`, without the prefix. -/
inductive RetCode where
  | errUnknown
  | errParameter
  | errConnect
  | errUnavailable
  | errAuthen
  | errMemory
  | errSend
  | errReceive
  | errEncode
  | errDecode
  | errRead
  | errWrite
  | errClose
  | ok
  | dataAvailable
  | errorAvailable
  | waitMoreData
  | maxSession
  | ready
  | sent
  | sentClose
  | sentFragment
  | timeout
  deriving DecidableEq, Repr

abbrev Outcome := C.Reply RetCode

/-- `HTTP_METHOD_TYPE`. -/
inductive Method where
  | post
  | get
  | put
  | delete
  | trace
  | options
  | head
  | connect
  deriving DecidableEq, Repr

def httpMaxHeaderSize : Nat := 16384
def httpMaxQueryStringLen : Nat := 1024
def httpDataBuffer : Nat := 65536

/-- HSDATA.  `data` is the block behind the header of the structure, which is eight bytes longer
than `size` because the structure is padded. -/
structure HSDATA where
  size : Int
  len : Int
  data : Block

/-- The counters of one CMD_STATUS that decoding touches. -/
structure CmdStatus where
  recvMsgCount : Nat := 0
  deriving DecidableEq, Repr

/-- The counters of HTTP_t that decoding touches. -/
structure HTTP where
  recvMsgCount : Nat := 0
  errorMsgCount : Nat := 0
  getStatus : CmdStatus := {}
  putStatus : CmdStatus := {}
  postStatus : CmdStatus := {}
  deleteStatus : CmdStatus := {}
  deriving DecidableEq, Repr

/-- The fields of HSSESSION that describe the request being decoded. -/
structure Request where
  no : Int
  headerLength : Int := -1
  bodyLength : Int := -1
  /-- `NULL`, or the C string in the buffer of `HTTP_MAX_QUERY_STRING_LEN` bytes -/
  requestUri : Option (List UInt8) := some []
  httpMethod : Method := .post
  errorResponse : Int := 0
  headerVersion : List UInt8 := List.replicate 32 0
  deriving DecidableEq, Repr

/-- HSSESSION, its read side. -/
structure HSSESSION extends Request where
  rBuffer : HSDATA
  readTime : Int := 0
  activeTime : Int := 0
  recvCount : UInt8 := 0

/-! ## The read buffer -/

/-- `ADJUST_SIZE(_l, _s)`: up to the next multiple. -/
def adjustSize (l s : Int) : Int :=
  let r := l.tmod s
  if r > 0 then int32 (l + (s - r)) else l

/-- http_alloc_buffer; `none` is its result -1.  A size that has overflowed asks `malloc` for
more than there is. -/
def httpAllocBuffer (alloc : Alloc) (data : Option HSDATA) (len : Int) :
    Except Fault (Option HSDATA) :=
  match data with
  | none =>
      let len := adjustSize len httpDataBuffer
      if len < 0 then .ok none
      else match alloc with
        | none => .ok none
        | some _ => .ok (some ⟨len, 0, ⟨(len + 8).toNat, fun _ => 0⟩⟩)
  | some d =>
      if int32 (d.len + len) > d.size then
        let len := adjustSize (int32 (len + d.len)) httpDataBuffer
        if len < 0 then .ok none
        else match alloc with
          | none => .ok none
          | some garbage => do
              let block ← (d.data.realloc (len + 8).toNat garbage).clear d.len (len - d.len)
              .ok (some ⟨len, d.len, block⟩)
      else .ok (some d)

/-- What HTTP_sess_open leaves in the slot it has found, once the peer has been let in. -/
def HSSESSION.opened (now : Int) (sess : HSSESSION) : HSSESSION :=
  { sess with
    rBuffer := ⟨httpDataBuffer, 0, ⟨httpDataBuffer + 8, fun _ => 0⟩⟩
    activeTime := now
    readTime := 0
    headerLength := -1
    bodyLength := -1
    requestUri := sess.requestUri.map fun _ => []
    httpMethod := .post
    errorResponse := 0 }

/-- The buffer HTTP_sess_read reads into: it grows once the length of the request is known. -/
def growForRequest (alloc : Alloc) (sess : HSSESSION) : Except Fault (Option HSSESSION) :=
  if int32 (sess.headerLength + sess.bodyLength) > sess.rBuffer.len then do
    let d ← httpAllocBuffer alloc (some sess.rBuffer)
      (int32 (sess.headerLength + sess.bodyLength))
    pure (d.map fun d => { sess with rBuffer := d })
  else .ok (some sess)

/-- The room HTTP_sess_read offers to `recv`. -/
def HSSESSION.room (sess : HSSESSION) : Int := int32 (sess.rBuffer.size - sess.rBuffer.len)

def httpSessRead (alloc : Alloc) (recv : Recv) (now : Int) (sess : HSSESSION) :
    Except Fault (Outcome × HSSESSION) := do
  match ← growForRequest alloc sess with
  | none => pure (⟨.errReceive, none⟩, sess)
  | some sess =>
      match recv with
      | .failed _ => pure (⟨.errRead, none⟩, sess)
      | .data [] => pure (⟨.errClose, none⟩, sess)
      | .data (c :: cs) => do
          let data ← sess.rBuffer.data.write sess.rBuffer.len (c :: cs)
          let len := int32 (sess.rBuffer.len + (c :: cs).length)
          pure (⟨.ok, none⟩, { sess with
            recvCount := sess.recvCount + 1
            rBuffer := ⟨sess.rBuffer.size, len, data⟩
            activeTime := now
            readTime := now })

/-! ## The header -/

def crlfcrlf : List UInt8 := [13, 10, 13, 10]

/-- The method whose name the first nine bytes start with, and the length of the name. -/
def findMethod (first : List UInt8) : Option (Method × Nat) :=
  if strstr first (ascii "GET ") = some 0 then some (.get, 4)
  else if strstr first (ascii "TRACE ") = some 0 then some (.trace, 6)
  else if strstr first (ascii "HEAD ") = some 0 then some (.head, 5)
  else if strstr first (ascii "DELETE ") = some 0 then some (.delete, 7)
  else if strstr first (ascii "POST ") = some 0 then some (.post, 5)
  else if strstr first (ascii "PUT ") = some 0 then some (.put, 4)
  else if strstr first (ascii "OPTIONS ") = some 0 then some (.options, 8)
  else if strstr first (ascii "CONNECT ") = some 0 then some (.connect, 8)
  else none

/-- The methods that have a counter of their own. -/
def HTTP.countMethod (hs : HTTP) : Method → HTTP
  | .get => { hs with getStatus := ⟨hs.getStatus.recvMsgCount + 1⟩ }
  | .delete => { hs with deleteStatus := ⟨hs.deleteStatus.recvMsgCount + 1⟩ }
  | .post => { hs with postStatus := ⟨hs.postStatus.recvMsgCount + 1⟩ }
  | .put => { hs with putStatus := ⟨hs.putStatus.recvMsgCount + 1⟩ }
  | _ => hs

/-- `Content-Length` of the header `head`: the rest of the line for the error message, or the
value.  `none` when the header has none. -/
def contentLength (head : List UInt8) : Option (Except (List UInt8) Int) :=
  match strstr head (ascii "Content-Length:") with
  | none => none
  | some p =>
      let pp := p + (ascii "Content-Length:").length
      let pp := if (head.drop pp).head? = some 32 then pp + 1 else pp
      let (ll, used) := strtol (head.drop pp)
      let rest := head.drop (pp + used)
      if ll = longMax ∨ ¬ (rest.head? = some 13 ∧ rest[1]? = some 10) then
        some (.error (head.drop p))
      else some (.ok ll)

def badRequest (no : Int) : String :=
  "400 Bad Request: Server could not interpret or understand the request, probably syntax " ++
    s!"error in the request message. [session_no:{no}]"

def notImplemented (no : Int) : String :=
  "501 Method Not Implemented: The request method used is invalid (could be caused by a " ++
    s!"typing error). [session_no:{no}]"

/-- The query string, between the method and the version.  With `none` the header goes on to be
decoded for its body. -/
def decodeUri (hs : HTTP) (req : Request) (uri : List UInt8) : Option Outcome × HTTP × Request :=
  let req := { req with requestUri := req.requestUri.map fun _ => ascii "/" }
  if 1 ≤ uri.length ∧ uri.length < httpMaxQueryStringLen then
    match req.requestUri with
    | none => (some ⟨.errDecode,
        some s!"allocate memory for querystring failed. [session_no:{req.no}]"⟩, hs, req)
    | some _ =>
        -- strcpy of the decoded text
        let req := { req with requestUri := some (beforeNul (urlDecodeInit uri)) }
        if req.httpMethod ≠ .put ∧ req.httpMethod ≠ .post then
          (some ⟨.dataAvailable, none⟩, { hs with recvMsgCount := hs.recvMsgCount + 1 },
            { req with bodyLength := 0 })
        else (none, hs, req)
  else (some ⟨.errorAvailable, some (badRequest req.no)⟩,
    { hs with errorMsgCount := hs.errorMsgCount + 1 }, { req with errorResponse := 400 })

/-- The body length of a PUT or POST request. -/
def decodeBodyLength (req : Request) (head : List UInt8) : Option Outcome × Request :=
  match contentLength head with
  | none => (some ⟨.errDecode, some (s!"session({req.no}), HTTP Content-Length: not found - " ++
      s!"Data[{text (head.take 4096)}...] ")⟩, { req with bodyLength := 0 })
  | some (.error line) =>
      (some ⟨.errDecode, some s!"session({req.no}), Invalid [{text line}]"⟩, req)
  | some (.ok ll) => (none, { req with bodyLength := int32 ll })

/-- What the header says: the result, with `none` when the body is to be waited for, and whether
`data[header_length] = 0` is done, which is for headers that cannot be understood. -/
def decodeHeader (hs : HTTP) (req : Request) (head : List UInt8) :
    Option Outcome × HTTP × Request × Bool :=
  let req := { req with errorResponse := 0 }
  let refuse := fun (hs : HTTP) (req : Request) (status : Int) (error : String) =>
    (some ⟨.errorAvailable, some error⟩, { hs with errorMsgCount := hs.errorMsgCount + 1 },
      { req with errorResponse := status }, true)
  -- data[9] is a NUL while the methods are compared
  match findMethod (head.take 9) with
  | none => refuse hs req 501 (notImplemented req.no)
  | some (method, methodLen) =>
      let req := { req with httpMethod := method }
      let hs := hs.countMethod method
      match strstr (head.drop methodLen) (ascii " HTTP/1.") with
      | none => refuse hs req 400 (badRequest req.no)
      | some uriLen =>
          -- the eight bytes after the blank; the last may be the NUL that ends the header
          let version := ((head ++ [0]).drop (methodLen + uriLen + 1)).take 8
          let req := { req with headerVersion := version ++ req.headerVersion.drop 8 }
          match decodeUri hs req ((head.drop methodLen).take uriLen) with
          | (some out, hs, req) => (some out, hs, req, false)
          | (none, hs, req) =>
              let (out, req) := decodeBodyLength req head
              (out, hs, req, false)

/-! ## Decoding what has arrived -/

/-- `for (i = 0; i < len; ++i) if (data[i] != '\r' && data[i] != '\n') break;` -/
def countCrlf (data : Block) : Nat → Nat → Except Fault Nat
  | 0, i => .ok i
  | left + 1, i => do
    let c ← data.rd i
    if c ≠ 13 ∧ c ≠ 10 then .ok i else countCrlf data left (i + 1)

/-- Skips extra CRLF.  `none`: the buffer has only CR and LF. -/
def skipCrlf (buf : HSDATA) : Except Fault (Option HSDATA) := do
  let i ← countCrlf buf.data buf.len.toNat 0
  if i = 0 then pure (some buf)
  else if (i : Int) ≥ buf.len then pure none
  else do
    let data ← buf.data.memmove 0 i (buf.len - i)
    let data ← data.write (buf.len - i) [0]
    pure (some ⟨buf.size, buf.len - i, data⟩)

/-- The last test: is the body there? -/
def waitBody (hs : HTTP) (sess : HSSESSION) : Outcome × HTTP × HSSESSION :=
  if sess.rBuffer.len < int32 (sess.headerLength + sess.bodyLength) then
    (⟨.waitMoreData, none⟩, hs, sess)
  else (⟨.dataAvailable, none⟩, { hs with recvMsgCount := hs.recvMsgCount + 1 }, sess)

/-- `data[header_length] = 0`, for headers that cannot be understood. -/
def closeHeader (sess : HSSESSION) (refused : Bool) : Except Fault Block :=
  if refused then sess.rBuffer.data.write sess.headerLength [0] else .ok sess.rBuffer.data

/-- The header of `headerLength` bytes is there, with a NUL in place of its last CR. -/
def takeHeader (hs : HTTP) (sess : HSSESSION) : Except Fault (Outcome × HTTP × HSSESSION) :=
  if sess.headerLength < 10 then
    .ok (⟨.errDecode, some s!"session({sess.no}), HTTP header is too small"⟩, hs, sess)
  else do
    let head ← sess.rBuffer.data.cstr 0
    let (out, hs, req, refused) := decodeHeader hs sess.toRequest head
    let data ← closeHeader sess refused
    let sess := { sess with toRequest := req, rBuffer := { sess.rBuffer with data := data } }
    match out with
    | some out => pure (out, hs, sess)
    | none => pure (waitBody hs sess)

/-- Looks for the end of the header. -/
def findHeader (hs : HTTP) (sess : HSSESSION) : Except Fault (Outcome × HTTP × HSSESSION) :=
  if sess.rBuffer.len ≤ 0 then .ok (⟨.waitMoreData, none⟩, hs, sess)
  else do
    let s ← sess.rBuffer.data.cstr 0
    match strstr s crlfcrlf with
    | none =>
        if sess.rBuffer.len ≥ httpMaxHeaderSize then
          pure (⟨.errDecode, some s!"session({sess.no}), HTTP header is too big"⟩, hs, sess)
        else pure (⟨.waitMoreData, none⟩, hs, sess)
    | some p => do
        -- separate header string from body
        let data ← sess.rBuffer.data.write (p + 2 : Nat) [0]
        takeHeader hs { sess with
          rBuffer := { sess.rBuffer with data := data }, headerLength := (p + 4 : Nat) }

def httpSessDecode (hs : HTTP) (sess : HSSESSION) : Except Fault (Outcome × HTTP × HSSESSION) :=
  if sess.rBuffer.len ≤ 0 then .ok (⟨.waitMoreData, none⟩, hs, sess)
  else if sess.headerLength < 0 then do
    match ← skipCrlf sess.rBuffer with
    | none => pure (⟨.waitMoreData, none⟩, hs,
        { sess with rBuffer := { sess.rBuffer with len := 0 }, readTime := 0 })
    | some buf => findHeader hs { sess with rBuffer := buf }
  else .ok (waitBody hs sess)

end CassandraApi.Http
