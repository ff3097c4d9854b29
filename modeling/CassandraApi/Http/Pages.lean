/-
# `Http.Pages` — the beginnings of responses

The http_gen functions append a response's status line, and some header lines, to
a buffer.  All of them start with `header_version` of the session, an array of 32
bytes that is printed up to its NUL.  The version of the server that some of them
name, SDF_VERSION, is given to the compiler; here it is a parameter.

The bytes of a page do not depend on what new memory holds (`Page.bytes_eq`).
-/
import CassandraApi.Http.Session
import CassandraApi.Lib.TwoRuns

namespace CassandraApi.Http

open C Lib

/-! ## Storing strings -/

/-- `_HGH_STORE_STRING` and `_HGH_STORE_STRING_CONST`: what the function would return, and the
buffer. -/
def storeString (alloc : Alloc) (str : List UInt8) (data : Option HSDATA) :
    Except Fault (Int × Option HSDATA) := do
  match ← httpAllocBuffer alloc data str.length with
  | none => pure (-1, data)
  | some d => do
      let block ← d.data.write d.len str
      pure (0, some ⟨d.size, int32 (d.len + str.length), block⟩)

/-- One string after another, as long as there is memory. -/
def storeStrings (alloc : Alloc) : List (List UInt8) → Option HSDATA →
    Except Fault (Int × Option HSDATA)
  | [], data => pure (0, data)
  | str :: strs, data => do
      let (r, data) ← storeString alloc str data
      if r ≠ 0 then pure (r, data) else storeStrings alloc strs data

/-- A `char` array as a string. -/
def fieldString (field : List UInt8) : Except Fault (List UInt8) :=
  if 0 ∈ field then .ok (field.takeWhile (· ≠ 0)) else .error .read

/-- `header_version`, and then the strings. -/
def genPage (alloc : Alloc) (strs : List (List UInt8)) (sess : Request) (data : Option HSDATA) :
    Except Fault (Int × Option HSDATA) := do
  let version ← fieldString sess.headerVersion
  storeStrings alloc (version :: strs) data

/-! ## Pages -/

/-- `version` -/
def serverLine (sdfVersion : List UInt8) : List UInt8 := ascii "Server: Damocles/" ++ sdfVersion

/-- A status line with a header for JSON. -/
def genJsonHeader (status : String) (sdfVersion : List UInt8) (alloc : Alloc) :=
  genPage alloc [ascii status, serverLine sdfVersion, ascii "\r\n",
    ascii "Content-Type: application/json\r\n", ascii "Connection: close\r\n"]

def httpGenSuccessHeader := genJsonHeader " 200 OK\r\n"

def httpGenCreatedHeader := genJsonHeader " 201 Created\r\n"

def httpGenForbiddenPage (alloc : Alloc) := genPage alloc [ascii " 403 Forbidden\r\n\r\n"]

def httpGenInternalErrorPage (alloc : Alloc) :=
  genPage alloc [ascii " 500 Internal Server Error\r\n\r\n"]

def httpGenNotImplementedPage (alloc : Alloc) :=
  genPage alloc [ascii " 501 Method Not Implemented\r\n\r\n"]

def httpGenBusyPage (alloc : Alloc) := genPage alloc [ascii " 503 Service Unavailable\r\n\r\n"]

def httpGenGatewayTimeoutPage (alloc : Alloc) :=
  genPage alloc [ascii " 504 Gateway Timeout\r\n\r\n"]

/-- The cases of http_status_to_string. -/
def statusTexts : List (Int × String) :=
  [(100, "100 Continue"), (101, "101 Switching Protocols"), (300, "300 Multiple Choices"),
    (301, "301 Moved Permanently"), (302, "302 Found"), (303, "303 See Other"),
    (304, "304 Not Modified"), (305, "305 Use Proxy"), (306, "306 Unused"),
    (307, "307 Temporary Redirect"), (400, "400 Bad Request"), (401, "401 Unauthorized"),
    (402, "402 Payment Required"), (403, "403 Forbidden"), (404, "404 Not Found"),
    (405, "405 Method Not Allowed"), (406, "406 Not Acceptable"),
    (407, "407 Proxy Authentication Required"), (408, "408 Request Timeout"),
    (409, "409 Conflict"), (410, "410 Gone"), (411, "411 Length Required"),
    (412, "412 Precondition Failed"), (413, "413 Request Entity Too Large"),
    (414, "414 Request-url Too Long"), (415, "415 Unsupported Media Type"),
    (417, "417 Expectation Failed"), (500, "500 Internal Server Error"),
    (501, "501 Not Implemented"), (502, "502 Bad Gateway"), (503, "503 Service Unavailable"),
    (504, "504 Gateway Timeout"), (505, "505 HTTP Version Not Supported")]

def httpStatusToString (status : Int) : List UInt8 :=
  ascii ((statusTexts.lookup status).getD s!"{status}")

/-- `buff` of http_gen_error_page, an array of 1028 bytes. -/
def errorLine (status : Int) (desc : Option (List UInt8)) : Except Fault (List UInt8) :=
  let buff := match desc with
    | none => httpStatusToString status
    | some desc => ascii s!"{status} " ++ desc
  if buff.length < 1028 then .ok buff else .error .overrun

/-- http_gen_error_page.  Nothing is sent of the length that it prints. -/
def httpGenErrorPage (sdfVersion : List UInt8) (status : Int) (desc : Option (List UInt8))
    (alloc : Alloc) (sess : Request) (data : Option HSDATA) :
    Except Fault (Int × Option HSDATA) := do
  let buff ← errorLine status desc
  genPage alloc [ascii " ", buff, ascii "\r\n", serverLine sdfVersion, ascii "\r\n",
    ascii "Content-Type: text/plain; charset=utf-8\r\n", ascii "Connection: close\r\n"] sess data

/-- One of the functions, with what it is given besides the session. -/
inductive Page where
  | successHeader
  | createdHeader
  | forbidden
  | internalError
  | notImplemented
  | busy
  | gatewayTimeout
  | error (status : Int) (desc : Option (List UInt8))

def Page.gen (sdfVersion : List UInt8) (alloc : Alloc) (sess : Request) (data : Option HSDATA) :
    Page → Except Fault (Int × Option HSDATA)
  | .successHeader => httpGenSuccessHeader sdfVersion alloc sess data
  | .createdHeader => httpGenCreatedHeader sdfVersion alloc sess data
  | .forbidden => httpGenForbiddenPage alloc sess data
  | .internalError => httpGenInternalErrorPage alloc sess data
  | .notImplemented => httpGenNotImplementedPage alloc sess data
  | .busy => httpGenBusyPage alloc sess data
  | .gatewayTimeout => httpGenGatewayTimeoutPage alloc sess data
  | .error status desc => httpGenErrorPage sdfVersion status desc alloc sess data

/-- The bytes of a page that is begun in a new buffer, and what the function returns. -/
def Page.bytes (sdfVersion : List UInt8) (alloc : Alloc) (sess : Request) (page : Page) :
    Except Fault (Int × Option (List UInt8)) := do
  let (r, data) ← page.gen sdfVersion alloc sess none
  pure (r, data.map fun d => d.data.slice 0 d.len.toNat)

/-! ## New memory -/

/-- Two buffers of the same shape. -/
structure SameShape (d d' : HSDATA) : Prop where
  size : d'.size = d.size
  len : d'.len = d.len
  block : d'.data.size = d.data.size

/-- And with the same bytes in them. -/
structure SameBytes (d d' : HSDATA) : Prop extends SameShape d d' where
  inside : d.len ≤ d.data.size
  bytes : ∀ k : Nat, (k : Int) < d.len → d'.data.byte k = d.data.byte k

section

variable {d d' : HSDATA} {alloc alloc' : Alloc}

theorem write_shape {b b' : Block} (hsize : b'.size = b.size) (i : Int) (xs : List UInt8) :
    Both (fun x y : Block => y.size = x.size) (b.write i xs) (b'.write i xs) := by
  unfold Block.write
  rw [hsize]
  split
  · exact .ok rfl
  · exact .error _

/-- Two blocks are cleared alike, and keep what is not cleared. -/
structure Cleared (b b' : Block) (i n : Int) (x y : Block) : Prop where
  size : y.size = x.size
  room : 0 ≤ i ∧ 0 ≤ n ∧ i + n ≤ x.size
  bytes : ∀ k : Nat, y.byte k = x.byte k ∨
    (k < i ∨ i + n ≤ k) ∧ x.byte k = b.byte k ∧ y.byte k = b'.byte k

theorem clear_both {b b' : Block} (hsize : b'.size = b.size) (i n : Int) :
    Both (Cleared b b' i n) (b.clear i n) (b'.clear i n) := by
  unfold Block.clear
  rw [hsize]
  split
  · rename_i hroom
    refine .ok ⟨rfl, hroom, fun k => ?_⟩
    simp only
    split
    · exact .inl rfl
    · exact .inr ⟨by omega, rfl, rfl⟩
  · exact .error _

/-- Whether there is memory decides about the shape of a buffer, and nothing else does. -/
theorem httpAllocBuffer_shape (h : SameShape d d') (halloc : alloc'.isSome = alloc.isSome) (want : Int) :
    Both (Option.Rel SameShape) (httpAllocBuffer alloc (some d) want)
      (httpAllocBuffer alloc' (some d') want) := by
  simp only [httpAllocBuffer, h.len, h.size]
  split
  · split
    · exact .ok .none
    · cases alloc with
      | none =>
        cases alloc' with
        | none => exact .ok .none
        | some g' => cases halloc
      | some g =>
        cases alloc' with
        | none => cases halloc
        | some g' =>
          refine (clear_both ?_ _ _).bind fun x y hxy => .ok (Option.Rel.some ⟨rfl, rfl, hxy.size⟩)
          rfl
  · exact .ok (.some h)

/-- A buffer that grows keeps its bytes. -/
theorem httpAllocBuffer_bytes (h : SameBytes d d') (garbage garbage' : Nat → UInt8) (want : Int) :
    Both (Option.Rel SameBytes) (httpAllocBuffer (some garbage) (some d) want)
      (httpAllocBuffer (some garbage') (some d') want) := by
  simp only [httpAllocBuffer, h.len, h.size]
  split
  · generalize adjustSize (int32 (want + d.len)) httpDataBuffer = new
    split
    · exact .ok .none
    · have hin := h.inside
      refine (clear_both ?_ d.len (new - d.len)).bind fun x y hxy => .ok (Option.Rel.some ?_)
      · rfl
      · obtain ⟨hlow, hmore, hroom⟩ := hxy.room
        refine ⟨⟨rfl, rfl, hxy.size⟩, by simp only; omega, fun k hk => ?_⟩
        rcases hxy.bytes k with heq | ⟨-, hx, hy⟩
        · exact heq
        · simp only at hk ⊢
          rw [hx, hy]
          simp only [Block.realloc]
          rw [if_pos (by rw [h.block]; omega), if_pos (by omega)]
          exact h.bytes k hk
  · exact .ok (.some h)

/-- The first piece of a new buffer is zeroed. -/
theorem httpAllocBuffer_new (garbage garbage' : Nat → UInt8) (want : Int) :
    Both (Option.Rel SameBytes) (httpAllocBuffer (some garbage) none want)
      (httpAllocBuffer (some garbage') none want) := by
  simp only [httpAllocBuffer]
  split
  · exact .ok .none
  · exact .ok (.some ⟨⟨rfl, rfl, rfl⟩, Int.natCast_nonneg _, fun _ _ => rfl⟩)

theorem int32_le {x : Int} (h : 0 ≤ x) : int32 x ≤ x := by
  unfold int32
  rw [Int.bmod_def]
  split <;> omega

/-- What a string is stored behind stays the same, and the string is the same. -/
theorem storeString_bytes {data data' : Option HSDATA} (h : Option.Rel SameBytes data data')
    (garbage garbage' : Nat → UInt8) (str : List UInt8) :
    Both (fun x y => y.1 = x.1 ∧ Option.Rel SameBytes x.2 y.2)
      (storeString (some garbage) str data) (storeString (some garbage') str data') := by
  have halloc : Both (Option.Rel SameBytes) (httpAllocBuffer (some garbage) data str.length)
      (httpAllocBuffer (some garbage') data' str.length) := by
    cases h with
    | none => exact httpAllocBuffer_new garbage garbage' _
    | some hd => exact httpAllocBuffer_bytes hd garbage garbage' _
  refine halloc.bind fun grown grown' hgrown => ?_
  cases hgrown with
  | none => exact .ok ⟨rfl, h⟩
  | @some d d' hd =>
    simp only [hd.len, hd.size, Block.write, hd.block]
    split
    · rename_i hin
      have hle := int32_le (show 0 ≤ d.len + str.length by omega)
      refine .ok ⟨rfl, .some ⟨⟨rfl, rfl, rfl⟩, by simp only; omega, fun k hk => ?_⟩⟩
      simp only at hk ⊢
      split
      · rfl
      · exact hd.bytes k (by omega)
    · exact .error _

theorem storeStrings_bytes {data data' : Option HSDATA} (h : Option.Rel SameBytes data data')
    (garbage garbage' : Nat → UInt8) (strs : List (List UInt8)) :
    Both (fun x y => y.1 = x.1 ∧ Option.Rel SameBytes x.2 y.2)
      (storeStrings (some garbage) strs data) (storeStrings (some garbage') strs data') := by
  induction strs generalizing data data' with
  | nil => exact .ok ⟨rfl, h⟩
  | cons str strs ih =>
    refine (storeString_bytes h garbage garbage' str).bind fun x y hxy => ?_
    obtain ⟨r, data⟩ := x
    obtain ⟨r', data'⟩ := y
    obtain ⟨rfl, hdata⟩ := hxy
    simp only
    split
    · exact .ok ⟨rfl, hdata⟩
    · exact ih hdata

end

/-- The bytes of a page depend on `header_version`, and not on what new memory holds. -/
theorem Page.bytes_eq {sess sess' : Request} (h : sess'.headerVersion = sess.headerVersion)
    (sdfVersion : List UInt8) (garbage garbage' : Nat → UInt8) (page : Page) :
    page.bytes sdfVersion (some garbage') sess' = page.bytes sdfVersion (some garbage) sess := by
  have hpage : ∀ strs : List (List UInt8), Both
      (fun x y : Int × Option HSDATA => y.1 = x.1 ∧ Option.Rel SameBytes x.2 y.2)
      (genPage (some garbage) strs sess none) (genPage (some garbage') strs sess' none) := by
    intro strs
    unfold genPage
    rw [h]
    refine (Both.of_eq rfl).bind fun version version' hv => ?_
    subst hv
    exact storeStrings_bytes .none garbage garbage' _
  have hgen : Both (fun x y : Int × Option HSDATA => y.1 = x.1 ∧ Option.Rel SameBytes x.2 y.2)
      (page.gen sdfVersion (some garbage) sess none)
      (page.gen sdfVersion (some garbage') sess' none) := by
    cases page with
    | error status desc =>
      refine (Both.of_eq rfl).bind fun buff buff' hbuff => ?_
      subst hbuff
      exact hpage _
    | _ => exact hpage _
  unfold Page.bytes
  generalize page.gen sdfVersion (some garbage) sess none = x at hgen
  generalize page.gen sdfVersion (some garbage') sess' none = y at hgen
  cases hgen with
  | error f => rfl
  | @ok a b hab =>
    obtain ⟨r, data⟩ := a
    obtain ⟨r', data'⟩ := b
    obtain ⟨rfl, hdata⟩ := hab
    simp only at hdata
    cases hdata with
    | none => rfl
    | @some d d' hd =>
      simp only [ok_bind, Option.map_some, hd.len]
      congr 3
      exact Block.slice_congr fun k hk => hd.bytes (0 + k) (by omega)

end CassandraApi.Http
