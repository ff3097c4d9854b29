/-
# `Ldap.DecodeResponse` — a client connection, and ldap_decode_response

`LdapClnt` is an LDAP_CLNT without its links, which live in the heap of
`Linkedlist`.

`ldapDecodeResponse` reads the frame at `r_ber_body`.  Its indices are those of
the read buffer, so `i` there is `r_ber_body + i` of the source.  It answers

    waitMoreData     a search entry, appended to rber unless it answers the
                     keepalive
    keepalive        the end of a keepalive: its id is `ktid`
    dataAvailable    anything else, malformed frames included
-/
import CassandraApi.Ldap.Encode
import CassandraApi.Ldap.Frame

namespace CassandraApi.Ldap

open C Ber

/-! ## A connection -/

/-- `LDAP_CLNT_STATE` -/
inductive ClntState where
  | stateOpen
  | stateConnecting
  | stateReady
  | stateWaiting
  deriving DecidableEq, Repr

structure Timeval where
  sec : Int := 0
  usec : Int := 0
  deriving DecidableEq

def ldapMaxBaseDn : Nat := 512
def ldapMaxDiagMessage : Nat := 1024
def ldapMaxOidSize : Nat := 1024

/-- A char array of the connection, zeroed when it is opened. -/
def zeroed (size : Nat) : Block := ⟨size, fun _ => 0⟩

/-- LDAP_CLNT.  `wBuffer` are the first `w_len` bytes of `w_buffer`. -/
structure LdapClnt where
  no : Int
  state : ClntState := .stateOpen
  wBuffer : Option (List UInt8) := some []
  wSize : Nat := 0
  wCurr : Nat := 0
  rb : ReadBuffer := {}
  createTime : Int := 0
  readTime : Int := 0
  writeTime : Int := 0
  keepaliveTime : Int := 0
  timestampWrite : Timeval := {}
  concurrentCount : Int := 0
  tid : UInt32 := 0
  ktid : UInt32 := 0
  rber : Option BER := none
  resultCode : Int := 0
  matchedDN : Block := zeroed ldapMaxBaseDn
  diagnosticMessage : Block := zeroed ldapMaxDiagMessage

/-! ## The pieces of a response -/

/-- `lc->tid += (unsigned char) ber[j] << (8 * len)`, `len` counting down. -/
def decodeTid (buf : Block) : Nat → Int → UInt32 → Except Fault UInt32
  | 0, _, tid => .ok tid
  | len + 1, j, tid => do
      let c ← buf.rd j
      decodeTid buf len (j + 1) (tid + UInt32.ofNat (c.toNat * 256 ^ len))

/-- The loop over the octets of a message id adds their value. -/
theorem decodeTid_eq {buf : Block} : ∀ {os : List UInt8} {i : Nat} (tid : UInt32),
    Holds buf i os → decodeTid buf os.length i tid = .ok (tid + UInt32.ofNat (beVal os))
  | [], _, tid, _ => by simp [decodeTid, beVal]
  | o :: os, i, tid, h => by
    have hr : buf.rd (i : Int) = .ok o := h.rd
    have ih := decodeTid_eq (tid + UInt32.ofNat (o.toNat * 256 ^ os.length)) h.tail
    rw [List.length_cons, decodeTid, hr, ok_bind]
    push_cast at ih
    rw [ih, beVal, UInt32.ofNat_add, UInt32.add_assoc]

/-- The message id, the tag of the operation and its index (`optIndex`), when the frame starts
with a sequence and an integer. -/
def responseHeader (buf : Block) (start : Int) : Except Fault (Option (UInt32 × UInt8 × Int)) := do
  if (← buf.rd start) ≠ 0x30 then pure none
  else do
    let (_, i) ← findLength buf (start + 1)
    if (← buf.rd i) ≠ 0x02 then pure none
    else do
      let len := schar (← buf.rd (i + 1))
      let tid ← decodeTid buf len.toNat (i + 2) 0
      let optIndex := i + 2 + len
      let op ← buf.rd optIndex
      pure (some (tid, op, optIndex))

/-- `memcpy(a, &ber[i], len); a[len] = 0` into a local array nobody reads. -/
def copyLocal (size : Nat) (buf : Block) (i len : Int) : Except Fault Unit := do
  let _ ← buf.load i len
  if len < size then pure () else throw .overrun

/-- The operation's bytes go behind those already in rber. -/
def LdapClnt.keepBytes (alloc : Bool) (buf : Block) (optIndex len : Int) (lc : LdapClnt) :
    Except Fault LdapClnt := do
  let bytes ← buf.load optIndex len
  match berAllocBuffer alloc lc.rber bytes.length with
  | none => throw .null
  | some b => do
      let b ← b.append bytes
      pure { lc with rber := some b }

/-- `if (len > 0) memcpy(field, &ber[i], len)` -/
def copyField (field buf : Block) (i len : Int) : Except Fault Block :=
  if 0 < len then do
    let bytes ← buf.load i len
    field.write 0 bytes
  else pure field

/-- An LDAPResult from its length octets on. -/
def ldapResult (buf : Block) (i : Int) (lc : LdapClnt) : Except Fault LdapClnt := do
  let (_, i) ← findLength buf i
  if (← buf.rd i) ≠ 0x0a then pure lc
  else do
    let lc := { lc with resultCode := schar (← buf.rd (i + 2)) }
    if (← buf.rd (i + 3)) ≠ 0x04 then pure lc
    else do
      let (len, i) ← findLength buf (i + 4)
      let dn ← copyField lc.matchedDN buf i len
      let dn ← dn.write len [0]
      let lc := { lc with matchedDN := dn }
      let i := if 0 < len then i + len else i
      if (← buf.rd i) ≠ 0x04 then pure lc
      else do
        let (len, i) ← findLength buf (i + 1)
        -- no terminator is written
        let msg ← copyField lc.diagnosticMessage buf i len
        pure { lc with diagnosticMessage := msg }

/-- The response value of an extended response, from its tag 0x8b on; nothing of it is kept. -/
def extendedValue (buf : Block) (i : Int) : Except Fault Unit := do
  let (_, i) ← findLength buf i
  if (← buf.rd i) = 0x30 then
    let _ ← findLength buf (i + 1)
  else if (← buf.rd i) = 0xe1 then
    let (_, i) ← findLength buf (i + 1)
    let i ← if (← buf.rd i) = 0x80 then Prod.snd <$> findLength buf (i + 1) else pure i
    let i ← if (← buf.rd i) = 0x81 then do
        let (len, i) ← findLength buf (i + 1)
        copyLocal ldapMaxOidSize buf i len
        pure (i + len)
      else pure i
    if (← buf.rd i) = 0x83 then
      let (_, i) ← findLength buf (i + 1)
      if (← buf.rd i) = 0x30 then
        let _ ← findLength buf (i + 1)

/-- What follows the matched DN of an extended response: an error text, an OID and a value. -/
def extendedOptions (buf : Block) (i : Int) : Except Fault Unit := do
  let (len, i) ← findLength buf i
  -- `err_msg[len] = 0` is written even when nothing is copied
  if len < 0 then throw .overrun
  copyLocal 1024 buf i len
  let i := i + len
  if (← buf.rd i) = 0x8a then
    let (len, i) ← findLength buf (i + 1)
    copyLocal ldapMaxOidSize buf i len
    let i := i + len
    if (← buf.rd i) = 0x8b then
      extendedValue buf (i + 1)

/-- An extended response from behind its length octets on. -/
def extendedResponse (buf : Block) (i : Int) (lc : LdapClnt) : Except Fault LdapClnt := do
  if (← buf.rd i) ≠ 0x0a then pure lc
  else do
    let lc := { lc with resultCode := schar (← buf.rd (i + 2)) }
    if (← buf.rd (i + 5)) = 0x04 then
      extendedOptions buf (i + 6)
    pure lc

/-! ## ldap_decode_response -/

/-- The operation at `optIndex`. -/
def decodeOperation (alloc : Bool) (buf : Block) (op : UInt8) (optIndex left : Int)
    (lc : LdapClnt) : Except Fault (RetCode × LdapClnt) := do
  let keepalive := lc.ktid ≠ 0 ∧ lc.ktid = lc.tid
  match op with
  | 0x78 => -- extended
      if keepalive then pure (.keepalive, { lc with ktid := 0 })
      else do
        let (_, i) ← findLength buf (optIndex + 1)
        let lc ← lc.keepBytes alloc buf optIndex left
        let lc ← extendedResponse buf i lc
        pure (.dataAvailable, lc)
  | 0x64 => -- search entry
      if keepalive then pure (.waitMoreData, lc)
      else do
        let _ ← findLength buf (optIndex + 1)
        let lc ← lc.keepBytes alloc buf optIndex left
        pure (.waitMoreData, lc)
  | 0x65 => -- search done
      if keepalive then pure (.keepalive, { lc with ktid := 0 })
      else do
        let lc ← ldapResult buf (optIndex + 1) lc
        pure (.dataAvailable, lc)
  | 0x67 | 0x69 | 0x6b | 0x6d => do -- modify, add, delete and modifydn result
      let lc ← ldapResult buf (optIndex + 1) lc
      pure (.dataAvailable, lc)
  | _ => pure (.dataAvailable, lc)

/-- A response as it was received: its tag, its message id and its bytes from the tag on. -/
structure Answer where
  op : UInt8
  tid : UInt32
  bytes : List UInt8
  deriving DecidableEq

/-- `none` stands for a frame without a message id. -/
abbrev Response := Option Answer

/-- ldap_decode_response with decode_flag 0, and which response it was. -/
def ldapDecodeResponse (alloc : Bool) (lc : LdapClnt) (rb : ReadBuffer) :
    Except Fault (RetCode × Response × LdapClnt) :=
  match rb.rBuffer with
  | none => .error .null
  | some buf => do
      match ← responseHeader buf rb.rBerBody with
      | none => pure (.dataAvailable, none, lc)
      | some (tid, op, optIndex) => do
          let left := rb.rBerBodyLength - (optIndex - rb.rBerBody)
          let (ret, lc) ← decodeOperation alloc buf op optIndex left { lc with tid := tid }
          pure (ret, some ⟨op, tid, buf.slice optIndex.toNat left.toNat⟩, lc)

/-- The texts of error_to_string. -/
def resultTexts : List (Int × String) :=
  [(1, "Operation Error"), (2, "Protocol Error"), (3, "Time Limit Exceeded"),
    (4, "Size Limit Exceeded"), (5, "Compare False"), (6, "Compare True"),
    (7, "Authentication Method Not Supported"), (8, "Strong Authentication Required"),
    (9, "Partial Results"), (10, "Referral"), (11, "Admin Limit Exceeded"),
    (12, "Unavailable Critical Extension"), (13, "Confidentaility Required"),
    (14, "SASL Bind in Progress"), (16, "No Such Attribute"), (17, "Undefined Attribute Type"),
    (18, "Inappropriate Matching"), (19, "Constaint Violation"),
    (20, "Attribute or Value Exists"), (21, "Invalid Attribute Syntax"), (32, "No Such Object"),
    (33, "Alias Problem"), (34, "Invalid DN Syntax"), (35, "Is Leaf"),
    (36, "Alias Dereferencing Problem"), (48, "Inappropriate Authentication"),
    (49, "Invalid Credentials"), (50, "Insufficient Access Rights"), (51, "Busy"),
    (52, "Unavailable"), (53, "Unwilling to Perform"), (54, "Loop Defect"),
    (64, "Naming Violation"), (65, "Object Class Violation"), (66, "Not Allowed on Nonleaf"),
    (67, "Not Allowed on RDN"), (68, "Entry Already Exists"),
    (69, "Object Class Mods Prohibited"), (71, "Affects Multiple DSAs"), (80, "Other"),
    (81, "Server Down"), (85, "LDAP Timeout"), (89, "Param Error"), (91, "Connect Error"),
    (92, "LDAP Not Supported"), (93, "Control Not Found"), (94, "No Results Returned"),
    (95, "More Results to Return"), (96, "Client Loop"), (97, "Referral Limit Exceeded")]
def errorToString (result : Int) : String :=
  (resultTexts.lookup result).getD s!"UNKNOWN_LDAPERROR({result})"

/-- What LDAP_clnt_decode does with one frame. -/
def decodeFrame (alloc : Bool) (lc : LdapClnt) (rb : ReadBuffer) :
    Except Fault (RetCode × Response × LdapClnt) := do
  let dn ← lc.matchedDN.write 0 [0]
  let msg ← lc.diagnosticMessage.write 0 [0]
  let lc := { lc with resultCode := -1, matchedDN := dn, diagnosticMessage := msg }
  let (ret, resp, lc) ← ldapDecodeResponse alloc lc rb
  if lc.resultCode ≠ 0 ∧ (← lc.diagnosticMessage.rd 0) = 0 then do
    let msg ← lc.diagnosticMessage.write 0 (ascii (errorToString lc.resultCode) ++ [0])
    pure (ret, resp, { lc with diagnosticMessage := msg })
  else pure (ret, resp, lc)

/-! ## What a response changes -/

namespace Response

/-- The response carries the id of the keepalive. -/
def Own (resp : Response) (ktid : UInt32) : Prop := ktid ≠ 0 ∧ resp.map Answer.tid = some ktid

instance (resp : Response) (ktid : UInt32) : Decidable (resp.Own ktid) :=
  inferInstanceAs (Decidable (_ ∧ _))

/-- How a response is classified. -/
def ret (resp : Response) (ktid : UInt32) : RetCode :=
  match resp with
  | none => .dataAvailable
  | some a =>
      if a.op = 0x64 then .waitMoreData
      else if (a.op = 0x78 ∨ a.op = 0x65) ∧ resp.Own ktid then .keepalive
      else .dataAvailable

/-- What a response appends to rber. -/
def kept (resp : Response) (ktid : UInt32) : List UInt8 :=
  match resp with
  | none => []
  | some a => if (a.op = 0x64 ∨ a.op = 0x78) ∧ ¬ resp.Own ktid then a.bytes else []

end Response

theorem load_eq {buf : Block} {i n : Int} {bytes : List UInt8} (h : buf.load i n = .ok bytes) :
    bytes = buf.slice i.toNat n.toNat := by
  unfold Block.load at h
  split at h
  · cases h
  · split at h
    · exact (Except.ok.inj h).symm
    · cases h

/-- The fields of a connection that an LDAPResult sets. -/
structure SameButResult (lc lc' : LdapClnt) : Prop where
  eq : lc' = { lc with
    resultCode := lc'.resultCode, matchedDN := lc'.matchedDN,
    diagnosticMessage := lc'.diagnosticMessage }

theorem SameButResult.refl (lc : LdapClnt) : SameButResult lc lc := ⟨rfl⟩

theorem SameButResult.trans {lc lc' lc'' : LdapClnt} (h : SameButResult lc lc')
    (h' : SameButResult lc' lc'') : SameButResult lc lc'' := by
  constructor
  have e := h'.eq
  rw [h.eq] at e
  exact e

theorem ldapResult_same {buf : Block} {i : Int} {lc lc' : LdapClnt}
    (h : ldapResult buf i lc = .ok lc') : SameButResult lc lc' := by
  simp only [ldapResult, bind_eq_ok] at h
  obtain ⟨_, -, c, -, h⟩ := h
  split at h
  · cases h
    exact .refl lc
  · simp only [bind_eq_ok] at h
    obtain ⟨_, -, _, -, h⟩ := h
    split at h
    · cases h
      exact ⟨rfl⟩
    · simp only [bind_eq_ok] at h
      obtain ⟨_, -, _, -, _, -, _, -, h⟩ := h
      split at h
      · cases h
        exact ⟨rfl⟩
      · simp only [bind_eq_ok] at h
        obtain ⟨_, -, _, -, h⟩ := h
        cases h
        exact ⟨rfl⟩

theorem extendedResponse_same {buf : Block} {i : Int} {lc lc' : LdapClnt}
    (h : extendedResponse buf i lc = .ok lc') : SameButResult lc lc' := by
  simp only [extendedResponse, bind_eq_ok] at h
  obtain ⟨c, -, h⟩ := h
  split at h
  · cases h
    exact .refl lc
  · simp only [bind_eq_ok] at h
    obtain ⟨_, -, _, -, h⟩ := h
    split at h
    · simp only [bind_eq_ok] at h
      obtain ⟨_, -, h⟩ := h
      cases h
      exact ⟨rfl⟩
    · cases h
      exact ⟨rfl⟩

theorem keepBytes_eq {alloc : Bool} {buf : Block} {i n : Int} {lc lc' : LdapClnt}
    (h : lc.keepBytes alloc buf i n = .ok lc') :
    ∃ b, lc' = { lc with rber := some b } ∧
      b.berval = BER.bytes lc.rber ++ buf.slice i.toNat n.toNat := by
  simp only [LdapClnt.keepBytes, bind_eq_ok] at h
  obtain ⟨bytes, hb, h⟩ := h
  split at h
  · cases h
  · rename_i b hal
    simp only [bind_eq_ok] at h
    obtain ⟨b', hb', h⟩ := h
    cases h
    refine ⟨b', rfl, ?_⟩
    rw [BER.append_ok hb', berAllocBuffer_bytes hal, load_eq hb]

/-- What the decoder changes of a connection on a response: the id fields, rber, and the fields
of the result. -/
structure Responded (resp : Response) (lc lc' : LdapClnt) : Prop where
  eq : lc' = { lc with
    tid := lc'.tid, ktid := lc'.ktid, rber := lc'.rber, resultCode := lc'.resultCode,
    matchedDN := lc'.matchedDN, diagnosticMessage := lc'.diagnosticMessage }
  ktid : lc'.ktid = if resp.ret lc.ktid = .keepalive then 0 else lc.ktid
  rber : BER.bytes lc'.rber = BER.bytes lc.rber ++ resp.kept lc.ktid

theorem SameButResult.rber {lc lc' : LdapClnt} (h : SameButResult lc lc') : lc'.rber = lc.rber := by
  rw [h.eq]

theorem SameButResult.ktid {lc lc' : LdapClnt} (h : SameButResult lc lc') : lc'.ktid = lc.ktid := by
  rw [h.eq]

/-- A response that only sets the fields of the result. -/
theorem SameButResult.responded {resp : Response} {lc lc' : LdapClnt} (h : SameButResult lc lc')
    (hret : resp.ret lc.ktid ≠ .keepalive) (hkept : resp.kept lc.ktid = []) :
    Responded resp lc lc' where
  eq := by
    rw [h.eq]
  ktid := by rw [if_neg hret, h.ktid]
  rber := by rw [hkept, List.append_nil, h.rber]

theorem decodeOperation_spec {alloc : Bool} {buf : Block} {op : UInt8} {optIndex left : Int}
    {lc lc' : LdapClnt} {ret : RetCode} {resp : Response}
    (hresp : resp = some ⟨op, lc.tid, buf.slice optIndex.toNat left.toNat⟩)
    (h : decodeOperation alloc buf op optIndex left lc = .ok (ret, lc')) :
    ret = resp.ret lc.ktid ∧ Responded resp lc lc' := by
  have hown : (lc.ktid ≠ 0 ∧ lc.ktid = lc.tid) ↔ resp.Own lc.ktid := by
    rw [hresp, Response.Own, Option.map_some, Option.some_inj, eq_comm (a := lc.ktid)]
  unfold decodeOperation at h
  simp only [hown] at h
  split at h
  · -- extended
    have hret : resp.ret lc.ktid = if resp.Own lc.ktid then .keepalive else .dataAvailable := by
      rw [hresp]
      simp [Response.ret]
    split at h
    · rename_i own
      cases h
      rw [if_pos own] at hret
      refine ⟨hret.symm, ⟨rfl, by rw [if_pos hret], ?_⟩⟩
      simp [Response.kept, hresp ▸ own, hresp]
    · rename_i own
      rw [if_neg own] at hret
      simp only [bind_eq_ok] at h
      obtain ⟨_, -, lc1, h1, lc2, h2, h⟩ := h
      cases h
      obtain ⟨b, rfl, hb⟩ := keepBytes_eq h1
      have same := extendedResponse_same h2
      refine ⟨hret.symm, ⟨?_, ?_, ?_⟩⟩
      · rw [same.eq]
      · rw [if_neg (by rw [hret]; simp), same.ktid]
      · have hk : resp.kept lc.ktid = buf.slice optIndex.toNat left.toNat := by
          rw [hresp] at own ⊢
          simp [Response.kept, own]
        rw [hk, same.rber, ← hb]
        rfl
  · -- search entry
    have hret : resp.ret lc.ktid = .waitMoreData := by
      rw [hresp]
      simp [Response.ret]
    split at h
    · rename_i own
      cases h
      refine ⟨hret.symm, ⟨rfl, by rw [if_neg (by rw [hret]; simp)], ?_⟩⟩
      simp [Response.kept, hresp ▸ own, hresp]
    · rename_i own
      simp only [bind_eq_ok] at h
      obtain ⟨_, -, lc1, h1, h⟩ := h
      cases h
      obtain ⟨b, rfl, hb⟩ := keepBytes_eq h1
      refine ⟨hret.symm, ⟨rfl, by rw [if_neg (by rw [hret]; simp)], ?_⟩⟩
      have hk : resp.kept lc.ktid = buf.slice optIndex.toNat left.toNat := by
        rw [hresp] at own ⊢
        simp [Response.kept, own]
      rw [hk, ← hb]
      rfl
  · -- search done
    have hret : resp.ret lc.ktid = if resp.Own lc.ktid then .keepalive else .dataAvailable := by
      rw [hresp]
      simp [Response.ret]
    have hk : resp.kept lc.ktid = [] := by
      rw [hresp]
      simp [Response.kept]
    split at h
    · rename_i own
      cases h
      rw [if_pos own] at hret
      exact ⟨hret.symm, ⟨rfl, by rw [if_pos hret], by rw [hk, List.append_nil]⟩⟩
    · rename_i own
      rw [if_neg own] at hret
      simp only [bind_eq_ok] at h
      obtain ⟨lc1, h1, h⟩ := h
      cases h
      exact ⟨hret.symm, (ldapResult_same h1).responded (by rw [hret]; simp) hk⟩
  all_goals
    -- the other results, and whatever else comes in
    have hret : resp.ret lc.ktid = .dataAvailable := by
      rw [hresp]
      simp_all [Response.ret]
    have hk : resp.kept lc.ktid = [] := by
      rw [hresp]
      simp_all [Response.kept]
    first
    | simp only [bind_eq_ok] at h
      obtain ⟨lc1, h1, h⟩ := h
      cases h
      exact ⟨hret.symm, (ldapResult_same h1).responded (by rw [hret]; simp) hk⟩
    | cases h
      exact ⟨hret.symm, (SameButResult.refl lc).responded (by rw [hret]; simp) hk⟩

/-- The same for a frame with everything LDAP_clnt_decode does to it. -/
theorem decodeFrame_spec {alloc : Bool} {lc lc' : LdapClnt} {rb : ReadBuffer} {ret : RetCode}
    {resp : Response} (h : decodeFrame alloc lc rb = .ok (ret, resp, lc')) :
    ret = resp.ret lc.ktid ∧ Responded resp lc lc' := by
  simp only [decodeFrame, bind_eq_ok] at h
  obtain ⟨dn, -, msg, -, ⟨ret1, resp1, lc1⟩, h1, c, -, h⟩ := h
  have hend : ret = ret1 ∧ resp = resp1 ∧ SameButResult lc1 lc' := by
    split at h
    · simp only [bind_eq_ok] at h
      obtain ⟨_, -, h⟩ := h
      cases h
      exact ⟨rfl, rfl, ⟨rfl⟩⟩
    · cases h
      exact ⟨rfl, rfl, .refl _⟩
  obtain ⟨rfl, rfl, same⟩ := hend
  suffices hs : ret = resp.ret lc.ktid ∧ Responded resp lc lc1 by
    refine ⟨hs.1, ⟨?_, by rw [same.ktid, hs.2.ktid], by rw [same.rber, hs.2.rber]⟩⟩
    rw [same.eq, hs.2.eq]
  unfold ldapDecodeResponse at h1
  split at h1
  · cases h1
  · simp only [bind_eq_ok] at h1
    obtain ⟨header, -, h1⟩ := h1
    split at h1
    · cases h1
      refine ⟨rfl, ⟨rfl, rfl, ?_⟩⟩
      simp [Response.kept]
    · simp only [bind_eq_ok] at h1
      obtain ⟨⟨ret2, lc2⟩, h2, h1⟩ := h1
      cases h1
      obtain ⟨hret, hr⟩ := decodeOperation_spec rfl h2
      refine ⟨hret, ⟨?_, hr.ktid, hr.rber⟩⟩
      rw [hr.eq]

end CassandraApi.Ldap
