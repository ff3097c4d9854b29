/-
# `Ldap.Responses` — one response after another

What LDAP_clnt_decode leaves in a connection of each response that the generators
of `Ldap.Respond` build:

    tid                 the message id
    result_code         the result, as a `char`: a negative number from 128 on
    matchedDN           the matched DN of a plain response; empty after an
                        extended one
    diagnosticMessage   the error message of a plain response, over whatever an
                        earlier response has left there; a text of error_to_string
                        when that is empty, and after an extended response

An error message has no terminator of its own.  So it is read back whole only as
long as no earlier one was longer (`responses_come_through`).
-/
import CassandraApi.Ldap.Respond
import CassandraApi.Ldap.Framing
import CassandraApi.Ldap.Client
import CassandraApi.Lib.Machine

namespace CassandraApi.Ldap

open C Ber Lib

/-! ## Responses -/

/-- Which generator has built a response. -/
inductive Form where
  | searchDone
  | modifyResponse
  | addResponse
  | deleteResponse
  | moddnResponse
  | extendedResponse (oid : Option (List UInt8)) (extAttr : List UInt8)

/-- What a generator is asked to send. -/
structure Report where
  form : Form
  tid : Int
  result : Int
  matchedDn : Option (List UInt8)
  errorMsg : Option (List UInt8)

namespace Report

def generate (alloc : Bool) (ber : Option BER) (r : Report) : Except Fault BER :=
  match r.form with
  | .searchDone => ldapGenSearchDone alloc ber r.tid r.result r.matchedDn r.errorMsg
  | .modifyResponse => ldapGenModifyResponse alloc ber r.tid r.result r.matchedDn r.errorMsg
  | .addResponse => ldapGenAddResponse alloc ber r.tid r.result r.matchedDn r.errorMsg
  | .deleteResponse => ldapGenDeleteResponse alloc ber r.tid r.result r.matchedDn r.errorMsg
  | .moddnResponse => ldapGenModdnResponse alloc ber r.tid r.result r.matchedDn r.errorMsg
  | .extendedResponse oid extAttr =>
      ldapGenExtendedResponse alloc ber r.tid r.result r.matchedDn r.errorMsg oid extAttr

/-- The matched DN and the error message, NULL being empty. -/
def dn (r : Report) : List UInt8 := r.matchedDn.getD []

def message (r : Report) : List UInt8 := r.errorMsg.getD []

def op (r : Report) : UInt8 :=
  match r.form with
  | .searchDone => 0x65
  | .modifyResponse => 0x67
  | .addResponse => 0x69
  | .deleteResponse => 0x6b
  | .moddnResponse => 0x6d
  | .extendedResponse _ _ => 0x78

/-- What stands behind the three fields that all responses have. -/
def tail (r : Report) : List UInt8 :=
  match r.form with
  | .extendedResponse oid extAttr => tlv 0x8a (oid.getD []) ++ tlv 0x8b (responseValue extAttr)
  | _ => []

/-- What a response consists of. -/
def content (r : Report) : List UInt8 :=
  midTlv r.tid ++ tlv r.op (resultOctets r.result r.dn r.message ++ r.tail)

theorem generate_produced {r : Report} (hlt : r.tid < 2 ^ 31) (ber : Option BER) :
    Produced r.content (r.generate true ber) := by
  obtain ⟨form, tid, result, matchedDn, errorMsg⟩ := r
  cases form with
  | extendedResponse oid extAttr =>
    have h := ldapGenExtendedResponse_produced hlt ber result matchedDn errorMsg oid extAttr
    simp only [extendedContent, List.append_assoc] at h
    exact h
  | _ =>
    have h := fun protocol => genLdapResult_produced hlt protocol ber result matchedDn errorMsg
    simp only [plainContent] at h
    simp only [content, op, tail, dn, message, generate, List.append_nil]
    exact h _

/-- The arguments that a generator may be given: an id of a request, a result, and strings for
which the connection has room. -/
structure Valid (r : Report) : Prop where
  tid : 0 ≤ r.tid ∧ r.tid < 2 ^ 31
  result : 0 ≤ r.result
  dn : r.dn.length < ldapMaxBaseDn ∧ 0 ∉ r.dn
  message : r.message.length < ldapMaxDiagMessage ∧ 0 ∉ r.message

end Report

/-! ## Receiving them -/

/-- A response that has been received: `rb` is the read buffer as LDAP_clnt_decode finds it. -/
structure Received where
  report : Report
  rb : ReadBuffer
  now : Int
  grow : Alloc
  alloc : Bool

/-- The connection after LDAP_clnt_decode. -/
def Received.step (lc : LdapClnt) (e : Received) : Except Fault LdapClnt := do
  let (_, (lc, _), rb) ← (clntDecoder e.now e.alloc).decode e.grow ({ lc with rb := e.rb }, []) e.rb
  pure { lc with rb := rb }

/-- It is LDAP_clnt_decode as far as the result goes. -/
theorem ldapClntDecode_step {now : Int} {clock : Timeval} {grow : Alloc} {alloc : Bool} {c : Ptr}
    {dc dc' : LdapT} {out : Outcome} {log : List Event} (r : Report)
    (h : ldapClntDecode now clock grow alloc c dc = .ok (out, dc', log)) :
    ∃ lc', Received.step (dc.clients c) ⟨r, (dc.clients c).rb, now, grow, alloc⟩ = .ok lc' ∧
      SameDecoded lc' (dc'.clients c) := by
  obtain ⟨o, lc, seen, rb, hdec, same⟩ := ldapClntDecode_loop h
  refine ⟨{ lc with rb := rb }, ?_, same⟩
  simp only [Received.step, hdec, ok_bind, pure_eq_ok]

/-- The response is what the buffer starts with, and there is memory for it. -/
structure Received.Delivered (e : Received) : Prop where
  valid : e.report.Valid
  buffered : ∃ ber b behind, e.report.generate true ber = .ok b ∧
    Buffered e.rb (b.berval ++ behind)
  unmeasured : Unmeasured e.rb
  grow : e.grow.isSome
  alloc : e.alloc = true

/-! ## The header -/

/-- A message id on the wire is the octets of its value, none for 0. -/
theorem midTlv_octets {tid : Int} (h0 : 0 ≤ tid) (hlt : tid < 2 ^ 31) :
    ∃ os, midTlv tid = 0x02 :: UInt8.ofNat os.length :: os ∧ os.length ≤ 4 ∧
      beVal os = tid.toNat := by
  unfold midTlv
  split
  · rename_i hpos
    have hsize := idSize_range tid
    refine ⟨octets tid.toNat (idSize tid), ?_, ?_, beVal_idOctets hpos hlt⟩
    · rw [octets_length]
      rfl
    · rw [octets_length]
      omega
  · have hzero : tid.toNat = 0 := by omega
    exact ⟨[], rfl, by decide, hzero.symm⟩

/-- The decoder comes to the operation, with the message id. -/
theorem responseHeader_eq {buf : Block} {p : Nat} {tid : Int} {op : UInt8} {body : List UInt8}
    (h0 : 0 ≤ tid) (hlt : tid < 2 ^ 31) (hlen : (midTlv tid ++ op :: body).length < 2 ^ 24)
    (h : Holds buf p (tlv 0x30 (midTlv tid ++ op :: body))) :
    ∃ k : Nat, Holds buf k (op :: body) ∧
      k + (op :: body).length = p + (tlv 0x30 (midTlv tid ++ op :: body)).length ∧
      responseHeader buf p = .ok (some (UInt32.ofNat tid.toNat, op, (k : Int))) := by
  obtain ⟨os, hmid, hos, hval⟩ := midTlv_octets h0 hlt
  have hlength := findLength_eq (lengthOctets_defLen hlen) (by omega) h.tail.left
  have hcontent := h.tail.right
  have hall := tlv_length 0x30 (midTlv tid ++ op :: body)
  generalize (lengthOctets (midTlv tid ++ op :: body).length).length = l at *
  have hid : Holds buf (p + 1 + l) (midTlv tid) := hcontent.left
  have hop : Holds buf (p + 1 + l + (midTlv tid).length) (op :: body) := hcontent.right
  rw [hmid] at hid
  have hmidlen : (midTlv tid).length = os.length + 2 := by
    rw [hmid]
    rfl
  have hstart : buf.rd (p : Int) = .ok 0x30 := h.rd
  have htag : buf.rd ((p : Int) + 1 + l) = .ok 0x02 := by exact_mod_cast hid.rd
  have hcount : buf.rd ((p : Int) + 1 + l + 1) = .ok (UInt8.ofNat os.length) := by
    exact_mod_cast hid.tail.rd
  have htid : decodeTid buf os.length ((p : Int) + 1 + l + 2) 0 =
      .ok (UInt32.ofNat tid.toNat) := by
    have hoctets := decodeTid_eq 0 hid.tail.tail
    rw [hval, UInt32.zero_add] at hoctets
    exact_mod_cast hoctets
  have hopd : buf.rd ((p : Int) + 1 + l + 2 + os.length) = .ok op := by
    have hrd := hop.rd
    rw [hmidlen, ← Nat.add_assoc] at hrd
    push_cast at hrd
    rw [← hrd]
    congr 1
    omega
  have hlength' : findLength buf ((p : Int) + 1) =
      .ok (((midTlv tid ++ op :: body).length : Nat), (p : Int) + 1 + l) := by
    exact_mod_cast hlength
  refine ⟨p + 1 + l + (midTlv tid).length, hop, ?_, ?_⟩
  · rw [hall, List.length_append]
    omega
  · simp only [responseHeader, hstart, hlength', ok_bind, ne_eq, not_true_eq_false, if_false,
      htag, hcount, schar_ofNat (show os.length < 128 by omega), Int.toNat_natCast, htid, hopd,
      pure_eq_ok, hmidlen]
    push_cast
    congr 4
    omega

/-! ## The fields -/

/-- The fields of the result have the sizes that they are declared with. -/
structure Fields (lc : LdapClnt) : Prop where
  dn : lc.matchedDN.size = ldapMaxBaseDn
  message : lc.diagnosticMessage.size = ldapMaxDiagMessage

/-- Which error message the decoder copies. -/
def Report.copied (r : Report) : List UInt8 :=
  match r.form with
  | .extendedResponse _ _ => []
  | _ => r.message

/-- A connection with the fields of the result set. -/
structure Filled (r : Report) (lc lc' : LdapClnt) : Prop where
  tid : lc'.tid = UInt32.ofNat r.tid.toNat
  ktid : lc'.ktid = lc.ktid
  resultCode : lc'.resultCode = schar (toChar r.result)
  matchedDN : Holds lc'.matchedDN 0 (r.dn ++ [0])
  message : Holds lc'.diagnosticMessage 0 r.copied
  behind : ∀ k, r.copied.length ≤ k →
    lc'.diagnosticMessage.byte k = lc.diagnosticMessage.byte k
  fields : Fields lc'

/-- A response of another form ends with its result. -/
theorem Report.plain {r : Report} (hext : r.op ≠ 0x78) : r.tail = [] ∧ r.copied = r.message ∧
    (r.op = 0x65 ∨ r.op = 0x67 ∨ r.op = 0x69 ∨ r.op = 0x6b ∨ r.op = 0x6d) := by
  obtain ⟨form, tid, result, matchedDn, errorMsg⟩ := r
  cases form with
  | extendedResponse oid extAttr => exact absurd rfl hext
  | _ => exact ⟨rfl, rfl, by simp [Report.op]⟩

/-- The error message that is to be read is the one that is copied: no earlier one was longer, or
there is none, or (after an extended response) it is the text for the result anyway. -/
def Report.Fresh (r : Report) (lc : LdapClnt) : Prop :=
  match r.form with
  | .extendedResponse _ _ =>
      r.message = [] ∨ r.result ≠ 0 ∧ r.message = ascii (errorToString r.result)
  | _ => r.message = [] ∨ lc.diagnosticMessage.byte r.message.length = 0

/-- A read buffer after one read. -/
def inbox (bytes : List UInt8) : ReadBuffer where
  rBuffer := some ⟨ldapReadBuffer, fun k => bytes.getD k 0⟩
  rSize := ldapReadBuffer
  rLen := bytes.length

theorem inbox_buffered {bytes : List UInt8} (h : bytes.length < ldapReadBuffer) :
    Buffered (inbox bytes) (bytes ++ []) := by
  have hsmall : ldapReadBuffer < 2 ^ 31 := by decide
  rw [List.append_nil]
  refine ⟨rfl, ⟨_, rfl, rfl, hsmall, Holds.iff_get.2 ⟨?_, fun k hk => ?_⟩⟩, le_refl _, ?_⟩
  · simp only
    omega
  · simp only [Nat.zero_add]
    exact List.getD_eq_getElem bytes 0 hk
  · simp only [inbox]
    omega

/-- The response arrives by itself. -/
def Report.received (r : Report) : Received where
  report := r
  rb := inbox (tlv 0x30 r.content)
  now := 0
  grow := some fun _ => 0
  alloc := true

end CassandraApi.Ldap
