/-
# `Ldap.Overload` — the answer of a server at its limit

When `max_concurrent` requests are outstanding, LDAP_sess_decode answers the
request it has just decoded itself, returns LDAP_RET_ERR_UNEXPECTED_RECEIVE and
takes the request off `rdata` again.  An honest answer is a response of the
request's own type, with its message id and a result other than success.

The answer that is sent always says success (`refused_success`), and where there
is no response to send, for an operation the server does not know or without
memory, the NULL is dereferenced.
-/
import CassandraApi.Ldap.Session

namespace CassandraApi.Ldap

open C Ber Lib

/-! ## Honest answers -/

/-- The tag of the response to a request; a bind request has none that is answered here. -/
def ProtocolOp.responseTag : ProtocolOp → Option UInt8
  | .bindRequest => none
  | .searchRequest => some 0x65
  | .modifyRequest => some 0x67
  | .addRequest => some 0x69
  | .deleteRequest => some 0x6b
  | .modifydnRequest => some 0x6d
  | .extendedRequest => some 0x78

/-- One response to `msg`, with its message id and the result `code`. -/
def IsResponse (msg : LdapMessage) (code : UInt8) (response : List UInt8) : Prop :=
  ∃ id tag body idOctets op, msg.choice.responseTag = some tag ∧ Tlv 0x02 idOctets id ∧
    beVal idOctets = msg.messageId.toNat ∧ Tlv tag (0x0a :: 1 :: code :: body) op ∧
    Tlv 0x30 (id ++ op) response

/-- What a call that finds `rdata` in the list, at the limit, is to do: it takes the newest
message off again and sends one response to it that is not success. -/
def AnsweredHonestly (rdata : List LdapMessage) (step : SessStep) : Prop :=
  ∃ out sess msg response taken code, step = .ok (out, sess, [.refused msg response taken]) ∧
    rdata = sess.rdata ++ [msg] ∧ code ≠ 0 ∧ IsResponse msg code response

/-! ## What is sent -/

/-- The result of a response is the octet behind `0a 01` at the front of its operation. -/
theorem isResponse_code {msg : LdapMessage} {code code' tag : UInt8} {mid : Int}
    {body' : List UInt8} (h : IsResponse msg code (tlv 0x30 (midTlv mid ++
      tlv tag (0x0a :: 1 :: code' :: body')))) (hlen : (midTlv mid ++
      tlv tag (0x0a :: 1 :: code' :: body')).length < 2 ^ 24)
    (htag : msg.choice.responseTag = some tag) : code = code' := by
  obtain ⟨id, tag', body, idOctets, op, htag', hid, -, hop, hall⟩ := h
  rw [htag] at htag'
  cases htag'
  have hcontent := hall.inj (tlv_isTlv hlen)
  obtain ⟨os, hmid⟩ := midTlv_isTlv mid
  obtain ⟨-, hop'⟩ := hid.append_inj hmid hcontent
  subst hop'
  rw [List.length_append, tlv_length] at hlen
  have hbody := hop.inj (tlv_isTlv (by omega))
  cases hbody
  rfl

/-- The bytes of a response whose result is `result`. -/
def ResponseOctets (tag : UInt8) (mid result : Int) (ber : BER) : Prop :=
  ∃ body, (midTlv mid ++ tlv tag (0x0a :: 1 :: toChar result :: body)).length < 2 ^ 24 ∧
    ber.berval = tlv 0x30 (midTlv mid ++ tlv tag (0x0a :: 1 :: toChar result :: body))

theorem genLdapResult_octets {protocol : UInt8} {alloc : Bool} {mid result : Int} {b : BER}
    (hlt : mid < 2 ^ 31) (h : genLdapResult protocol alloc none mid result none none = .ok b) :
    ResponseOctets protocol mid result b := by
  cases alloc with
  | true => exact ⟨_, (genLdapResult_produced hlt protocol none result none none).ok h⟩
  | false =>
    simp only [genLdapResult, bind_eq_ok] at h
    obtain ⟨_, -, _, -, _, -, h⟩ := h
    exact absurd h finishResponse_no_memory

theorem ldapGenExtendedResponse_octets {alloc : Bool} {mid result : Int} {oid : List UInt8}
    {b : BER} (hlt : mid < 2 ^ 31)
    (h : ldapGenExtendedResponse alloc none mid result none none (some oid) [] = .ok b) :
    ResponseOctets 0x78 mid result b := by
  cases alloc with
  | true =>
    exact ⟨_, (ldapGenExtendedResponse_produced hlt none result none none (some oid) []).ok h⟩
  | false =>
    simp only [ldapGenExtendedResponse, bind_eq_ok] at h
    obtain ⟨_, -, _, -, _, -, _, -, _, -, _, -, h⟩ := h
    exact absurd h finishResponse_no_memory

theorem map_some_eq_ok {α : Type} {x : Except Fault α} {a : α} (h : some <$> x = .ok (some a)) :
    x = .ok a := by
  cases x with
  | error f => cases h
  | ok a' =>
    cases h
    rfl

/-- A response is generated with the tag of its request and the result it is asked for. -/
theorem genericResp_octets {alloc : Bool} {result : Int} {msg : LdapMessage} {ber : BER}
    (h : genericResp alloc result msg = .ok (some ber)) :
    ∃ tag, msg.choice.responseTag = some tag ∧ ResponseOctets tag msg.mid result ber := by
  have hmid : msg.mid < 2 ^ 31 := (int32_range _).2
  unfold genericResp at h
  split at h <;> rename_i hchoice <;> rw [hchoice]
  · exact ⟨_, rfl, genLdapResult_octets hmid (map_some_eq_ok h)⟩
  · exact ⟨_, rfl, genLdapResult_octets hmid (map_some_eq_ok h)⟩
  · exact ⟨_, rfl, genLdapResult_octets hmid (map_some_eq_ok h)⟩
  · exact ⟨_, rfl, genLdapResult_octets hmid (map_some_eq_ok h)⟩
  · exact ⟨_, rfl, genLdapResult_octets hmid (map_some_eq_ok h)⟩
  · exact ⟨_, rfl, ldapGenExtendedResponse_octets hmid (map_some_eq_ok h)⟩
  · cases h

theorem isResponse_result {alloc : Bool} {result : Int} {msg : LdapMessage} {ber : BER}
    {code : UInt8} (hgen : genericResp alloc result msg = .ok (some ber))
    (h : IsResponse msg code ber.berval) : code = toChar result := by
  obtain ⟨tag, htag, body, hlen, hval⟩ := genericResp_octets hgen
  rw [hval] at h
  exact isResponse_code h hlen htag

/-! ## At the limit -/

/-- What a refusal that returns has done. -/
theorem refuse_eq_ok {alloc : Bool} {send : Send} {ds : DsT} {sess sess' : DsSession}
    {out : ServOutcome} {log : List SessEvent} (h : refuse alloc send ds sess = .ok (out, sess', log)) :
    ∃ msg ber, sess.rdata.getLast? = some msg ∧ genericResp alloc 0 msg = .ok (some ber) ∧
      sess' = { sess with rdata := sess.rdata.dropLast } ∧
      log = [.refused msg ber.berval (send.taken ber.berval)] := by
  unfold refuse at h
  split at h
  · cases h
  · rename_i msg hlast
    obtain ⟨⟨response, taken⟩, hresp, h⟩ := bind_eq_ok.1 h
    obtain ⟨resp, hgen, hsend⟩ := bind_eq_ok.1 hresp
    cases resp with
    | none => cases hsend
    | some ber =>
      cases hsend
      cases h
      exact ⟨msg, ber, hlast, hgen, rfl, rfl⟩

/-- The answer is success, so it is never honest. -/
theorem refuse_not_honest (alloc : Bool) (send : Send) (ds : DsT) (sess : DsSession) :
    ¬ AnsweredHonestly sess.rdata (refuse alloc send ds sess) := by
  rintro ⟨out, sess', msg, response, _, code, hstep, -, hcode, hresp⟩
  obtain ⟨_, ber, -, hgen, -, hlog⟩ := refuse_eq_ok hstep
  cases hlog
  exact hcode (isResponse_result hgen hresp)

variable {grow : Alloc} {env : DecodeEnv} {alloc : Bool} {send : Send} {ds : DsT}
  {sess : DsSession} {out : Outcome} {rdata : List LdapMessage} {rb : ReadBuffer}

/-- A call that finds a request at the limit is a refusal. -/
theorem ldapSessDecode_refuse (hfull : ds.maxConcurrent ≤ sess.concurrentCount)
    (hdec : (sessDecoder (ldapDecodeRequest env)).decode grow sess.rdata sess.rb =
      .ok (out, rdata, rb)) (hreq : out.code = .dataAvailable) :
    ldapSessDecode grow env alloc send ds sess =
      refuse alloc send ds { sess with rdata := rdata, rb := rb } := by
  simp only [ldapSessDecode, hdec, ok_bind, hreq, if_true, countRequest]
  rw [if_neg (by omega)]

/-- No request is answered honestly at the limit. -/
theorem not_answeredHonestly (hfull : ds.maxConcurrent ≤ sess.concurrentCount)
    (hdec : (sessDecoder (ldapDecodeRequest env)).decode grow sess.rdata sess.rb =
      .ok (out, rdata, rb)) (hreq : out.code = .dataAvailable) :
    ¬ AnsweredHonestly rdata (ldapSessDecode grow env alloc send ds sess) := by
  rw [ldapSessDecode_refuse hfull hdec hreq]
  exact refuse_not_honest alloc send ds { sess with rdata := rdata, rb := rb }

/-! ## Two delete requests at a limit of one -/

/-- A delete request for the empty name. -/
def deleteRoot (id : UInt8) : List UInt8 := [0x30, 5, 2, 1, id, 0x4a, 0]

/-- Both requests come in with one read, and the first is delivered. -/
def twoDeletes : List SessCall :=
  [.read (some fun _ => 0) (.data (deleteRoot 1 ++ deleteRoot 2)),
    .decode none { depth := 0 } true (.wrote 100)]

/-- The answer to the second: a response with id 2 and result 0. -/
example : (fun ber => ber.map BER.berval) <$>
    genericResp true 0 { choice := .deleteRequest, messageId := 2, alt := .deleteRequest [] } =
      .ok (some [0x30, 12, 2, 1, 2, 0x6b, 7, 0x0a, 1, 0, 4, 0, 4, 0]) := by decide +kernel

/-- The second request is decoded at the limit. -/
theorem twoDeletes_overload :
    ∃ sess log out rdata rb,
      run (SessCall.step (server 1 [])) (boundSession 5 {}, []) twoDeletes = .ok (sess, log) ∧
      (1 : Int) ≤ sess.concurrentCount ∧
      (sessDecoder (ldapDecodeRequest { depth := 0 })).decode none sess.rdata sess.rb =
        .ok (out, rdata, rb) ∧ out.code = .dataAvailable := by
  have hrun : (do
      let st ← run (SessCall.step (server 1 [])) (boundSession 5 {}, []) twoDeletes
      let r ← (sessDecoder (ldapDecodeRequest { depth := 0 })).decode none st.1.rdata st.1.rb
      pure (st.1.concurrentCount, r.1.code)) = Except.ok (1, .dataAvailable) := by
    decide +kernel
  simp only [bind_eq_ok, pure_eq_ok] at hrun
  obtain ⟨⟨sess, log⟩, hsess, ⟨out, rdata, rb⟩, hdec, heq⟩ := hrun
  obtain ⟨hcount, hcode⟩ := Prod.mk.inj (Except.ok.inj heq)
  exact ⟨sess, log, out, rdata, rb, hsess, le_of_eq hcount.symm, hdec, hcode⟩

/-- It is not answered honestly. -/
theorem overloaded_success :
    ¬ ∀ sess log out rdata rb,
      run (SessCall.step (server 1 [])) (boundSession 5 {}, []) twoDeletes = .ok (sess, log) →
      (1 : Int) ≤ sess.concurrentCount →
      (sessDecoder (ldapDecodeRequest { depth := 0 })).decode none sess.rdata sess.rb =
        .ok (out, rdata, rb) → out.code = .dataAvailable →
      AnsweredHonestly rdata
        (ldapSessDecode none { depth := 0 } true (.wrote 100) (server 1 []) sess) := by
  intro h
  obtain ⟨sess, log, out, rdata, rb, hrun, hfull, hdec, hreq⟩ := twoDeletes_overload
  have honest := h sess log out rdata rb hrun hfull hdec hreq
  rw [ldapSessDecode_refuse hfull hdec hreq] at honest
  exact refuse_not_honest _ _ _ _ honest

/-- The theorem at that session. -/
theorem not_answeredHonestly_twoDeletes :
    ∃ sess log out rdata rb,
      run (SessCall.step (server 1 [])) (boundSession 5 {}, []) twoDeletes = .ok (sess, log) ∧
      (sessDecoder (ldapDecodeRequest { depth := 0 })).decode none sess.rdata sess.rb =
        .ok (out, rdata, rb) ∧
      ¬ AnsweredHonestly rdata
        (ldapSessDecode none { depth := 0 } true (.wrote 100) (server 1 []) sess) := by
  obtain ⟨sess, log, out, rdata, rb, hrun, hfull, hdec, hreq⟩ := twoDeletes_overload
  exact ⟨sess, log, out, rdata, rb, hrun, hdec, not_answeredHonestly hfull hdec hreq⟩

end CassandraApi.Ldap
