/-
# `Ldap.Respond` — the response generators of ldap_common.c

`_gen_ldap_result` writes the five plain responses, which differ in the tag only;
an extended response has an OID and a value behind the same three fields.  The
message id comes from the request and need not be positive: `ber_tid_create`
writes `02 00` for 0 and for an `int` below it (`midTlv`).
-/
import CassandraApi.Ldap.Wire

namespace CassandraApi.Ldap

open C Ber

/-! ## Generators -/

/-- COPY_TO_BER and the copies behind it: the pieces from `b_ldap` on, `sum` being their length. -/
def finishResponse (alloc : Bool) (mid : Int) (ber : Option BER) (op : List UInt8) (sum : Nat)
    (rest : List UInt8) : Except Fault BER := do
  let bMsg ← berTidCreate mid
  let sum := sum + bMsg.length
  let L ← insertLength sum
  let bLdap := 0x30 :: L
  let sum := sum + bLdap.length
  match berAllocBuffer alloc ber sum with
  | none => throw .null
  | some b => BER.append { b with berval := [] } (bLdap ++ bMsg ++ op ++ rest)

/-- _gen_ldap_result.  NULL and the empty string are written alike. -/
def genLdapResult (protocol : UInt8) (alloc : Bool) (ber : Option BER) (mid result : Int)
    (mdn emsg : Option (List UInt8)) : Except Fault BER := do
  let emsg := emsg.getD []
  let mdn := mdn.getD []
  let L ← insertLength emsg.length
  let bErrorMsg := 0x04 :: L
  let sum := bErrorMsg.length + emsg.length
  let L ← insertLength mdn.length
  let bMatchDN := 0x04 :: L
  let sum := sum + (bMatchDN.length + mdn.length)
  let bResult := [0x0a, 1, toChar result]
  let sum := sum + bResult.length
  let L ← insertLength sum
  let bExt := protocol :: L
  let sum := sum + bExt.length
  finishResponse alloc mid ber bExt sum (bResult ++ bMatchDN ++ mdn ++ bErrorMsg ++ emsg)

def ldapGenSearchDone := genLdapResult 0x65

def ldapGenModifyResponse := genLdapResult 0x67

def ldapGenAddResponse := genLdapResult 0x69

def ldapGenDeleteResponse := genLdapResult 0x6b

def ldapGenModdnResponse := genLdapResult 0x6d

/-- LDAP_gen_extended_response.  `extAttr` are the `elen` bytes of `ext_attr`. -/
def ldapGenExtendedResponse (alloc : Bool) (ber : Option BER) (mid result : Int)
    (mdn emsg oid : Option (List UInt8)) (extAttr : List UInt8) : Except Fault BER := do
  let emsg := emsg.getD []
  let mdn := mdn.getD []
  let oid := oid.getD []
  let sum := extAttr.length
  let L ← insertLength sum
  let bAttr := if 0 < extAttr.length then 0x30 :: L else []
  let sum := sum + bAttr.length
  let L ← insertLength sum
  let bAttrall := 0x8b :: L
  let sum := sum + bAttrall.length
  let L ← insertLength oid.length
  let bOid := 0x8a :: L
  let sum := sum + (bOid.length + oid.length)
  let L ← insertLength emsg.length
  let bErrorMsg := 0x04 :: L
  let sum := sum + (bErrorMsg.length + emsg.length)
  let L ← insertLength mdn.length
  let bMatchDN := 0x04 :: L
  let sum := sum + (bMatchDN.length + mdn.length)
  let bResult := [0x0a, 1, toChar result]
  let sum := sum + bResult.length
  let L ← insertLength sum
  let bExt := 0x78 :: L
  let sum := sum + bExt.length
  finishResponse alloc mid ber bExt sum
    (bResult ++ bMatchDN ++ mdn ++ bErrorMsg ++ emsg ++ bOid ++ oid ++ bAttrall ++ bAttr ++ extAttr)

/-- LDAP_gen_search_entry.  `attrs` are the `alen` bytes of its argument. -/
def ldapGenSearchEntry (alloc : Bool) (ber : Option BER) (mid : Int) (object : Option (List UInt8))
    (attrs : List UInt8) : Except Fault BER := do
  let object := object.getD []
  let sum := attrs.length
  let L ← insertLength sum
  let bAttr := 0x30 :: L
  let sum := sum + bAttr.length
  let L ← insertLength object.length
  let bObject := 0x04 :: L
  let sum := sum + (bObject.length + object.length)
  let L ← insertLength sum
  let bExt := 0x64 :: L
  let sum := sum + bExt.length
  finishResponse alloc mid ber bExt sum (bObject ++ object ++ bAttr ++ attrs)

/-! ## In closed form -/

/-- A message id of a response on the wire. -/
def midTlv (mid : Int) : List UInt8 := if 0 < mid then idTlv mid else [0x02, 0]

theorem midTlv_isTlv (mid : Int) : ∃ os, Tlv 0x02 os (midTlv mid) := by
  unfold midTlv
  split
  · exact ⟨_, idTlv_isTlv⟩
  · exact ⟨[], .mk (L := [0]) (.short (by norm_num))⟩

theorem berTidCreate_midTlv {mid : Int} (hlt : mid < 2 ^ 31) :
    berTidCreate mid = .ok (midTlv mid) := by
  unfold midTlv
  split
  · exact berTidCreate_octets (by assumption) hlt
  · have hzero : mid.toNat = 0 := by omega
    have hone : int32 (2 ^ (8 * 0 - 1)) = 1 := by decide
    simp only [berTidCreate, hzero, ok_bind, pure_eq_ok, countOctets, Nat.zero_shiftRight,
      lt_irrefl, if_false]
    rw [hone, if_neg (by omega)]
    rfl

/-- The result of a generator whose response has the contents `content`. -/
def Produced (content : List UInt8) (r : Except Fault BER) : Prop :=
  if content.length < 2 ^ 24 then ∃ size, r = .ok ⟨size, tlv 0x30 content⟩ else r = .error .stuck

theorem Produced.stuck {content : List UInt8} (h : ¬ content.length < 2 ^ 24) :
    Produced content (.error .stuck) := by
  rw [Produced, if_neg h]

theorem Produced.ok {content : List UInt8} {r : Except Fault BER} {b : BER} (h : Produced content r)
    (hr : r = .ok b) : content.length < 2 ^ 24 ∧ b.berval = tlv 0x30 content := by
  unfold Produced at h
  split at h
  · rename_i hlen
    obtain ⟨size, hsize⟩ := h
    rw [hr] at hsize
    cases hsize
    exact ⟨hlen, rfl⟩
  · rw [hr] at h
    cases h

theorem finishResponse_produced {mid : Int} (hlt : mid < 2 ^ 31) (ber : Option BER)
    {op rest : List UInt8} {sum : Nat} (hsum : sum = (op ++ rest).length) :
    Produced (midTlv mid ++ (op ++ rest)) (finishResponse true mid ber op sum rest) := by
  have hall : (midTlv mid ++ (op ++ rest)).length = sum + (midTlv mid).length := by
    rw [List.length_append, hsum]
    omega
  unfold Produced
  simp only [finishResponse, berTidCreate_midTlv hlt, ok_bind]
  rw [insertLength_eq_ite, hall]
  split
  · rw [ok_bind]
    obtain ⟨b, hb, hroom⟩ := berAllocBuffer_room ber (sum + (midTlv mid).length +
      (0x30 :: lengthOctets (sum + (midTlv mid).length)).length)
    rw [hb]
    simp only
    refine ⟨b.size, ?_⟩
    rw [List.length_cons] at hroom
    rw [List.length_append] at hsum
    rw [BER.append_eq (by
      simp only [List.length_append, List.length_cons, List.length_nil]; omega), tlv, hall]
    simp only [List.nil_append, List.append_assoc, List.cons_append]
  · rfl

/-- From the operation's header on. -/
theorem finishOperation_produced {mid : Int} (hlt : mid < 2 ^ 31) (ber : Option BER) (tag : UInt8)
    (body : List UInt8) :
    Produced (midTlv mid ++ tlv tag body) (insertLength body.length >>= fun L =>
      finishResponse true mid ber (tag :: L) (body.length + (L.length + 1)) body) := by
  rw [insertLength_eq_ite]
  split
  · have hsum : body.length + ((lengthOctets body.length).length + 1) =
        ((tag :: lengthOctets body.length) ++ body).length := by
      rw [List.length_append, List.length_cons]
      omega
    rw [ok_bind]
    exact finishResponse_produced hlt ber hsum
  · rw [error_bind]
    refine .stuck ?_
    rw [List.length_append, tlv_length]
    omega

/-- The LDAPResult at the front of every response. -/
def resultOctets (result : Int) (mdn emsg : List UInt8) : List UInt8 :=
  [0x0a, 1, toChar result] ++ tlv 0x04 mdn ++ tlv 0x04 emsg

/-- What a plain response consists of. -/
def plainContent (protocol : UInt8) (mid result : Int) (mdn emsg : List UInt8) : List UInt8 :=
  midTlv mid ++ tlv protocol (resultOctets result mdn emsg)

/-- The value of an extended response. -/
def responseValue (extAttr : List UInt8) : List UInt8 :=
  if 0 < extAttr.length then tlv 0x30 extAttr else []

/-- What an extended response consists of. -/
def extendedContent (mid result : Int) (mdn emsg oid extAttr : List UInt8) : List UInt8 :=
  midTlv mid ++ tlv 0x78 (resultOctets result mdn emsg ++ tlv 0x8a oid ++
    tlv 0x8b (responseValue extAttr))

theorem genLdapResult_produced {mid : Int} (hlt : mid < 2 ^ 31) (protocol : UInt8)
    (ber : Option BER) (result : Int) (mdn emsg : Option (List UInt8)) :
    Produced (plainContent protocol mid result (mdn.getD []) (emsg.getD []))
      (genLdapResult protocol true ber mid result mdn emsg) := by
  have hlen : (resultOctets result (mdn.getD []) (emsg.getD [])).length =
      (lengthOctets (emsg.getD []).length).length + 1 + (emsg.getD []).length +
        ((lengthOctets (mdn.getD []).length).length + 1 + (mdn.getD []).length) + 3 := by
    simp only [resultOctets, List.length_append, tlv_length, List.length_cons, List.length_nil]
    omega
  have hshape : resultOctets result (mdn.getD []) (emsg.getD []) =
      [0x0a, 1, toChar result] ++ 0x04 :: lengthOctets (mdn.getD []).length ++ mdn.getD [] ++
        0x04 :: lengthOctets (emsg.getD []).length ++ emsg.getD [] := by
    simp only [resultOctets, tlv, List.append_assoc, List.cons_append]
  have hcontent : (resultOctets result (mdn.getD []) (emsg.getD [])).length ≤
      (plainContent protocol mid result (mdn.getD []) (emsg.getD [])).length := by
    rw [plainContent, List.length_append, tlv_length]
    omega
  simp only [genLdapResult, insertLength_eq_ite (emsg.getD []).length,
    insertLength_eq_ite (mdn.getD []).length]
  split
  · rw [ok_bind]
    split
    · rw [ok_bind]
      simp only [List.length_cons, List.length_nil, Nat.zero_add]
      rw [← hlen, ← hshape]
      exact finishOperation_produced hlt ber protocol _
    · rw [error_bind]
      exact .stuck (by omega)
  · rw [error_bind]
    exact .stuck (by omega)

theorem responseValue_length (extAttr : List UInt8) :
    (responseValue extAttr).length =
      extAttr.length + (if 0 < extAttr.length then 0x30 :: lengthOctets extAttr.length
        else []).length := by
  unfold responseValue
  split
  · rw [tlv_length, List.length_cons]
    omega
  · rename_i h
    rw [List.length_nil]
    omega

/-- The value is written as the code writes it. -/
theorem responseValue_eq (extAttr : List UInt8) :
    responseValue extAttr =
      (if 0 < extAttr.length then 0x30 :: lengthOctets extAttr.length else []) ++ extAttr := by
  unfold responseValue
  split
  · rfl
  · rename_i h
    rw [List.length_eq_zero_iff.1 (by omega : extAttr.length = 0)]
    rfl

theorem ldapGenExtendedResponse_produced {mid : Int} (hlt : mid < 2 ^ 31) (ber : Option BER)
    (result : Int) (mdn emsg oid : Option (List UInt8)) (extAttr : List UInt8) :
    Produced (extendedContent mid result (mdn.getD []) (emsg.getD []) (oid.getD []) extAttr)
      (ldapGenExtendedResponse true ber mid result mdn emsg oid extAttr) := by
  have hval := responseValue_length extAttr
  have hlen : (resultOctets result (mdn.getD []) (emsg.getD []) ++ tlv 0x8a (oid.getD []) ++
      tlv 0x8b (responseValue extAttr)).length =
      (responseValue extAttr).length +
        ((lengthOctets (responseValue extAttr).length).length + 1) +
        ((lengthOctets (oid.getD []).length).length + 1 + (oid.getD []).length) +
        ((lengthOctets (emsg.getD []).length).length + 1 + (emsg.getD []).length) +
        ((lengthOctets (mdn.getD []).length).length + 1 + (mdn.getD []).length) + 3 := by
    simp only [resultOctets, List.length_append, tlv_length, List.length_cons, List.length_nil]
    omega
  have hshape : resultOctets result (mdn.getD []) (emsg.getD []) ++ tlv 0x8a (oid.getD []) ++
      tlv 0x8b (responseValue extAttr) =
      [0x0a, 1, toChar result] ++ 0x04 :: lengthOctets (mdn.getD []).length ++ mdn.getD [] ++
        0x04 :: lengthOctets (emsg.getD []).length ++ emsg.getD [] ++
        0x8a :: lengthOctets (oid.getD []).length ++ oid.getD [] ++
        0x8b :: lengthOctets (responseValue extAttr).length ++
        (if 0 < extAttr.length then 0x30 :: lengthOctets extAttr.length else []) ++ extAttr := by
    rw [List.append_assoc _ _ extAttr, ← responseValue_eq]
    simp only [resultOctets, tlv, List.append_assoc, List.cons_append]
  have hcontent : (resultOctets result (mdn.getD []) (emsg.getD []) ++ tlv 0x8a (oid.getD []) ++
      tlv 0x8b (responseValue extAttr)).length ≤
      (extendedContent mid result (mdn.getD []) (emsg.getD []) (oid.getD []) extAttr).length := by
    rw [extendedContent]
    generalize resultOctets result (mdn.getD []) (emsg.getD []) ++ tlv 0x8a (oid.getD []) ++
      tlv 0x8b (responseValue extAttr) = body
    rw [List.length_append, tlv_length]
    omega
  simp only [ldapGenExtendedResponse, insertLength_eq_ite (emsg.getD []).length,
    insertLength_eq_ite (mdn.getD []).length, insertLength_eq_ite (oid.getD []).length,
    insertLength_eq_ite extAttr.length]
  split
  · rw [ok_bind, ← hval, insertLength_eq_ite]
    split
    · rw [ok_bind]
      split
      · rw [ok_bind]
        split
        · rw [ok_bind]
          split
          · rw [ok_bind]
            simp only [List.length_cons, List.length_nil, Nat.zero_add]
            rw [← hlen, ← hshape]
            exact finishOperation_produced hlt ber 0x78 _
          · rw [error_bind]
            exact .stuck (by omega)
        · rw [error_bind]
          exact .stuck (by omega)
      · rw [error_bind]
        exact .stuck (by omega)
    · rw [error_bind]
      exact .stuck (by omega)
  · rw [error_bind]
    exact .stuck (by omega)

/-- Without memory no response is generated. -/
theorem finishResponse_no_memory {mid : Int} {op rest : List UInt8} {sum : Nat} {b : BER} :
    finishResponse false mid none op sum rest ≠ .ok b := by
  intro h
  simp only [finishResponse, bind_eq_ok] at h
  obtain ⟨_, -, _, -, h⟩ := h
  cases h

end CassandraApi.Ldap
