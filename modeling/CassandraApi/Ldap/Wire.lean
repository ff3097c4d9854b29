/-
# `Ldap.Wire` — the requests as they stand on the wire

The generators in closed form.  Each is one value `30 …` holding the message id,
the operation and the controls, or, when the contents take `2 ^ 24` bytes or
more, the undefined shift of INSERT_LENGTH.  The sums that the code computes by
hand are the lengths of what it copies.
-/
import CassandraApi.Ber.Tlv
import CassandraApi.Ldap.Encode

namespace CassandraApi.Ldap

open C Ber

/-! ## Room in a BER -/

theorem le_adjustSize (l s : Nat) : l ≤ adjustSize l s := by
  unfold adjustSize
  split <;> omega

/-- With memory available a BER has the room that was asked for. -/
theorem berAllocBuffer_room (ber : Option BER) (len : Nat) :
    ∃ b, berAllocBuffer true ber len = some b ∧ len ≤ b.size := by
  unfold berAllocBuffer
  cases ber with
  | none => exact ⟨_, rfl, le_adjustSize _ _⟩
  | some b =>
    simp only [and_true]
    split
    · refine ⟨_, rfl, ?_⟩
      have := le_adjustSize (b.berval.length + len) berBuffer
      simp only
      omega
    · rename_i h
      exact ⟨_, rfl, by omega⟩

theorem BER.append_eq {b : BER} {bytes : List UInt8}
    (h : b.berval.length + bytes.length ≤ b.size) :
    b.append bytes = .ok { b with berval := b.berval ++ bytes } :=
  if_pos h

/-! ## Controls -/

theorem Control.encode_length (c : Control) : c.encode.length = c.bsize + 2 := by
  unfold Control.encode Control.bsize
  simp only [List.length_append]
  split_ifs <;> simp only [List.length_append, List.length_cons, List.length_nil] <;> omega

/-- The controls of a list that are written, one after another. -/
def writtenControls (controls : List Control) : List UInt8 :=
  (controls.filter (·.controlType ≠ [])).flatMap Control.encode

theorem writtenControls_length (controls : List Control) :
    (writtenControls controls).length = allCtrlLen controls := by
  rw [writtenControls, allCtrlLen, List.length_flatMap]
  congr 1
  exact List.map_congr_left fun c _ => c.encode_length

/-- The controls on the wire. -/
def controlOctets (controls : List Control) : List UInt8 :=
  if 0 < allCtrlLen controls then tlv 0xa0 (writtenControls controls) else []

@[simp] theorem controlOctets_nil : controlOctets [] = [] := rfl

theorem le_controlOctets_length (controls : List Control) :
    allCtrlLen controls ≤ (controlOctets controls).length := by
  unfold controlOctets
  split
  · rw [tlv_length, writtenControls_length]
    omega
  · simp only [List.length_nil]
    omega

theorem encodeControls_eq {controls : List Control} (h : allCtrlLen controls < 2 ^ 24) :
    encodeControls controls = .ok (controlOctets controls) := by
  unfold encodeControls controlOctets
  split
  · rw [insertLength_eq_ite, if_pos h, ok_bind, pure_eq_ok, tlv, writtenControls_length]
    rfl
  · rfl

theorem controlsSum_eq (controls : List Control) :
    controlsSum controls =
      if allCtrlLen controls < 2 ^ 24 then .ok (controlOctets controls).length
      else .error .stuck := by
  unfold controlsSum controlOctets
  by_cases hpos : 0 < allCtrlLen controls
  · rw [if_pos hpos, if_pos hpos, insertLength_eq_ite, tlv_length, writtenControls_length]
    split
    · rw [ok_bind, pure_eq_ok, List.length_cons]
      congr 1
      omega
    · rfl
  · rw [if_neg hpos, if_neg hpos, if_pos (by omega)]
    rfl

/-! ## The common end -/

/-- What a message consists of. -/
def messageContent (tid : Int) (operation : List UInt8) (controls : List Control) : List UInt8 :=
  idTlv tid ++ operation ++ controlOctets controls

/-- The result of a generator whose message has the contents `content`. -/
def Generated (tid : Int) (content : List UInt8) (r : Except Fault (Int × BER)) : Prop :=
  if content.length < 2 ^ 24 then ∃ size, r = .ok (tid, ⟨size, tlv 0x30 content⟩)
  else r = .error .stuck

theorem Generated.ok {tid : Int} {content : List UInt8} {r : Except Fault (Int × BER)} {b : BER}
    (h : Generated tid content r) (hr : r = .ok (tid, b)) :
    content.length < 2 ^ 24 ∧ b.berval = tlv 0x30 content := by
  unfold Generated at h
  split at h
  · rename_i hlen
    obtain ⟨size, hsize⟩ := h
    rw [hr] at hsize
    cases hsize
    exact ⟨hlen, rfl⟩
  · rw [hr] at h
    cases h

theorem finishRequest_generated {tid : Int} (h0 : 0 ≤ tid) (hmax : tid < 0x7fffffff)
    (ber : Option BER) (controls : List Control) {op rest : List UInt8} {sum : Nat}
    (hsum : sum = (op ++ rest).length) :
    Generated (tidIncrement tid) (messageContent (tidIncrement tid) (op ++ rest) controls)
      (finishRequest true tid ber controls op sum rest) := by
  obtain ⟨hpos, hlt⟩ := tidIncrement_range h0 hmax
  have hid := berTidCreate_octets hpos (by omega)
  have hle := le_controlOctets_length controls
  have hlen : (messageContent (tidIncrement tid) (op ++ rest) controls).length =
      sum + (idTlv (tidIncrement tid)).length + (controlOctets controls).length := by
    rw [messageContent, List.length_append, List.length_append, hsum]
    omega
  unfold Generated
  simp only [finishRequest, hid, ok_bind, controlsSum_eq]
  by_cases hc : allCtrlLen controls < 2 ^ 24
  · rw [if_pos hc, ok_bind, insertLength_eq_ite, hlen]
    split
    · rw [ok_bind]
      obtain ⟨b, hb, hroom⟩ := berAllocBuffer_room ber (sum + (idTlv (tidIncrement tid)).length +
        (controlOctets controls).length + (0x30 :: lengthOctets (sum +
        (idTlv (tidIncrement tid)).length + (controlOctets controls).length)).length)
      rw [hb]
      simp only
      rw [List.length_cons] at hroom
      rw [List.length_append] at hsum
      refine ⟨b.size, ?_⟩
      rw [BER.append_eq (by
          simp only [List.length_append, List.length_cons, List.length_nil]; omega), ok_bind,
        encodeControls_eq hc, ok_bind, BER.append_eq (by
          simp only [List.length_append, List.length_cons, List.length_nil]; omega), ok_bind,
        pure_eq_ok, tlv, hlen]
      simp only [messageContent, List.nil_append, List.append_assoc, List.cons_append]
    · rfl
  · rw [if_neg hc, if_neg (by omega)]
    rfl

/-! ## Requests -/

/-- The bytes that CREATE_DN leaves. -/
theorem createDn_eq {tag : UInt8} {dn : List UInt8} (h : dn.length < 256) :
    createDn tag dn = tlv tag dn := by
  simp only [createDn, insertLengthOfScratch_eq, if_pos h, List.take_length]
  rfl

theorem createDn_lost {tag : UInt8} {dn : List UInt8} (h : ¬ dn.length < 256) :
    createDn tag dn = [tag, 0x80] := by
  simp only [createDn, insertLengthOfScratch_eq, if_neg h, List.take_zero]
  rfl

section

variable {tid : Int} (h0 : 0 ≤ tid) (hmax : tid < 0x7fffffff) (ber : Option BER)
  (controls : List Control)

/-- A header that is too long for INSERT_LENGTH makes the message too long. -/
theorem Generated.stuck {tid : Int} {content : List UInt8} (h : ¬ content.length < 2 ^ 24) :
    Generated tid content (.error .stuck) := by
  rw [Generated, if_neg h]

include h0 hmax

theorem genOperation_generated (tag : UInt8) (body : List UInt8) :
    Generated (tidIncrement tid) (messageContent (tidIncrement tid) (tlv tag body) controls)
      (insertLength body.length >>= fun L =>
        finishRequest true tid ber controls (tag :: L) (body.length + (tag :: L).length) body) := by
  rw [insertLength_eq_ite]
  split
  · rw [ok_bind]
    have hsum : body.length + (tag :: lengthOctets body.length).length =
        (tag :: lengthOctets body.length ++ body).length := by
      rw [List.length_append, Nat.add_comm]
    exact finishRequest_generated h0 hmax ber controls hsum
  · rw [error_bind]
    refine .stuck ?_
    simp only [messageContent, List.length_append, tlv_length]
    omega

theorem genEntryRequest_generated (tag : UInt8) (dn attrs : List UInt8) :
    Generated (tidIncrement tid)
      (messageContent (tidIncrement tid) (tlv tag (createDn 0x04 dn ++ tlv 0x30 attrs)) controls)
      (genEntryRequest tag true tid ber dn attrs controls) := by
  unfold genEntryRequest
  simp only
  rw [insertLength_eq_ite attrs.length]
  split
  · have h := genOperation_generated h0 hmax ber controls tag (createDn 0x04 dn ++ tlv 0x30 attrs)
    have hlen : (createDn 0x04 dn ++ tlv 0x30 attrs).length =
        attrs.length + (0x30 :: lengthOctets attrs.length).length + (createDn 0x04 dn).length := by
      rw [List.length_append, tlv_length, List.length_cons]
      omega
    rw [hlen] at h
    simpa only [ok_bind, tlv, List.append_assoc, List.cons_append] using h
  · rw [error_bind]
    refine .stuck ?_
    simp only [messageContent, List.length_append, tlv_length]
    omega

theorem ldapGenDeleteRequest_generated (dn : List UInt8) :
    Generated (tidIncrement tid) (messageContent (tidIncrement tid) (createDn 0x4a dn) controls)
      (ldapGenDeleteRequest true tid ber dn controls) := by
  have hsum : (createDn 0x4a dn).length = (createDn 0x4a dn ++ []).length := by
    rw [List.append_nil]
  have h := finishRequest_generated h0 hmax ber controls hsum
  rwa [List.append_nil] at h

theorem ldapGenModdnRequest_generated (dn rdn : List UInt8) (deleteFlag : Int)
    (sup : Option (List UInt8)) :
    Generated (tidIncrement tid)
      (messageContent (tidIncrement tid)
        (tlv 0x6c (createDn 0x04 dn ++ createDn 0x04 rdn ++
          [1, 1, if deleteFlag = 1 then 1 else 0] ++ (sup.map (createDn 0x04)).getD [])) controls)
      (ldapGenModdnRequest true tid ber dn rdn deleteFlag sup controls) := by
  have h := genOperation_generated h0 hmax ber controls 0x6c (createDn 0x04 dn ++
    createDn 0x04 rdn ++ [1, 1, if deleteFlag = 1 then 1 else 0] ++
    (sup.map (createDn 0x04)).getD [])
  have hlen : (createDn 0x04 dn ++ createDn 0x04 rdn ++
      [1, 1, if deleteFlag = 1 then 1 else 0] ++ (sup.map (createDn 0x04)).getD []).length =
      (createDn 0x04 dn).length + (createDn 0x04 rdn).length + 3 +
        ((sup.map (createDn 0x04)).getD []).length := by
    simp only [List.length_append, List.length_cons, List.length_nil]
  rw [hlen] at h
  exact h

theorem ldapGenSearchRequest_generated (dn : List UInt8) (scope : String)
    (filt attrs : List UInt8) (derefValue : UInt8) :
    Generated (tidIncrement tid)
      (messageContent (tidIncrement tid)
        (tlv 0x63 (createDn 0x04 dn ++ [0x0a, 1, scopeOctet scope] ++ [0x0a, 1, derefValue] ++
          [0x02, 1, 0] ++ [0x02, 1, 0] ++ [0x01, 1, 0] ++ filt ++ tlv 0x30 attrs)) controls)
      (ldapGenSearchRequest true tid ber dn scope filt attrs derefValue controls) := by
  unfold ldapGenSearchRequest
  simp only
  rw [insertLength_eq_ite attrs.length]
  split
  · have h := genOperation_generated h0 hmax ber controls 0x63 (createDn 0x04 dn ++
      [0x0a, 1, scopeOctet scope] ++ [0x0a, 1, derefValue] ++ [0x02, 1, 0] ++ [0x02, 1, 0] ++
      [0x01, 1, 0] ++ filt ++ tlv 0x30 attrs)
    have hlen : (createDn 0x04 dn ++ [0x0a, 1, scopeOctet scope] ++ [0x0a, 1, derefValue] ++
        [0x02, 1, 0] ++ [0x02, 1, 0] ++ [0x01, 1, 0] ++ filt ++ tlv 0x30 attrs).length =
        attrs.length + (0x30 :: lengthOctets attrs.length).length + filt.length +
          3 + 3 + 3 + 3 + 3 + (createDn 0x04 dn).length := by
      simp only [List.length_append, tlv_length, List.length_cons, List.length_nil]
      omega
    rw [hlen] at h
    simpa only [ok_bind, tlv, List.append_assoc, List.cons_append] using h
  · rw [error_bind]
    refine .stuck ?_
    simp only [messageContent, List.length_append, tlv_length]
    omega

end

end CassandraApi.Ldap
