/-
# `Ldap.Reading` — reading back what was written

The pieces of ldap_decode_request on the pieces that the generators write, and
the way from the front of a message to its operation.  A block may hold anything
before and behind them.
-/
import CassandraApi.Ldap.Wire
import CassandraApi.Ldap.DecodeRequest

namespace CassandraApi.Ldap

open C Ber

/-! ## Strings and small fields -/

section Pieces

variable {buf : Block} {i cap : Nat} {s : List UInt8}

/-- A string behind its length. -/
theorem lengthString_eq (hs : s.length < 2 ^ 24) (hcap : s.length < cap)
    (h : Holds buf i (lengthOctets s.length ++ s)) :
    lengthString cap buf i = .ok (s, ((i + (lengthOctets s.length ++ s).length : Nat) : Int)) := by
  have hlen := findLength_eq (lengthOctets_defLen hs) (by omega) h.left
  have hload : buf.load ((i + (lengthOctets s.length).length : Nat) : Int) s.length = .ok s :=
    h.right.load
  rw [Nat.cast_add] at hload
  simp only [lengthString, hlen, ok_bind, takeString]
  split
  · have hlt : (s.length : Int) < cap := by exact_mod_cast hcap
    simp only [copyString, hload, ok_bind, if_pos hlt, pure_eq_ok, List.length_append]
    push_cast
    rw [Int.add_assoc]
  · rename_i hempty
    have hnil : s = [] := List.length_eq_zero_iff.1 (by omega)
    subst hnil
    simp only [List.append_nil]
    push_cast
    rfl

/-- A field of three bytes. -/
theorem smallField_eq {tag x v : UInt8} (e : String) (h : Holds buf i [tag, x, v]) :
    smallField tag e buf i = .ok (.ok (schar v, ((i + 3 : Nat) : Int))) := by
  have hv : buf.rd ((i : Int) + 2) = .ok v := by exact_mod_cast h.tail.tail.rd
  simp only [smallField, h.rd, ok_bind, if_true, hv, pure_eq_ok]
  push_cast
  rfl

end Pieces

/-! ## Strings from CREATE_DN -/

/-- What of a string gets onto the wire. -/
def sent (s : List UInt8) : List UInt8 := if s.length < 256 then s else []

theorem createDn_head (tag : UInt8) (s : List UInt8) : ∃ rest, createDn tag s = tag :: rest :=
  ⟨_, rfl⟩

theorem sent_eq_iff (s : List UInt8) : sent s = s ↔ s.length < 256 := by
  unfold sent
  split
  · simp [*]
  · rename_i h
    refine ⟨fun he => ?_, fun hlt => absurd hlt h⟩
    rw [← he] at h
    exact absurd (by norm_num) h

/-- A string comes out of the decoder as it was sent. -/
theorem lengthString_createDn {buf : Block} {i : Nat} {tag : UInt8} {s : List UInt8} (cap : Nat)
    (hcap : 256 ≤ cap) (h : Holds buf i (createDn tag s)) :
    lengthString cap buf ((i : Int) + 1) =
      .ok (sent s, ((i + (createDn tag s).length : Nat) : Int)) := by
  unfold sent
  split
  · rename_i hs
    rw [createDn_eq hs] at h ⊢
    have hstring := lengthString_eq (by omega) (show s.length < cap by omega) h.tail
    rw [Nat.cast_add i 1, Nat.cast_one] at hstring
    rw [hstring, tlv, List.length_cons]
    congr 2
    push_cast
    ring
  · rename_i hs
    rw [createDn_lost hs] at h ⊢
    have hlen : findLength buf ((i : Int) + 1) = .ok (0, (i : Int) + 2) := by
      have hr : buf.rd ((i : Int) + 1) = .ok 0x80 := by exact_mod_cast h.tail.rd
      have hgt : uint32 (schar 0x80) > 0xffffff00 := by decide
      have hzero : int32 (uint32 (schar 0x80) - 0xffffff80) = 0 := by decide
      rw [findLength, hr, ok_bind, if_pos hgt]
      simp only [hzero, Int.toNat_zero, accLength, ok_bind, pure_eq_ok]
      congr 2
    simp only [lengthString, hlen, ok_bind, takeString, lt_irrefl, if_false]
    push_cast
    rfl

theorem requiredString_createDn {buf : Block} {i : Nat} {s : List UInt8} (cap : Nat) (e : String)
    (hcap : 256 ≤ cap) (h : Holds buf i (createDn 0x04 s)) :
    requiredString cap e buf i =
      .ok (.ok (sent s, ((i + (createDn 0x04 s).length : Nat) : Int))) := by
  obtain ⟨rest, hrest⟩ := createDn_head 0x04 s
  have htag : buf.rd (i : Int) = .ok 0x04 := by
    rw [hrest] at h
    exact h.rd
  simp only [requiredString, htag, ok_bind, if_true, lengthString_createDn cap hcap h, pure_eq_ok]

@[simp] theorem andThen_ok {α β : Type} (a : α) (f : α → Except Fault (Except Outcome β)) :
    andThen (.ok (.ok a)) f = f a := rfl

/-! ## The front of a message -/

/-- The read buffer with the frame of `len` bytes at `p`, which is what the decoder looks at. -/
def frameAt (buf : Block) (p len : Nat) : ReadBuffer :=
  { rBuffer := some buf, rSize := buf.size, rLen := p + len, rBerBody := p, rBerBodyLength := len }

/-- From the operation's tag on. -/
def decodeFrom (env : DecodeEnv) (buf : Block) (messageId : UInt32) (op : UInt8) (i : Int) :
    Except Fault (Outcome × Option LdapMessage) := do
  match ← decodeOp env.value env.garbage env.depth buf op i with
  | .error out => pure (out, none)
  | .ok (choice, alt, i) => do
      let controls ← decodeControls buf i
      pure (⟨.dataAvailable, none⟩, some ⟨choice, messageId, alt, controls⟩)

/-- The decoder comes to the operation, with the message id. -/
theorem ldapDecodeRequest_operation {env : DecodeEnv} {buf : Block} {p : Nat} {tid : Int}
    {op : UInt8} {body : List UInt8} (henv : env.message = true) (hpos : 0 < tid)
    (hlt : tid < 2 ^ 31) (hlen : (idTlv tid ++ op :: body).length < 2 ^ 24)
    (h : Holds buf p (tlv 0x30 (idTlv tid ++ op :: body))) :
    ∃ k : Nat, Holds buf k (op :: body) ∧
      k + (op :: body).length = p + (tlv 0x30 (idTlv tid ++ op :: body)).length ∧
      ldapDecodeRequest env (frameAt buf p (tlv 0x30 (idTlv tid ++ op :: body)).length) =
        decodeFrom env buf (UInt32.ofNat tid.toNat) op ((k + 1 : Nat) : Int) := by
  have hsize := idSize_range tid
  have hall : (tlv 0x30 (idTlv tid ++ op :: body)).length =
      1 + ((lengthOctets (idTlv tid ++ op :: body).length).length +
        (idTlv tid ++ op :: body).length) := tlv_length _ _
  have hlength := findLength_eq (lengthOctets_defLen hlen) (by omega) h.tail.left
  have hcontent := h.tail.right
  generalize (lengthOctets (idTlv tid ++ op :: body).length).length = l at *
  have hid : Holds buf (p + 1 + l) (idTlv tid) := hcontent.left
  have hop : Holds buf (p + 1 + l + (idTlv tid).length) (op :: body) := hcontent.right
  rw [idTlv_length, ← Nat.add_assoc] at hop
  have hnot : ¬ (((idTlv tid ++ op :: body).length : Nat) : Int) >
      ((tlv 0x30 (idTlv tid ++ op :: body)).length : Nat) := by
    rw [hall]
    omega
  have htag : buf.rd ((p : Int) + 1 + l) = .ok 0x02 := by exact_mod_cast hid.rd
  have hcount : buf.rd ((p : Int) + 1 + l + 1) = .ok (UInt8.ofNat (idSize tid)) := by
    exact_mod_cast hid.tail.rd
  have htid : decodeTid buf (idSize tid) ((p : Int) + 1 + l + 2) 0 =
      .ok (UInt32.ofNat tid.toNat) := by
    have hoctets := decodeTid_eq 0 hid.tail.tail
    rw [octets_length, beVal_idOctets hpos hlt, UInt32.zero_add] at hoctets
    exact_mod_cast hoctets
  have hopd : buf.rd ((p : Int) + 1 + l + 2 + idSize tid) = .ok op := by
    have := hop.rd
    exact_mod_cast this
  refine ⟨p + 1 + l + 2 + idSize tid, hop, ?_, ?_⟩
  · rw [hall, List.length_append, idTlv_length]
    omega
  · have hstart : buf.rd (p : Int) = .ok 0x30 := h.rd
    have hlength' : findLength buf ((p : Int) + 1) =
        .ok (((idTlv tid ++ op :: body).length : Nat), (p : Int) + 1 + l) := by
      exact_mod_cast hlength
    simp only [ldapDecodeRequest, frameAt, hstart, hlength', ok_bind, ne_eq, not_true_eq_false,
      if_false, hnot, henv, htag, hcount, schar_ofNat (show idSize tid < 128 by omega),
      Int.toNat_natCast, htid, hopd, decodeFrom]
    push_cast
    rfl

end CassandraApi.Ldap
