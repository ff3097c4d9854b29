/-
# `Ldap.Rename` — rename requests across the wire

LDAP_gen_moddn_request writes

    6c L  04 a entry  04 b newRdn  01 01 flag  [04 c newSuperior]

and ldap_decode_request reads as far as the flag; then it looks for controls.  A
new superior is not decoded, and hides the controls behind it.  Strings of 256
bytes and more do not get onto the wire (`createDn_lost`), and controls are not
read back (`Ldap.Controls`).
-/
import CassandraApi.Ldap.Controls
import CassandraApi.Ldap.Reading

namespace CassandraApi.Ldap

open C Ber

/-! ## Rename requests -/

/-- What LDAP_gen_moddn_request is asked to send. -/
structure Rename where
  entry : List UInt8
  newRdn : List UInt8
  deleteOldRdn : Bool
  newSuperior : Option (List UInt8)
  controls : List Control

namespace Rename

def deleteFlag (r : Rename) : Int := if r.deleteOldRdn then 1 else 0

def generate (tid : Int) (ber : Option BER) (r : Rename) : Except Fault (Int × BER) :=
  ldapGenModdnRequest true tid ber r.entry r.newRdn r.deleteFlag r.newSuperior r.controls

/-- The message is the request with this id.  NULL and the empty new superior are the same. -/
def IsIn (r : Rename) (tid : Int) (msg : LdapMessage) : Prop :=
  msg.choice = .modifydnRequest ∧ msg.messageId = UInt32.ofNat tid.toNat ∧
    msg.alt = .modDnRequest r.entry r.newRdn (r.newSuperior.getD []) r.deleteFlag ∧
    List.Forall₂ DecodedControl.IsOf msg.controls r.controls

/-- The request is generated and decoded again, wherever its bytes lie and whatever lies around
them; only that the byte behind a request without controls is not taken for a tag of controls. -/
def Survives (tid : Int) (ber : Option BER) (r : Rename) : Prop :=
  ∃ b, r.generate tid ber = .ok (tidIncrement tid, b) ∧
    ∀ (env : DecodeEnv) (buf : Block) (p : Nat), env.message = true → Holds buf p b.berval →
      (r.controls = [] → ∃ c, c ≠ 0xa0 ∧ Holds buf (p + b.berval.length) [c]) →
      ∃ msg, ldapDecodeRequest env (frameAt buf p b.berval.length) =
        .ok (⟨.dataAvailable, none⟩, some msg) ∧ r.IsIn (tidIncrement tid) msg

end Rename

/-! ## The operation -/

/-- The operation's contents, up to the new superior. -/
def renameFront (r : Rename) : List UInt8 :=
  createDn 0x04 r.entry ++ createDn 0x04 r.newRdn ++ [1, 1, if r.deleteFlag = 1 then 1 else 0]

/-- And the new superior. -/
def renameSuperior (r : Rename) : List UInt8 := (r.newSuperior.map (createDn 0x04)).getD []

theorem schar_deleteFlag (r : Rename) :
    schar (if r.deleteFlag = 1 then 1 else 0) = r.deleteFlag := by
  unfold Rename.deleteFlag
  cases r.deleteOldRdn <;> decide

/-- The decoder reads the two strings and the flag, and goes on behind the flag. -/
theorem decodeModDn_eq {buf : Block} {i n : Nat} {rest : List UInt8} (r : Rename) (hn : n < 2 ^ 24)
    (h : Holds buf i (lengthOctets n ++ (renameFront r ++ rest))) :
    decodeModDn buf i = .ok (.ok (.modDnRequest (sent r.entry) (sent r.newRdn) [] r.deleteFlag,
      ((i + (lengthOctets n).length + (renameFront r).length : Nat) : Int))) := by
  have hlen := findLength_eq (lengthOctets_defLen hn) (by omega) h.left
  rw [← Nat.cast_add] at hlen
  have hfront : Holds buf (i + (lengthOctets n).length) (renameFront r) := h.right.left
  generalize i + (lengthOctets n).length = k at *
  unfold renameFront at hfront ⊢
  have hflag : Holds buf (k + (createDn 0x04 r.entry ++ createDn 0x04 r.newRdn).length)
      [1, 1, if r.deleteFlag = 1 then 1 else 0] := hfront.right
  rw [List.length_append, ← Nat.add_assoc] at hflag
  have hentry := requiredString_createDn ldapMaxOidSize "ldapadd: malformat object" (by decide)
    hfront.left.left
  have hrdn := requiredString_createDn ldapMaxDnSize "ldapadd: malformat object" (by decide)
    hfront.left.right
  have hsmall := smallField_eq "ldapsearch: malformat typeOnly" hflag
  rw [schar_deleteFlag] at hsmall
  simp only [decodeModDn, hlen, ok_bind, hentry, hrdn, hsmall, andThen_ok, pure_eq_ok,
    List.length_append, List.length_cons, List.length_nil]
  congr 4
  omega

/-- The bytes of a generated request, from the message id on. -/
theorem rename_bytes {tid : Int} (h0 : 0 ≤ tid) (hmax : tid < 0x7fffffff) {ber : Option BER}
    {r : Rename} {b : BER} (h : r.generate tid ber = .ok (tidIncrement tid, b)) :
    (messageContent (tidIncrement tid) (tlv 0x6c (renameFront r ++ renameSuperior r))
      r.controls).length < 2 ^ 24 ∧
    b.berval = tlv 0x30 (messageContent (tidIncrement tid)
      (tlv 0x6c (renameFront r ++ renameSuperior r)) r.controls) := by
  have hgen := ldapGenModdnRequest_generated h0 hmax ber r.controls r.entry r.newRdn r.deleteFlag
    r.newSuperior
  change Generated _ (messageContent _ (tlv 0x6c (renameFront r ++ renameSuperior r)) _)
    (r.generate tid ber) at hgen
  unfold Generated at hgen
  split at hgen
  · rename_i hlen
    obtain ⟨size, hsize⟩ := hgen
    rw [h] at hsize
    cases hsize
    exact ⟨hlen, rfl⟩
  · rw [h] at hgen
    cases hgen

/-- What the decoder makes of a generated request. -/
theorem decode_rename {tid : Int} (h0 : 0 ≤ tid) (hmax : tid < 0x7fffffff) {ber : Option BER}
    {r : Rename} {b : BER} (hgen : r.generate tid ber = .ok (tidIncrement tid, b))
    {env : DecodeEnv} {buf : Block} {p : Nat} (henv : env.message = true)
    (h : Holds buf p b.berval) :
    ∃ k : Nat, Holds buf k (renameSuperior r ++ controlOctets r.controls) ∧
      k + (renameSuperior r ++ controlOctets r.controls).length = p + b.berval.length ∧
      ldapDecodeRequest env (frameAt buf p b.berval.length) = (do
        let controls ← decodeControls buf k
        pure (⟨.dataAvailable, none⟩, some ⟨.modifydnRequest,
          UInt32.ofNat (tidIncrement tid).toNat,
          .modDnRequest (sent r.entry) (sent r.newRdn) [] r.deleteFlag, controls⟩)) := by
  obtain ⟨hpos, hlt⟩ := tidIncrement_range h0 hmax
  obtain ⟨hlen, hbytes⟩ := rename_bytes h0 hmax hgen
  have hsplit : messageContent (tidIncrement tid) (tlv 0x6c (renameFront r ++ renameSuperior r))
      r.controls = idTlv (tidIncrement tid) ++ 0x6c ::
        (lengthOctets (renameFront r ++ renameSuperior r).length ++
          (renameFront r ++ (renameSuperior r ++ controlOctets r.controls))) := by
    simp only [messageContent, tlv, List.append_assoc, List.cons_append]
  rw [hsplit] at hlen hbytes
  rw [hbytes] at h ⊢
  obtain ⟨k, hk, hend, hdecode⟩ := ldapDecodeRequest_operation henv hpos (by omega) hlen h
  have hbody := hk.tail
  have hn : (renameFront r ++ renameSuperior r).length < 2 ^ 24 := by
    simp only [List.length_append, List.length_cons] at hlen ⊢
    omega
  have hop := decodeModDn_eq r hn hbody
  refine ⟨k + 1 + (lengthOctets (renameFront r ++ renameSuperior r).length).length +
    (renameFront r).length, hbody.right.right, ?_, ?_⟩
  · rw [← hend]
    simp only [List.length_append, List.length_cons]
    omega
  · rw [hdecode]
    simp only [decodeFrom, decodeOp, hop, andThen_ok, ok_bind, pure_eq_ok]

/-! ## What survives -/

/-- The bytes of a request, and a zero behind them when it has no controls. -/
def onWire (r : Rename) (b : BER) : List UInt8 :=
  b.berval ++ if r.controls = [] then [0] else []

/-- Where there is no other byte behind the controls, they do not survive. -/
theorem Rename.Survives.no_controls {tid : Int} (h0 : 0 ≤ tid) (hmax : tid < 0x7fffffff)
    {ber : Option BER} {r : Rename} (h : r.Survives tid ber) :
    sent r.entry = r.entry ∧ sent r.newRdn = r.newRdn ∧ r.newSuperior.getD [] = [] ∧
      r.controls = [] := by
  obtain ⟨b, hgen, hall⟩ := h
  obtain ⟨hlen, -⟩ := rename_bytes h0 hmax hgen
  let buf := Block.ofList (onWire r b)
  have hbuf : Holds buf 0 (onWire r b) := Block.ofList_holds _
  have hbehind : r.controls = [] → ∃ c, c ≠ 0xa0 ∧ Holds buf (0 + b.berval.length) [c] := by
    intro hnil
    refine ⟨0, by decide, ?_⟩
    have hright := hbuf.right
    rwa [if_pos hnil] at hright
  obtain ⟨msg, hmsg, -, -, halt, hcontrols⟩ :=
    hall { depth := 0 } buf 0 rfl hbuf.left hbehind
  obtain ⟨k, hk, hend, hdecode⟩ :=
    decode_rename h0 hmax hgen (show DecodeEnv.message { depth := 0 } = true from rfl) hbuf.left
  rw [hdecode] at hmsg
  obtain ⟨controls, hread, hpure⟩ := bind_eq_ok.1 hmsg
  cases hpure
  obtain ⟨hentry, hrdn, hsup⟩ : sent r.entry = r.entry ∧ sent r.newRdn = r.newRdn ∧
      [] = r.newSuperior.getD [] := by
    simpa using halt
  refine ⟨hentry, hrdn, hsup.symm, ?_⟩
  by_contra hsome
  cases hnew : r.newSuperior with
  | none =>
    -- the decoder goes on behind the last control
    have hctrl : allCtrlLen r.controls < 2 ^ 24 := by
      have hle := le_controlOctets_length r.controls
      simp only [messageContent, List.length_append] at hlen
      omega
    simp only [renameSuperior, hnew, Option.map_none, Option.getD_none, List.nil_append] at hk hend
    refine decodeControls_at_end hctrl hk ?_ hread hcontrols
    rw [hend]
    simp [buf, Block.ofList, onWire, hsome]
  | some sup =>
    -- it sees the tag of the new superior and no controls
    have htag : buf.rd k = .ok 0x04 := by
      simp only [renameSuperior, hnew, Option.map_some, Option.getD_some] at hk
      obtain ⟨rest, hrest⟩ := createDn_head 0x04 sup
      rw [hrest] at hk
      exact hk.rd
    rw [decodeControls, htag, ok_bind, if_neg (by decide)] at hread
    cases hread
    exact hsome (List.forall₂_nil_left_iff.1 hcontrols)

/-- The generator takes what is short enough. -/
theorem Rename.generate_ok {tid : Int} (h0 : 0 ≤ tid) (hmax : tid < 0x7fffffff)
    (ber : Option BER) (r : Rename) (hentry : r.entry.length < 256) (hrdn : r.newRdn.length < 256)
    (hsup : r.newSuperior.getD [] = []) (hcontrols : r.controls = []) :
    ∃ b, r.generate tid ber = .ok (tidIncrement tid, b) := by
  have hgen := ldapGenModdnRequest_generated h0 hmax ber r.controls r.entry r.newRdn r.deleteFlag
    r.newSuperior
  have hid := idSize_range (tidIncrement tid)
  have hnone : (renameSuperior r).length ≤ 2 := by
    cases hnew : r.newSuperior with
    | none => simp [renameSuperior, hnew]
    | some sup =>
      rw [hnew, Option.getD_some] at hsup
      subst hsup
      simp only [renameSuperior, hnew, Option.map_some, Option.getD_some]
      decide
  have hlen : (messageContent (tidIncrement tid) (tlv 0x6c (renameFront r ++ renameSuperior r))
      r.controls).length < 2 ^ 24 := by
    have he := lengthOctets_length_le r.entry.length
    have hr := lengthOctets_length_le r.newRdn.length
    have ho := lengthOctets_length_le (renameFront r ++ renameSuperior r).length
    simp only [messageContent, hcontrols, controlOctets_nil, renameFront, createDn_eq hentry,
      createDn_eq hrdn, List.length_append, tlv_length, idTlv_length, List.length_cons,
      List.length_nil] at *
    omega
  change Generated _ (messageContent _ (tlv 0x6c (renameFront r ++ renameSuperior r)) _)
    (r.generate tid ber) at hgen
  rw [Generated, if_pos hlen] at hgen
  obtain ⟨size, hsize⟩ := hgen
  exact ⟨_, hsize⟩

/-- A rename survives the wire exactly when its strings are short enough for it, it has no new
superior, and no controls. -/
theorem rename_survives_iff {tid : Int} (h0 : 0 ≤ tid) (hmax : tid < 0x7fffffff)
    (ber : Option BER) (r : Rename) :
    r.Survives tid ber ↔
      r.entry.length < 256 ∧ r.newRdn.length < 256 ∧ r.newSuperior.getD [] = [] ∧
        r.controls = [] := by
  constructor
  · intro h
    obtain ⟨hentry, hrdn, hsup, hcontrols⟩ := h.no_controls h0 hmax
    exact ⟨(sent_eq_iff _).1 hentry, (sent_eq_iff _).1 hrdn, hsup, hcontrols⟩
  · intro ⟨hentry, hrdn, hsup, hcontrols⟩
    obtain ⟨b, hgen⟩ := r.generate_ok h0 hmax ber hentry hrdn hsup hcontrols
    refine ⟨b, hgen, fun env buf p henv h hbehind => ?_⟩
    obtain ⟨k, hk, hend, hdecode⟩ := decode_rename h0 hmax hgen henv h
    have hread : decodeControls buf k = .ok [] := by
      obtain ⟨c, hc, hbyte⟩ := hbehind hcontrols
      rw [hcontrols, controlOctets_nil, List.append_nil] at hk hend
      cases hnew : r.newSuperior with
      | none =>
        rw [renameSuperior, hnew, Option.map_none, Option.getD_none, List.length_nil,
          Nat.add_zero] at hend
        rw [← hend] at hbyte
        rw [decodeControls, hbyte.rd, ok_bind, if_neg hc]
        rfl
      | some sup =>
        obtain ⟨rest, hrest⟩ := createDn_head 0x04 sup
        rw [renameSuperior, hnew, Option.map_some, Option.getD_some, hrest] at hk
        rw [decodeControls, hk.rd, ok_bind, if_neg (by decide)]
        rfl
    rw [hdecode, hread]
    refine ⟨_, rfl, rfl, rfl, ?_, ?_⟩
    · simp only [(sent_eq_iff _).2 hentry, (sent_eq_iff _).2 hrdn, hsup]
    · rw [hcontrols]
      exact .nil

theorem rename_survives_iff_moved :
    Rename.Survives 0 none ⟨ascii "cn=a", ascii "cn=b", true, none, []⟩ ↔
      (ascii "cn=a").length < 256 ∧ (ascii "cn=b").length < 256 ∧
        (none : Option (List UInt8)).getD [] = [] ∧ ([] : List Control) = [] :=
  rename_survives_iff (by decide) (by decide) none ⟨ascii "cn=a", ascii "cn=b", true, none, []⟩

/-- A new superior does not survive. -/
theorem newSuperior_lost :
    ¬ Rename.Survives 0 none ⟨ascii "cn=a", ascii "cn=b", true, some (ascii "o=b"), []⟩ := by
  intro h
  have hsup := (h.no_controls (by decide) (by decide)).2.2.1
  exact absurd hsup (by decide)

end CassandraApi.Ldap
