/-
# `Ldap.Controlled` — no controls come through

Seven generators take a list of controls, and put it behind the operation.  The
decoder reads each of the operations to its end, except that it stops before the
new superior of a rename; so it comes to the controls, and then reads on behind
the frame (`decodeControls_at_end`).  In a block that ends with the frame no list
of controls is decoded (`no_controls_survive`).
-/
import CassandraApi.Ldap.Rename
import CassandraApi.Ldap.Searching
import CassandraApi.Ldap.WriteRequests

namespace CassandraApi.Ldap

open C Ber

/-! ## Requests with controls -/

/-- What the generators that take controls are asked to send. -/
inductive Controlled where
  | write (r : WriteRequest) (list : Option BER) (freeFlag : Bool)
  | rename (entry newRdn : List UInt8) (deleteOldRdn : Bool) (newSuperior : Option (List UInt8))
  | search (dn : List UInt8) (scope : String) (filterTag : UInt8) (filter : List UInt8)
      (names : List (List UInt8)) (deref : UInt8)
  | extendedCommon (oid extAttr : List UInt8)

namespace Controlled

/-- The search that is sent: no limits, and values as well as types. -/
def sentSearch (dn : List UInt8) (scope : String) (filterTag : UInt8) (filter : List UInt8)
    (names : List (List UInt8)) (deref : UInt8) : Search where
  base := dn
  scope := scopeOctet scope
  deref := deref
  size := [0]
  time := [0]
  types := 0
  filterTag := filterTag
  filter := filter
  names := names

def generate (tid : Int) (ber : Option BER) (controls : List Control) :
    Controlled → Except Fault (Int × BER)
  | .write r list freeFlag => r.generate tid ber list freeFlag controls
  | .rename entry newRdn deleteOldRdn newSuperior =>
      Rename.generate tid ber ⟨entry, newRdn, deleteOldRdn, newSuperior, controls⟩
  | .search dn scope filterTag filter names deref =>
      ldapGenSearchRequest true tid ber dn scope (tlv filterTag filter) (valsOctets names) deref
        controls
  | .extendedCommon oid extAttr =>
      ldapGenExtendedCommonRequest true tid ber oid (some extAttr) extAttr.length controls

/-- The arguments are ones that the generators and the decoder have room for. -/
def Sendable : Controlled → Prop
  | .write r list _ => r.Sendable ∧ BER.bytes list = []
  | .rename _ _ _ _ => True
  | .search dn scope filterTag filter names deref =>
      (sentSearch dn scope filterTag filter names deref).Regular
  | .extendedCommon oid _ => oid.length < ldapMaxOidSize

/-- The message is generated, and the controls are decoded from it where nothing lies behind its
frame: to read on there is a fault. -/
def ControlsSurvive (tid : Int) (ber : Option BER) (controls : List Control) (env : DecodeEnv)
    (q : Controlled) : Prop :=
  ∃ b out msg, q.generate tid ber controls = .ok (tidIncrement tid, b) ∧
    ldapDecodeRequest env (frameAt (.ofList b.berval) 0 b.berval.length) = .ok (out, some msg) ∧
    List.Forall₂ DecodedControl.IsOf msg.controls controls

end Controlled

/-! ## Searches and extended requests -/

theorem ldapGenExtendedCommonRequest_generated {tid : Int} (h0 : 0 ≤ tid)
    (hmax : tid < 0x7fffffff) (ber : Option BER) (controls : List Control)
    (oid extAttr : List UInt8) :
    Generated (tidIncrement tid) (messageContent (tidIncrement tid)
      (tlv 0x77 (tlv 0x80 oid ++ tlv 0x81 extAttr)) controls)
      (ldapGenExtendedCommonRequest true tid ber oid (some extAttr) extAttr.length controls) := by
  have hgen := genOperation_generated h0 hmax ber controls 0x77 (tlv 0x80 oid ++ tlv 0x81 extAttr)
  have hvalue := tlv_length 0x81 extAttr
  have hoid := tlv_length 0x80 oid
  have hcontent : (tlv 0x80 oid).length + (tlv 0x81 extAttr).length ≤
      (messageContent (tidIncrement tid)
        (tlv 0x77 (tlv 0x80 oid ++ tlv 0x81 extAttr)) controls).length := by
    simp only [messageContent, List.length_append, tlv_length 0x77]
    omega
  have hbody : extAttr.length + (0x81 :: lengthOctets extAttr.length).length +
      (0x80 :: lengthOctets oid.length).length + oid.length =
        (tlv 0x80 oid ++ tlv 0x81 extAttr).length := by
    rw [List.length_append, hvalue, hoid, List.length_cons, List.length_cons]
    omega
  have hshape : (0x80 :: lengthOctets oid.length) ++ oid ++
      (0x81 :: lengthOctets extAttr.length) ++ extAttr = tlv 0x80 oid ++ tlv 0x81 extAttr := by
    simp only [tlv, List.append_assoc, List.cons_append]
  have hbytes : readBytes extAttr.length (some extAttr) = .ok extAttr := by
    simp only [readBytes, le_refl, if_true, List.take_length]
  unfold ldapGenExtendedCommonRequest
  simp only [Option.isSome_some, true_or, if_true]
  rw [insertLength_eq_ite extAttr.length]
  split
  · rw [ok_bind, insertLength_eq_ite oid.length]
    split
    · simp only [ok_bind, hbody, hbytes, hshape]
      exact hgen
    · rw [error_bind]
      exact .stuck (by omega)
  · rw [error_bind]
    exact .stuck (by omega)

theorem sentSearch_generated {tid : Int} (h0 : 0 ≤ tid) (hmax : tid < 0x7fffffff)
    (ber : Option BER) (controls : List Control) (dn : List UInt8) (scope : String)
    (filterTag : UInt8) (filter : List UInt8) (names : List (List UInt8)) (deref : UInt8) :
    Generated (tidIncrement tid) (messageContent (tidIncrement tid) (tlv 0x63
      ((Controlled.sentSearch dn scope filterTag filter names deref).octets (createDn 0x04 dn)))
        controls)
      (ldapGenSearchRequest true tid ber dn scope (tlv filterTag filter) (valsOctets names) deref
        controls) := by
  have hgen := ldapGenSearchRequest_generated h0 hmax ber controls dn scope (tlv filterTag filter)
    (valsOctets names) deref
  have hzero : tlv 0x02 [0] = [0x02, 1, 0] := rfl
  simp only [Search.octets, Search.front, Controlled.sentSearch, hzero]
  exact hgen

/-! ## Coming to the controls -/

theorem decodeFrom_some {env : DecodeEnv} {buf : Block} {id : UInt32} {op : UInt8} {i : Int}
    {out : Outcome} {msg : LdapMessage} (h : decodeFrom env buf id op i = .ok (out, some msg)) :
    ∃ choice alt j, decodeOp env.value env.garbage env.depth buf op i =
      .ok (.ok (choice, alt, j)) ∧ decodeControls buf j = .ok msg.controls := by
  obtain ⟨d, hd, h⟩ := bind_eq_ok.1 h
  cases d with
  | error out' => cases h
  | ok d =>
    obtain ⟨choice, alt, j⟩ := d
    obtain ⟨controls, hcontrols, h⟩ := bind_eq_ok.1 h
    cases h
    exact ⟨choice, alt, j, hd, hcontrols⟩

/-- The decoder ends the operation `written` where it ends. -/
def EndsRight (env : DecodeEnv) (buf : Block) (op : UInt8) (written : List UInt8) : Prop :=
  ∀ (k : Nat) choice alt j, Holds buf k written →
    decodeOp env.value env.garbage env.depth buf op ((k + 1 : Nat) : Int) =
      .ok (.ok (choice, alt, j)) → j = ((k + written.length : Nat) : Int)

/-- Then it comes to the controls behind it. -/
theorem comes_to_controls {tid : Int} {controls : List Control} {op : UInt8}
    {written body : List UInt8} (hpos : 0 < tid) (hlt : tid < 2 ^ 31)
    (hwritten : written = op :: body)
    (hlen : (messageContent tid written controls).length < 2 ^ 24) {env : DecodeEnv} {buf : Block}
    {p : Nat} (henv : env.message = true) (ends : EndsRight env buf op written)
    (h : Holds buf p (tlv 0x30 (messageContent tid written controls))) {out : Outcome}
    {msg : LdapMessage} (hmsg : ldapDecodeRequest env
      (frameAt buf p (tlv 0x30 (messageContent tid written controls)).length) =
        .ok (out, some msg)) :
    ∃ k : Nat, Holds buf k (controlOctets controls) ∧
      k + (controlOctets controls).length =
        p + (tlv 0x30 (messageContent tid written controls)).length ∧
      decodeControls buf k = .ok msg.controls := by
  have hsplit : messageContent tid written controls =
      idTlv tid ++ op :: (body ++ controlOctets controls) := by
    rw [messageContent, hwritten, List.append_assoc, List.cons_append]
  rw [hsplit] at hlen h hmsg ⊢
  obtain ⟨k, hk, hend, hdecode⟩ := ldapDecodeRequest_operation henv hpos hlt hlen h
  rw [← List.cons_append, ← hwritten] at hk
  rw [hdecode] at hmsg
  obtain ⟨choice, alt, j, hop, hcontrols⟩ := decodeFrom_some hmsg
  rw [ends k choice alt j hk.left hop] at hcontrols
  refine ⟨k + written.length, hk.right, ?_, hcontrols⟩
  rw [← hend, hwritten]
  simp only [List.length_append, List.length_cons]
  omega

theorem endsRight_write {env : DecodeEnv} (buf : Block) {r : WriteRequest} (henv : env.value = true)
    (sendable : r.Sendable) (hsize : r.written.length < 2 ^ 24) :
    EndsRight env buf r.op r.written := by
  intro k choice alt j hk hop
  rw [henv, WriteRequest.decodeOp_written sendable hsize env.garbage env.depth hk] at hop
  cases hop
  rfl

theorem endsRight_extendedCommon {env : DecodeEnv} (buf : Block) {oid extAttr : List UInt8}
    (henv : env.value = true) (hoid : oid.length < ldapMaxOidSize)
    (hsize : (tlv 0x77 (tlv 0x80 oid ++ tlv 0x81 extAttr)).length < 2 ^ 24) :
    EndsRight env buf 0x77 (tlv 0x77 (tlv 0x80 oid ++ tlv 0x81 extAttr)) := by
  intro k choice alt j hk hop
  have hin := contents_lt hsize
  have hvalue : extAttr.length < 2 ^ 24 := by
    rw [List.length_append, tlv_length 0x81] at hin
    omega
  rw [henv] at hop
  simp only [decodeOp, decodeExtended_eq hin hoid hvalue hk.tail, andThen_ok, pure_eq_ok] at hop
  cases hop
  rw [tlv_end]

theorem endsRight_search (env : DecodeEnv) (buf : Block) {s : Search} (regular : s.Regular)
    (hlimits : s.size = [0] ∧ s.time = [0])
    (hsize : (tlv 0x63 (s.octets (createDn 0x04 s.base))).length < 2 ^ 24) :
    EndsRight env buf 0x63 (tlv 0x63 (s.octets (createDn 0x04 s.base))) := by
  intro k choice alt j hk hop
  have hsearch := decodeSearch_eq env.garbage env.depth regular hlimits.1 hlimits.2
    (contents_lt hsize)
    (fun j hj => requiredString_createDn ldapMaxDnSize "ldapsearch: malformat baseDn" (by decide) hj)
    hk.tail
  obtain ⟨d, hd, hop⟩ := bind_eq_ok.1 hop
  change decodeSearch env.garbage env.depth buf ((k + 1 : Nat) : Int) = .ok d at hd
  rw [hsearch] at hd
  obtain ⟨f, -, hd⟩ := bind_eq_ok.1 hd
  cases hd
  cases hop
  rw [tlv_end]

namespace Controlled

/-- In a block that ends with the frame the decoder comes to the controls, or to a tag that is
not theirs. -/
theorem decode_reaches {tid : Int} (h0 : 0 ≤ tid) (hmax : tid < 0x7fffffff) {ber : Option BER}
    {controls : List Control} {q : Controlled} (sendable : q.Sendable) {b : BER}
    (hgen : q.generate tid ber controls = .ok (tidIncrement tid, b)) {env : DecodeEnv}
    {buf : Block} {p : Nat} (henv : env.message = true ∧ env.value = true)
    (h : Holds buf p b.berval) {out : Outcome} {msg : LdapMessage}
    (hmsg : ldapDecodeRequest env (frameAt buf p b.berval.length) = .ok (out, some msg)) :
    ∃ (k : Nat) (before : List UInt8), Holds buf k (before ++ controlOctets controls) ∧
      k + (before ++ controlOctets controls).length = p + b.berval.length ∧
      (before = [] ∨ before.head? = some 0x04) ∧ allCtrlLen controls < 2 ^ 24 ∧
      decodeControls buf k = .ok msg.controls := by
  obtain ⟨hpos, hlt⟩ := tidIncrement_range h0 hmax
  have behind {op : UInt8} {written body : List UInt8} (hwritten : written = op :: body)
      (generated : Generated (tidIncrement tid)
        (messageContent (tidIncrement tid) written controls) (q.generate tid ber controls))
      (ends : written.length < 2 ^ 24 → EndsRight env buf op written) :
      ∃ (k : Nat) (before : List UInt8), Holds buf k (before ++ controlOctets controls) ∧
        k + (before ++ controlOctets controls).length = p + b.berval.length ∧
        (before = [] ∨ before.head? = some 0x04) ∧ allCtrlLen controls < 2 ^ 24 ∧
        decodeControls buf k = .ok msg.controls := by
    obtain ⟨hlen, hbytes⟩ := generated.ok hgen
    have hle := le_controlOctets_length controls
    have hparts : written.length + (controlOctets controls).length ≤
        (messageContent (tidIncrement tid) written controls).length := by
      simp only [messageContent, List.length_append]
      omega
    rw [hbytes] at h hmsg ⊢
    obtain ⟨k, hk, hend, hcontrols⟩ :=
      comes_to_controls hpos (by omega) hwritten hlen henv.1 (ends (by omega)) h hmsg
    exact ⟨k, [], hk, hend, .inl rfl, by omega, hcontrols⟩
  cases q with
  | write r list freeFlag =>
    obtain ⟨body, hbody⟩ := r.written_head
    exact behind hbody
      (WriteRequest.generate_generated h0 hmax ber sendable.2 freeFlag controls sendable.1)
      (endsRight_write buf henv.2 sendable.1)
  | rename entry newRdn deleteOldRdn newSuperior =>
    obtain ⟨hlen, -⟩ := rename_bytes h0 hmax hgen
    obtain ⟨k, hk, hend, hdecode⟩ := decode_rename h0 hmax hgen henv.1 h
    rw [hdecode] at hmsg
    obtain ⟨decoded, hcontrols, hmsg⟩ := bind_eq_ok.1 hmsg
    cases hmsg
    refine ⟨k, _, hk, hend, ?_, ?_, hcontrols⟩
    · cases newSuperior with
      | none => exact .inl rfl
      | some sup => exact .inr rfl
    · have hle := le_controlOctets_length controls
      simp only [messageContent, List.length_append] at hlen
      omega
  | search dn scope filterTag filter names deref =>
    exact behind rfl
      (sentSearch_generated h0 hmax ber controls dn scope filterTag filter names deref)
      (endsRight_search env buf sendable ⟨rfl, rfl⟩)
  | extendedCommon oid extAttr =>
    exact behind rfl (ldapGenExtendedCommonRequest_generated h0 hmax ber controls oid extAttr)
      (endsRight_extendedCommon buf henv.2 sendable)

end Controlled

/-- Whatever the request, no controls come back from its frame. -/
theorem no_controls_survive {tid : Int} (h0 : 0 ≤ tid) (hmax : tid < 0x7fffffff)
    (ber : Option BER) {controls : List Control} (hsome : controls ≠ []) {env : DecodeEnv}
    (henv : env.message = true ∧ env.value = true) {q : Controlled} (sendable : q.Sendable) :
    ¬ q.ControlsSurvive tid ber controls env := by
  rintro ⟨b, out, msg, hgen, hmsg, hcontrols⟩
  obtain ⟨k, before, hk, hend, hbefore, hlen, hread⟩ :=
    q.decode_reaches h0 hmax sendable hgen henv (Block.ofList_holds _) hmsg
  rw [Nat.zero_add] at hend
  rcases hbefore with rfl | hbefore
  · exact decodeControls_at_end hlen hk hend.symm hread hcontrols
  · obtain ⟨rest, rfl⟩ : ∃ rest, before = 0x04 :: rest := by
      cases before with
      | nil => cases hbefore
      | cons c rest => exact ⟨rest, by rw [Option.some.inj hbefore]⟩
    rw [decodeControls, hk.rd, ok_bind, if_neg (by decide)] at hread
    have hnil : [] = msg.controls := Except.ok.inj hread
    rw [← hnil] at hcontrols
    exact hsome (List.forall₂_nil_left_iff.1 hcontrols)

/-- A delete request with one control, which has neither a criticality nor a value. -/
theorem no_controls_survive_delete :
    ¬ (Controlled.write (.delete (ascii "cn=a")) none false).ControlsSurvive 0 none
      [⟨ascii "1.2", -1, []⟩] { depth := 0 } :=
  no_controls_survive (by decide) (by decide) none (by decide) ⟨rfl, rfl⟩ ⟨trivial, rfl⟩

theorem delete_control_lost :
    ¬ ∀ (q : Controlled) (controls : List Control), q.Sendable → controls ≠ [] →
      q.ControlsSurvive 0 none controls { depth := 0 } := by
  intro h
  obtain ⟨b, out, msg, hgen, hmsg, -⟩ := h (.write (.delete (ascii "cn=a")) none false)
    [⟨ascii "1.2", -1, []⟩] ⟨trivial, rfl⟩ (by decide)
  have heval : ((Controlled.write (.delete (ascii "cn=a")) none false).generate 0 none
      [⟨ascii "1.2", -1, []⟩] >>= fun r => ldapDecodeRequest { depth := 0 }
        (frameAt (.ofList r.2.berval) 0 r.2.berval.length)).isOk = false := by
    decide +kernel
  rw [hgen, ok_bind] at heval
  simp only [hmsg] at heval
  cases heval

end CassandraApi.Ldap
