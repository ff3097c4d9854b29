/-
# `Ldap.Encode` — the request generators of ldap_common.c

Every generator computes the lengths bottom-up in a running `sum` and only then
copies the pieces into the BER, outermost first:

    b_ldap  b_msg  b_<op>  …  controls

The lengths are sums the code computes by hand, not the lengths of what it
copies; that they agree is something to prove.  From the operation's header on,
all generators are the same (`finishRequest`).

A list of attributes, modifications or controls is a ring in the source, walked
from its first node; here it is the list of the nodes in that order.
-/
import CassandraApi.Ber.Write
import CassandraApi.C.CString
import CassandraApi.Ldap.Types

namespace CassandraApi.Ldap

open C Ber

/-! ## BER buffers -/

/-- A BER: `size` is the room for `berval` it was allocated with, `len` the length of the
list. -/
structure BER where
  size : Nat
  berval : List UInt8
  deriving DecidableEq

/-- `ADJUST_SIZE(_l, _s)`: up to a multiple of `s`. -/
def adjustSize (l s : Nat) : Nat := if 0 < l % s then l + (s - l % s) else l

/-- `ber_alloc_buffer`: room for `len` more bytes.  `alloc` says whether memory is available; no
caller looks at the result. -/
def berAllocBuffer (alloc : Bool) (ber : Option BER) (len : Nat) : Option BER :=
  match ber with
  | none => if alloc then some ⟨adjustSize len berBuffer, []⟩ else none
  | some b =>
      if b.berval.length + len > b.size ∧ alloc then
        some { b with size := adjustSize (b.berval.length + len) berBuffer }
      else some b

/-- `memcpy(ber->berval + ber->len, …); ber->len += …`. -/
def BER.append (b : BER) (bytes : List UInt8) : Except Fault BER :=
  if b.berval.length + bytes.length ≤ b.size then
    .ok { b with berval := b.berval ++ bytes }
  else .error .overrun

/-- The bytes of a BER, none when there is no BER. -/
def BER.bytes (ber : Option BER) : List UInt8 := (ber.map BER.berval).getD []

theorem berAllocBuffer_bytes {alloc : Bool} {ber : Option BER} {len : Nat} {b : BER}
    (h : berAllocBuffer alloc ber len = some b) : b.berval = BER.bytes ber := by
  unfold berAllocBuffer at h
  split at h
  · split at h
    · cases h
      rfl
    · cases h
  · split at h <;> cases h <;> rfl

theorem BER.append_ok {b b' : BER} {bytes : List UInt8} (h : b.append bytes = .ok b') :
    b' = { b with berval := b.berval ++ bytes } := by
  unfold BER.append at h
  split at h
  · exact (Except.ok.inj h).symm
  · cases h

/-! ## Message ids -/

/-- `tid_increment`, for the counter of a client. -/
def tidIncrement (tid : Int) : Int :=
  let tid := int32 (tid + 1)
  let tid := if tid = 0 then 1 else tid
  if tid ≥ 0x7FFFFFFF then 1 else tid

theorem tidIncrement_range {tid : Int} (h : 0 ≤ tid) (h' : tid < 0x7FFFFFFF) :
    0 < tidIncrement tid ∧ tidIncrement tid < 0x7FFFFFFF := by
  unfold tidIncrement
  rw [int32_of_range (by omega) (by omega)]
  simp only
  split <;> split <;> omega

/-! ## Controls -/

/-- `Control`.  The bytes of `control_value.value` behind its length are 0. -/
structure Control where
  controlType : List UInt8
  criticality : Int
  controlValue : List UInt8
  deriving DecidableEq

/-- `control_value.value[0] != 0` -/
def Control.hasValue (c : Control) : Bool := c.controlValue.head?.getD 0 ≠ 0

/-- `bsize` -/
def Control.bsize (c : Control) : Nat :=
  2 + c.controlType.length + (if c.criticality ≠ -1 then 3 else 0) +
    (if c.hasValue then 2 + c.controlValue.length else 0)

/-- `all_ctrl_len` -/
def allCtrlLen (controls : List Control) : Nat :=
  ((controls.filter (·.controlType ≠ [])).map (·.bsize + 2)).sum

/-- One control; its lengths are written as single octets. -/
def Control.encode (c : Control) : List UInt8 :=
  [0x30, UInt8.ofNat c.bsize, 0x04, UInt8.ofNat c.controlType.length] ++ c.controlType ++
    (if c.criticality ≠ -1 then [0x01, 0x01, if c.criticality = 1 then 0xff else 0x00] else []) ++
    (if c.hasValue then [0x04, UInt8.ofNat c.controlValue.length] ++ c.controlValue else [])

/-- `b_control` and the controls behind it. -/
def encodeControls (controls : List Control) : Except Fault (List UInt8) := do
  if 0 < allCtrlLen controls then
    let L ← insertLength (allCtrlLen controls)
    pure (0xa0 :: L ++ (controls.filter (·.controlType ≠ [])).flatMap Control.encode)
  else pure []

/-- What the controls add to `sum`. -/
def controlsSum (controls : List Control) : Except Fault Nat := do
  if 0 < allCtrlLen controls then
    let L ← insertLength (allCtrlLen controls)
    pure ((0xa0 :: L).length + allCtrlLen controls)
  else pure 0

/-! ## The common end of the generators -/

/-- From `tid_increment` on: the message id, the controls, CREATE_LDAP, and the copy into the
BER.  `op` is the operation's header, `sum` the length of the operation with it, `rest` what is
copied behind it. -/
def finishRequest (alloc : Bool) (tid : Int) (ber : Option BER) (controls : List Control)
    (op : List UInt8) (sum : Nat) (rest : List UInt8) : Except Fault (Int × BER) := do
  let tid := tidIncrement tid
  let bMsg ← berTidCreate tid
  let sum := sum + bMsg.length + (← controlsSum controls)
  let L ← insertLength sum
  let bLdap := 0x30 :: L
  let sum := sum + bLdap.length
  match berAllocBuffer alloc ber sum with
  | none => throw .null
  | some b => do
      let b ← BER.append { b with berval := [] } (bLdap ++ bMsg ++ op ++ rest)
      let b ← b.append (← encodeControls controls)
      pure (tid, b)

/-- CREATE_DN: the string's length is in `r` when INSERT_LENGTH is called with it, and `r` bytes
are copied afterwards. -/
def createDn (tag : UInt8) (dn : List UInt8) : List UInt8 :=
  let (L, r) := insertLengthOfScratch dn.length
  tag :: L ++ dn.take r

/-! ## Requests -/

/-- LDAP_gen_add_request and LDAP_gen_modify_request: an entry's name and a list. -/
def genEntryRequest (tag : UInt8) (alloc : Bool) (tid : Int) (ber : Option BER)
    (dn attrs : List UInt8) (controls : List Control) : Except Fault (Int × BER) := do
  let sum := attrs.length
  let L ← insertLength sum
  let bAttr := 0x30 :: L
  let sum := sum + bAttr.length
  let bDn := createDn 0x04 dn
  let sum := sum + bDn.length
  let L ← insertLength sum
  let bOp := tag :: L
  finishRequest alloc tid ber controls bOp (sum + bOp.length) (bDn ++ bAttr ++ attrs)

def ldapGenAddRequest := genEntryRequest 0x68

def ldapGenModifyRequest := genEntryRequest 0x66

def ldapGenDeleteRequest (alloc : Bool) (tid : Int) (ber : Option BER) (dn : List UInt8)
    (controls : List Control) : Except Fault (Int × BER) :=
  let bDel := createDn 0x4a dn
  finishRequest alloc tid ber controls bDel bDel.length []

/-- LDAP_gen_moddn_request; `sup` is NULL or a string. -/
def ldapGenModdnRequest (alloc : Bool) (tid : Int) (ber : Option BER) (dn rdn : List UInt8)
    (deleteFlag : Int) (sup : Option (List UInt8)) (controls : List Control) :
    Except Fault (Int × BER) := do
  let bDn := createDn 0x04 dn
  let bRdn := createDn 0x04 rdn
  let bDel : List UInt8 := [1, 1, if deleteFlag = 1 then 1 else 0]
  let sum := bDn.length + bRdn.length + 3
  let bSup := (sup.map (createDn 0x04)).getD []
  let sum := sum + bSup.length
  let L ← insertLength sum
  let bMod := 0x6c :: L
  finishRequest alloc tid ber controls bMod (sum + bMod.length) (bDn ++ bRdn ++ bDel ++ bSup)

/-- `memcpy(…, ext_attr, elen)` -/
def readBytes (elen : Nat) : Option (List UInt8) → Except Fault (List UInt8)
  | none => if elen = 0 then .ok [] else .error .null
  | some bytes => if elen ≤ bytes.length then .ok (bytes.take elen) else .error .read

def ldapGenExtendedRequest (alloc : Bool) (tid : Int) (ber : Option BER) (oid : List UInt8)
    (extAttr : Option (List UInt8)) (elen : Nat) (controls : List Control) :
    Except Fault (Int × BER) := do
  let wrapped := extAttr.isSome ∨ elen = 0
  let sum := elen
  let L ← insertLength sum
  let bAttr := if wrapped then 0x30 :: L else []
  let sum := sum + bAttr.length
  let L ← insertLength sum
  let bAttrall := 0x81 :: L
  let sum := sum + bAttrall.length
  let L ← insertLength oid.length
  let bOid := 0x80 :: L
  let sum := sum + bOid.length + oid.length
  let L ← insertLength sum
  let bExt := 0x77 :: L
  let ext ← if wrapped then readBytes elen extAttr else pure []
  finishRequest alloc tid ber controls bExt (sum + bExt.length)
    (bOid ++ oid ++ bAttrall ++ bAttr ++ ext)

/-- LDAP_gen_extended_common_request: the value is not wrapped in a sequence. -/
def ldapGenExtendedCommonRequest (alloc : Bool) (tid : Int) (ber : Option BER) (oid : List UInt8)
    (extAttr : Option (List UInt8)) (elen : Nat) (controls : List Control) :
    Except Fault (Int × BER) := do
  let sum := elen
  let L ← insertLength sum
  let bAttrall := 0x81 :: L
  let sum := sum + bAttrall.length
  let L ← insertLength oid.length
  let bOid := 0x80 :: L
  let sum := sum + bOid.length + oid.length
  let L ← insertLength sum
  let bExt := 0x77 :: L
  let ext ← if extAttr.isSome ∨ elen = 0 then readBytes elen extAttr else pure []
  finishRequest alloc tid ber controls bExt (sum + bExt.length) (bOid ++ oid ++ bAttrall ++ ext)

/-- `objectClass=*`, what LDAP_gen_search_request writes for the object `*`. -/
def presentObjectClass : List UInt8 := 0x87 :: 11 :: ascii "objectClass"

/-- The scopes by their names; anything else is a base search. -/
def scopeOctet (scope : String) : UInt8 :=
  if scope = "one" then 0x01 else if scope = "sub" then 0x02 else 0x00

/-- LDAP_gen_search_request, the filter being encoded already. -/
def ldapGenSearchRequest (alloc : Bool) (tid : Int) (ber : Option BER) (dn : List UInt8)
    (scope : String) (filt attrs : List UInt8) (derefValue : UInt8) (controls : List Control) :
    Except Fault (Int × BER) := do
  let sum := attrs.length
  let L ← insertLength sum
  let bAttr := 0x30 :: L
  -- the filter, and five fields of three bytes each
  let sum := sum + bAttr.length + filt.length + 3 + 3 + 3 + 3 + 3
  let bDn := createDn 0x04 dn
  let sum := sum + bDn.length
  let L ← insertLength sum
  let bSearch := 0x63 :: L
  finishRequest alloc tid ber controls bSearch (sum + bSearch.length)
    (bDn ++ [0x0a, 1, scopeOctet scope] ++ [0x0a, 1, derefValue] ++ [0x02, 1, 0] ++
      [0x02, 1, 0] ++ [0x01, 1, 0] ++ filt ++ bAttr ++ attrs)

/-! ## Lists of attributes and of modifications -/

/-- A node of a BER_ATTRLIST. -/
structure Attr where
  name : List UInt8
  vals : List (List UInt8)
  deriving DecidableEq

/-- A node of a BER_MODLIST. -/
structure Mod where
  operation : Int
  name : List UInt8
  vals : List (List UInt8)
  deriving DecidableEq

def ldapMaxAttrNameSize : Nat := 256

/-- `name`: an array of LDAP_MAX_ATTR_NAME_SIZE + 2 bytes. -/
def encodeName (name : List UInt8) : Except Fault (List UInt8) := do
  let L ← insertLength name.length
  let bytes := 0x04 :: L ++ name
  if bytes.length ≤ ldapMaxAttrNameSize + 2 then pure bytes else throw .overrun

/-- The loop over the values, into `buff`, an array of BER_BUFFER bytes.  `r` is the scratch
variable. -/
def encodeVals : List (List UInt8) → List UInt8 → Nat → Except Fault (List UInt8 × Nat)
  | [], buff, r => pure (buff, r)
  | v :: vs, buff, r => do
      let L ← insertLength v.length
      let buff := buff ++ (0x04 :: L ++ v)
      if buff.length ≤ berBuffer then encodeVals vs buff (scratchAfter v.length r)
      else throw .overrun

/-- The size of a tag and a length for `len` bytes, counted from wherever `r` stands. -/
def headerSize (len r : Nat) : Except Fault (Nat × Nat) := do
  if len < 128 then pure (2, r)
  else
    let r ← octetsFrom len r
    pure (2 + r, r)

/-- One turn of LDAP_gen_ber_attrlist. -/
def encodeAttr (a : Attr) (ber : BER) (r : Nat) : Except Fault (BER × Nat) := do
  let name ← encodeName a.name
  let r := scratchAfter a.name.length r
  if a.vals = [] then throw .null
  let (buff, r) ← encodeVals a.vals [] r
  let vlen := buff.length
  let (tlen, r) ← headerSize vlen r
  let sum := name.length + vlen + tlen
  let ber ← ber.append (0x30 :: (← insertLength sum))
  let r := scratchAfter sum r
  let ber ← ber.append name
  let ber ← ber.append (0x31 :: (← insertLength vlen))
  let r := scratchAfter vlen r
  let ber ← ber.append buff
  pure (ber, r)

/-- One turn of LDAP_gen_ber_modlist. -/
def encodeMod (m : Mod) (ber : BER) (r : Nat) : Except Fault (BER × Nat) := do
  let name ← encodeName m.name
  let mlen := name.length
  let r := scratchAfter m.name.length r
  let (buff, r) ← encodeVals m.vals [] r
  let vlen := buff.length
  let (tlen, r) ← headerSize vlen r
  let sum := mlen + vlen + tlen
  let (slen, r) ← headerSize sum r
  let sum := sum + slen + 3
  let ber ← ber.append (0x30 :: (← insertLength sum))
  let r := scratchAfter sum r
  let ber ← ber.append [0x0a, 1, toChar m.operation]
  let tlen := tlen + vlen + mlen
  let ber ← ber.append (0x30 :: (← insertLength tlen))
  let r := scratchAfter tlen r
  let ber ← ber.append name
  let ber ← ber.append (0x31 :: (← insertLength vlen))
  let r := scratchAfter vlen r
  let ber ← ber.append buff
  pure (ber, r)

/-- The `do … while` over the nodes; `turn` is its body. -/
def encodeNodes {ν : Type} (turn : ν → BER → Nat → Except Fault (BER × Nat)) :
    List ν → BER → Nat → Except Fault BER
  | [], ber, _ => pure ber
  | n :: ns, ber, r => do
      let (ber, r) ← turn n ber r
      encodeNodes turn ns ber r

/-- LDAP_gen_ber_attrlist and LDAP_gen_ber_modlist, with the list that the caller is left with:
`free_flag` frees the nodes on the way.  `buff` and `alloc` say whether memory is available for
the array of values and for the BER. -/
def genBerList {ν : Type} (turn : ν → BER → Nat → Except Fault (BER × Nat)) (buff alloc : Bool)
    (nodes : List ν) (ber : Option BER) (freeFlag : Bool) :
    Except Fault (RetCode × Option BER × List ν) :=
  if nodes.isEmpty then .ok (.errEncode, ber, nodes)
  else if ¬ buff then .ok (.errMemory, ber, nodes)
  else match berAllocBuffer alloc ber berBuffer with
    | none => .error .null
    | some b => do
        let b ← encodeNodes turn nodes b 0
        pure (.ok, some b, if freeFlag then [] else nodes)

def ldapGenBerAttrlist := genBerList encodeAttr

def ldapGenBerModlist := genBerList encodeMod

end CassandraApi.Ldap
