/-
# `Ldap.DecodeRequest` — ldap_decode_request

The decoder walks one frame of the read buffer with an index `i` of its own:

    30 L  02 n id  <operation>  [a0 L controls]

and appends the message to `sess->rdata`.  It compares the length of the whole
frame with `r_ber_body_length` and no other length with anything, so it stays
in the frame only as long as the lengths inside say so; the controls are looked
for in the byte behind the operation, wherever that lies.

Fields of a message are the bytes copied into them, a NUL following.  A copy of
a length below 1 leaves a field as it was allocated, empty.
-/
import CassandraApi.Ldap.DecodeResponse
import CassandraApi.Ldap.Filter

namespace CassandraApi.Ldap

open C Ber

/-! ## Messages -/

/-- LDAP_PROTOCOL_OP, the requests. -/
inductive ProtocolOp where
  | bindRequest
  | searchRequest
  | modifyRequest
  | addRequest
  | deleteRequest
  | modifydnRequest
  | extendedRequest
  deriving DecidableEq, Repr

structure SearchRequest where
  baseObject : List UInt8
  scope : Int
  derefAliases : Int
  sizeLimit : Int
  timeLimit : Int
  typesOnly : Int
  /-- `none`: no filter was found where one is looked for -/
  filter : Option SearchFilter
  attributes : List (List UInt8)

/-- `alt` of an LDAPMessage_t. -/
inductive Alt where
  | none
  | searchRequest (r : SearchRequest)
  /-- ModifyRequest; a change without a modification has none -/
  | modifyRequest (object : List UInt8) (changes : List (Int × Option Attr))
  | addRequest (entry : List UInt8) (attributes : List Attr)
  | modDnRequest (entry newRdn newSuperior : List UInt8) (deleteOldRdn : Int)
  | deleteRequest (ldapDn : List UInt8)
  | extendedRequest (requestName : List UInt8) (requestValue : Option (List UInt8))

/-- A decoded control, with its flags. -/
structure DecodedControl where
  hasType : Bool
  controlType : List UInt8
  hasCriticality : Bool
  criticality : Int
  hasValue : Bool
  controlValue : List UInt8
  deriving DecidableEq

/-- LDAPMessage_t.  An operation that the server does not know leaves `choice` 0, that of a bind
request. -/
structure LdapMessage where
  choice : ProtocolOp := .bindRequest
  messageId : UInt32 := 0
  alt : Alt := .none
  controls : List DecodedControl := []

/-- An unknown error text and code, as the function leaves it. -/
def decodeError (e : String) : Outcome := ⟨.errDecode, some e⟩

/-! ## Pieces -/

/-- `if (len > 0) { memcpy(field, &ber[i], len); field[len] = 0; i += len; }` -/
def takeString (cap : Nat) (buf : Block) (i len : Int) : Except Fault (List UInt8 × Int) :=
  if 0 < len then do
    let s ← copyString cap buf i len
    pure (s, i + len)
  else .ok ([], i)

/-- FIND_LENGTH at `i`, and the string behind it. -/
def lengthString (cap : Nat) (buf : Block) (i : Int) : Except Fault (List UInt8 × Int) := do
  let (len, i) ← findLength buf i
  takeString cap buf i len

/-- `while (left > 0) if (ber[i++] == tag) { … left -= used; … }`, the loops over changes,
attributes, values and controls.  `used` is what is subtracted, from the octets of the length
and the length; `item` decodes what follows.  `turns` bounds the bytes of the block that are
left. -/
def decodeItems {ν : Type} (tag : UInt8) (used : Int → Int → Int)
    (item : Int → Int → Except Fault (ν × Int)) (buf : Block) :
    Nat → Int → Int → Except Fault (List ν × Int)
  | 0, _, _ => .error .stuck
  | turns + 1, left, i =>
      if 0 < left then do
        if (← buf.rd i) = tag then
          let (len, i') ← findLength buf (i + 1)
          let (x, j) ← item len i'
          let (xs, j) ← decodeItems tag used item buf turns
            (int32 (left - used (i' - (i + 1)) len)) j
          pure (x :: xs, j)
        else decodeItems tag used item buf turns left (i + 1)
      else pure ([], i)

/-- `1 + (i - j) + len`: tag, length and contents. -/
def wholeItem (h len : Int) : Int := 1 + h + len

/-- A name and a set of values. -/
def decodeAttr (buf : Block) (i : Int) : Except Fault (Attr × Int) := do
  let (name, i) ←
    if (← buf.rd i) = 0x04 then lengthString ldapMaxAttrNameSize buf (i + 1) else pure ([], i + 1)
  if (← buf.rd i) = 0x31 then
    let (len, i) ← findLength buf (i + 1)
    let (vals, i) ← decodeItems 0x04 wholeItem (fun len i => takeString ldapMaxAttrValueSize buf i len)
      buf (buf.size + 1) len i
    pure (⟨name, vals⟩, i)
  else pure (⟨name, []⟩, i + 1)

/-- A change of a modify request. -/
def decodeChange (buf : Block) (i : Int) : Except Fault ((Int × Option Attr) × Int) := do
  let (operation, i) ←
    if (← buf.rd i) = 0x0a then do
      let (_, i) ← findLength buf (i + 1)
      let c ← buf.rd i
      pure (schar c, i + 1)
    else pure (0, i + 1)
  if (← buf.rd i) = 0x30 then
    let (_, i) ← findLength buf (i + 1)
    let (attr, i) ← decodeAttr buf i
    pure ((operation, some attr), i)
  else pure ((operation, none), i + 1)

/-- The attribute names of a search.  Any other tag is met again and again. -/
def searchAttributes (buf : Block) : Nat → Int → Int → Except Fault (List (List UInt8) × Int)
  | 0, _, _ => .error .stuck
  | turns + 1, length, i =>
      if 0 < length then do
        if (← buf.rd i) ≠ 0x04 then .error .stuck
        else do
          let (len, lenSize, i) ← findLen buf (i + 1)
          let attr ← copyString ldapMaxAttrValueSize buf i len
          let (attrs, i) ← searchAttributes buf turns (int32 (length - len - lenSize - 2)) (i + len)
          pure (attr :: attrs, i)
      else pure ([], i)

/-- A field of three bytes, `tag 1 value`, of which the second is skipped. -/
def smallField (tag : UInt8) (e : String) (buf : Block) (i : Int) :
    Except Fault (Except Outcome (Int × Int)) := do
  if (← buf.rd i) = tag then
    let c ← buf.rd (i + 2)
    pure (.ok (schar c, i + 3))
  else pure (.error (decodeError e))

/-- A string that has to be there. -/
def requiredString (cap : Nat) (e : String) (buf : Block) (i : Int) :
    Except Fault (Except Outcome (List UInt8 × Int)) := do
  if (← buf.rd i) = 0x04 then
    let r ← lengthString cap buf (i + 1)
    pure (.ok r)
  else pure (.error (decodeError e))

def ldapMaxDnSize : Nat := 1024

/-! ## Operations -/

/-- What a case of the `switch` comes to: a message's `alt` and where the operation ends, or the
end of the call. -/
abbrev Decoded := Except Fault (Except Outcome (Alt × Int))

/-- Go on with what was decoded, unless the call ends. -/
def andThen {α β : Type} (x : Except Fault (Except Outcome α))
    (f : α → Except Fault (Except Outcome β)) : Except Fault (Except Outcome β) := do
  match ← x with
  | .error out => pure (.error out)
  | .ok a => f a

/-- The filter at `i`, when its tag is one of the ten. -/
def searchFilter (garbage : Nat → UInt8) (depth : Nat) (buf : Block) (i : Int) :
    Except Fault (Option SearchFilter × Int) := do
  let tag ← buf.rd i
  if (tag &&& 0x1f).toNat ≤ 9 then
    let (len, _, i') ← findLen buf (i + 1)
    let f ← ldapStringToFilter garbage depth buf i
    pure (some f, i' + len)
  else pure (none, i)

def decodeSearch (garbage : Nat → UInt8) (depth : Nat) (buf : Block) (i : Int) : Decoded := do
  let (_, i) ← findLength buf i
  andThen (requiredString ldapMaxDnSize "ldapsearch: malformat baseDn" buf i)
    fun (baseObject, i) =>
  andThen (smallField 0x0a "ldapsearch: malformat scope" buf i) fun (scope, i) =>
  andThen (smallField 0x0a "ldapsearch: malformat deferAliases" buf i) fun (derefAliases, i) =>
  andThen (smallField 0x02 "ldapsearch: malformat sizeLimit" buf i) fun (sizeLimit, i) =>
  andThen (smallField 0x02 "ldapsearch: malformat timeLimit" buf i) fun (timeLimit, i) =>
  andThen (smallField 0x01 "ldapsearch: malformat typeOnly" buf i) fun (typesOnly, i) => do
    let (filter, i) ← searchFilter garbage depth buf i
    if (← buf.rd i) = 0x30 then
      let (length, i) ← findLength buf (i + 1)
      let (attributes, i) ← searchAttributes buf (buf.size + 1) length i
      pure (.ok (.searchRequest ⟨baseObject, scope, derefAliases, sizeLimit, timeLimit, typesOnly,
        filter, attributes⟩, i))
    else pure (.error (decodeError "ldapsearch: malformat attributes"))

/-- A modify request and an add request: a name and a sequence of items. -/
def decodeEntry {ν : Type} (e : String) (item : Int → Except Fault (ν × Int))
    (make : List UInt8 → List ν → Alt) (buf : Block) (i : Int) : Decoded := do
  let (_, i) ← findLength buf i
  andThen (requiredString ldapMaxOidSize e buf i) fun (name, i) => do
    if (← buf.rd i) = 0x30 then
      let (len, i) ← findLength buf (i + 1)
      let (items, i) ← decodeItems 0x30 wholeItem (fun _ i => item i) buf (buf.size + 1) len i
      pure (.ok (make name items, i))
    else pure (.ok (make name [], i + 1))

def decodeModify (buf : Block) : Int → Decoded :=
  decodeEntry "ldapmodify: malformat object" (decodeChange buf) .modifyRequest buf

def decodeAdd (buf : Block) : Int → Decoded :=
  decodeEntry "ldapadd: malformat object" (decodeAttr buf) .addRequest buf

/-- A rename.  The new superior, which would follow the flag, is not decoded. -/
def decodeModDn (buf : Block) (i : Int) : Decoded := do
  let (_, i) ← findLength buf i
  andThen (requiredString ldapMaxOidSize "ldapadd: malformat object" buf i) fun (entry, i) =>
  andThen (requiredString ldapMaxDnSize "ldapadd: malformat object" buf i) fun (newRdn, i) =>
  andThen (smallField 0x01 "ldapsearch: malformat typeOnly" buf i) fun (deleteOldRdn, i) =>
    pure (.ok (.modDnRequest entry newRdn [] deleteOldRdn, i))

def decodeDelete (buf : Block) (i : Int) : Decoded := do
  let (dn, i) ← lengthString ldapMaxOidSize buf i
  pure (.ok (.deleteRequest dn, i))

def decodeExtended (alloc : Bool) (buf : Block) (i : Int) : Decoded := do
  let (_, i) ← findLength buf i
  if (← buf.rd i) ≠ 0x80 then pure (.ok (.extendedRequest [] none, i + 1))
  else do
    let (len, i) ← findLength buf (i + 1)
    -- the terminator is written even when nothing is copied
    if len < 0 then throw .overrun
    let (name, i) ← takeString ldapMaxOidSize buf i len
    if (← buf.rd i) ≠ 0x81 then pure (.ok (.extendedRequest name none, i + 1))
    else do
      let (len, i) ← findLength buf (i + 1)
      if 0 < len then
        let value ← buf.load i len
        match berAllocBuffer alloc none value.length with
        | none => throw .null
        | some b => do
            let b ← b.append value
            pure (.ok (.extendedRequest name (some b.berval), i + len))
      else pure (.ok (.extendedRequest name none, i))

/-- The `switch` on the tag of the operation; an unknown one is stepped over. -/
def decodeOp (alloc : Bool) (garbage : Nat → UInt8) (depth : Nat) (buf : Block) (op : UInt8)
    (i : Int) : Except Fault (Except Outcome (ProtocolOp × Alt × Int)) :=
  let as (choice : ProtocolOp) (d : Decoded) :=
    andThen d fun (alt, i) => pure (.ok (choice, alt, i))
  match op with
  | 0x42 => .ok (.error ⟨.recvUnbind, none⟩)
  | 0x77 => as .extendedRequest (decodeExtended alloc buf i)
  | 0x63 => as .searchRequest (decodeSearch garbage depth buf i)
  | 0x66 => as .modifyRequest (decodeModify buf i)
  | 0x68 => as .addRequest (decodeAdd buf i)
  | 0x6c => as .modifydnRequest (decodeModDn buf i)
  | 0x4a => as .deleteRequest (decodeDelete buf i)
  | _ => .ok (.ok (.bindRequest, .none, i))

/-! ## Controls -/

/-- A control.  The criticality is not decoded. -/
def decodeControl (buf : Block) (i : Int) : Except Fault (DecodedControl × Int) := do
  if (← buf.rd i) ≠ 0x04 then pure (⟨false, [], false, 0, false, []⟩, i + 1)
  else do
    let (controlType, i) ← lengthString ldapMaxOidSize buf (i + 1)
    if (← buf.rd i) ≠ 0x04 then pure (⟨true, controlType, false, 0, false, []⟩, i + 1)
    else do
      let (controlValue, i) ← lengthString ldapMaxAttrValueSize buf (i + 1)
      pure (⟨true, controlType, false, 0, true, controlValue⟩, i)

/-- `const_len -= 1 + (j - i) + len`, `i - j` being the octets of the length. -/
def controlUsed (h len : Int) : Int := 1 - h + len

/-- The controls, when the byte at `i` is their tag. -/
def decodeControls (buf : Block) (i : Int) : Except Fault (List DecodedControl) := do
  if (← buf.rd i) = 0xa0 then
    let (len, i) ← findLength buf (i + 1)
    let (controls, _) ← decodeItems 0x30 controlUsed (fun _ i => decodeControl buf i) buf
      (buf.size + 1) len i
    pure controls
  else pure []

/-! ## ldap_decode_request -/

/-- What the outside does during a call: memory for the message and for the value of an extended
request, what arrays on the stack hold at first, and how deep the stack is. -/
structure DecodeEnv where
  message : Bool := true
  value : Bool := true
  garbage : Nat → UInt8 := fun _ => 0
  depth : Nat

/-- ldap_decode_request with decode_flag 0, and the message that it appends to `sess->rdata`. -/
def ldapDecodeRequest (env : DecodeEnv) (rb : ReadBuffer) :
    Except Fault (Outcome × Option LdapMessage) :=
  match rb.rBuffer with
  | none => .error .null
  | some buf => do
      let start := rb.rBerBody
      if (← buf.rd start) ≠ 0x30 then pure (decodeError "unknown error", none)
      else do
        let (len, i) ← findLength buf (start + 1)
        if len > rb.rBerBodyLength then
          pure (decodeError s!"incorrect ldap length ({len} > {rb.rBerBodyLength})", none)
        -- `_malloc` clears what malloc returned, so NULL stops here and not at the check behind it
        else if ¬ env.message then throw .null
        else if (← buf.rd i) ≠ 0x02 then do
          let controls ← decodeControls buf (i + 1)
          pure (⟨.dataAvailable, none⟩, some { controls := controls })
        else do
          let len := schar (← buf.rd (i + 1))
          let messageId ← decodeTid buf len.toNat (i + 2) 0
          let i := i + 2 + len
          let op ← buf.rd i
          match ← decodeOp env.value env.garbage env.depth buf op (i + 1) with
          | .error out => pure (out, none)
          | .ok (choice, alt, i) => do
              let controls ← decodeControls buf i
              pure (⟨.dataAvailable, none⟩, some ⟨choice, messageId, alt, controls⟩)

end CassandraApi.Ldap
