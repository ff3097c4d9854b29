/-
# `Ldap.Filter` — LDAP_string_to_filter

The filter of a search is decoded from the bytes it has in the request.  The
members of an AND or OR, and the filter under a NOT, are first copied into an
array of 512 bytes on the stack and decoded there, so the function calls itself
on a new block each time; what such an array holds at first is `garbage`, and
`depth` is how many calls the stack has room for.

Lengths are read with FIND_LENGTH, or with FIND_LEN, which also reports how many
octets the length took.  Neither is compared with anything: a copy that does not
fit its destination is the fault `overrun`.
-/
import CassandraApi.Ber.Length
import CassandraApi.Ldap.Types

namespace CassandraApi.Ldap

open C Ber

/-! ## The data -/

/-- `choice` of a Substrings. -/
inductive SubstringChoice where
  | initial
  | any
  | final
  deriving DecidableEq, Repr

/-- SearchFilter, by its `choice`. -/
inductive SearchFilter where
  | and (members : List SearchFilter)
  | or (members : List SearchFilter)
  | not (member : SearchFilter)
  | equalityMatch (name value : List UInt8)
  | substrings (type : Option (List UInt8)) (parts : List (SubstringChoice × List UInt8))
  | greaterOrEqual (name value : List UInt8)
  | lessOrEqual (name value : List UInt8)
  | present (value : List UInt8)
  | approxMatch (name value : List UInt8)
  | extensibleMatch (matchingRule type matchValue : Option (List UInt8)) (dnAttributes : Bool)
  /-- a choice that is not decoded leaves the filter as it was allocated -/
  | zeroed

def ldapMaxAttrValueSize : Nat := 8192

/-! ## Reading -/

/-- `FIND_LEN(_data, _len, len_size)`: the length, `len_size` and the new `i`. -/
def findLen (buf : Block) (i : Int) : Except Fault (Int × Int × Int) := do
  let (len, i') ← findLength buf i
  pure (len, i' - (i + 1), i')

/-- `memcpy(field, &data[i], len); field[len] = 0`, for a field of `cap` bytes. -/
def copyString (cap : Nat) (buf : Block) (i len : Int) : Except Fault (List UInt8) := do
  let bytes ← buf.load i len
  if len < cap then pure bytes else throw .overrun

/-- A tag, which is not looked at, a length and a string. -/
def taggedString (cap : Nat) (buf : Block) (i : Int) : Except Fault (List UInt8 × Int) := do
  let (len, i) ← findLength buf (i + 1)
  let s ← copyString cap buf i len
  pure (s, i + len)

/-- The same when the tag at `i` is `tag`. -/
def optionalString (tag : UInt8) (buf : Block) (i : Int) :
    Except Fault (Option (List UInt8) × Int) := do
  if (← buf.rd i) = tag then
    let (s, i) ← taggedString ldapMaxAttrValueSize buf i
    pure (some s, i)
  else pure (none, i)

/-- An attribute name and a value: the four comparisons are alike. -/
def assertion (make : List UInt8 → List UInt8 → SearchFilter) (buf : Block) (i : Int) :
    Except Fault SearchFilter := do
  let (_, i) ← findLength buf i
  let (name, i) ← taggedString 256 buf i
  let (value, _) ← taggedString ldapMaxAttrValueSize buf i
  pure (make name value)

/-- The tags of the parts of a substring filter. -/
def substringChoice (tag : UInt8) : Option SubstringChoice :=
  if tag = 0x80 then some .initial
  else if tag = 0x81 then some .any
  else if tag = 0x82 then some .final
  else none

/-- `while (i <= length)` over the parts; any other tag is met again and again. -/
def substringParts (buf : Block) (last : Int) :
    Nat → Int → Except Fault (List (SubstringChoice × List UInt8))
  | 0, _ => .error .stuck
  | turns + 1, i =>
      if i ≤ last then do
        match substringChoice (← buf.rd i) with
        | none => .error .stuck
        | some choice => do
            let (s, i) ← taggedString ldapMaxAttrValueSize buf i
            let parts ← substringParts buf last turns i
            pure ((choice, s) :: parts)
      else pure []

/-- The array that the members of an AND or OR, or the filter under a NOT, are copied to. -/
def filterTemp (garbage : Nat → UInt8) : Block := ⟨512, garbage⟩

/-- `memcpy(temp, &expression[i], n); temp[n] = 0`. -/
def copyToTemp (temp buf : Block) (i n : Int) : Except Fault Block := do
  let bytes ← buf.load i n
  let temp ← temp.write 0 bytes
  temp.write n [0]

/-- `while (i <= length)` over the members of an AND or OR.  The array is the same for all of
them. -/
def filterMembers (decode : Block → Except Fault SearchFilter) (buf : Block) (last : Int) :
    Nat → Block → Int → Except Fault (List SearchFilter)
  | 0, _, _ => .error .stuck
  | turns + 1, temp, i =>
      if i ≤ last then do
        let (len, lenSize, i') ← findLen buf (i + 1)
        let temp ← copyToTemp temp buf i (len + lenSize + 2)
        let member ← decode temp
        let members ← filterMembers decode buf last turns temp (i' + len)
        pure (member :: members)
      else pure []

/-! ## LDAP_string_to_filter -/

/-- LDAP_string_to_filter at the expression that starts at `start`. -/
def ldapStringToFilter (garbage : Nat → UInt8) :
    Nat → Block → Int → Except Fault SearchFilter
  | 0, _, _ => .error .stuck
  | depth + 1, buf, start => do
      let tag ← buf.rd start
      match (tag &&& 0x1f).toNat with
      | 0 => do
          let (length, i) ← findLength buf (start + 1)
          let members ← filterMembers (fun b => ldapStringToFilter garbage depth b 0) buf
            (start + length) (length.toNat + 2) (filterTemp garbage) i
          pure (.and members)
      | 1 => do
          let (length, _, i) ← findLen buf (start + 1)
          let members ← filterMembers (fun b => ldapStringToFilter garbage depth b 0) buf
            (start + length) (length.toNat + 2) (filterTemp garbage) i
          pure (.or members)
      | 2 => do
          let (length, i) ← findLength buf (start + 1)
          let temp ← copyToTemp (filterTemp garbage) buf i length
          let member ← ldapStringToFilter garbage depth temp 0
          pure (.not member)
      | 3 => assertion .equalityMatch buf (start + 1)
      | 4 => do
          let (length, i) ← findLength buf (start + 1)
          match ← optionalString 0x04 buf i with
          | (none, _) => pure (.substrings none [])
          | (some type, i) => do
              if (← buf.rd i) = 0x30 then
                let (_, i) ← findLength buf (i + 1)
                let parts ← substringParts buf (start + length) (length.toNat + 2) i
                pure (.substrings (some type) parts)
              else pure (.substrings (some type) [])
      | 5 => assertion .greaterOrEqual buf (start + 1)
      | 6 => assertion .lessOrEqual buf (start + 1)
      | 7 => do
          let (value, _) ← taggedString ldapMaxAttrValueSize buf start
          pure (.present value)
      | 8 => assertion .approxMatch buf (start + 1)
      | 9 => do
          let (_, i) ← findLength buf (start + 1)
          let (matchingRule, i) ← optionalString 0x81 buf i
          let (type, i) ← optionalString 0x82 buf i
          let (matchValue, i) ← optionalString 0x83 buf i
          if (← buf.rd i) = 0x84 then
            let _ ← findLength buf (i + 1)
            pure (.extensibleMatch matchingRule type matchValue true)
          else pure (.extensibleMatch matchingRule type matchValue false)
      | _ => pure .zeroed

end CassandraApi.Ldap
