/-
# `Ldap.AttrString` — collected results as text

ber_attr_to_string walks over the search entries in rber as ber_attr_to_obj does,
and writes them as lines (`name: value`) or as JSON,

    {"class":[{"dn":"…","name":"value","name":["value","value"]},…],…}

where the entries are put together by object class.  The text of an entry comes
before its attributes have been read, so its class is looked for first, in the
octets behind the name: there the length octet 0b, `objectClass` and the tag of a
set have to follow each other.

Every piece of text goes through `string`, and from there to lc->bstring or, in
JSON, to the string of the object (`olist`).  The ring `olist` is a list here.
-/
import CassandraApi.Ldap.SearchObjects

namespace CassandraApi.Ldap

open C Ber Lib

/-- LBER_DECODE_PRINTABLE_STRING, LBER_DECODE_JSON -/
inductive DecodeFormat where
  | printableString
  | json
  deriving DecidableEq, Repr

def ldapMaxStringSize : Nat := 8192

/-- `char object_name[64]` -/
def objectNameSize : Nat := 64

/-- A computation that may leave the function with a result. -/
abbrev Returning := ExceptT Outcome (Except Fault)

/-! ## The object class -/

/-- `memchr(data + i, c, n)`: it stops where it finds `c`. -/
def memchr (data : Block) (c : UInt8) : Nat → Int → Except Fault (Option Int)
  | 0, _ => pure none
  | n + 1, i => do if (← data.rd i) = c then pure (some i) else memchr data c n (i + 1)

/-- `(size_t) n` -/
def sizeT (n : Int) : Nat := (n % 2 ^ 64).toNat

def scanKey : List UInt8 := 0x0b :: (objectClassName ++ [0x31])

/-- `while ((ptr = memchr(lptr, 0x0b, scan_len)) != NULL)` -/
def scanObjectClass (data : Block) : Nat → Int → Int → Except Fault (List UInt8)
  | 0, _, _ => .error .stuck
  | turns + 1, lptr, scanLen => do
      match ← memchr data 0x0b (sizeT scanLen) lptr with
      | none => pure []
      | some ptr =>
          if (← data.load ptr scanKey.length) = scanKey then
            let ptr := ptr + 15
            let scanLen := schar (← data.rd ptr)
            let objectName ← copyString objectNameSize data (ptr + 1) scanLen
            pure (beforeNul objectName)
          else scanObjectClass data turns (ptr + 1) (int32 (scanLen - (lptr - ptr)))

/-! ## The text of an object -/

/-- olist_t without its links: of the `size` bytes of `string`, those before the NUL. -/
structure OList where
  name : List UInt8
  size : Nat := 2 * ldapMaxStringSize
  string : List UInt8 := []

/-- The string gets room for LDAP_MAX_STRING_SIZE more bytes; `alloc` says whether `realloc`
finds memory. -/
def OList.grow (alloc : Bool) (ol : OList) : Returning OList :=
  if ol.string.length + ldapMaxStringSize > ol.size then
    if alloc then
      pure { ol with size := adjustSize (ol.string.length + ldapMaxStringSize) ldapMaxStringSize }
    else throw ⟨.errMemory, some "memory error"⟩
  else pure ol

/-- The copy at the end of APPEND_STRING, with the NUL behind it. -/
def OList.copy (s : List UInt8) (ol : OList) : Except Fault OList :=
  if ol.string.length + s.length < ol.size then pure { ol with string := ol.string ++ s }
  else throw .overrun

/-- `ol->string[ol->len-1] = 0; ol->len = ol->len - 1;` -/
def OList.dropLast (ol : OList) : Except Fault OList :=
  if ol.string = [] then throw .overrun else pure { ol with string := ol.string.dropLast }

/-- `berval[len-1] = 0; --len;` -/
def BER.dropLast (b : BER) : Except Fault BER :=
  if b.berval = [] then throw .overrun else pure { b with berval := b.berval.dropLast }

/-- `berval[len] = 0` -/
def BER.terminate (b : BER) : Except Fault BER :=
  if b.berval.length < b.size then pure b else throw .overrun

/-- `tmp_strlen = sprintf(string, …)` and PRINT_STRING. -/
def BER.printString (b : BER) (s : List UInt8) : Except Fault BER := do
  let string ← fieldString ldapReadBuffer s
  b.append string

/-- lc->bstring, and the object which `ol` points to. -/
structure TextState where
  bstring : BER
  ol : OList

namespace TextState

/-- `tmpLen = sprintf(string, …)` and APPEND_STRING. -/
def appendString (alloc : Bool) (s : List UInt8) (st : TextState) : Returning TextState := do
  let string ← fieldString ldapReadBuffer s
  let ol ← st.ol.grow alloc
  let ol ← ol.copy string
  pure { st with ol := ol }

def printString (s : List UInt8) (st : TextState) : Except Fault TextState := do
  let bstring ← st.bstring.printString s
  pure { st with bstring := bstring }

def dropLast (st : TextState) : Except Fault TextState := do
  let ol ← st.ol.dropLast
  pure { st with ol := ol }

end TextState

/-! ## The attributes -/

section

variable (alloc : Bool) (format : DecodeFormat) (data : Block)

/-- A value; `valLen` is what is left of the set behind it, `array` the array_flag. -/
def valueString (attr value : List UInt8) (valLen : Int) (array : Bool) (st : TextState) :
    Returning (Bool × TextState) :=
  match format with
  | .json => do
      let st ← if 0 < valLen ∧ array = false then st.appendString alloc (ascii "[") else pure st
      let st ← st.appendString alloc (ascii "\"" ++ value ++ ascii "\",")
      pure (array || 0 < valLen, st)
  | .printableString => do
      let st ← st.printString (attr ++ ascii ": " ++ value ++ ascii "\n")
      pure (array, st)

/-- `while (valLen > 0)` -/
def valueStrings (attr : List UInt8) :
    Nat → Int → Int → Bool → TextState → Returning (Int × Bool × TextState)
  | 0, _, _, _, _ => throwThe Fault .stuck
  | turns + 1, valLen, i, array, st =>
      if 0 < valLen then do
        if (← data.rd i) = 0x04 then
          let (bufLen, i') ← findLength data (i + 1)
          let valLen := int32 (valLen - (bufLen + i' - i))
          let buff ← copyString ldapMaxStringSize data i' bufLen
          let (array, st) ← valueString alloc format attr (beforeNul buff) valLen array st
          valueStrings attr turns valLen (i' + bufLen) array st
        else valueStrings attr turns valLen (i + 1) array st
      else pure (i, array, st)

/-- Behind the values; `exist` is the exist_flag. -/
def closeValues (attr : List UInt8) (exist array : Bool) (st : TextState) : Returning TextState :=
  match format, exist with
  | .json, true =>
      if array then do
        let st ← st.dropLast
        st.appendString alloc (ascii "],")
      else pure st
  | .json, false => st.appendString alloc (ascii "\"\",")
  | .printableString, true => pure st
  | .printableString, false => st.printString (attr ++ ascii ":\n")

/-- A name that has been read, and the set behind it, when there is one: what is left of
`partLen`, and the new `i`. -/
def setString (attr : List UInt8) (partLen i : Int) (st : TextState) :
    Returning (Int × Int × TextState) := do
  let st ← match format with
    | .json => st.appendString alloc (ascii "\"" ++ attr ++ ascii "\":")
    | .printableString => pure st
  if (← data.rd i) = 0x31 then
    let (valLen, i') ← findLength data (i + 1)
    let partLen := int32 (partLen - (valLen + i' - i))
    let (j, array, st) ← valueStrings alloc format data attr (data.size + 1) valLen i' false st
    let st ← closeValues alloc format attr (0 < valLen) array st
    pure (partLen, j, st)
  else pure (partLen, i + 1, st)

/-- `while (partLen > 0)` -/
def partStrings : Nat → Int → Int → TextState → Returning (Int × TextState)
  | 0, _, _, _ => throwThe Fault .stuck
  | turns + 1, partLen, i, st =>
      if 0 < partLen then do
        if (← data.rd i) = 0x04 then
          let (bufLen, i') ← findLength data (i + 1)
          let partLen := int32 (partLen - (bufLen + i' - i))
          let attr ← copyString ldapMaxAttrValueSize data i' bufLen
          let (partLen, j, st) ←
            setString alloc format data (beforeNul attr) partLen (i' + bufLen) st
          partStrings turns partLen j st
        else partStrings turns partLen (i + 1) st
      else pure (i, st)

/-- `while (attrLen > 0)` -/
def attrStrings : Nat → Int → Int → TextState → Returning (Int × TextState)
  | 0, _, _, _ => throwThe Fault .stuck
  | turns + 1, attrLen, i, st =>
      if 0 < attrLen then do
        if (← data.rd i) = 0x30 then
          let (partLen, i') ← findLength data (i + 1)
          let attrLen := int32 (attrLen - (partLen + i' - i))
          let (j, st) ← partStrings alloc format data (data.size + 1) partLen i' st
          attrStrings turns attrLen j st
        else attrStrings turns attrLen (i + 1) st
      else pure (i, st)

/-- The sequence of attributes behind the name, when there is one. -/
def attrSequence (i : Int) (st : TextState) : Returning (Int × TextState) := do
  if (← data.rd i) = 0x30 then
    let (attrLen, i') ← findLength data (i + 1)
    attrStrings alloc format data (data.size + 1) attrLen i' st
  else pure (i + 1, st)

/-! ## The entries -/

/-- The index of the object with this name; when there is none, one is put at the end. -/
def findOList (name : List UInt8) (olist : List OList) : Nat × List OList :=
  match olist.findIdx? (·.name = name) with
  | some k => (k, olist)
  | none => (olist.length, olist ++ [{ name := name }])

/-- `object_name` is empty when no class was found. -/
def openObject (objectName dn : List UInt8) : List UInt8 :=
  if objectName ≠ [] then ascii "\x7b\"dn\":\"" ++ dn ++ ascii "\"," else ascii "\x7b"

/-- The name of an entry, whose length octets are at `i`, and what follows. -/
def entryString (optLen i : Int) (bstring : BER) (olist : List OList) :
    Returning (Int × BER × List OList) := do
  let (bufLen, k) ← findLength data i
  let buff ← copyString ldapMaxStringSize data k bufLen
  let k := k + bufLen
  match format with
  | .json =>
      let objectName ← scanObjectClass data (data.size + 1) k (int32 (optLen - bufLen - 20))
      let (n, olist) := findOList objectName olist
      let ol ← (olist.getD n { name := [] }).grow alloc
      let st ← TextState.appendString alloc (openObject objectName (beforeNul buff)) ⟨bstring, ol⟩
      let (m, st) ← attrSequence alloc .json data k st
      let st ← st.dropLast
      let st ← st.appendString alloc (ascii "\x7d,")
      pure (m, st.bstring, olist.set n st.ol)
  | .printableString =>
      let st ← TextState.printString (ascii "dn: " ++ beforeNul buff ++ ascii "\n")
        ⟨bstring, { name := [] }⟩
      let (m, st) ← attrSequence alloc .printableString data k st
      let st ← st.printString (ascii "\n")
      pure (m, st.bstring, olist)

/-- `while (len > 0)` -/
def entryStrings : Nat → Int → Int → BER → List OList → Returning (BER × List OList)
  | 0, _, _, _, _ => throwThe Fault .stuck
  | turns + 1, len, i, bstring, olist =>
      if 0 < len then do
        let bstring := (berAllocBuffer alloc (some bstring) berBuffer).getD bstring
        if (← data.rd i) = 0x64 then
          let (optLen, i') ← findLength data (i + 1)
          let len := int32 (len - (optLen + i' - i))
          if (← data.rd i') = 0x04 then
            let (j, bstring, olist) ←
              entryString alloc format data optLen (i' + 1) bstring olist
            entryStrings turns len j bstring olist
          else entryStrings turns len (i' + 1) bstring olist
        else entryStrings turns len (i + 1) bstring olist
      else pure (bstring, olist)

end

/-! ## The whole text -/

/-- `while ((ol = olist) != NULL)` -/
def objectStrings : List OList → BER → Except Fault BER
  | [], bstring => pure bstring
  | ol :: olist, bstring => do
      let bstring ← bstring.printString (ascii "\"" ++ ol.name ++ ascii "\":[" ++ ol.string)
      let bstring ← bstring.dropLast
      let bstring ← bstring.printString (ascii "],")
      objectStrings olist bstring

/-- What is written to lc->bstring, which has been allocated.  The bytes of rber end at
`rber->len`. -/
def resultString (alloc : Bool) (format : DecodeFormat) (rber bstring : BER) : Returning BER := do
  let data := Block.ofList rber.berval
  let bstring ← BER.terminate { bstring with berval := [] }
  match format with
  | .json =>
      let bstring ← bstring.printString (ascii "\x7b")
      let (bstring, olist) ← entryStrings alloc .json data (data.size + 1)
        (int32 rber.berval.length) 0 bstring []
      let bstring ← objectStrings olist bstring
      let bstring ← bstring.dropLast
      let bstring ← bstring.printString (ascii "\x7d")
      bstring.terminate
  | .printableString =>
      let (bstring, _) ← entryStrings alloc .printableString data (data.size + 1)
        (int32 rber.berval.length) 0 bstring []
      bstring.terminate

/-- ber_attr_to_string, for the rber and the bstring of a client.  Memory can only run out in
JSON, when the first brace is all there is in bstring. -/
def berAttrToString (alloc : Bool) (format : DecodeFormat) (rber bstring : Option BER) :
    Except Fault (Outcome × Option BER) :=
  match rber with
  | none => .ok (⟨.errDecode, some "buffer doesn't exist"⟩, bstring)
  | some rber =>
      match berAllocBuffer alloc bstring berBuffer with
      | none => .error .null
      | some b => do
          match ← resultString alloc format rber b with
          | .ok b => pure (⟨.ok, none⟩, some b)
          | .error out => pure (out, some { b with berval := ascii "\x7b" })

/-- LBER_attr_decode: rber is freed whatever came of it. -/
def lberAttrDecode (alloc : Bool) (format : DecodeFormat) (lc : Option LdapClnt)
    (bstring : Option BER) : Except Fault (Outcome × Option LdapClnt × Option BER) :=
  match lc with
  | none => .ok (⟨.errParameter, none⟩, none, bstring)
  | some lc => do
      let (out, bstring) ← berAttrToString alloc format lc.rber bstring
      pure (⟨.ok, out.error⟩, some { lc with rber := none }, bstring)

end CassandraApi.Ldap
