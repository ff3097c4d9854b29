/-
# `Sdf.Xml` — the element scanner of sdfxml.c

SDF_xml_find_element is given a text, its length and a cursor.  It reads the next
start tag, looks ahead for what the element holds, and unless the tag closes
itself goes on to the end tag that matches, through a recursion of its own for
every element in between:

    <name attr …>  content  </name>        <name attr …/>

A pointer into the text is the number of bytes before it, and every loop is one
scan for the first place where some test holds (`scanUntil`).  The tests look at
most two bytes ahead and nothing is read behind the text, so that there is no
fault to model.
-/
import CassandraApi.C.CString

namespace CassandraApi.Sdf

open C

/-! ## Scans -/

/-- The number of bytes before the first place where `stop` holds, or all of them. -/
def scanUntil (stop : List UInt8 → Bool) : List UInt8 → Nat
  | [] => 0
  | c :: cs => if stop (c :: cs) then 0 else scanUntil stop cs + 1

/-- IS_SPACE -/
def isXmlSpace (c : UInt8) : Bool := c = 0x20 || c = 0x0a || c = 0x09 || c = 0x0d

/-- IS_END_ELEMENT1 -/
def isEndElement1 (s : List UInt8) : Bool := s.head? = some 0x3e

/-- IS_END_ELEMENT2 -/
def isEndElement2 : List UInt8 → Bool
  | c :: d :: _ => c = 0x2f && d = 0x3e
  | _ => false

/-- IS_BEGIN_ELEMENT1: `<` and a byte other than `/`. -/
def isBeginElement1 : List UInt8 → Bool
  | c :: d :: _ => c = 0x3c && d ≠ 0x2f
  | _ => false

/-- IS_BEGIN_ELEMENT2 -/
def isBeginElement2 : List UInt8 → Bool
  | c :: d :: _ => c = 0x3c && d = 0x2f
  | _ => false

/-- `memchr(&data[i], c, len - i)` -/
def memchr (data : List UInt8) (i : Nat) (c : UInt8) : Option Nat :=
  let at_ := i + scanUntil (fun s => s.head? = some c) (data.drop i)
  if at_ < data.length then some at_ else none

/-! ## The data -/

/-- SDF_XML -/
structure SdfXml where
  element : Nat
  elementLen : Nat
  elementClose : Bool
  attr : Nat
  attrLen : Nat
  content : Option Nat
  contentLen : Nat
  data : Nat
  dataLen : Nat := 0
  deriving DecidableEq

/-- The bytes that a pointer and a length stand for. -/
def span (data : List UInt8) (start len : Nat) : List UInt8 := (data.drop start).take len

def SdfXml.name (xml : SdfXml) (data : List UInt8) : List UInt8 :=
  span data xml.element xml.elementLen

/-- How a call ends that does not return an element. -/
inductive XmlStop where
  | eof
  | error (err : String)
  | stuck
  deriving DecidableEq

@[simp] theorem xml_ok_bind {α β : Type} (a : α) (f : α → Except XmlStop β) :
    (Except.ok a >>= f) = f a := rfl

/-! ## sdf_xml_find_start_element -/

/-- From the start of a comment to behind its end. -/
def skipComment (data : List UInt8) : Nat → Nat → Except XmlStop Nat
  | 0, _ => .error .stuck
  | turns + 1, i =>
      match memchr data i 0x3e with
      | none => .error (.error "Found start comment without ending")
      | some i =>
          if (ascii "-->").isPrefixOf (data.drop (i - 2)) then .ok (i + 1)
          else skipComment data turns (i + 1)

/-- The first `<` that does not start a comment. -/
def findOpen (data : List UInt8) : Nat → Nat → Except XmlStop Nat
  | 0, _ => .error .stuck
  | turns + 1, i =>
      match memchr data i 0x3c with
      | none => .error .eof
      | some i => do
          if (ascii "<!--").isPrefixOf (data.drop i) then
            let i ← skipComment data (data.length + 1) i
            findOpen data turns i
          else pure i

/-- The end of an element's name. -/
def isNameEnd (s : List UInt8) : Bool :=
  s.head?.any isXmlSpace || isEndElement1 s || isEndElement2 s

/-- The name, the attributes and the bracket of a tag that starts at `i`. -/
def readTag (data : List UInt8) (i : Nat) : Except XmlStop SdfXml := do
  let element := i + 1
  let i := element + scanUntil isNameEnd (data.drop element)
  if data.length ≤ i then throw (.error "Invalid element field")
  else if i - element = 0 then throw (.error "Invalid element structure")
  else
    let elementLen := i - element
    let attr := i + scanUntil (fun s => !s.head?.any isXmlSpace) (data.drop i)
    let i := attr + scanUntil (fun s => isEndElement1 s || isEndElement2 s) (data.drop attr)
    if data.length ≤ i then throw (.error "Invalid attribute field")
    else
      let elementClose := !isEndElement1 (data.drop i)
      pure {
        element, elementLen, elementClose, attr, attrLen := i - attr, content := none
        contentLen := 0, data := if elementClose then i + 2 else i + 1 }

/-- What the element holds: another one, which counts as no content, or a text. -/
def readContent (data : List UInt8) (xml : SdfXml) : Except XmlStop SdfXml :=
  let content := xml.data
  let i := content +
    scanUntil (fun s => isBeginElement1 s || isBeginElement2 s) (data.drop content)
  if data.length ≤ i then throw (.error "Invalid content field")
  else if isBeginElement1 (data.drop i) then pure { xml with data := i }
  else pure { xml with content := some content, contentLen := i - content, data := i }

/-- `sdf_xml_find_start_element`: what it found, and the cursor, which is where the element's
data starts. -/
def sdfXmlFindStartElement (data : List UInt8) (curr : Nat) : Except XmlStop (SdfXml × Nat) := do
  let i ← findOpen data (data.length + 1) curr
  let tagClose := isBeginElement2 (data.drop i)
  let xml ← readTag data i
  let xml ← if tagClose = false ∧ xml.elementClose = false then readContent data xml else pure xml
  pure (xml, xml.data)

/-! ## sdf_xml_find_end_element -/

/-- `sdf_xml_find_end_element`, for the element `xml`, on a stack with room for `turns` calls. -/
def sdfXmlFindEndElement (data : List UInt8) :
    Nat → Nat → SdfXml → Except XmlStop (SdfXml × Nat)
  | 0, _, _ => .error .stuck
  | turns + 1, i, xml =>
      match sdfXmlFindStartElement data i with
      | .error .eof => .error (.error "Found element without ending")
      | .error e => .error e
      | .ok (x, i) =>
          if x.elementClose then sdfXmlFindEndElement data turns i xml
          else if (data.drop x.element).head? = some 0x2f then
            if x.elementLen - 1 = xml.elementLen ∧
                span data (x.element + 1) xml.elementLen = xml.name data then
              .ok ({ xml with dataLen := x.element - 1 - xml.data }, i)
            else .error (.error "Found extra element ending")
          else do
            let (_, i) ← sdfXmlFindEndElement data turns i x
            sdfXmlFindEndElement data turns i xml

/-! ## SDF_xml_find_element -/

/-- The elements that are read over. -/
def isProlog (name : List UInt8) : Bool := name = ascii "?xml" || name = ascii "!DOCTYPE"

/-- The loop of SDF_xml_find_element: the result and `*curr`. -/
def findElementLoop (data : List UInt8) : Nat → Nat → Except XmlStop SdfXml × Nat
  | 0, curr => (.error .stuck, curr)
  | turns + 1, curr =>
      match sdfXmlFindStartElement data curr with
      | .error e => (.error e, curr)
      | .ok (xml, curr) =>
          if isProlog (xml.name data) then findElementLoop data turns curr
          else if xml.elementClose then (.ok xml, curr)
          else
            match sdfXmlFindEndElement data (data.length + 1) curr xml with
            | .error e => (.error e, curr)
            | .ok (xml, curr) => (.ok xml, curr)

/-- SDF_xml_find_element -/
def sdfXmlFindElement (data : List UInt8) (curr : Nat) : Except XmlStop SdfXml × Nat :=
  findElementLoop data (data.length + 1) curr

/-! ## SDF_xml_encode_data -/

/-- The five strings that are left alone when they are there already. -/
def encodedStrings : List (List UInt8) :=
  [ascii "&lt;", ascii "&gt;", ascii "&amp;", ascii "&apos;", ascii "&quot;"]

/-- One byte; `rest` is what the memory holds from it on, also behind the end of the data. -/
def encodeByte (c : UInt8) (rest : List UInt8) : List UInt8 :=
  if c = 0x3c then ascii "&lt;"
  else if c = 0x3e then ascii "&gt;"
  else if c = 0x26 then
    if encodedStrings.any (·.isPrefixOf rest) then [c] else ascii "&amp;"
  else if c = 0x27 then ascii "&apos;"
  else if c = 0x22 then ascii "&quot;"
  else [c]

/-- SDF_xml_encode_data of a string, `behind` lying behind it. -/
def sdfXmlEncodeData (behind : List UInt8) : List UInt8 → List UInt8
  | [] => []
  | c :: s => encodeByte c (c :: s ++ behind) ++ sdfXmlEncodeData behind s

/-- What is encoded has none of the characters that end an attribute or a text. -/
theorem not_mem_sdfXmlEncodeData {c : UInt8} (hc : c ∈ ascii "<>'\"") (behind s : List UInt8) :
    c ∉ sdfXmlEncodeData behind s := by
  have hplain : ∀ c ∈ ascii "<>'\"", c ∉ ascii "&lt;" ∧ c ∉ ascii "&gt;" ∧ c ∉ ascii "&amp;" ∧
      c ∉ ascii "&apos;" ∧ c ∉ ascii "&quot;" ∧
      (c = 0x3c ∨ c = 0x3e ∨ c = 0x27 ∨ c = 0x22) := by decide +kernel
  obtain ⟨hlt, hgt, hamp, hapos, hquot, hone⟩ := hplain c hc
  have hbyte : ∀ (d : UInt8) (rest : List UInt8), c ∉ encodeByte d rest := by
    intro d rest
    unfold encodeByte
    split_ifs with h1 h2 h3 h4 h5 h6
    · exact hlt
    · exact hgt
    · subst h3
      rintro (_ | ⟨_, ⟨⟩⟩)
      simp at hone
    · exact hamp
    · exact hapos
    · exact hquot
    · intro hmem
      obtain rfl := List.mem_singleton.1 hmem
      exact hone.elim h1 fun h => h.elim h2 fun h => h.elim h5 h6
  induction s with
  | nil => exact List.not_mem_nil
  | cons d s ih =>
    rw [sdfXmlEncodeData, List.mem_append, not_or]
    exact ⟨hbyte d _, ih⟩

end CassandraApi.Sdf
