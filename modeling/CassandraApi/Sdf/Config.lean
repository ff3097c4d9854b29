/-
# `Sdf.Config` — walks through a configuration

SDF_config_find_element reads on in a scope up to the next element with a name, and
hands out the inside of that element as a new scope:

    scope --element--> omem --element--> omem …

A scope is only read forwards, and there may be any number of them, each read on at any
time.  In the tree a scope is the list of the elements that are still to come
(`walk`), and the calls answer what that list says (`ConfigCall.Answered`).
-/
import CassandraApi.Lib.Machine
import CassandraApi.Sdf.Attributes
import CassandraApi.Sdf.XmlReads

namespace CassandraApi.Sdf

open C Lib

/-! ## SDF_config_find_element -/

/-- SDF_CONFIG_MEM: `data` are the `len` bytes, and `behind` is what memory holds after them. -/
structure SdfConfigMem where
  data : List UInt8
  curr : Nat := 0
  behind : List UInt8

/-- `xml.attr`, and what memory holds behind it. -/
def SdfConfigMem.attr (mem : SdfConfigMem) (xml : SdfXml) : List UInt8 × List UInt8 :=
  (span mem.data xml.attr xml.attrLen, mem.data.drop (xml.attr + xml.attrLen) ++ mem.behind)

/-- A call, with the number of the scope it is made for. -/
inductive ConfigCall where
  | element (scope : Nat) (element : List UInt8) (mandatory : Bool)
  | attr (scope : Nat) (name : List UInt8) (value : Block) (vsize : Int) (mandatory : Bool)
  | elementAttr (scope : Nat) (element name : List UInt8) (value : Block) (vsize : Int)
      (mandatory : Bool)

def XmlElement.tag : XmlElement → Tag
  | .empty tag => tag
  | .leaf tag _ => tag
  | .parent tag _ _ => tag

def XmlElement.children : XmlElement → XmlElements
  | .empty _ => .nil
  | .leaf _ _ => .nil
  | .parent _ _ children => children

/-- The first element with the name, and what comes behind it. -/
def XmlElements.named (name : List UInt8) : XmlElements → Option (XmlElement × XmlElements)
  | .nil => none
  | .cons e _ rest => if e.tag.name.bytes = name then some (e, rest) else rest.named name

theorem Word.attributeChars (word : Word) :
    ∀ c ∈ word.bytes, isXmlSpace c = false ∧ c ≠ 0x3d := fun c hc =>
  ⟨(word.chars c hc).1, fun he => word.not_mem (c := 0x3d) (by decide) (he ▸ hc)⟩

theorem white_nil : ∀ c ∈ ([] : List UInt8), isXmlSpace c = true := by simp

theorem XmlAttr.quoted_symm (a : XmlAttr) : a.quote = 0x27 ∨ a.quote = 0x22 := a.quoted.symm

def XmlAttr.written (a : XmlAttr) : WrittenAttribute where
  name := ⟨a.name.bytes, a.name.some, a.name.attributeChars⟩
  before := ⟨[], white_nil⟩
  behind := ⟨[], white_nil⟩
  quote := a.quote
  quoted := a.quoted_symm
  value := a.value

/-- A scope in the tree: the element it is inside of, and the elements that are still to come. -/
structure TreeScope where
  element : Option XmlElement := none
  rest : XmlElements

/-- What a search leaves to come. -/
def XmlElements.behind (name : List UInt8) (es : XmlElements) : XmlElements :=
  match es.named name with
  | none => .nil
  | some (_, rest) => rest

def absent (mandatory : Bool) : ConfigRet := if mandatory then .error else .eof

/-- A lookup among the attributes of a tag. -/
def Tag.Gives (tag : Tag) (name : List UInt8) (value : Block) (vsize : Int) (mandatory : Bool)
    (code : ConfigRet) (out : Block) : Prop :=
  LooksUp (tag.attrs.map XmlAttr.written) name value vsize mandatory (.ok { code, value := out })

/-- A message of so many bytes has its place in the log buffer, if it is to be logged. -/
def LogFits (logLevel : Nat) (mandatory : Bool) (length : Nat) : Prop :=
  mandatory = true → logLevel &&& Level.error.value ≠ 0 → length ≤ sdflogMsgSize

/-- A caller's part: the scope is there, names have the length of an int, buffers their size, and
the names of what has to be there can be logged. -/
def ConfigCall.Fits (logLevel : Nat) (scopes : List TreeScope) : ConfigCall → Prop
  | .element k name mandatory =>
      k < scopes.length ∧ name.length < 2 ^ 31 ∧ LogFits logLevel mandatory (name.length + 24)
  | .attr k name value vsize mandatory =>
      (∃ s e, scopes[k]? = some s ∧ s.element = some e) ∧ name.length < 2 ^ 31 ∧
        vsize ≤ value.size ∧ LogFits logLevel mandatory (name.length + 26)
  | .elementAttr k owner name value vsize mandatory =>
      k < scopes.length ∧ owner.length < 2 ^ 31 ∧ name.length < 2 ^ 31 ∧
        vsize ≤ value.size ∧ LogFits logLevel mandatory (name.length + owner.length + 40)

section

variable {data name : List UInt8} {i curr stop turns : Nat} {xml : SdfXml}

end

/-! ## Reading on to a name -/

section

variable {data name : List UInt8} {curr turns : Nat} {xml : SdfXml} {e : XmlElement}
  {es : XmlElements}

theorem XmlElement.Found.has (h : e.Found data xml) : xml.Has data e.tag := by
  cases e with
  | empty tag => exact h.1
  | leaf tag text => exact h.1
  | parent tag gap children => exact h.1

/-- Inside of an element there are its children. -/
theorem XmlElement.Found.children (h : e.Found data xml) :
    e.children.ReadFrom (xml.inside data) 0 := by
  cases e with
  | empty tag => exact h.2.2.2
  | leaf tag text => exact h.2.2.2
  | parent tag gap children => exact h.2.2.2

end

/-! ## The attributes of a tag -/

section

variable {logLevel : Nat} {mem : SdfConfigMem} {es : XmlElements} {name : List UInt8}
  {mandatory : Bool}

variable {s behind owner : List UInt8} {as : List WrittenAttribute} {value : Block} {vsize : Int}
  {mem' : SdfConfigMem} {xml : SdfXml}

end

/-! ## The walk -/

section

variable {logLevel k : Nat} {ts : List TreeScope} {ss : List ConfigScope} {call : ConfigCall}
  {name owner : List UInt8} {value : Block} {vsize : Int} {mandatory : Bool}

theorem LooksUp.gives {tag : Tag} {reply : ConfigReply}
    (h : LooksUp (tag.attrs.map XmlAttr.written) name value vsize mandatory (.ok reply)) :
    tag.Gives name value vsize mandatory reply.code reply.value := by
  obtain ⟨reply', hsame, hreply⟩ := h
  cases hsame
  exact ⟨_, rfl, hreply⟩

end

/-! ## A configuration -/

/-- The elements of a document are to come in its text. -/
theorem XmlDocument.readFrom (doc : XmlDocument) : doc.elements.ReadFrom doc.text 0 := by
  have hstart := At.start doc.text
  rw [XmlDocument.text] at hstart ⊢
  cases hdecl : doc.declaration with
  | none =>
    rw [hdecl] at hstart
    exact doc.elements.readFrom hstart
  | some d =>
    rw [hdecl] at hstart
    exact declared_readFrom (doc.root (by rw [hdecl]; rfl)) hstart

end CassandraApi.Sdf
