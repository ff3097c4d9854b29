/-
# `Sdf.ByName` — SDF_xml_find_element_by_name

The search looks at one tag after another, end tags among them, for the first
whose text starts with the name, and then for the end of that element:

    <name …/>            from the `>` on: two bytes further
    <name …> … </name>   from the `>` on: the first `<` where `</name>` is

Neither looks at where a name ends, nor at how elements are nested.  A document is
therefore taken apart into its tags and the texts between them (`Item`), both loops
are brought to a `find?` in the list of the tags with their places (`marksAt`), and
what the tree says of the first element with the name is compared with that
(`by_name_iff`).
-/
import CassandraApi.Sdf.XmlTree

namespace CassandraApi.Sdf.ByName

open C

/-! ## The code -/

/-- IS_CONST_STR1, with `behind` in memory behind the data: the last byte of the string may be
there. -/
def isConstStr1 (data behind : List UInt8) (i : Nat) (str : List UInt8) : Bool :=
  str.length - 1 ≤ data.length - i && str.isPrefixOf (data.drop i ++ behind)

/-- `sprintf(close_tag, "</%s>", name)` -/
def closeTag (name : List UInt8) : List UInt8 := ascii "</" ++ (name ++ ascii ">")

/-- The loop of sdf_xml_find_end_element_by_name. -/
def findEndLoop (name data behind : List UInt8) :
    Nat → Bool → Nat → Except Fault (Except XmlStop Nat)
  | 0, _, _ => throw .stuck
  | turns + 1, tagClose, i =>
      match memchr data i 0x3e with
      | none => pure (.error (.error "Can not find ending tag"))
      | some i =>
          if tagClose = false ∧ isConstStr1 data behind (i - 1) (ascii "/>") then
            pure (.ok (i + (ascii "/>").length))
          -- close_tag has 50 bytes
          else if 50 < (closeTag name).length + 1 then throw .overrun
          else
            match memchr data i 0x3c with
            | none => pure (.error (.error "Can not find nested ending tag"))
            | some i =>
                if isConstStr1 data behind i (closeTag name) then
                  pure (.ok (i + (closeTag name).length))
                else findEndLoop name data behind turns true (i + 1)

/-- The loop of SDF_xml_find_element_by_name: what was found, and `*curr`. -/
def findNameLoop (name data behind : List UInt8) : Nat → Nat → Except XmlStop SdfXml × Nat
  | 0, curr => (.error .stuck, curr)
  | turns + 1, curr =>
      match sdfXmlFindStartElement data curr with
      | .error e => (.error e, curr)
      | .ok (xml, curr) =>
          if xml.name data = ascii "?xml" then findNameLoop name data behind turns curr
          -- `strncmp(xml->element, name, strlen(name)) == 0`
          else if name.isPrefixOf (data.drop xml.element ++ behind) then (.ok xml, curr)
          else findNameLoop name data behind turns curr

/-- SDF_xml_find_element_by_name -/
def sdfXmlFindElementByName (name data behind : List UInt8) (curr : Nat) :
    Except Fault (Except XmlStop SdfXml × Nat) :=
  match findNameLoop name data behind (data.length + 1) curr with
  | (.error e, curr) => pure (.error e, curr)
  | (.ok xml, _) => do
      let curr := xml.attr + xml.attrLen - 1
      match ← findEndLoop name data behind (data.length + 1) false curr with
      | .error e => pure (.error e, curr)
      | .ok curr => pure (.ok xml, curr)

/-- The loop of SDF_xml_find_start_element. -/
def findStartLoop (data : List UInt8) : Nat → Nat → Except XmlStop (SdfXml × Nat)
  | 0, _ => .error .stuck
  | turns + 1, curr => do
      let (xml, curr) ← sdfXmlFindStartElement data curr
      if isProlog (xml.name data) then findStartLoop data turns curr else .ok (xml, curr)

/-- SDF_xml_find_start_element -/
def findStartElement (data : List UInt8) (curr : Nat) : Except XmlStop (SdfXml × Nat) :=
  findStartLoop data (data.length + 1) curr

/-! ## Documents -/

/-- A name, white space, and attributes in any layout. -/
structure StartTag where
  name : ElementName
  white : List UInt8
  attrs : List UInt8
  parts : TagParts name.bytes white attrs

def StartTag.ofTag (tag : Tag) : StartTag :=
  ⟨tag.name, attrsLead tag.attrs tag.space, attrsSpan tag.attrs tag.space, tag.parts⟩

/-- A text between tags. -/
structure Chars where
  bytes : List UInt8
  plain : 0x3c ∉ bytes

mutual

/-- `<name …/>`, or `<name …> … </name>`, with white space at the end of the end tag. -/
inductive Node where
  | closed (tag : StartTag)
  | element (tag : StartTag) (lead : Chars) (inside : Nodes) (space : Space)

/-- Elements, each with the text behind it. -/
inductive Nodes where
  | nil
  | cons (node : Node) (behind : Chars) (rest : Nodes)

end

/-- A document; behind a declaration there is an element. -/
structure Document where
  declaration : Option Declaration
  lead : Chars
  nodes : Nodes
  root : declaration.isSome → nodes ≠ .nil

/-! ## Tags in a row -/

inductive Mark where
  | declaration (d : Declaration)
  | start (tag : StartTag) (closed : Bool)
  | ending (name : ElementName) (space : Space)

namespace Mark

/-- What is read as the name. -/
def name : Mark → List UInt8
  | .declaration _ => ascii "?xml"
  | .start tag _ => tag.name.bytes
  | .ending name _ => 0x2f :: name.bytes

def white : Mark → List UInt8
  | .declaration d => attrsLead d.attrs d.space
  | .start tag _ => tag.white
  | .ending _ space => space.bytes

/-- What is read as the attributes. -/
def attrs : Mark → List UInt8
  | .declaration d => attrsSpan d.attrs d.space ++ [0x3f]
  | .start tag _ => tag.attrs
  | .ending _ _ => []

def closed : Mark → Bool
  | .declaration _ => false
  | .start _ closed => closed
  | .ending _ _ => false

def brackets (m : Mark) : List UInt8 := if m.closed then [0x2f, 0x3e] else [0x3e]

def text (m : Mark) : List UInt8 := 0x3c :: (m.name ++ (m.white ++ (m.attrs ++ m.brackets)))

end Mark

/-- A text or a tag. -/
inductive Item where
  | chars (w : Chars)
  | mark (m : Mark)

def Item.text : Item → List UInt8
  | .chars w => w.bytes
  | .mark m => m.text

def itemsText (items : List Item) : List UInt8 := items.flatMap Item.text

mutual

def Node.items : Node → List Item
  | .closed tag => [.mark (.start tag true)]
  | .element tag lead inside space =>
      .mark (.start tag false) :: .chars lead ::
        (inside.items ++ [.mark (.ending tag.name space)])

def Nodes.items : Nodes → List Item
  | .nil => []
  | .cons node behind rest => node.items ++ .chars behind :: rest.items

end

namespace Document

/-- What is in front of the elements. -/
def prolog (doc : Document) : List Item :=
  (doc.declaration.map fun d => Item.mark (.declaration d)).toList ++ [.chars doc.lead]

def items (doc : Document) : List Item := doc.prolog ++ doc.nodes.items

def text (doc : Document) : List UInt8 := itemsText doc.items

end Document

def Node.text (node : Node) : List UInt8 := itemsText node.items

/-- The tags, each with its place, when the first item is at `i`. -/
def marksAt : Nat → List Item → List (Nat × Mark)
  | _, [] => []
  | i, .chars w :: items => marksAt (i + w.bytes.length) items
  | i, .mark m :: items => (i, m) :: marksAt (i + m.text.length) items

def Document.marks (doc : Document) : List (Nat × Mark) := marksAt 0 doc.items

/-! ## What should be found -/

namespace Node

def tag : Node → StartTag
  | .closed tag => tag
  | .element tag _ _ _ => tag

def name (node : Node) : List UInt8 := node.tag.name.bytes

def isClosed : Node → Bool
  | .closed _ => true
  | .element _ _ _ _ => false

/-- Its end tag is `</name>`, without white space. -/
def endsPlain : Node → Bool
  | .closed _ => false
  | .element _ _ _ space => space.bytes.isEmpty

/-- The tag that it starts with. -/
def mark (node : Node) : Mark := .start node.tag node.isClosed

end Node

mutual

/-- An element and what is in it, in document order, each with its place. -/
def Node.inOrder : Nat → Node → List (Nat × Node)
  | i, .closed tag => [(i, .closed tag)]
  | i, .element tag lead inside space => (i, .element tag lead inside space) ::
      Nodes.inOrder (i + (Mark.start tag false).text.length + lead.bytes.length) inside

def Nodes.inOrder : Nat → Nodes → List (Nat × Node)
  | _, .nil => []
  | i, .cons node behind rest => Node.inOrder i node ++
      Nodes.inOrder (i + (itemsText node.items).length + behind.bytes.length) rest

end

/-- The elements of a document in document order, each with its place. -/
def Document.elements (doc : Document) : List (Nat × Node) :=
  doc.nodes.inOrder (itemsText doc.prolog).length

/-- The first element with exactly the name. -/
def Document.named (doc : Document) (name : List UInt8) : Option (Nat × Node) :=
  doc.elements.find? fun e => e.2.name = name

/-- What a search from the front of the document should do. -/
def Finds (doc : Document) (name : List UInt8)
    (r : Except Fault (Except XmlStop SdfXml × Nat)) : Prop :=
  match doc.named name with
  | none => ∃ e curr, r = .ok (.error e, curr) ∧ e ≠ .stuck
  | some (i, node) => ∃ xml curr, findStartElement doc.text i = .ok (xml, curr) ∧
      r = .ok (.ok xml, i + node.text.length)

/-- Another element with the name, and with the end tag `</name>`, is inside. -/
def Node.Nests (name : List UInt8) : Node → Prop
  | .closed _ => False
  | .element _ _ inside _ => ∃ e ∈ inside.inOrder 0, e.2.name = name ∧ e.2.endsPlain = true

/-- The text of the tag starts with the name, and it is not the declaration. -/
def startsWith (data behind name : List UInt8) (m : Nat × Mark) : Bool :=
  m.2.name ≠ ascii "?xml" && name.isPrefixOf (data.drop (m.1 + 1) ++ behind)

/-- Where the tag is, there is `</name>`. -/
def closes (data behind name : List UInt8) (m : Nat × Mark) : Bool :=
  isConstStr1 data behind m.1 (closeTag name)

/-- The first tag that starts with the name. -/
def Document.starting (doc : Document) (behind name : List UInt8) : Option (Nat × Mark) :=
  doc.marks.find? (startsWith doc.text behind name)

/-- The first `</name>` behind `i`. -/
def Document.closing (doc : Document) (behind name : List UInt8) (i : Nat) :
    Option (Nat × Mark) :=
  doc.marks.find? fun m => i < m.1 && closes doc.text behind name m

/-- If a tag starts with the name, the first such does not close itself and the name has room in
close_tag.  That tag starts the element that is to be found, which ends with `</name>` and has no
other such one inside, or there is none to be found and no `</name>` either. -/
def Suits (doc : Document) (behind name : List UInt8) : Prop :=
  match doc.starting behind name with
  | none => True
  | some (i, m) => m.closed = false ∧ name.length ≤ 46 ∧
      match doc.named name with
      | none => doc.closing behind name i = none
      | some (j, node) => i = j ∧ node.endsPlain = true ∧ ¬ node.Nests name

/-! ## Tags -/

namespace Mark

variable (m : Mark)

theorem parts : TagParts m.name m.white m.attrs := by
  cases m with
  | declaration d => exact d.parts
  | start tag closed => exact tag.parts
  | ending name space => exact { name.endParts with white := space.white, apart := .inr rfl }

theorem brackets_eq : Brackets m.closed m.brackets := by
  rw [brackets]
  cases m.closed
  · exact .one
  · exact .two

/-- What is between `<` and the bracket. -/
def inner : List UInt8 := m.name ++ (m.white ++ m.attrs)

theorem text_eq : m.text = 0x3c :: (m.inner ++ m.brackets) := by
  rw [text, inner, List.append_assoc, List.append_assoc]

theorem text_length : m.text.length = m.inner.length + m.brackets.length + 1 := by
  rw [text_eq, List.length_cons, List.length_append]

theorem name_start : ∃ c t, m.name = c :: t ∧ c ≠ 0x21 := by
  cases m with
  | declaration d => exact ⟨_, _, rfl, by decide⟩
  | ending name space => exact ⟨_, _, rfl, by decide⟩
  | start tag closed =>
    obtain ⟨c, t, hc⟩ := List.exists_cons_of_ne_nil tag.name.some
    refine ⟨c, t, hc, ?_⟩
    rintro rfl
    exact tag.name.start 0x21 (by rw [hc]; rfl) (by decide)

theorem bracket_not_mem_name : 0x3e ∉ m.name := by
  cases m with
  | declaration d => exact (by decide : 0x3e ∉ ascii "?xml")
  | start tag closed => exact tag.name.not_mem (by decide)
  | ending name space =>
    rw [Mark.name, List.mem_cons, not_or]
    exact ⟨by decide, name.not_mem (by decide)⟩

theorem slash_not_last_name : m.name.getLast? ≠ some 0x2f := by
  have hword : ∀ name : ElementName, name.bytes.getLast? ≠ some 0x2f := fun name h =>
    name.not_mem (c := 0x2f) (by decide) (List.mem_of_getLast? h)
  cases m with
  | declaration d => exact (by decide : (ascii "?xml").getLast? ≠ some 0x2f)
  | start tag closed => exact hword tag.name
  | ending name space =>
    rw [Mark.name, List.getLast?_cons_of_ne_nil name.some]
    exact hword name

theorem bracket_not_mem : 0x3e ∉ m.inner := by
  rw [inner, List.mem_append, List.mem_append, not_or, not_or]
  refine ⟨m.bracket_not_mem_name, fun h => ?_, m.parts.noBracket⟩
  exact absurd (m.parts.white _ h) (by decide)

/-- The byte in front of the bracket is no slash. -/
theorem inner_last : ∃ front c, m.inner = front ++ [c] ∧ c ≠ 0x2f := by
  have hlast : m.inner.getLast? ≠ some 0x2f := by
    rw [inner, List.getLast?_append, List.getLast?_append]
    cases ha : m.attrs.getLast? with
    | some c =>
      rw [Option.some_or, Option.some_or]
      exact fun h => m.parts.noSlash (ha.trans h)
    | none =>
      cases hw : m.white.getLast? with
      | some c =>
        rintro ⟨⟩
        exact absurd (m.parts.white _ (List.mem_of_getLast? hw)) (by decide)
      | none => exact m.slash_not_last_name
  have hsome : m.inner ≠ [] := by
    obtain ⟨c, t, hc, -⟩ := m.name_start
    rw [inner, hc]
    exact List.cons_ne_nil _ _
  refine ⟨_, _, (List.dropLast_append_getLast hsome).symm, fun h => hlast ?_⟩
  rw [List.getLast?_eq_some_getLast hsome, h]

end Mark

/-! ## Items -/

section

variable {items items' : List Item} {i j : Nat} {m m' : Mark}

theorem itemsText_append : itemsText (items ++ items') = itemsText items ++ itemsText items' :=
  List.flatMap_append

theorem itemsText_cons (item : Item) : itemsText (item :: items) = item.text ++ itemsText items :=
  rfl

theorem marksAt_append : marksAt i (items ++ items') =
    marksAt i items ++ marksAt (i + (itemsText items).length) items' := by
  induction items generalizing i with
  | nil => rfl
  | cons item items ih =>
    rw [itemsText_cons, List.length_append, ← Nat.add_assoc, List.cons_append]
    cases item with
    | chars w => exact ih
    | mark m =>
      rw [marksAt, ih]
      rfl

theorem le_of_mem_marksAt (h : (j, m) ∈ marksAt i items) : i ≤ j := by
  induction items generalizing i with
  | nil => cases h
  | cons item items ih =>
    cases item with
    | chars w => exact (Nat.le_add_right ..).trans (ih h)
    | mark m =>
      rcases List.mem_cons.1 h with ⟨⟨⟩⟩ | h
      · exact le_rfl
      · exact (Nat.le_add_right ..).trans (ih h)

theorem not_mem_marksAt_behind : (i, m) ∉ marksAt (i + m'.text.length) items := by
  intro h
  have hle := le_of_mem_marksAt h
  rw [m'.text_length] at hle
  omega

/-- There is one tag at a place. -/
theorem marksAt_unique (h : (j, m) ∈ marksAt i items) (h' : (j, m') ∈ marksAt i items) :
    m = m' := by
  induction items generalizing i with
  | nil => cases h
  | cons item items ih =>
    cases item with
    | chars w => exact ih h h'
    | mark m₀ =>
      rcases List.mem_cons.1 h with ⟨⟨⟩⟩ | h
      · rcases List.mem_cons.1 h' with ⟨⟨⟩⟩ | h'
        · rfl
        · exact absurd h' not_mem_marksAt_behind
      · rcases List.mem_cons.1 h' with ⟨⟨⟩⟩ | h'
        · exact absurd h not_mem_marksAt_behind
        · exact ih h h'

/-- Where a tag is, the items can be cut. -/
theorem split_of_mem_marksAt (h : (j, m) ∈ marksAt i items) :
    ∃ front rest, items = front ++ .mark m :: rest ∧ j = i + (itemsText front).length := by
  induction items generalizing i with
  | nil => cases h
  | cons item items ih =>
    have hlater : ∀ k, (j, m) ∈ marksAt (i + k) items → item.text.length = k →
        ∃ front rest, item :: items = front ++ .mark m :: rest ∧
          j = i + (itemsText front).length := by
      rintro k hmem rfl
      obtain ⟨front, rest, rfl, rfl⟩ := ih hmem
      refine ⟨item :: front, rest, rfl, ?_⟩
      rw [itemsText_cons, List.length_append, Nat.add_assoc]
    cases item with
    | chars w => exact hlater _ h rfl
    | mark m₀ =>
      rcases List.mem_cons.1 h with ⟨⟨⟩⟩ | h
      · exact ⟨[], items, rfl, rfl⟩
      · exact hlater _ h rfl

end

/-! ## Reading a tag -/

section

variable {data s w : List UInt8} {i : Nat}

theorem memchr_text {c : UInt8} (hw : c ∉ w) (h : At data i (w ++ s)) :
    memchr data i c = memchr data (i + w.length) c := by
  induction w generalizing i with
  | nil => rfl
  | cons d w ih =>
    rw [List.mem_cons, not_or] at hw
    rw [memchr_skip h (Ne.symm hw.1), ih hw.2 h.tail, List.length_cons]
    congr 1
    omega

/-- A text in front of a tag is passed over. -/
theorem findStart_text (hw : 0x3c ∉ w) (h : At data i (w ++ s)) :
    sdfXmlFindStartElement data i = sdfXmlFindStartElement data (i + w.length) := by
  have hopen : ∀ turns, findOpen data (turns + 1) i = findOpen data (turns + 1) (i + w.length) := by
    intro turns
    rw [findOpen, findOpen, memchr_text hw h]
  rw [sdfXmlFindStartElement, sdfXmlFindStartElement, hopen]

/-- Behind the tag the scanner looks for the next `<`. -/
def Mark.opens : Mark → Bool
  | .declaration _ => true
  | .start _ closed => !closed
  | .ending _ _ => false

/-- A tag as it is read at `i`; `xml.data` is where the scanner has gone on to. -/
structure Reads (data : List UInt8) (i : Nat) (m : Mark) (xml : SdfXml) : Prop where
  start : sdfXmlFindStartElement data i = .ok (xml, xml.data)
  element : xml.element = i + 1
  name : xml.name data = m.name
  attrs : xml.attr + xml.attrLen = i + 1 + m.inner.length

theorem Mark.isBeginElement2_text (m : Mark) :
    (isBeginElement2 (m.text ++ s) = false ∧ m.closed = false) ↔ m.opens = true := by
  cases m with
  | declaration d => exact iff_of_true ⟨rfl, rfl⟩ rfl
  | ending name space => exact iff_of_false (fun h => Bool.noConfusion h.1) Bool.false_ne_true
  | start tag closed =>
    obtain ⟨c, t, hc⟩ := List.exists_cons_of_ne_nil tag.name.some
    have hslash : c ≠ 0x2f := by
      rintro rfl
      exact tag.name.not_mem (c := 0x2f) (by decide) (by rw [hc]; exact List.mem_cons_self)
    have hno : isBeginElement2 ((Mark.start tag closed).text ++ s) = false := by
      rw [Mark.text, Mark.name, hc]
      simp [isBeginElement2, hslash]
    rw [hno]
    simp [Mark.closed, Mark.opens]

theorem findStart_mark {m : Mark} (h : At data i (m.text ++ s))
    (hopens : m.opens = true → ∃ w c s', s = w ++ 0x3c :: c :: s' ∧ 0x3c ∉ w) :
    ∃ xml w s', Reads data i m xml ∧ s = w ++ s' ∧ 0x3c ∉ w ∧
      xml.data = i + m.text.length + w.length := by
  obtain ⟨c, t, hc, hbang⟩ := m.name_start
  have hparts : At data i (0x3c :: (m.name ++ (m.white ++ (m.attrs ++ (m.brackets ++ s))))) := by
    have htext : m.text ++ s =
        0x3c :: (m.name ++ (m.white ++ (m.attrs ++ (m.brackets ++ s)))) := by
      simp only [Mark.text, List.cons_append, List.append_assoc]
    rwa [htext] at h
  have hopen : At data i (gapText [] ++
      0x3c :: c :: (t ++ (m.white ++ (m.attrs ++ (m.brackets ++ s))))) := by
    rwa [hc] at hparts
  have hfirst : findOpen data (data.length + 1) i = .ok i := findOpen_eq hopen hbang
  obtain ⟨x, hread, helement, hlen, hclose, hattrs, hdata⟩ :
      ∃ x, readTag data i = .ok x ∧ x.element = i + 1 ∧ x.elementLen = m.name.length ∧
        x.elementClose = m.closed ∧ x.attr + x.attrLen = i + 1 + m.inner.length ∧
        x.data = i + m.text.length := by
    have hinner : m.inner.length = m.name.length + (m.white.length + m.attrs.length) := by
      rw [Mark.inner, List.length_append, List.length_append]
    have hlength := m.text_length
    refine ⟨_, readTag_eq m.parts m.brackets_eq hparts, rfl, rfl, rfl, ?_, ?_⟩
    · simp only [hinner]
      omega
    · simp only
      omega
  have hname : x.name data = m.name := by
    rw [SdfXml.name, helement, hlen, hparts.tail.span]
  have hbegin := m.isBeginElement2_text (s := s)
  rw [← h.drop, ← hclose] at hbegin
  have hfound : sdfXmlFindStartElement data i = (do
      let x ← if m.opens = true then readContent data x else pure x
      pure (x, x.data)) := by
    simp only [sdfXmlFindStartElement, hfirst, xml_ok_bind, hread, hbegin]
  by_cases ho : m.opens = true
  · obtain ⟨w, d, s', rfl, hw⟩ := hopens ho
    have hbehind : At data x.data (w ++ 0x3c :: d :: s') := by
      rw [hdata]
      exact h.step
    rw [if_pos ho, readContent_eq hw hbehind] at hfound
    split_ifs at hfound with hd
    · exact ⟨_, w, _, ⟨hfound, helement, hname, hattrs⟩, rfl, hw,
        congrArg (· + w.length) hdata⟩
    · exact ⟨_, w, _, ⟨hfound, helement, hname, hattrs⟩, rfl, hw,
        congrArg (· + w.length) hdata⟩
  · rw [if_neg ho] at hfound
    exact ⟨x, [], s, ⟨hfound, helement, hname, hattrs⟩, rfl, List.not_mem_nil, hdata⟩

end

/-! ## The first loop -/

/-- Behind a tag that opens there is another tag. -/
def Proper : List Item → Prop
  | [] => True
  | .chars _ :: items => Proper items
  | .mark m :: items => (m.opens = true → ∃ m', Item.mark m' ∈ items) ∧ Proper items

section

variable {data behind name : List UInt8} {items : List Item} {i turns : Nat}

theorem itemsText_of_mark (h : ∃ m, Item.mark m ∈ items) :
    ∃ w c s, itemsText items = w ++ 0x3c :: c :: s ∧ 0x3c ∉ w := by
  induction items with
  | nil => exact absurd h.choose_spec List.not_mem_nil
  | cons item items ih =>
    obtain ⟨m, hm⟩ := h
    rw [itemsText_cons]
    cases item with
    | mark m' =>
      obtain ⟨c, t, hc, -⟩ := m'.name_start
      refine ⟨[], c, t ++ (m'.white ++ (m'.attrs ++ m'.brackets)) ++ itemsText items, ?_,
        List.not_mem_nil⟩
      rw [Item.text, Mark.text, hc]
      rfl
    | chars v =>
      obtain ⟨w, c, s, hs, hw⟩ := ih ⟨m, (List.mem_cons.1 hm).resolve_left (by simp)⟩
      refine ⟨v.bytes ++ w, c, s, ?_, ?_⟩
      · rw [hs, Item.text, List.append_assoc]
      · rw [List.mem_append, not_or]
        exact ⟨v.plain, hw⟩

/-- Only the scanner sees the cursor. -/
theorem nameLoop_congr {i' : Nat}
    (h : sdfXmlFindStartElement data i = sdfXmlFindStartElement data i') :
    (findNameLoop name data behind (turns + 1) i).1 =
      (findNameLoop name data behind (turns + 1) i').1 := by
  rw [findNameLoop, findNameLoop, h]
  cases sdfXmlFindStartElement data i' <;> rfl

/-- The loop stops at the first tag that starts with the name. -/
theorem nameLoop_eq (h : At data i (itemsText items)) (hp : Proper items)
    (hturns : (marksAt i items).length < turns) :
    ((marksAt i items).find? (startsWith data behind name) = none →
      (findNameLoop name data behind turns i).1 = .error .eof) ∧
    ∀ j m, (marksAt i items).find? (startsWith data behind name) = some (j, m) →
      ∃ xml, (findNameLoop name data behind turns i).1 = .ok xml ∧ Reads data j m xml := by
  induction items generalizing i turns with
  | nil =>
    obtain ⟨turns, rfl⟩ := Nat.exists_eq_succ_of_ne_zero (Nat.ne_zero_of_lt hturns)
    have hgap : At data i (gapText []) := h
    have hnone := findStart_none hgap
    refine ⟨fun _ => ?_, fun j m hm => absurd hm (Option.some_ne_none _).symm⟩
    rw [findNameLoop, hnone]
  | cons item items ih =>
    obtain ⟨turns, rfl⟩ := Nat.exists_eq_succ_of_ne_zero (Nat.ne_zero_of_lt hturns)
    rw [itemsText_cons] at h
    cases item with
    | chars w =>
      rw [nameLoop_congr (findStart_text w.plain h)]
      exact ih h.step hp hturns
    | mark m =>
      rw [marksAt, List.length_cons] at hturns
      obtain ⟨xml, w, s, hreads, hs, hw, hdata⟩ :=
        findStart_mark h fun ho => itemsText_of_mark (hp.1 ho)
      have hbehind : At data (i + m.text.length) (itemsText items) := h.step
      obtain ⟨turns, rfl⟩ := Nat.exists_eq_succ_of_ne_zero (by omega : turns ≠ 0)
      have hnext : (findNameLoop name data behind (turns + 1) xml.data).1 =
          (findNameLoop name data behind (turns + 1) (i + m.text.length)).1 := by
        rw [hs] at hbehind
        rw [hdata]
        exact nameLoop_congr (findStart_text hw hbehind).symm
      have hstep : (findNameLoop name data behind (turns + 1 + 1) i).1 =
          if startsWith data behind name (i, m) then .ok xml
          else (findNameLoop name data behind (turns + 1) xml.data).1 := by
        rw [findNameLoop, hreads.start]
        simp only [hreads.name, hreads.element, startsWith]
        by_cases hxml : m.name = ascii "?xml"
        · simp [hxml]
        · by_cases hname : name.isPrefixOf (data.drop (i + 1) ++ behind) = true
          · simp only [hxml, hname, if_false, if_true, ne_eq, not_false_eq_true, decide_true,
              Bool.and_self]
          · simp only [hxml, hname, if_false, Bool.and_false, Bool.false_eq_true]
      have hrest := ih hbehind hp.2 (Nat.lt_of_succ_lt_succ hturns)
      rw [← hnext] at hrest
      rw [hstep, marksAt]
      by_cases hstarts : startsWith data behind name (i, m) = true
      · rw [if_pos hstarts, List.find?_cons_of_pos hstarts]
        refine ⟨fun hnone => absurd hnone (Option.some_ne_none _), fun j m' hm => ?_⟩
        obtain ⟨rfl, rfl⟩ := Prod.mk.inj (Option.some.inj hm)
        exact ⟨xml, rfl, hreads⟩
      · rw [if_neg hstarts, List.find?_cons_of_neg hstarts]
        exact hrest

end

/-! ## The second loop -/

theorem closeTag_length (name : List UInt8) : (closeTag name).length = name.length + 3 := by
  rw [closeTag, List.length_append, List.length_append]
  change 2 + (name.length + 1) = _
  omega

/-- What the search for `</name>` returns. -/
def endReply (name : List UInt8) : Option (Nat × Mark) → Except XmlStop Nat
  | none => .error (.error "Can not find nested ending tag")
  | some (i, _) => .ok (i + (closeTag name).length)

/-- A tag up to its bracket. -/
theorem Mark.text_bracket (m : Mark) : ∃ front, m.text = 0x3c :: (front ++ [0x3e]) ∧
    0x3e ∉ front := by
  rw [m.text_eq, Mark.brackets]
  cases m.closed
  · exact ⟨m.inner, rfl, m.bracket_not_mem⟩
  · refine ⟨m.inner ++ [0x2f], ?_, ?_⟩
    · rw [List.append_assoc]
      rfl
    · rw [List.mem_append, not_or]
      exact ⟨m.bracket_not_mem, by decide⟩

section

variable {data behind name : List UInt8} {items : List Item} {i turns : Nat} {m : Mark}

/-- From a bracket on, the loop goes from tag to tag. -/
theorem endLoop_nested {u : List UInt8} {j : Nat} {tagClose : Bool} (hroom : name.length ≤ 46)
    (hbracket : memchr data i 0x3e = some j)
    (hopen : ¬ (tagClose = false ∧ isConstStr1 data behind (j - 1) (ascii "/>") = true))
    (hu : 0x3c ∉ u) (h : At data j (u ++ itemsText items))
    (hturns : (marksAt (j + u.length) items).length < turns) :
    findEndLoop name data behind turns tagClose i =
      .ok (endReply name ((marksAt (j + u.length) items).find? (closes data behind name))) := by
  have hfits : ¬ 50 < (closeTag name).length + 1 := by
    rw [closeTag_length]
    omega
  induction items generalizing i j u turns tagClose with
  | nil =>
    obtain ⟨turns, rfl⟩ := Nat.exists_eq_succ_of_ne_zero (Nat.ne_zero_of_lt hturns)
    have hend : At data j u := by
      rwa [show itemsText [] = [] from rfl, List.append_nil] at h
    simp only [findEndLoop, hbracket, if_neg hopen, if_neg hfits, memchr_none hend hu]
    rfl
  | cons item items ih =>
    rw [itemsText_cons] at h
    cases item with
    | chars w =>
      rw [← List.append_assoc] at h
      rw [marksAt, Nat.add_assoc, ← List.length_append] at hturns ⊢
      have hmem : 0x3c ∉ u ++ w.bytes := by
        rw [List.mem_append, not_or]
        exact ⟨hu, w.plain⟩
      exact ih hbracket hopen hmem h hturns
    | mark m =>
      rw [marksAt, List.length_cons] at hturns
      obtain ⟨turns, rfl⟩ := Nat.exists_eq_succ_of_ne_zero (by omega : turns ≠ 0)
      obtain ⟨front, htext, hfront⟩ := m.text_bracket
      have htag : At data j (u ++ 0x3c :: (front ++ 0x3e :: itemsText items)) := by
        rwa [Item.text, htext, List.cons_append, List.append_assoc] at h
      have hloop : findEndLoop name data behind (turns + 1) tagClose i =
          if closes data behind name (j + u.length, m) then
            .ok (.ok (j + u.length + (closeTag name).length))
          else findEndLoop name data behind turns true (j + u.length + 1) := by
        simp only [findEndLoop, hbracket, if_neg hopen, if_neg hfits, memchr_found htag hu]
        rfl
      rw [hloop, marksAt]
      by_cases hcloses : closes data behind name (j + u.length, m) = true
      · rw [if_pos hcloses, List.find?_cons_of_pos hcloses]
        rfl
      · rw [if_neg hcloses, List.find?_cons_of_neg hcloses]
        have hinner := htag.step.tail
        have hnext : At data (j + u.length + 1 + front.length) ([0x3e] ++ itemsText items) :=
          hinner.step
        have hplace : j + u.length + m.text.length =
            j + u.length + 1 + front.length + [0x3e].length := by
          rw [htext]
          simp only [List.length_cons, List.length_append, List.length_nil]
          omega
        rw [hplace] at hturns ⊢
        exact ih (memchr_found hinner hfront) (fun h => Bool.noConfusion h.1) (by decide) hnext
          (Nat.lt_of_succ_lt_succ hturns)

/-- The search for the end of an element starts in front of the bracket of its tag. -/
theorem Mark.last_at {s : List UInt8} (h : At data i (m.text ++ s)) :
    ∃ d, d ≠ 0x2f ∧ 0x3e ≠ d ∧ At data (i + m.inner.length) (d :: (m.brackets ++ s)) := by
  obtain ⟨front, d, hinner, hslash⟩ := m.inner_last
  have hd : 0x3e ≠ d := by
    rintro rfl
    exact m.bracket_not_mem (by rw [hinner]; simp)
  refine ⟨d, hslash, hd, ?_⟩
  rw [m.text_eq, hinner, List.cons_append, List.append_assoc, List.append_assoc] at h
  have hstep := h.tail.step
  rw [hinner, List.length_append, List.length_singleton]
  rwa [Nat.add_assoc, Nat.add_comm 1] at hstep

theorem endLoop_closed (behind name : List UInt8) (turns : Nat)
    (h : At data i (m.text ++ itemsText items)) (hclosed : m.closed = true) :
    findEndLoop name data behind (turns + 1) false (i + m.inner.length) =
      .ok (.ok (i + m.text.length + 1)) := by
  obtain ⟨d, -, hd, hlast⟩ := Mark.last_at h
  have hbrackets : m.brackets = [0x2f, 0x3e] := by rw [Mark.brackets, if_pos hclosed]
  have hlength := m.text_length
  rw [hbrackets] at hlast hlength
  have htwo : At data (i + m.inner.length) ([d, 0x2f] ++ 0x3e :: itemsText items) := hlast
  have hfound : memchr data (i + m.inner.length) 0x3e = some (i + m.inner.length + 2) :=
    memchr_found htwo (by simp [hd])
  have hend : isConstStr1 data behind (i + m.inner.length + 2 - 1) (ascii "/>") = true := by
    have hsize := hlast.size
    simp only [List.length_cons, List.length_append] at hsize
    have hdrop := hlast.tail.drop
    rw [isConstStr1, Nat.add_succ_sub_one, hdrop, Bool.and_eq_true, decide_eq_true_eq]
    refine ⟨?_, List.isPrefixOf_iff_prefix.2 ⟨itemsText items ++ behind, rfl⟩⟩
    change 1 ≤ _
    omega
  simp only [findEndLoop, hfound, hend, and_self, if_true]
  refine congrArg (fun k => Except.ok (Except.ok k)) ?_
  rw [hlength]
  change i + m.inner.length + 2 + 2 = i + (m.inner.length + 2 + 1) + 1
  omega

/-- The bracket of a tag that does not close itself is found first. -/
theorem findBracket_open (behind : List UInt8) (h : At data i (m.text ++ itemsText items))
    (hclosed : m.closed = false) :
    memchr data (i + m.inner.length) 0x3e = some (i + m.inner.length + 1) ∧
      ¬ isConstStr1 data behind (i + m.inner.length + 1 - 1) (ascii "/>") = true ∧
      At data (i + m.inner.length + 1) ([0x3e] ++ itemsText items) ∧
      i + m.text.length = i + m.inner.length + 1 + [(0x3e : UInt8)].length := by
  obtain ⟨d, hslash, hd, hlast⟩ := Mark.last_at h
  have hbrackets : m.brackets = [0x3e] := by
    rw [Mark.brackets, hclosed]
    rfl
  have hlength := m.text_length
  rw [hbrackets] at hlast hlength
  have hone : At data (i + m.inner.length) ([d] ++ 0x3e :: itemsText items) := hlast
  refine ⟨memchr_found hone (by simp [hd]), fun hend => ?_, hlast.tail, ?_⟩
  · rw [isConstStr1, Nat.add_sub_cancel, hlast.drop, Bool.and_eq_true,
      List.isPrefixOf_iff_prefix] at hend
    exact hslash (List.cons_prefix_cons.1 hend.2).1.symm
  · rw [hlength]
    rfl

theorem endLoop_long (behind : List UInt8) (turns : Nat)
    (h : At data i (m.text ++ itemsText items)) (hclosed : m.closed = false)
    (hlong : 46 < name.length) :
    findEndLoop name data behind (turns + 1) false (i + m.inner.length) = .error .overrun := by
  obtain ⟨hfound, hopen, -⟩ := findBracket_open behind h hclosed
  have hfull : 50 < (closeTag name).length + 1 := by
    rw [closeTag_length]
    omega
  simp only [findEndLoop, hfound, hopen, Bool.false_eq_true, and_false, if_false, if_pos hfull]
  rfl

theorem endLoop_short (behind : List UInt8) (h : At data i (m.text ++ itemsText items))
    (hclosed : m.closed = false) (hroom : name.length ≤ 46)
    (hturns : (marksAt (i + m.text.length) items).length ≤ turns) :
    findEndLoop name data behind (turns + 1) false (i + m.inner.length) =
      .ok (endReply name ((marksAt (i + m.text.length) items).find?
        (closes data behind name))) := by
  obtain ⟨hfound, hopen, hbehind, hplace⟩ := findBracket_open behind h hclosed
  rw [hplace] at hturns ⊢
  exact endLoop_nested hroom hfound (fun h => hopen h.2) (by decide) hbehind
    (Nat.lt_succ_of_le hturns)

end

/-! ## Items of a tree -/

section

variable {items items' : List Item} {i j : Nat} {m : Mark}

theorem mem_marksAt : (∃ j, (j, m) ∈ marksAt i items) ↔ Item.mark m ∈ items := by
  induction items generalizing i with
  | nil => simp [marksAt]
  | cons item items ih =>
    cases item with
    | chars w => simp [marksAt, ih]
    | mark m' =>
      simp only [marksAt, List.mem_cons, Prod.mk.injEq, exists_or, ih, Item.mark.injEq,
        exists_eq_left]

theorem marksAt_length_le (i : Nat) (items : List Item) :
    (marksAt i items).length ≤ (itemsText items).length := by
  induction items generalizing i with
  | nil => exact le_rfl
  | cons item items ih =>
    rw [itemsText_cons, List.length_append]
    cases item with
    | chars w => exact (ih _).trans (Nat.le_add_left ..)
    | mark m =>
      rw [marksAt, List.length_cons, Item.text]
      have hle := ih (i + m.text.length)
      have hpos := m.text_length
      omega

/-- The tags of a part are at places inside it. -/
theorem mark_end_le (h : (j, m) ∈ marksAt i items) :
    j + m.text.length ≤ i + (itemsText items).length := by
  obtain ⟨front, rest, rfl, rfl⟩ := split_of_mem_marksAt h
  rw [itemsText_append, itemsText_cons, List.length_append, List.length_append, Item.text]
  omega

theorem Proper.right (h : Proper (items ++ items')) : Proper items' := by
  induction items with
  | nil => exact h
  | cons item items ih =>
    cases item with
    | chars w => exact ih h
    | mark m => exact ih h.2

/-- Every tag is read where it is. -/
theorem Proper.reads (hp : Proper items) (h : (j, m) ∈ marksAt 0 items) :
    ∃ xml, Reads (itemsText items) j m xml := by
  obtain ⟨front, rest, rfl, rfl⟩ := split_of_mem_marksAt h
  have hat := At.start (itemsText (front ++ .mark m :: rest))
  rw [itemsText_append] at hat ⊢
  obtain ⟨xml, -, -, hreads, -⟩ :=
    findStart_mark hat.step fun ho => itemsText_of_mark (hp.right.1 ho)
  exact ⟨xml, hreads⟩

end

theorem Node.items_start (node : Node) : ∃ rest, node.items = .mark node.mark :: rest := by
  cases node with
  | closed tag => exact ⟨_, rfl⟩
  | element tag lead inside space => exact ⟨_, rfl⟩

mutual

theorem Node.proper : ∀ (node : Node) {rest : List Item}, Proper rest →
    Proper (node.items ++ rest)
  | .closed tag, rest, h => ⟨fun ho => Bool.noConfusion ho, h⟩
  | .element tag lead inside space, rest, h => by
    have hend : Proper ([Item.mark (.ending tag.name space)] ++ rest) :=
      ⟨fun ho => Bool.noConfusion ho, h⟩
    have hinside := inside.proper hend
    rw [← List.append_assoc] at hinside
    exact ⟨fun _ => ⟨.ending tag.name space, by simp⟩, hinside⟩

theorem Nodes.proper : ∀ (nodes : Nodes) {rest : List Item}, Proper rest →
    Proper (nodes.items ++ rest)
  | .nil, rest, h => h
  | .cons node behind others, rest, h => by
    have hothers : Proper (.chars behind :: (others.items ++ rest)) := others.proper h
    rw [Nodes.items, List.append_assoc]
    exact node.proper hothers

end

mutual

/-- Where an element is, its tags are. -/
theorem Node.split : ∀ (node : Node) {i j : Nat} {e : Node}, (j, e) ∈ node.inOrder i →
    ∃ front rest, node.items = front ++ (e.items ++ rest) ∧ j = i + (itemsText front).length
  | .closed tag, i, j, e, h => by
    obtain ⟨⟨⟩⟩ := List.mem_singleton.1 h
    exact ⟨[], [], rfl, rfl⟩
  | .element tag lead inside space, i, j, e, h => by
    rw [Node.inOrder] at h
    rcases List.mem_cons.1 h with ⟨⟨⟩⟩ | h
    · exact ⟨[], [], (List.append_nil _).symm, rfl⟩
    · obtain ⟨front, rest, hitems, rfl⟩ := inside.split h
      refine ⟨.mark (.start tag false) :: .chars lead :: front,
        rest ++ [.mark (.ending tag.name space)], ?_, ?_⟩
      · simp only [Node.items, hitems, List.cons_append, List.append_assoc]
      · simp only [itemsText_cons, List.length_append, Item.text]
        omega

theorem Nodes.split : ∀ (nodes : Nodes) {i j : Nat} {e : Node}, (j, e) ∈ nodes.inOrder i →
    ∃ front rest, nodes.items = front ++ (e.items ++ rest) ∧ j = i + (itemsText front).length
  | .nil, i, j, e, h => by cases h
  | .cons node behind others, i, j, e, h => by
    rw [Nodes.inOrder] at h
    rcases List.mem_append.1 h with h | h
    · obtain ⟨front, rest, hitems, rfl⟩ := node.split h
      refine ⟨front, rest ++ .chars behind :: others.items, ?_, rfl⟩
      simp only [Nodes.items, hitems, List.append_assoc]
    · obtain ⟨front, rest, hitems, rfl⟩ := others.split h
      refine ⟨node.items ++ .chars behind :: front, rest, ?_, ?_⟩
      · simp only [Nodes.items, hitems, List.cons_append, List.append_assoc]
      · simp only [itemsText_append, itemsText_cons, List.length_append, Item.text]
        omega

end

mutual

/-- The end tags without white space. -/
theorem Node.ending_iff : ∀ (node : Node) (name : List UInt8) (i : Nat),
    (∃ n space, Item.mark (.ending n space) ∈ node.items ∧ n.bytes = name ∧ space.bytes = []) ↔
      ∃ e ∈ node.inOrder i, e.2.name = name ∧ e.2.endsPlain = true
  | .closed tag, name, i => by
    simp [Node.items, Node.inOrder, Node.endsPlain]
  | .element tag lead inside space, name, i => by
    have hinside := inside.ending_iff name
      (i + (Mark.start tag false).text.length + lead.bytes.length)
    simp only [Node.items, Node.inOrder, List.mem_cons, List.mem_append, reduceCtorEq,
      Item.mark.injEq, Mark.ending.injEq, List.not_mem_nil, or_false, false_or, or_and_right,
      exists_or, exists_eq_left, hinside, and_assoc, exists_and_left, Node.endsPlain,
      List.isEmpty_iff]
    exact or_comm

theorem Nodes.ending_iff : ∀ (nodes : Nodes) (name : List UInt8) (i : Nat),
    (∃ n space, Item.mark (.ending n space) ∈ nodes.items ∧ n.bytes = name ∧ space.bytes = []) ↔
      ∃ e ∈ nodes.inOrder i, e.2.name = name ∧ e.2.endsPlain = true
  | .nil, name, i => by simp [Nodes.items, Nodes.inOrder]
  | .cons node behind others, name, i => by
    have hnode := node.ending_iff name i
    have hothers := others.ending_iff name
      (i + (itemsText node.items).length + behind.bytes.length)
    simp only [Nodes.items, Nodes.inOrder, List.mem_cons, List.mem_append, reduceCtorEq,
      false_or, or_and_right, exists_or, hnode, hothers]

end

/-! ## Where a tag starts with a name -/

section

variable {data behind s : List UInt8} {i : Nat} {m : Mark}

/-- Two words that are followed by a byte that is in neither. -/
theorem eq_of_prefix_stop {stop : UInt8 → Bool} {xs ys zs : List UInt8} {a b : UInt8}
    (hx : ∀ c ∈ xs, stop c = false) (hy : ∀ c ∈ ys, stop c = false) (ha : stop a = true)
    (hb : stop b = true) (h : xs ++ [a] <+: ys ++ b :: zs) : xs = ys ∧ a = b := by
  induction xs generalizing ys with
  | nil =>
    cases ys with
    | nil => exact ⟨rfl, (List.cons_prefix_cons.1 h).1⟩
    | cons y ys =>
      have heq : a = y := (List.cons_prefix_cons.1 h).1
      rw [heq, hy y List.mem_cons_self] at ha
      cases ha
  | cons x xs ih =>
    obtain ⟨hxx, hxs⟩ := List.forall_mem_cons.1 hx
    cases ys with
    | nil =>
      have heq : x = b := (List.cons_prefix_cons.1 h).1
      rw [heq, hb] at hxx
      cases hxx
    | cons y ys =>
      obtain ⟨rfl, hrest⟩ := List.cons_prefix_cons.1 h
      obtain ⟨rfl, hab⟩ := ih hxs (List.forall_mem_cons.1 hy).2 hrest
      exact ⟨rfl, hab⟩

theorem Mark.drop_succ (h : At data i (m.text ++ s)) :
    data.drop (i + 1) = m.name ++ (m.white ++ (m.attrs ++ (m.brackets ++ s))) := by
  rw [Mark.text, List.cons_append] at h
  rw [h.tail.drop]
  simp only [List.append_assoc]

/-- For the name of an element, only an end tag with that name is `</name>`. -/
theorem closes_iff (name : ElementName) (h : At data i (m.text ++ s)) :
    closes data behind name.bytes (i, m) = true ↔
      ∃ n space, m = .ending n space ∧ n.bytes = name.bytes ∧ space.bytes = [] := by
  have hnext := Mark.drop_succ h
  have hdrop : data.drop i = 0x3c :: data.drop (i + 1) := by
    rw [h.drop, hnext]
    simp only [Mark.text, List.cons_append, List.append_assoc]
  rw [closes, isConstStr1, Bool.and_eq_true, decide_eq_true_eq, List.isPrefixOf_iff_prefix]
  constructor
  · rintro ⟨-, hpre⟩
    rw [hdrop, hnext] at hpre
    have hslash : 0x2f :: (name.bytes ++ [0x3e]) <+:
        m.name ++ (m.white ++ (m.attrs ++ (m.brackets ++ s))) ++ behind :=
      (List.cons_prefix_cons.1 hpre).2
    cases m with
    | declaration d => exact absurd (List.cons_prefix_cons.1 hslash).1 (by decide)
    | start tag closed =>
      obtain ⟨c, t, hc⟩ := List.exists_cons_of_ne_nil tag.name.some
      rw [Mark.name, hc] at hslash
      have heq := (List.cons_prefix_cons.1 hslash).1
      refine absurd ?_ (tag.name.not_mem (c := 0x2f) (by decide))
      rw [hc, heq]
      exact List.mem_cons_self
    | ending n space =>
      have hword : ∀ name : ElementName, ∀ c ∈ name.bytes, (isXmlSpace c || c = 0x3e) = false := by
        intro name c hc
        have hne : c ≠ 0x3e := fun he => name.not_mem (c := 0x3e) (by decide) (he ▸ hc)
        simp [(name.chars c hc).1, hne]
      have hrest : name.bytes ++ [0x3e] <+: n.bytes ++ (space.bytes ++ 0x3e :: (s ++ behind)) := by
        have htail := (List.cons_prefix_cons.1 hslash).2
        simpa [Mark.white, Mark.attrs, Mark.brackets, Mark.closed] using htail
      cases hspace : space.bytes with
      | nil =>
        rw [hspace] at hrest
        exact ⟨n, space, rfl, (eq_of_prefix_stop (hword name) (hword n) rfl rfl hrest).1.symm,
          hspace⟩
      | cons c w =>
        have hc := space.white c (by rw [hspace]; exact List.mem_cons_self)
        rw [hspace] at hrest
        have heq := (eq_of_prefix_stop (hword name) (hword n) rfl (by simp [hc]) hrest).2
        rw [← heq] at hc
        exact absurd hc (by decide)
  · rintro ⟨n, space, rfl, hn, hspace⟩
    have htext : (Mark.ending n space).text = closeTag name.bytes := by
      rw [Mark.text, Mark.white, hspace, closeTag, ← hn]
      rfl
    have hsize := h.size
    rw [List.length_append, htext] at hsize
    rw [h.drop, htext, List.append_assoc]
    exact ⟨by omega, List.prefix_append ..⟩

end

section

variable {items rest front : List Item} {m : Mark} {p : Nat × Mark → Bool}

/-- The first tag behind a tag. -/
theorem find_behind : (marksAt 0 (front ++ .mark m :: rest)).find?
      (fun x => (itemsText front).length < x.1 && p x) =
    (marksAt ((itemsText front).length + m.text.length) rest).find? p := by
  rw [marksAt_append, List.find?_append, Nat.zero_add, marksAt, List.find?_cons_of_neg (by simp)]
  have hfront : (marksAt 0 front).find? (fun x => (itemsText front).length < x.1 && p x) =
      none := by
    rw [List.find?_eq_none]
    rintro ⟨j, m'⟩ hmem htrue
    rw [Bool.and_eq_true, decide_eq_true_eq] at htrue
    have hle := mark_end_le hmem
    have hlt := htrue.1
    simp only at hlt
    omega
  rw [hfront, Option.none_or]
  refine List.find?_congr ?_
  rintro ⟨j, m'⟩ hmem
  have hle := le_of_mem_marksAt hmem
  have hpos := m.text_length
  have hlt : (itemsText front).length < j := by omega
  simp [hlt]

end

/-! ## The search -/

namespace Document

variable (doc : Document)

theorem proper : Proper doc.items := by
  have hnodes : Proper (.chars doc.lead :: doc.nodes.items) := by
    have hnil : Proper (doc.nodes.items ++ []) := doc.nodes.proper trivial
    rwa [List.append_nil] at hnil
  cases hdecl : doc.declaration with
  | none =>
    rw [items, prolog, hdecl]
    exact hnodes
  | some d =>
    rw [items, prolog, hdecl]
    refine ⟨fun _ => ?_, hnodes⟩
    cases hn : doc.nodes with
    | nil => exact absurd hn (doc.root (by rw [hdecl]; rfl))
    | cons node behind others =>
      obtain ⟨rest, hrest⟩ := node.items_start
      exact ⟨node.mark, by simp [Nodes.items, hrest]⟩

theorem reads {i : Nat} {m : Mark} (h : (i, m) ∈ doc.marks) : ∃ xml, Reads doc.text i m xml :=
  doc.proper.reads h

/-- Where an element is, the document can be cut. -/
theorem split {i : Nat} {node : Node} (h : (i, node) ∈ doc.elements) :
    ∃ front rest, doc.items = front ++ (node.items ++ rest) ∧ i = (itemsText front).length := by
  obtain ⟨front, rest, hitems, rfl⟩ := doc.nodes.split h
  refine ⟨doc.prolog ++ front, rest, ?_, ?_⟩
  · rw [items, hitems, List.append_assoc]
  · rw [itemsText_append, List.length_append]

theorem mark_mem {i : Nat} {node : Node} (h : (i, node) ∈ doc.elements) :
    (i, node.mark) ∈ doc.marks := by
  obtain ⟨front, rest, hitems, rfl⟩ := doc.split h
  obtain ⟨others, hothers⟩ := node.items_start
  rw [marks, hitems, hothers, marksAt_append, List.cons_append, marksAt, Nat.zero_add]
  exact List.mem_append_right _ List.mem_cons_self

theorem at_mark {i : Nat} {m : Mark} (h : (i, m) ∈ doc.marks) :
    ∃ s, At doc.text i (m.text ++ s) := by
  obtain ⟨front, rest, hitems, rfl⟩ := split_of_mem_marksAt h
  have hat := At.start doc.text
  rw [text, hitems, itemsText_append] at hat
  refine ⟨itemsText rest, ?_⟩
  rw [text, hitems, itemsText_append]
  exact hat.step

theorem found {i : Nat} {node : Node} (h : (i, node) ∈ doc.elements) :
    ∃ xml, Reads doc.text i node.mark xml ∧ findStartElement doc.text i = .ok (xml, xml.data) := by
  obtain ⟨xml, hreads⟩ := doc.reads (doc.mark_mem h)
  refine ⟨xml, hreads, ?_⟩
  have hprolog : isProlog (xml.name doc.text) = false := by
    rw [hreads.name]
    exact node.tag.name.notProlog
  rw [findStartElement, findStartLoop, hreads.start, xml_ok_bind]
  simp only [hprolog, Bool.false_eq_true, if_false]

variable {doc} {behind name : List UInt8} {i : Nat} {node : Node}

theorem mem_of_named (h : doc.named name = some (i, node)) :
    (i, node) ∈ doc.elements ∧ node.name = name :=
  ⟨List.mem_of_find?_eq_some h, by simpa using List.find?_some h⟩

/-- An element with the name starts with it. -/
theorem startsWith_named (h : (i, node) ∈ doc.elements) (hname : node.name = name) :
    startsWith doc.text behind name (i, node.mark) = true := by
  obtain ⟨s, hat⟩ := doc.at_mark (doc.mark_mem h)
  have hxml : node.mark.name ≠ ascii "?xml" := by
    intro heq
    have hprolog := node.tag.name.notProlog
    rw [show node.tag.name.bytes = ascii "?xml" from heq] at hprolog
    exact absurd hprolog (by simp [isProlog])
  have hpre : name <+: doc.text.drop (i + 1) ++ behind := by
    rw [Mark.drop_succ hat, ← hname, List.append_assoc]
    exact List.prefix_append ..
  rw [startsWith, Bool.and_eq_true, decide_eq_true_eq, List.isPrefixOf_iff_prefix]
  exact ⟨hxml, hpre⟩

end Document

section

variable {doc : Document} {behind name : List UInt8} {i j : Nat} {m : Mark} {xml : SdfXml}

theorem findName_turns : (marksAt 0 doc.items).length < doc.text.length + 1 :=
  Nat.lt_succ_of_le (marksAt_length_le 0 doc.items)

/-- No tag starts with the name. -/
theorem byName_none (h : doc.starting behind name = none) :
    doc.named name = none ∧
      ∃ curr, sdfXmlFindElementByName name doc.text behind 0 = .ok (.error .eof, curr) := by
  constructor
  · rw [Document.named, List.find?_eq_none]
    rintro ⟨j, node⟩ hmem hname
    rw [decide_eq_true_eq] at hname
    exact List.find?_eq_none.1 h _ (doc.mark_mem hmem) (Document.startsWith_named hmem hname)
  · have hloop := (nameLoop_eq (At.start doc.text) doc.proper findName_turns).1 h
    rw [sdfXmlFindElementByName]
    cases hrun : findNameLoop name doc.text behind (doc.text.length + 1) 0 with
    | mk r curr =>
      rw [hrun] at hloop
      subst hloop
      exact ⟨curr, rfl⟩

/-- What is returned for the first tag that starts with the name. -/
def byNameReply (xml : SdfXml) (curr : Nat) :
    Except XmlStop Nat → Except XmlStop SdfXml × Nat
  | .error e => (.error e, curr)
  | .ok curr => (.ok xml, curr)

theorem byName_some (h : doc.starting behind name = some (i, m)) :
    ∃ xml, Reads doc.text i m xml ∧
      (m.closed = true → sdfXmlFindElementByName name doc.text behind 0 =
        .ok (.ok xml, i + m.text.length + 1)) ∧
      (m.closed = false → 46 < name.length →
        sdfXmlFindElementByName name doc.text behind 0 = .error .overrun) ∧
      (m.closed = false → name.length ≤ 46 → sdfXmlFindElementByName name doc.text behind 0 =
        .ok (byNameReply xml (i + m.inner.length)
          (endReply name (doc.closing behind name i)))) := by
  obtain ⟨xml, hloop, hreads⟩ :=
    (nameLoop_eq (At.start doc.text) doc.proper findName_turns).2 i m h
  have hcurr : xml.attr + xml.attrLen - 1 = i + m.inner.length := by
    rw [hreads.attrs]
    omega
  have hrun : sdfXmlFindElementByName name doc.text behind 0 =
      (findEndLoop name doc.text behind (doc.text.length + 1) false (i + m.inner.length)).map
        (byNameReply xml (i + m.inner.length)) := by
    rw [sdfXmlFindElementByName]
    cases hfind : findNameLoop name doc.text behind (doc.text.length + 1) 0 with
    | mk r curr =>
      rw [hfind] at hloop
      subst hloop
      simp only [hcurr]
      cases findEndLoop name doc.text behind (doc.text.length + 1) false
          (i + m.inner.length) with
      | error fault => rfl
      | ok r => cases r <;> rfl
  obtain ⟨front, rest, hitems, hi⟩ := split_of_mem_marksAt (List.mem_of_find?_eq_some h)
  rw [Nat.zero_add] at hi
  have hat : At doc.text i (m.text ++ itemsText rest) := by
    have hstart := At.start doc.text
    rw [Document.text, hitems, itemsText_append] at hstart ⊢
    have hstep := hstart.step
    rwa [Nat.zero_add, ← hi] at hstep
  have hclosing : doc.closing behind name i =
      (marksAt (i + m.text.length) rest).find? (closes doc.text behind name) := by
    rw [Document.closing, Document.marks, hitems, hi]
    exact find_behind
  have hturns : (marksAt (i + m.text.length) rest).length ≤ doc.text.length := by
    have hle := marksAt_length_le (i + m.text.length) rest
    have hsize := hat.size
    rw [List.length_append] at hsize
    omega
  refine ⟨xml, hreads, fun hc => ?_, fun hc hroom => ?_, fun hc hroom => ?_⟩
  · rw [hrun, endLoop_closed behind name _ hat hc]
    rfl
  · rw [hrun, endLoop_long behind _ hat hc hroom]
    rfl
  · rw [hrun, endLoop_short behind hat hc hroom hturns, hclosing]
    rfl

theorem finds_ok {curr : Nat} (hreads : Reads doc.text i m xml) :
    Finds doc name (.ok (.ok xml, curr)) ↔
      ∃ node, doc.named name = some (i, node) ∧ curr = i + node.text.length := by
  rw [Finds]
  cases hnamed : doc.named name with
  | none =>
    refine iff_of_false ?_ ?_
    · rintro ⟨e, curr', ⟨⟩, -⟩
    · rintro ⟨node, ⟨⟩, -⟩
  | some e =>
    obtain ⟨j, node⟩ := e
    obtain ⟨y, hy, hstart⟩ := doc.found (Document.mem_of_named hnamed).1
    constructor
    · rintro ⟨x, curr', hfound, heq⟩
      obtain ⟨rfl, -⟩ := Prod.mk.inj (Except.ok.inj (hstart.symm.trans hfound))
      obtain ⟨hxml, rfl⟩ := Prod.mk.inj (Except.ok.inj heq)
      obtain rfl := Except.ok.inj hxml
      have hplace := hreads.element.symm.trans hy.element
      obtain rfl : i = j := by omega
      exact ⟨node, rfl, rfl⟩
    · rintro ⟨node', heq, rfl⟩
      obtain ⟨rfl, rfl⟩ := Prod.mk.inj (Option.some.inj heq)
      obtain ⟨rfl, -⟩ := Prod.mk.inj (Except.ok.inj (hy.start.symm.trans hreads.start))
      exact ⟨y, y.data, hstart, rfl⟩

theorem finds_error {e : XmlStop} {curr : Nat} (he : e ≠ .stuck) :
    Finds doc name (.ok (.error e, curr)) ↔ doc.named name = none := by
  rw [Finds]
  cases hnamed : doc.named name with
  | none => exact iff_of_true ⟨e, curr, rfl, he⟩ rfl
  | some e' =>
    refine iff_of_false ?_ (Option.some_ne_none _)
    rintro ⟨x, curr', -, ⟨⟩⟩

theorem not_finds_fault {fault : Fault} : ¬ Finds doc name (.error fault) := by
  rw [Finds]
  cases doc.named name with
  | none => rintro ⟨e, curr, ⟨⟩, -⟩
  | some e => rintro ⟨x, curr, -, ⟨⟩⟩

/-- The tags of an element between those in front of it and those behind it. -/
theorem element_marks (behind name : List UInt8) {tag : StartTag} {lead : Chars} {inside : Nodes}
    {space : Space} (h : (i, .element tag lead inside space) ∈ doc.elements) :
    ∃ front rest j, i + (Node.element tag lead inside space).text.length =
        j + (itemsText inside.items).length + (Mark.ending tag.name space).text.length ∧
      doc.marks = marksAt 0 front ++ (i, .start tag false) :: (marksAt j inside.items ++
        (j + (itemsText inside.items).length, .ending tag.name space) :: rest) ∧
      (∀ x ∈ rest, i + (Node.element tag lead inside space).text.length ≤ x.1) ∧
      doc.closing behind name i =
        ((marksAt j inside.items).find? (closes doc.text behind name)).or
          (((j + (itemsText inside.items).length, .ending tag.name space) :: rest).find?
            (closes doc.text behind name)) := by
  obtain ⟨front, rest, hitems, hi⟩ := doc.split h
  have hall : doc.items = front ++ .mark (.start tag false) :: .chars lead ::
      (inside.items ++ .mark (.ending tag.name space) :: rest) := by
    rw [hitems, Node.items]
    simp only [List.cons_append, List.append_assoc, List.nil_append]
  have hend : i + (Node.element tag lead inside space).text.length =
      i + (Mark.start tag false).text.length + lead.bytes.length +
        (itemsText inside.items).length + (Mark.ending tag.name space).text.length := by
    rw [Node.text, Node.items, itemsText_cons, itemsText_cons, itemsText_append]
    simp only [List.length_append, Item.text, itemsText, List.flatMap_cons, List.flatMap_nil,
      List.append_nil]
    omega
  refine ⟨front, marksAt (i + (Node.element tag lead inside space).text.length) rest, _, hend,
    ?_, fun x hx => le_of_mem_marksAt hx, ?_⟩
  · rw [Document.marks, hall, marksAt_append, Nat.zero_add, ← hi, marksAt, marksAt,
      marksAt_append, marksAt, ← hend]
  · rw [Document.closing, Document.marks, hall, hi, find_behind, marksAt, marksAt_append,
      List.find?_append, marksAt, ← hi, ← hend]

theorem Document.closes_mark (behind : List UInt8) (n : ElementName) (h : (i, m) ∈ doc.marks) :
    closes doc.text behind n.bytes (i, m) = true ↔
      ∃ n' space, m = .ending n' space ∧ n'.bytes = n.bytes ∧ space.bytes = [] := by
  obtain ⟨s, hat⟩ := doc.at_mark h
  exact closes_iff n hat

theorem plain_length {n : ElementName} {space : Space} (hn : n.bytes = name)
    (hspace : space.bytes = []) :
    (Mark.ending n space).text.length = (closeTag name).length := by
  rw [Mark.text, Mark.white, hspace, closeTag, ← hn]
  rfl

/-- The first `</name>` behind the tag of an element is its own end tag if that is one and there is
none inside. -/
theorem closing_own (behind : List UInt8) {node : Node} (h : (i, node) ∈ doc.elements)
    (hname : node.name = name) (hopen : node.isClosed = false) :
    (∃ j m, doc.closing behind name i = some (j, m) ∧
      j + (closeTag name).length = i + node.text.length) ↔
      node.endsPlain = true ∧ ¬ node.Nests name := by
  cases node with
  | closed tag => exact Bool.noConfusion hopen
  | element tag lead inside space =>
    obtain rfl : tag.name.bytes = name := hname
    obtain ⟨front, rest, k, hend, hmarks, hrest, hclosing⟩ :=
      element_marks behind tag.name.bytes h
    have hpos := closeTag_length tag.name.bytes
    have hnested := inside.ending_iff tag.name.bytes 0
    have hinside : ∀ x ∈ marksAt k inside.items, x ∈ doc.marks := fun x hx => by
      rw [hmarks]
      simp [hx]
    have hown : (k + (itemsText inside.items).length, Mark.ending tag.name space) ∈ doc.marks := by
      rw [hmarks]
      simp
    cases hfind : (marksAt k inside.items).find? (closes doc.text behind tag.name.bytes) with
    | some found =>
      -- the end tag of another element comes first
      obtain ⟨j, m⟩ := found
      rw [hfind, Option.some_or] at hclosing
      have hj := List.mem_of_find?_eq_some hfind
      obtain ⟨n, space', rfl, hn, hspace⟩ :=
        (Document.closes_mark behind tag.name (hinside _ hj)).1 (List.find?_some hfind)
      have hle := mark_end_le hj
      rw [plain_length hn hspace] at hle
      have hnests := hnested.1 ⟨n, space', mem_marksAt.1 ⟨j, hj⟩, hn, hspace⟩
      refine iff_of_false ?_ fun h => h.2 hnests
      rintro ⟨j', m', hfound, heq⟩
      obtain ⟨rfl, -⟩ := Prod.mk.inj (Option.some.inj (hclosing.symm.trans hfound))
      have hpos := (Mark.ending tag.name space).text_length
      omega
    | none =>
      rw [hfind, Option.none_or] at hclosing
      by_cases hspace : space.bytes = []
      · have hcloses := (Document.closes_mark behind tag.name hown).2
          ⟨tag.name, space, rfl, rfl, hspace⟩
        rw [List.find?_cons_of_pos hcloses] at hclosing
        refine iff_of_true ⟨_, _, hclosing, ?_⟩ ⟨List.isEmpty_iff.2 hspace, fun hnests => ?_⟩
        · rw [hend, plain_length rfl hspace]
        · obtain ⟨n, space', hmem, hn⟩ := hnested.2 hnests
          obtain ⟨j, hj⟩ := mem_marksAt.2 hmem
          exact List.find?_eq_none.1 hfind _ hj
            ((Document.closes_mark behind tag.name (hinside _ hj)).2 ⟨n, space', rfl, hn⟩)
      · -- what is found is behind the element
        have hcloses : ¬ closes doc.text behind tag.name.bytes _ = true := fun h => by
          obtain ⟨n, space', heq, -, hspace'⟩ := (Document.closes_mark behind tag.name hown).1 h
          obtain ⟨-, rfl⟩ := Mark.ending.inj heq
          exact hspace hspace'
        rw [List.find?_cons_of_neg hcloses] at hclosing
        refine iff_of_false ?_ fun h => hspace (List.isEmpty_iff.1 h.1)
        rintro ⟨j, m, hfound, heq⟩
        have hle := hrest _ (List.mem_of_find?_eq_some (hclosing.symm.trans hfound))
        simp only at hle
        omega

/-- For a tag that does not close itself, and a name with room in close_tag. -/
theorem finds_closing {curr : Nat} (hs : doc.starting behind name = some (i, m))
    (hreads : Reads doc.text i m xml) (hc : m.closed = false) :
    Finds doc name (.ok (byNameReply xml curr (endReply name (doc.closing behind name i)))) ↔
      match doc.named name with
      | none => doc.closing behind name i = none
      | some (j, node) => i = j ∧ node.endsPlain = true ∧ ¬ node.Nests name := by
  have hok : ∀ {found : Nat × Mark}, doc.closing behind name i = some found →
      (Finds doc name (.ok (byNameReply xml curr (endReply name (doc.closing behind name i)))) ↔
        ∃ node, doc.named name = some (i, node) ∧
          found.1 + (closeTag name).length = i + node.text.length) := by
    intro found hclosing
    rw [hclosing]
    exact finds_ok hreads
  have herror : doc.closing behind name i = none →
      (Finds doc name (.ok (byNameReply xml curr (endReply name (doc.closing behind name i)))) ↔
        doc.named name = none) := by
    intro hclosing
    rw [hclosing]
    exact finds_error (by simp)
  rcases Option.eq_none_or_eq_some (doc.closing behind name i) with hclosing | ⟨found, hclosing⟩
  · rw [herror hclosing]
    cases hnamed : doc.named name with
    | none => exact iff_of_true rfl hclosing
    | some e =>
      obtain ⟨j, node⟩ := e
      refine iff_of_false (Option.some_ne_none _) ?_
      rintro ⟨rfl, hsuits⟩
      obtain ⟨hmem, hname⟩ := Document.mem_of_named hnamed
      obtain rfl := marksAt_unique (List.mem_of_find?_eq_some hs) (doc.mark_mem hmem)
      obtain ⟨k, m', hsome, -⟩ := (closing_own behind hmem hname hc).2 hsuits
      exact Option.some_ne_none _ (hsome.symm.trans hclosing)
  · rw [hok hclosing]
    cases hnamed : doc.named name with
    | none =>
      refine iff_of_false ?_ fun h => Option.some_ne_none _ (hclosing.symm.trans h)
      rintro ⟨node, ⟨⟩, -⟩
    | some e =>
      obtain ⟨j, node⟩ := e
      obtain ⟨hmem, hname⟩ := Document.mem_of_named hnamed
      constructor
      · rintro ⟨node', heq, hcurr⟩
        obtain ⟨rfl, rfl⟩ := Prod.mk.inj (Option.some.inj heq)
        obtain rfl := marksAt_unique (List.mem_of_find?_eq_some hs) (doc.mark_mem hmem)
        exact ⟨rfl, (closing_own behind hmem hname hc).1 ⟨_, _, hclosing, hcurr⟩⟩
      · rintro ⟨rfl, hsuits⟩
        obtain rfl := marksAt_unique (List.mem_of_find?_eq_some hs) (doc.mark_mem hmem)
        obtain ⟨k, m', hsome, hcurr⟩ := (closing_own behind hmem hname hc).2 hsuits
        obtain rfl := Option.some.inj (hclosing.symm.trans hsome)
        exact ⟨node, rfl, hcurr⟩

/-- A tag that closes itself is not found right. -/
theorem not_finds_closed (hs : doc.starting behind name = some (i, m))
    (hreads : Reads doc.text i m xml) (hc : m.closed = true) :
    ¬ Finds doc name (.ok (.ok xml, i + m.text.length + 1)) := by
  rw [finds_ok hreads]
  rintro ⟨node, hnamed, hcurr⟩
  obtain rfl := marksAt_unique (List.mem_of_find?_eq_some hs)
    (doc.mark_mem (Document.mem_of_named hnamed).1)
  cases node with
  | closed tag =>
    have htext : (Node.closed tag).text = (Node.closed tag).mark.text := by
      rw [Node.text, Node.items, itemsText_cons]
      exact List.append_nil _
    rw [htext] at hcurr
    omega
  | element tag lead inside space => cases hc

/-- The search is right if and only if the name suits the document. -/
theorem by_name_iff (doc : Document) (behind name : List UInt8) :
    Finds doc name (sdfXmlFindElementByName name doc.text behind 0) ↔ Suits doc behind name := by
  rw [Suits]
  cases hs : doc.starting behind name with
  | none =>
    obtain ⟨hnamed, curr, hrun⟩ := byName_none hs
    rw [hrun, finds_error (by simp), hnamed]
    exact iff_of_true rfl trivial
  | some found =>
    obtain ⟨i, m⟩ := found
    obtain ⟨xml, hreads, hclosed, hlong, hshort⟩ := byName_some hs
    cases hc : m.closed with
    | true =>
      rw [hclosed hc]
      exact iff_of_false (not_finds_closed hs hreads hc) fun h =>
        Bool.noConfusion (hc.symm.trans h.1)
    | false =>
      by_cases hroom : name.length ≤ 46
      · rw [hshort hc hroom, finds_closing hs hreads hc]
        exact ⟨fun h => ⟨hc, hroom, h⟩, fun h => h.2.2⟩
      · rw [hlong hc (Nat.lt_of_not_le hroom)]
        exact iff_of_false not_finds_fault fun h => hroom h.2.1

end

theorem letterA_some : ascii "a" ≠ [] := by simp [ascii]

theorem letterA_chars : ∀ c ∈ ascii "a", isXmlSpace c = false ∧ c ∉ ascii "<>/='\"" := by
  simp [ascii, isXmlSpace]

theorem noSpace_white : ∀ c ∈ ([] : List UInt8), isXmlSpace c = true := by simp

/-- `a`, without attributes. -/
def tagA : Tag where
  name := ⟨⟨ascii "a", letterA_some, letterA_chars⟩, by simp [ascii]⟩
  attrs := []
  space := ⟨[], noSpace_white⟩

/-- `<a/>` -/
def closedA : Document where
  declaration := none
  lead := ⟨[], by simp⟩
  nodes := .cons (.closed (.ofTag tagA)) ⟨[], by simp⟩ .nil
  root := by simp

/-- Of `<a/>`, four bytes, five are taken. -/
theorem closed_overshoots : ¬ ∀ (doc : Document) (behind name : List UInt8),
    Finds doc name (sdfXmlFindElementByName name doc.text behind 0) := by
  intro h
  have hfinds := h closedA [] (ascii "a")
  have hstarts : closedA.starting [] (ascii "a") = some (0, .start (.ofTag tagA) true) := rfl
  obtain ⟨xml, hreads, hclosed, -⟩ := byName_some hstarts
  rw [hclosed rfl, finds_ok hreads] at hfinds
  obtain ⟨node, hnamed, hcurr⟩ := hfinds
  have hnode : closedA.named (ascii "a") = some (0, .closed (.ofTag tagA)) := rfl
  obtain ⟨-, rfl⟩ := Prod.mk.inj (Option.some.inj (hnode.symm.trans hnamed))
  exact absurd hcurr (by decide)

end CassandraApi.Sdf.ByName
