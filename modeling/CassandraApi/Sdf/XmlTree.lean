/-
# `Sdf.XmlTree` — element trees, and what the scanner finds in their text

    <?xml attr … ?>  gap  element  gap  element  gap …

    <name attr …/>     <name attr …>text</name>     <name attr …> gap  element  gap … </name>

A gap is white space and comments.  The scanner stops at the first `<` behind a
start tag, so the data of an element starts inside the gap in front of its first
child (`Gap.split`), and everything below is said of an arbitrary gap in front of
the elements that are still to come.
-/
import CassandraApi.Sdf.Xml

namespace CassandraApi.Sdf

open C

/-! ## Trees -/

structure Space where
  bytes : List UInt8
  white : ∀ c ∈ bytes, isXmlSpace c = true

/-- Free of white space, of `< > / =` and of quotes. -/
structure Word where
  bytes : List UInt8
  some : bytes ≠ []
  chars : ∀ c ∈ bytes, isXmlSpace c = false ∧ c ∉ ascii "<>/='\""

/-- An element's name does not start with `!` or `?`. -/
structure ElementName extends Word where
  start : ∀ c ∈ bytes.head?, c ∉ ascii "!?"

/-- What SDF_xml_encode_data has written. -/
structure Encoded where
  bytes : List UInt8
  encoded : ∃ behind s, bytes = sdfXmlEncodeData behind s

/-- An attribute, with the white space before it. -/
structure XmlAttr where
  space : Space
  spaced : space.bytes ≠ []
  name : Word
  quote : UInt8
  quoted : quote = 0x22 ∨ quote = 0x27
  value : Encoded

def XmlAttr.text (a : XmlAttr) : List UInt8 :=
  a.name.bytes ++ 0x3d :: a.quote :: (a.value.bytes ++ [a.quote])

structure Tag where
  name : ElementName
  attrs : List XmlAttr
  space : Space

/-- The white space behind the name. -/
def attrsLead (attrs : List XmlAttr) (space : Space) : List UInt8 :=
  match attrs with
  | [] => space.bytes
  | a :: _ => a.space.bytes

/-- From the first attribute to the bracket. -/
def attrsSpan (attrs : List XmlAttr) (space : Space) : List UInt8 :=
  match attrs with
  | [] => []
  | a :: as => a.text ++ (as.flatMap (fun a => a.space.bytes ++ a.text) ++ space.bytes)

/-- A piece of a gap. -/
inductive Filler where
  | white (c : UInt8) (h : isXmlSpace c = true)
  | comment (body : List UInt8) (h : 0x3e ∉ body)

def Filler.text : Filler → List UInt8
  | .white c _ => [c]
  | .comment body _ => ascii "<!--" ++ (body ++ ascii "-->")

def gapText (gap : List Filler) : List UInt8 := gap.flatMap Filler.text

mutual

inductive XmlElement where
  | empty (tag : Tag)
  | leaf (tag : Tag) (text : Encoded)
  | parent (tag : Tag) (gap : List Filler) (children : XmlElements)

/-- Elements, each with the gap behind it. -/
inductive XmlElements where
  | nil
  | cons (e : XmlElement) (gap : List Filler) (rest : XmlElements)

end

/-- A tag with the brackets at its end. -/
def Tag.text (tag : Tag) (brackets : List UInt8) : List UInt8 :=
  0x3c :: (tag.name.bytes ++
    (attrsLead tag.attrs tag.space ++ (attrsSpan tag.attrs tag.space ++ brackets)))

def endTag (name : List UInt8) : List UInt8 := 0x3c :: 0x2f :: (name ++ [0x3e])

mutual

def XmlElement.text : XmlElement → List UInt8
  | .empty tag => tag.text [0x2f, 0x3e]
  | .leaf tag text => tag.text [0x3e] ++ (text.bytes ++ endTag tag.name.bytes)
  | .parent tag gap children =>
      tag.text [0x3e] ++ (gapText gap ++ (children.text ++ endTag tag.name.bytes))

def XmlElements.text : XmlElements → List UInt8
  | .nil => []
  | .cons e gap rest => e.text ++ (gapText gap ++ rest.text)

end

/-- The declaration has a version at least. -/
structure Declaration where
  attrs : List XmlAttr
  some : attrs ≠ []
  space : Space

def Declaration.text (d : Declaration) : List UInt8 :=
  0x3c :: (ascii "?xml" ++ (attrsLead d.attrs d.space ++ (attrsSpan d.attrs d.space ++ ascii "?>")))

/-- A document; behind a declaration there is an element. -/
structure XmlDocument where
  declaration : Option Declaration
  gap : List Filler
  elements : XmlElements
  root : declaration.isSome → elements ≠ .nil

def XmlDocument.text (doc : XmlDocument) : List UInt8 :=
  (doc.declaration.map Declaration.text).getD [] ++ (gapText doc.gap ++ doc.elements.text)

/-! ## What is to be found -/

/-- The data of an element. -/
def SdfXml.inside (xml : SdfXml) (data : List UInt8) : List UInt8 := span data xml.data xml.dataLen

/-- The element has the name and the attributes of the tag. -/
structure SdfXml.Has (xml : SdfXml) (data : List UInt8) (tag : Tag) : Prop where
  name : xml.name data = tag.name.bytes
  attrs : span data xml.attr xml.attrLen = attrsSpan tag.attrs tag.space

mutual

/-- What the scanner returns for an element. -/
def XmlElement.Found : XmlElement → List UInt8 → SdfXml → Prop
  | .empty tag, data, xml =>
      xml.Has data tag ∧ xml.elementClose = true ∧ xml.content = none ∧
        (sdfXmlFindElement (xml.inside data) 0).1 = .error .eof
  | .leaf tag text, data, xml =>
      xml.Has data tag ∧ xml.elementClose = false ∧
        (∃ i, xml.content = some i ∧ span data i xml.contentLen = text.bytes) ∧
        (sdfXmlFindElement (xml.inside data) 0).1 = .error .eof
  | .parent tag _ children, data, xml =>
      xml.Has data tag ∧ xml.elementClose = false ∧ (children ≠ .nil → xml.content = none) ∧
        children.ReadFrom (xml.inside data) 0

/-- Call after call from the cursor `curr` on returns the elements in order, then nothing. -/
def XmlElements.ReadFrom : XmlElements → List UInt8 → Nat → Prop
  | .nil, data, curr => (sdfXmlFindElement data curr).1 = .error .eof
  | .cons e _ rest, data, curr =>
      ∃ xml curr', sdfXmlFindElement data curr = (.ok xml, curr') ∧ e.Found data xml ∧
        rest.ReadFrom data curr'

end

/-! ## Positions -/

/-- The bytes from `i` on are `s`. -/
structure At (data : List UInt8) (i : Nat) (s : List UInt8) : Prop where
  drop : data.drop i = s
  inside : i ≤ data.length

namespace At

variable {data s t : List UInt8} {i : Nat}

theorem start (data : List UInt8) : At data 0 data := ⟨rfl, Nat.zero_le _⟩

theorem size (h : At data i s) : data.length = i + s.length := by
  have hlen := List.length_drop (l := data) (i := i)
  rw [h.drop] at hlen
  have hin := h.inside
  omega

theorem length_lt (h : At data i s) : s.length < data.length + 1 := by
  have hsize := h.size
  omega

theorem step (h : At data i (s ++ t)) : At data (i + s.length) t := by
  have hsize := h.size
  rw [List.length_append] at hsize
  refine ⟨?_, by omega⟩
  rw [← List.drop_drop, h.drop, List.drop_left]

theorem tail {c : UInt8} (h : At data i (c :: s)) : At data (i + 1) s := step (s := [c]) h

theorem span (h : At data i (s ++ t)) : span data i s.length = s := by
  rw [Sdf.span, h.drop, List.take_left]

end At

/-! ## Scans -/

section

variable {stop : List UInt8 → Bool} {data xs s : List UInt8} {i : Nat} {c : UInt8}

theorem scanUntil_append
    (h : ∀ ys c zs, xs = ys ++ c :: zs → stop (c :: (zs ++ s)) = false) :
    scanUntil stop (xs ++ s) = xs.length + scanUntil stop s := by
  induction xs with
  | nil => rw [List.nil_append, List.length_nil, Nat.zero_add]
  | cons x xs ih =>
    have hx : ¬ stop (x :: (xs ++ s)) = true := by
      rw [h [] x xs rfl]
      decide
    have hxs := ih fun ys c zs he => h (x :: ys) c zs (by rw [he, List.cons_append])
    rw [List.cons_append, scanUntil, if_neg hx, hxs, List.length_cons]
    omega

/-- When it takes no more than the first byte to see that a scan goes on. -/
theorem scanUntil_plain (h : ∀ c ∈ xs, ∀ zs, stop (c :: zs) = false) :
    scanUntil stop (xs ++ s) = xs.length + scanUntil stop s := by
  refine scanUntil_append fun ys c zs he => h c ?_ _
  rw [he]
  exact List.mem_append_right ys List.mem_cons_self

theorem scanUntil_stop (h : stop (c :: s) = true) : scanUntil stop (c :: s) = 0 := by
  rw [scanUntil, if_pos h]

theorem memchr_found (h : At data i (xs ++ c :: s)) (hc : c ∉ xs) :
    memchr data i c = some (i + xs.length) := by
  have hscan : scanUntil (fun s => s.head? = some c) (xs ++ c :: s) = xs.length := by
    rw [scanUntil_plain, scanUntil_stop (by simp), Nat.add_zero]
    intro d hd zs
    have hne : d ≠ c := fun he => hc (he ▸ hd)
    simpa using hne
  have hsize := h.size
  rw [List.length_append, List.length_cons] at hsize
  simp only [memchr, h.drop, hscan]
  exact if_pos (by omega)

theorem memchr_none (h : At data i xs) (hc : c ∉ xs) : memchr data i c = none := by
  have hscan : scanUntil (fun s => s.head? = some c) (xs ++ []) = xs.length := by
    rw [scanUntil_plain, scanUntil, Nat.add_zero]
    intro d hd zs
    have hne : d ≠ c := fun he => hc (he ▸ hd)
    simpa using hne
  rw [List.append_nil] at hscan
  have hsize := h.size
  simp only [memchr, h.drop, hscan]
  exact if_neg (by omega)

/-- A byte that is not looked for is passed over. -/
theorem memchr_skip {d : UInt8} (h : At data i (d :: s)) (hd : d ≠ c) :
    memchr data i c = memchr data (i + 1) c := by
  have hscan : scanUntil (fun s => s.head? = some c) (d :: s) =
      scanUntil (fun s => s.head? = some c) s + 1 := by
    rw [scanUntil, if_neg (by simpa using hd)]
  simp only [memchr, h.drop, h.tail.drop, hscan]
  rw [Nat.add_assoc, Nat.add_comm 1]

end

/-! ## Gaps -/

section

variable {data s : List UInt8} {i turns : Nat}

theorem skipComment_eq {body : List UInt8} (hbody : 0x3e ∉ body)
    (h : At data i ((Filler.comment body hbody).text ++ s)) :
    skipComment data (turns + 1) i = .ok (i + (Filler.comment body hbody).text.length) := by
  have hsplit : (Filler.comment body hbody).text ++ s =
      (ascii "<!--" ++ body) ++ (ascii "-->" ++ s) := by
    simp only [Filler.text, List.append_assoc]
  have hend : ascii "-->" ++ s = [0x2d, 0x2d] ++ 0x3e :: s := rfl
  rw [hsplit] at h
  have hbehind := h.step
  rw [hend, ← List.append_assoc] at h
  have hnone : 0x3e ∉ ascii "<!--" ++ body ++ [0x2d, 0x2d] := by
    simp only [List.mem_append, not_or]
    exact ⟨⟨by decide, hbody⟩, by decide⟩
  have hback : i + (ascii "<!--" ++ body ++ [0x2d, 0x2d]).length - 2 =
      i + (ascii "<!--" ++ body).length := by
    rw [List.length_append, ← Nat.add_assoc]
    rfl
  have hprefix : (ascii "-->").isPrefixOf (ascii "-->" ++ s) = true :=
    List.isPrefixOf_iff_prefix.2 (List.prefix_append _ s)
  rw [skipComment, memchr_found h hnone]
  simp only [hback, hbehind.drop, hprefix, if_true]
  congr 1
  simp only [Filler.text, List.length_append]
  change _ = i + (4 + (body.length + 3))
  change i + (4 + body.length + 2) + 1 = _
  omega

/-- A gap is passed over. -/
theorem findOpen_gap {gap : List Filler} (h : At data i (gapText gap ++ s))
    (hturns : (gapText gap ++ s).length < turns) :
    ∃ turns', s.length < turns' ∧
      findOpen data turns i = findOpen data turns' (i + (gapText gap).length) := by
  induction gap generalizing i turns with
  | nil => exact ⟨turns, hturns, rfl⟩
  | cons f gap ih =>
    obtain ⟨turns, rfl⟩ := Nat.exists_eq_succ_of_ne_zero (by omega : turns ≠ 0)
    have hcons : gapText (f :: gap) = f.text ++ gapText gap := rfl
    rw [hcons, List.append_assoc] at h hturns
    rw [List.length_append] at hturns
    rw [hcons, List.length_append, ← Nat.add_assoc]
    cases f with
    | white c hc =>
      have hone : (Filler.white c hc).text.length = 1 := rfl
      rw [hone] at hturns ⊢
      obtain ⟨turns', hlt, he⟩ := ih h.tail (show _ < turns + 1 by omega)
      have hne : c ≠ 0x3c := fun he => absurd (he ▸ hc) (by decide)
      refine ⟨turns', hlt, ?_⟩
      rw [← he, findOpen, findOpen, memchr_skip h hne]
    | comment body hbody =>
      obtain ⟨turns', hlt, he⟩ := ih h.step (show _ < turns by
        have hpos : 0 < (Filler.comment body hbody).text.length := Nat.succ_pos _
        omega)
      have hopen : At data i ([] ++ 0x3c :: (ascii "!--" ++ (body ++ ascii "-->") ++
          (gapText gap ++ s))) := h
      have hprefix : (ascii "<!--").isPrefixOf (data.drop i) = true := by
        rw [h.drop]
        exact List.isPrefixOf_iff_prefix.2 (List.prefix_append (ascii "<!--") _)
      refine ⟨turns', hlt, ?_⟩
      rw [← he, findOpen, memchr_found hopen List.not_mem_nil]
      simp only [List.length_nil, Nat.add_zero, hprefix, if_true, skipComment_eq hbody h]
      rfl

end

/-! ## Tags -/

section

variable {data n w a b s : List UInt8} {i : Nat}

/-- The parts of a tag between its brackets: a name, white space, and a span. -/
structure TagParts (n w a : List UInt8) : Prop where
  nonempty : n ≠ []
  name : ∀ r, scanUntil isNameEnd (n ++ r) = n.length + scanUntil isNameEnd r
  white : ∀ c ∈ w, isXmlSpace c = true
  apart : w ≠ [] ∨ a = []
  start : ∀ c ∈ a.head?, isXmlSpace c = false
  noBracket : 0x3e ∉ a
  noSlash : a.getLast? ≠ some 0x2f

/-- A tag ends with `>` or with `/>`. -/
inductive Brackets : Bool → List UInt8 → Prop where
  | one : Brackets false [0x3e]
  | two : Brackets true [0x2f, 0x3e]

theorem Brackets.stops {close : Bool} (hb : Brackets close b) :
    (∃ c cs, b = c :: cs ∧ isXmlSpace c = false) ∧ isNameEnd (b ++ s) = true ∧
      (isEndElement1 (b ++ s) || isEndElement2 (b ++ s)) = true ∧
      isEndElement1 (b ++ s) = !close := by
  cases hb with
  | one => exact ⟨⟨_, _, rfl, by decide⟩, rfl, rfl, rfl⟩
  | two => exact ⟨⟨_, _, rfl, by decide⟩, rfl, rfl, rfl⟩

/-- What is behind the name is the end of a name. -/
theorem TagParts.nameEnd {close : Bool} (ht : TagParts n w a) (hb : Brackets close b) :
    scanUntil isNameEnd (w ++ (a ++ (b ++ s))) = 0 := by
  cases w with
  | nil =>
    obtain rfl : a = [] := ht.apart.resolve_left (fun h => h rfl)
    obtain ⟨⟨c, cs, rfl, -⟩, hend, -⟩ := hb.stops (s := s)
    exact scanUntil_stop hend
  | cons c w =>
    refine scanUntil_stop ?_
    have hc := ht.white c List.mem_cons_self
    simp [isNameEnd, hc]

/-- The white space ends where the span, or the bracket, starts. -/
theorem TagParts.spaces {close : Bool} (ht : TagParts n w a) (hb : Brackets close b) :
    scanUntil (fun s => !s.head?.any isXmlSpace) (w ++ (a ++ (b ++ s))) = w.length := by
  have hrest : scanUntil (fun s => !s.head?.any isXmlSpace) (a ++ (b ++ s)) = 0 := by
    cases a with
    | nil =>
      obtain ⟨⟨c, cs, rfl, hc⟩, -⟩ := hb.stops (s := s)
      exact scanUntil_stop (by simp [hc])
    | cons c a => exact scanUntil_stop (by simp [ht.start c rfl])
  rw [scanUntil_plain, hrest, Nat.add_zero]
  intro c hc zs
  simp [ht.white c hc]

/-- The span ends at the bracket. -/
theorem TagParts.span {close : Bool} (ht : TagParts n w a) (hb : Brackets close b) :
    scanUntil (fun s => isEndElement1 s || isEndElement2 s) (a ++ (b ++ s)) = a.length := by
  have hrest : scanUntil (fun s => isEndElement1 s || isEndElement2 s) (b ++ s) = 0 := by
    obtain ⟨⟨c, cs, rfl, -⟩, -, hend, -⟩ := hb.stops (s := s)
    exact scanUntil_stop hend
  rw [scanUntil_append, hrest, Nat.add_zero]
  rintro ys c zs rfl
  have hc : c ≠ 0x3e := fun he => ht.noBracket (he ▸ List.mem_append_right ys List.mem_cons_self)
  have hone : isEndElement1 (c :: (zs ++ (b ++ s))) = false := by
    simpa [isEndElement1] using hc
  rw [hone, Bool.false_or]
  -- a slash is not the last byte of the span, and the next one is no bracket
  cases zs with
  | nil =>
    have hslash : c ≠ 0x2f := by
      rintro rfl
      exact ht.noSlash (List.getLast?_concat ..)
    cases b ++ s <;> simp [isEndElement2, hslash]
  | cons d zs =>
    have hd : d ≠ 0x3e := by
      rintro rfl
      exact ht.noBracket (by simp)
    simp [isEndElement2, hd]

theorem readTag_eq {close : Bool} (ht : TagParts n w a) (hb : Brackets close b)
    (h : At data i (0x3c :: (n ++ (w ++ (a ++ (b ++ s)))))) :
    readTag data i = .ok {
      element := i + 1, elementLen := n.length, elementClose := close
      attr := i + 1 + n.length + w.length, attrLen := a.length, content := none, contentLen := 0
      data := i + 1 + n.length + w.length + a.length + b.length } := by
  have hn := h.tail
  have hw := hn.step
  have ha := hw.step
  have hbr := ha.step
  have hname : scanUntil isNameEnd (n ++ (w ++ (a ++ (b ++ s)))) = n.length := by
    rw [ht.name, ht.nameEnd hb, Nat.add_zero]
  have hb1 : 1 ≤ b.length := by cases hb <;> simp
  have hsize := hbr.size
  rw [List.length_append] at hsize
  have hlen : i + 1 + n.length - (i + 1) ≠ 0 := by
    have hpos := List.length_pos_iff.2 ht.nonempty
    omega
  have hclose : (if close then i + 1 + n.length + w.length + a.length + 2
      else i + 1 + n.length + w.length + a.length + 1) =
        i + 1 + n.length + w.length + a.length + b.length := by
    cases hb <;> rfl
  simp only [readTag, hn.drop, hname, hw.drop, ht.spaces hb, ha.drop, ht.span hb, hbr.drop,
    hb.stops.2.2.2, Bool.not_not, hclose, Nat.add_sub_cancel_left]
  rw [if_neg (by omega), if_neg (by omega), if_neg (by omega)]
  rfl

/-- The content ends at the next `<`. -/
theorem readContent_eq {xml : SdfXml} {d : UInt8} (hw : 0x3c ∉ w)
    (h : At data xml.data (w ++ 0x3c :: d :: s)) :
    readContent data xml = .ok (
      if d = 0x2f then
        { xml with content := some xml.data, contentLen := w.length, data := xml.data + w.length }
      else { xml with data := xml.data + w.length }) := by
  have hstop : (isBeginElement1 (0x3c :: d :: s) || isBeginElement2 (0x3c :: d :: s)) = true := by
    by_cases hd : d = 0x2f
    · simp [isBeginElement1, isBeginElement2, hd]
    · simp [isBeginElement1, hd]
  have hscan : scanUntil (fun s => isBeginElement1 s || isBeginElement2 s)
      (w ++ 0x3c :: d :: s) = w.length := by
    rw [scanUntil_plain, scanUntil_stop hstop, Nat.add_zero]
    intro c hc zs
    have hne : c ≠ 0x3c := fun he => hw (he ▸ hc)
    cases zs <;> simp [isBeginElement1, isBeginElement2, hne]
  have hsize := h.step.size
  rw [List.length_cons] at hsize
  simp only [readContent, h.drop, hscan, h.step.drop]
  rw [if_neg (by omega)]
  by_cases hd : d = 0x2f
  · subst hd
    have hbegin : ¬ isBeginElement1 (0x3c :: 0x2f :: s) = true := by simp [isBeginElement1]
    rw [if_neg hbegin, if_pos rfl, Nat.add_sub_cancel_left]
    rfl
  · have hbegin : isBeginElement1 (0x3c :: d :: s) = true := by simp [isBeginElement1, hd]
    rw [if_pos hbegin, if_neg hd]
    rfl

end

/-! ## The parts of the three kinds of tags -/

theorem Encoded.not_mem {c : UInt8} (e : Encoded) (hc : c ∈ ascii "<>'\"") : c ∉ e.bytes := by
  obtain ⟨behind, s, hs⟩ := e.encoded
  rw [hs]
  exact not_mem_sdfXmlEncodeData hc behind s

theorem Word.not_mem {c : UInt8} (word : Word) (hc : c ∈ ascii "<>/='\"") : c ∉ word.bytes :=
  fun hmem => (word.chars c hmem).2 hc

theorem Space.not_mem {c : UInt8} (space : Space) (hc : isXmlSpace c = false) :
    c ∉ space.bytes := by
  intro hmem
  rw [space.white c hmem] at hc
  cases hc

theorem XmlAttr.noBracket (a : XmlAttr) : 0x3e ∉ a.text := by
  have hquote : a.quote ≠ 0x3e := by
    rcases a.quoted with h | h <;> rw [h] <;> decide
  simp only [XmlAttr.text, List.mem_append, List.mem_cons, List.not_mem_nil, or_false, not_or]
  exact ⟨a.name.not_mem (by decide), by decide, Ne.symm hquote, a.value.not_mem (by decide),
    Ne.symm hquote⟩

theorem attrsLead_white (attrs : List XmlAttr) (space : Space) :
    ∀ c ∈ attrsLead attrs space, isXmlSpace c = true := by
  cases attrs with
  | nil => exact space.white
  | cons a as => exact a.space.white

theorem attrsLead_apart (attrs : List XmlAttr) (space : Space) :
    attrsLead attrs space ≠ [] ∨ attrsSpan attrs space = [] := by
  cases attrs with
  | nil => exact .inr rfl
  | cons a as => exact .inl a.spaced

theorem attrsSpan_start (attrs : List XmlAttr) (space : Space) :
    ∀ c ∈ (attrsSpan attrs space).head?, isXmlSpace c = false := by
  intro c hc
  cases attrs with
  | nil => cases hc
  | cons a as =>
    obtain ⟨d, ds, hd⟩ := List.exists_cons_of_ne_nil a.name.some
    simp only [attrsSpan, XmlAttr.text, hd, List.cons_append, List.head?_cons,
      Option.mem_some_iff] at hc
    subst hc
    refine (a.name.chars d ?_).1
    rw [hd]
    exact List.mem_cons_self

theorem attrsSpan_noBracket (attrs : List XmlAttr) (space : Space) :
    0x3e ∉ attrsSpan attrs space := by
  cases attrs with
  | nil => exact List.not_mem_nil
  | cons a as =>
    simp only [attrsSpan, List.mem_append, List.mem_flatMap, not_or, not_exists, not_and]
    exact ⟨a.noBracket, fun b _ => ⟨b.space.not_mem (by decide), b.noBracket⟩,
      space.not_mem (by decide)⟩

/-- A span ends with a quote or with white space. -/
theorem attrsSpan_noSlash (attrs : List XmlAttr) (space : Space) :
    (attrsSpan attrs space).getLast? ≠ some 0x2f := by
  have hattr : ∀ (a : XmlAttr) (pre : List UInt8), (pre ++ a.text).getLast? ≠ some 0x2f := by
    intro a pre he
    have hlast : (pre ++ a.text).getLast? = some a.quote := by
      rw [XmlAttr.text, ← List.append_assoc, List.append_cons, List.append_cons,
        ← List.append_assoc, List.getLast?_concat]
    rw [hlast] at he
    rcases a.quoted with h | h <;> rw [h] at he <;> revert he <;> decide
  cases attrs with
  | nil => exact Option.some_ne_none _ ∘ Eq.symm
  | cons a as =>
    rw [attrsSpan]
    rcases List.eq_nil_or_concat space.bytes with hspace | ⟨ws, c, hspace⟩
    · rw [hspace, List.append_nil]
      rcases List.eq_nil_or_concat as with rfl | ⟨as, b, rfl⟩
      · simpa using hattr a []
      · rw [List.concat_eq_append, List.flatMap_append, List.flatMap_singleton, ← List.append_assoc,
          ← List.append_assoc]
        exact hattr b _
    · rw [hspace, List.concat_eq_append, ← List.append_assoc, ← List.append_assoc,
        List.getLast?_concat]
      have hc := space.white c (by rw [hspace, List.concat_eq_append]; simp)
      rintro ⟨⟩
      revert hc
      decide

theorem isNameEnd_word {word : Word} {c : UInt8} (hc : c ∈ word.bytes) (zs : List UInt8) :
    isNameEnd (c :: zs) = false := by
  obtain ⟨hspace, hother⟩ := word.chars c hc
  have hslash : c ≠ 0x2f := by
    rintro rfl
    exact hother (by decide)
  have hbracket : c ≠ 0x3e := by
    rintro rfl
    exact hother (by decide)
  cases zs <;> simp [isNameEnd, isEndElement1, isEndElement2, hspace, hslash, hbracket]

theorem Tag.parts (tag : Tag) :
    TagParts tag.name.bytes (attrsLead tag.attrs tag.space) (attrsSpan tag.attrs tag.space) where
  nonempty := tag.name.some
  name _ := scanUntil_plain fun _ hc zs => isNameEnd_word hc zs
  white := attrsLead_white tag.attrs tag.space
  apart := attrsLead_apart tag.attrs tag.space
  start := attrsSpan_start tag.attrs tag.space
  noBracket := attrsSpan_noBracket tag.attrs tag.space
  noSlash := attrsSpan_noSlash tag.attrs tag.space

/-- The slash of an end tag belongs to the name that is read. -/
theorem ElementName.endParts (name : ElementName) : TagParts (0x2f :: name.bytes) [] [] where
  nonempty := List.cons_ne_nil _ _
  name r := by
    obtain ⟨d, ds, hd⟩ := List.exists_cons_of_ne_nil name.some
    have hbracket : d ≠ 0x3e := by
      rintro rfl
      exact name.not_mem (c := 0x3e) (by decide) (by rw [hd]; exact List.mem_cons_self)
    have hslash : ¬ isNameEnd (0x2f :: (name.bytes ++ r)) = true := by
      rw [hd]
      simp [isNameEnd, isEndElement1, isEndElement2, isXmlSpace, hbracket]
    rw [List.cons_append, scanUntil, if_neg hslash,
      scanUntil_plain fun _ hc zs => isNameEnd_word hc zs, List.length_cons]
    omega
  white := by simp
  apart := .inr rfl
  start := by simp
  noBracket := List.not_mem_nil
  noSlash := by simp

theorem Declaration.parts (d : Declaration) :
    TagParts (ascii "?xml") (attrsLead d.attrs d.space)
      (attrsSpan d.attrs d.space ++ [0x3f]) where
  nonempty := List.cons_ne_nil _ _
  name r := by
    refine scanUntil_plain fun c hc zs => ?_
    have hall : ∀ c ∈ ascii "?xml", isXmlSpace c = false ∧ c ≠ 0x3e ∧ c ≠ 0x2f := by
      decide +kernel
    obtain ⟨hspace, hbracket, hslash⟩ := hall c hc
    cases zs <;> simp [isNameEnd, isEndElement1, isEndElement2, hspace, hslash, hbracket]
  white := attrsLead_white d.attrs d.space
  apart := by
    obtain ⟨a, as, ha⟩ := List.exists_cons_of_ne_nil d.some
    rw [ha]
    exact .inl a.spaced
  start c hc := by
    cases hspan : attrsSpan d.attrs d.space with
    | nil =>
      rw [hspan] at hc
      cases hc
      decide
    | cons x xs =>
      rw [hspan] at hc
      exact attrsSpan_start d.attrs d.space c (by rw [hspan]; exact hc)
  noBracket := by
    rw [List.mem_append, not_or]
    exact ⟨attrsSpan_noBracket d.attrs d.space, by decide⟩
  noSlash := by
    rw [List.getLast?_concat]
    decide

/-! ## Gaps in front of something -/

/-- A gap up to its first `<`, and from there on. -/
theorem gapText_split (gap : List Filler) :
    ∃ w gap', gapText gap = w ++ gapText gap' ∧ 0x3c ∉ w ∧
      (gap' = [] ∨ ∃ s, gapText gap' = 0x3c :: 0x21 :: s) := by
  induction gap with
  | nil => exact ⟨[], [], rfl, List.not_mem_nil, .inl rfl⟩
  | cons f gap ih =>
    cases f with
    | white c hc =>
      obtain ⟨w, gap', hgap, hw, hstart⟩ := ih
      refine ⟨c :: w, gap', congrArg (c :: ·) hgap, ?_, hstart⟩
      rw [List.mem_cons, not_or]
      exact ⟨fun he => absurd (he ▸ hc) (by decide), hw⟩
    | comment body hbody => exact ⟨[], .comment body hbody :: gap, rfl, List.not_mem_nil,
        .inr ⟨_, rfl⟩⟩

section

variable {data s : List UInt8} {i : Nat} {gap : List Filler}

theorem findOpen_eq {c : UInt8} (h : At data i (gapText gap ++ 0x3c :: c :: s)) (hc : c ≠ 0x21) :
    findOpen data (data.length + 1) i = .ok (i + (gapText gap).length) := by
  obtain ⟨turns, hturns, he⟩ := findOpen_gap h (h.length_lt)
  obtain ⟨turns, rfl⟩ := Nat.exists_eq_succ_of_ne_zero (by omega : turns ≠ 0)
  have hopen : At data (i + (gapText gap).length) ([] ++ 0x3c :: c :: s) := h.step
  have hno : ¬ (ascii "<!--").isPrefixOf (data.drop (i + (gapText gap).length)) = true := by
    rw [hopen.drop]
    simp [ascii, List.isPrefixOf, Ne.symm hc]
  rw [he, findOpen, memchr_found hopen List.not_mem_nil]
  simp only [List.length_nil, Nat.add_zero, if_neg hno]
  rfl

/-- Behind the last element there is nothing more to find. -/
theorem findStart_none (h : At data i (gapText gap)) :
    sdfXmlFindStartElement data i = .error .eof := by
  rw [← List.append_nil (gapText gap)] at h
  obtain ⟨turns, hturns, he⟩ := findOpen_gap h (h.length_lt)
  obtain ⟨turns, rfl⟩ := Nat.exists_eq_succ_of_ne_zero (by omega : turns ≠ 0)
  rw [sdfXmlFindStartElement, he, findOpen, memchr_none h.step List.not_mem_nil]
  rfl

/-- A start tag as it is read. -/
structure Opened (data : List UInt8) (tag : Tag) (x : SdfXml) : Prop where
  has : x.Has data tag
  len : x.elementLen = tag.name.bytes.length
  start : (data.drop x.element).head? ≠ some 0x2f

/-- The spans of the tag at `j`. -/
theorem opened_of_fields {tag : Tag} {x : SdfXml} {b : List UInt8} {j : Nat}
    (h : At data j (tag.text b ++ s)) (helement : x.element = j + 1)
    (hlen : x.elementLen = tag.name.bytes.length)
    (hattr : x.attr = j + 1 + tag.name.bytes.length + (attrsLead tag.attrs tag.space).length)
    (hattrLen : x.attrLen = (attrsSpan tag.attrs tag.space).length) : Opened data tag x := by
  rw [Tag.text, List.cons_append, List.append_assoc, List.append_assoc, List.append_assoc] at h
  have hname := h.tail
  refine ⟨⟨?_, ?_⟩, hlen, ?_⟩
  · rw [SdfXml.name, helement, hlen, hname.span]
  · rw [hattr, hattrLen, hname.step.step.span]
  · rw [helement, hname.drop]
    obtain ⟨d, ds, hd⟩ := List.exists_cons_of_ne_nil tag.name.some
    rw [hd, List.cons_append, List.head?_cons]
    rintro ⟨⟩
    exact tag.name.not_mem (c := 0x2f) (by decide) (by rw [hd]; exact List.mem_cons_self)

/-- The first byte of a name is neither `!` nor `/`. -/
theorem Tag.text_start (tag : Tag) (b : List UInt8) :
    ∃ c t, tag.text b = 0x3c :: c :: t ∧ c ≠ 0x21 ∧ c ≠ 0x2f := by
  obtain ⟨d, ds, hd⟩ := List.exists_cons_of_ne_nil tag.name.some
  refine ⟨d, ds ++ (attrsLead tag.attrs tag.space ++ (attrsSpan tag.attrs tag.space ++ b)), ?_,
    ?_, ?_⟩
  · rw [Tag.text, hd, List.cons_append]
  · rintro rfl
    exact tag.name.start 0x21 (by rw [hd]; rfl) (by decide)
  · rintro rfl
    exact tag.name.not_mem (c := 0x2f) (by decide) (by rw [hd]; exact List.mem_cons_self)

theorem Tag.text_length (tag : Tag) (b : List UInt8) :
    (tag.text b).length = 1 + tag.name.bytes.length + (attrsLead tag.attrs tag.space).length +
      (attrsSpan tag.attrs tag.space).length + b.length := by
  simp only [Tag.text, List.length_cons, List.length_append]
  omega

/-- A tag of an element, up to what it does with its content. -/
theorem findStart_tag {tag : Tag} {close : Bool} {b : List UInt8} (hb : Brackets close b)
    (h : At data i (gapText gap ++ (tag.text b ++ s))) :
    ∃ x, sdfXmlFindStartElement data i = (do
        let x ← if close = false then readContent data x else pure x
        pure (x, x.data)) ∧
      Opened data tag x ∧ x.elementClose = close ∧ x.content = none ∧ x.dataLen = 0 ∧
      x.data = i + (gapText gap).length + (tag.text b).length := by
  obtain ⟨c, t, htext, hbang, hslash⟩ := tag.text_start b
  have htag := h.step
  have hopen : At data i (gapText gap ++ 0x3c :: c :: (t ++ s)) := by
    rwa [htext] at h
  have hno : isBeginElement2 (data.drop (i + (gapText gap).length)) = false := by
    rw [hopen.step.drop]
    simp [isBeginElement2, hslash]
  have hparts : At data (i + (gapText gap).length) (0x3c :: (tag.name.bytes ++
      (attrsLead tag.attrs tag.space ++ (attrsSpan tag.attrs tag.space ++ (b ++ s))))) := by
    rwa [Tag.text, List.cons_append, List.append_assoc, List.append_assoc, List.append_assoc]
      at htag
  obtain ⟨x, hread, hopened, hclose, hcontent, hlen, hdata⟩ :
      ∃ x, readTag data (i + (gapText gap).length) = .ok x ∧ Opened data tag x ∧
        x.elementClose = close ∧ x.content = none ∧ x.dataLen = 0 ∧
        x.data = i + (gapText gap).length + (tag.text b).length := by
    refine ⟨_, readTag_eq tag.parts hb hparts, opened_of_fields htag rfl rfl rfl rfl, rfl, rfl, rfl,
      ?_⟩
    rw [Tag.text_length]
    simp only
    omega
  refine ⟨x, ?_, hopened, hclose, hcontent, hlen, hdata⟩
  simp only [sdfXmlFindStartElement, findOpen_eq hopen hbang, xml_ok_bind, hno, hread, hclose,
    true_and]

/-- A tag that closes itself. -/
theorem findStart_empty {tag : Tag} (h : At data i (gapText gap ++ (tag.text [0x2f, 0x3e] ++ s))) :
    ∃ x, sdfXmlFindStartElement data i =
        .ok (x, i + (gapText gap).length + (tag.text [0x2f, 0x3e]).length) ∧
      Opened data tag x ∧ x.elementClose = true ∧ x.content = none ∧ x.dataLen = 0 := by
  obtain ⟨x, hstart, hopened, hclose, hcontent, hlen, hdata⟩ := findStart_tag .two h
  refine ⟨x, ?_, hopened, hclose, hcontent, hlen⟩
  rw [hstart, ← hdata]
  rfl

/-- A tag with something behind it; what comes next tells content and children apart. -/
theorem findStart_open {tag : Tag} {w : List UInt8} {d : UInt8} (hw : 0x3c ∉ w)
    (h : At data i (gapText gap ++ (tag.text [0x3e] ++ (w ++ 0x3c :: d :: s)))) :
    ∃ x, sdfXmlFindStartElement data i = .ok (x, x.data) ∧ Opened data tag x ∧
      x.elementClose = false ∧
      x.data = i + (gapText gap).length + (tag.text [0x3e]).length + w.length ∧
      (d = 0x2f → ∃ k, x.content = some k ∧ span data k x.contentLen = w) ∧
      (d ≠ 0x2f → x.content = none) := by
  obtain ⟨x, hstart, hopened, hclose, hcontent, -, hdata⟩ := findStart_tag .one h
  have hbehind := h.step.step
  rw [← hdata] at hbehind ⊢
  have hread := readContent_eq hw hbehind
  by_cases hd : d = 0x2f
  · rw [if_pos hd] at hread
    refine ⟨{ x with content := some x.data, contentLen := w.length, data := x.data + w.length },
      ?_, ⟨⟨hopened.has.name, hopened.has.attrs⟩, hopened.len, hopened.start⟩, hclose, rfl,
      fun _ => ⟨x.data, rfl, hbehind.span⟩, fun hne => absurd hd hne⟩
    rw [hstart, if_pos rfl, hread]
    rfl
  · rw [if_neg hd] at hread
    refine ⟨{ x with data := x.data + w.length }, ?_,
      ⟨⟨hopened.has.name, hopened.has.attrs⟩, hopened.len, hopened.start⟩, hclose, rfl,
      fun he => absurd he hd, fun _ => hcontent⟩
    rw [hstart, if_pos rfl, hread]
    rfl

/-- An end tag. -/
theorem findStart_close {name : ElementName}
    (h : At data i (gapText gap ++ (endTag name.bytes ++ s))) :
    ∃ x, sdfXmlFindStartElement data i =
        .ok (x, i + (gapText gap).length + (endTag name.bytes).length) ∧
      x.elementClose = false ∧ x.element = i + (gapText gap).length + 1 ∧
      x.elementLen = name.bytes.length + 1 := by
  have htag := h.step
  have hopen : At data i (gapText gap ++ 0x3c :: 0x2f :: (name.bytes ++ [0x3e] ++ s)) := h
  have hyes : isBeginElement2 (data.drop (i + (gapText gap).length)) = true := by
    rw [hopen.step.drop]
    rfl
  have hparts : At data (i + (gapText gap).length)
      (0x3c :: (0x2f :: name.bytes ++ ([] ++ ([] ++ ([0x3e] ++ s))))) := by
    rwa [endTag, List.cons_append, List.cons_append, List.append_assoc] at htag
  obtain ⟨x, hread, helement, hlen, hclose, hdata⟩ :
      ∃ x, readTag data (i + (gapText gap).length) = .ok x ∧
        x.element = i + (gapText gap).length + 1 ∧ x.elementLen = name.bytes.length + 1 ∧
        x.elementClose = false ∧
        x.data = i + (gapText gap).length + (endTag name.bytes).length := by
    refine ⟨_, readTag_eq name.endParts .one hparts, rfl, rfl, rfl, ?_⟩
    simp only [endTag, List.length_cons, List.length_append, List.length_nil]
    omega
  refine ⟨x, ?_, hclose, helement, hlen⟩
  have hbang : (0x2f : UInt8) ≠ 0x21 := by decide
  simp only [sdfXmlFindStartElement, findOpen_eq hopen hbang, xml_ok_bind, hyes, hread,
    Bool.true_eq_false, false_and, if_false]
  exact congrArg (fun j => Except.ok (x, j)) hdata

end

/-! ## One element -/

/-- From `i` on there is an element; a call returns it as `xml` and leaves the cursor at `stop`. -/
def Takes (data : List UInt8) (i stop : Nat) (xml : SdfXml) : Prop :=
  ∃ x j, sdfXmlFindStartElement data i = .ok (x, j) ∧ i < j ∧ j ≤ stop ∧
    isProlog (x.name data) = false ∧
    (x.elementClose = true ∧ xml = x ∧ j = stop ∨
      x.elementClose = false ∧ (data.drop x.element).head? ≠ some 0x2f ∧
        ∀ turns, data.length < j + turns → sdfXmlFindEndElement data turns j x = .ok (xml, stop))

section

variable {data s : List UInt8} {i stop turns : Nat} {xml : SdfXml}

theorem Takes.loop (h : Takes data i stop xml) (turns : Nat) :
    findElementLoop data (turns + 1) i = (.ok xml, stop) := by
  obtain ⟨x, j, hstart, -, -, hprolog, ⟨hclose, rfl, rfl⟩ | ⟨hclose, -, hend⟩⟩ := h
  · simp only [findElementLoop, hstart, hprolog, hclose, Bool.false_eq_true, if_false, if_true]
  · have hfull := hend (data.length + 1) (by omega)
    simp only [findElementLoop, hstart, hprolog, hclose, Bool.false_eq_true, if_false, hfull]

/-- On the way to an end tag, an element is read over. -/
theorem Takes.findEnd (h : Takes data i stop xml) (hturns : data.length < i + (turns + 1))
    (y : SdfXml) : sdfXmlFindEndElement data (turns + 1) i y =
      sdfXmlFindEndElement data turns stop y := by
  obtain ⟨x, j, hstart, hij, -, -, ⟨hclose, rfl, rfl⟩ | ⟨hclose, hslash, hend⟩⟩ := h
  · rw [sdfXmlFindEndElement, hstart]
    simp only [hclose, if_true]
  · rw [sdfXmlFindEndElement, hstart]
    simp only [hclose, Bool.false_eq_true, if_false, if_neg hslash, hend turns (by omega),
      xml_ok_bind]

/-- The end tag of the element itself. -/
theorem findEnd_close {gap : List Filler} {name : ElementName} {y : SdfXml}
    (h : At data i (gapText gap ++ (endTag name.bytes ++ s))) (hname : y.name data = name.bytes)
    (hlen : y.elementLen = name.bytes.length) :
    sdfXmlFindEndElement data (turns + 1) i y =
      .ok ({ y with dataLen := i + (gapText gap).length - y.data },
        i + (gapText gap).length + (endTag name.bytes).length) := by
  obtain ⟨x, hstart, hclose, helement, hxlen⟩ := findStart_close h
  have htag := h.step
  rw [endTag, List.cons_append, List.cons_append, List.append_assoc] at htag
  have hslash := htag.tail
  have hspan : span data (x.element + 1) y.elementLen = y.name data := by
    rw [helement, hlen, hname, hslash.tail.span]
  have hhead : (data.drop x.element).head? = some 0x2f := by
    rw [helement, hslash.drop]
    rfl
  rw [sdfXmlFindEndElement, hstart]
  simp only [hclose, Bool.false_eq_true, if_false, if_pos hhead]
  rw [if_pos ⟨by omega, hspan⟩, helement, Nat.add_sub_cancel]

theorem find_none {gap : List Filler} (h : At data i (gapText gap)) :
    (sdfXmlFindElement data i).1 = .error .eof := by
  rw [sdfXmlFindElement, findElementLoop, findStart_none h]

/-- Nothing is found in no data. -/
theorem find_nil {xml : SdfXml} (h : xml.dataLen = 0) :
    (sdfXmlFindElement (xml.inside data) 0).1 = .error .eof := by
  have hnil : xml.inside data = [] := by
    rw [SdfXml.inside, span, h, List.take_zero]
  rw [hnil]
  exact find_none (show At [] 0 (gapText []) from At.start [])

end

theorem ElementName.notProlog (name : ElementName) : isProlog name.bytes = false := by
  have hall : ∀ s ∈ [ascii "?xml", ascii "!DOCTYPE"], ∃ c, s.head? = some c ∧ c ∈ ascii "!?" := by
    simp [ascii]
  have hne : ∀ s ∈ [ascii "?xml", ascii "!DOCTYPE"], name.bytes ≠ s := by
    rintro s hs he
    obtain ⟨c, hc, hprolog⟩ := hall s hs
    exact name.start c (by rw [he, hc]; rfl) hprolog
  simp only [isProlog, hne (ascii "?xml") (by simp), hne (ascii "!DOCTYPE") (by simp),
    decide_false, Bool.or_self]

theorem Opened.notProlog {data : List UInt8} {tag : Tag} {x : SdfXml} (h : Opened data tag x) :
    isProlog (x.name data) = false := by
  rw [h.has.name]
  exact tag.name.notProlog

theorem XmlElement.text_start (e : XmlElement) :
    ∃ c t, e.text = 0x3c :: c :: t ∧ c ≠ 0x2f := by
  cases e with
  | empty tag =>
    obtain ⟨c, t, ht, -, hc⟩ := tag.text_start [0x2f, 0x3e]
    exact ⟨c, t, ht, hc⟩
  | leaf tag text =>
    obtain ⟨c, t, ht, -, hc⟩ := tag.text_start [0x3e]
    refine ⟨c, t ++ (text.bytes ++ endTag tag.name.bytes), ?_, hc⟩
    rw [XmlElement.text, ht]
    rfl
  | parent tag gap children =>
    obtain ⟨c, t, ht, -, hc⟩ := tag.text_start [0x3e]
    refine ⟨c, t ++ (gapText gap ++ (children.text ++ endTag tag.name.bytes)), ?_, hc⟩
    rw [XmlElement.text, ht]
    rfl

/-- In front of an element, behind the white space. -/
theorem element_start {gap : List Filler} (hgap : gap = [] ∨ ∃ s, gapText gap = 0x3c :: 0x21 :: s)
    (e : XmlElement) (s : List UInt8) :
    ∃ d t, gapText gap ++ (e.text ++ s) = 0x3c :: d :: t ∧ d ≠ 0x2f := by
  rcases hgap with rfl | ⟨t, ht⟩
  · obtain ⟨c, t, ht, hc⟩ := e.text_start
    refine ⟨c, t ++ s, ?_, hc⟩
    rw [ht]
    rfl
  · refine ⟨0x21, t ++ (e.text ++ s), ?_, by decide⟩
    rw [ht]
    rfl

/-- What is behind the white space after a start tag. -/
theorem inside_start {gap : List Filler} (hgap : gap = [] ∨ ∃ s, gapText gap = 0x3c :: 0x21 :: s)
    (children : XmlElements) (name s : List UInt8) :
    ∃ d t, gapText gap ++ (children.text ++ (endTag name ++ s)) = 0x3c :: d :: t ∧
      (children ≠ .nil → d ≠ 0x2f) := by
  cases children with
  | nil =>
    rcases hgap with rfl | ⟨t, ht⟩
    · exact ⟨0x2f, name ++ [0x3e] ++ s, rfl, fun h => absurd rfl h⟩
    · refine ⟨0x21, t ++ (endTag name ++ s), ?_, fun _ => by decide⟩
      rw [ht]
      rfl
  | cons e gap₁ rest =>
    obtain ⟨d, t, hd, hslash⟩ :=
      element_start hgap e (gapText gap₁ ++ rest.text ++ (endTag name ++ s))
    refine ⟨d, t, ?_, fun _ => hslash⟩
    rw [XmlElements.text, List.append_assoc]
    exact hd

/-! ## Trees -/

/-- A start tag is behind the gap and the bracket. -/
theorem Tag.text_pos (tag : Tag) (b : List UInt8) : 0 < (tag.text b).length := by
  rw [Tag.text_length]
  omega

mutual

/-- An element is taken whole, and what is returned for it is as it was written. -/
theorem XmlElement.taken : ∀ (e : XmlElement) {data s : List UInt8} {i : Nat} {gap : List Filler},
    At data i (gapText gap ++ (e.text ++ s)) →
      ∃ xml, Takes data i (i + (gapText gap).length + e.text.length) xml ∧ e.Found data xml
  | .empty tag, data, s, i, gap, h => by
    obtain ⟨x, hstart, hopened, hclose, hcontent, hlen⟩ := findStart_empty h
    have hpos := tag.text_pos [0x2f, 0x3e]
    refine ⟨x, ⟨x, _, hstart, by omega, le_rfl, hopened.notProlog, .inl ⟨hclose, rfl, rfl⟩⟩, ?_⟩
    exact ⟨hopened.has, hclose, hcontent, find_nil hlen⟩
  | .leaf tag text, data, s, i, gap, h => by
    rw [XmlElement.text, List.append_assoc, List.append_assoc] at h
    obtain ⟨x, hstart, hopened, hclose, hdata, hcontent, -⟩ :=
      findStart_open (text.not_mem (by decide)) h
    have hend : At data x.data (gapText [] ++ (endTag tag.name.bytes ++ s)) := by
      rw [hdata]
      exact h.step.step.step
    have hpos := tag.text_pos [0x3e]
    refine ⟨{ x with dataLen := 0 }, ⟨x, _, hstart, by omega, ?_, hopened.notProlog,
      .inr ⟨hclose, hopened.start, fun turns hturns => ?_⟩⟩, ?_⟩
    · rw [XmlElement.text, List.length_append, List.length_append]
      omega
    · obtain ⟨turns, rfl⟩ := Nat.exists_eq_succ_of_ne_zero (by
        have hin := hend.inside
        omega : turns ≠ 0)
      rw [findEnd_close hend hopened.has.name hopened.len]
      refine congrArg Except.ok (Prod.ext ?_ ?_)
      · simp [gapText]
      · rw [hdata, XmlElement.text]
        simp only [gapText, List.flatMap_nil, List.length_nil, List.length_append]
        omega
    · exact ⟨⟨hopened.has.name, hopened.has.attrs⟩, hclose, hcontent rfl, find_nil rfl⟩
  | .parent tag gap₁ children, data, s, i, gap, h => by
    rw [XmlElement.text, List.append_assoc, List.append_assoc, List.append_assoc] at h
    obtain ⟨w, gap₂, hgap, hw, hstop⟩ := gapText_split gap₁
    obtain ⟨d, t, hd, hslash⟩ := inside_start hstop children tag.name.bytes s
    rw [hgap, List.append_assoc] at h
    have hopen := h
    rw [hd] at hopen
    obtain ⟨x, hstart, hopened, hclose, hdata, -, hcontent⟩ := findStart_open hw hopen
    have hinside : At data x.data
        (gapText gap₂ ++ (children.text ++ (endTag tag.name.bytes ++ s))) := by
      rw [hdata]
      exact h.step.step.step
    have hspan : span data x.data (gapText gap₂ ++ children.text).length =
        gapText gap₂ ++ children.text := by
      rw [← List.append_assoc] at hinside
      exact hinside.span
    have hpos := tag.text_pos [0x3e]
    refine ⟨{ x with dataLen := (gapText gap₂ ++ children.text).length },
      ⟨x, _, hstart, by omega, ?_, hopened.notProlog,
      .inr ⟨hclose, hopened.start, fun turns hturns => ?_⟩⟩, ?_⟩
    · rw [XmlElement.text, hgap]
      simp only [List.length_append]
      omega
    · rw [children.closed hinside hopened.has.name hopened.len hturns]
      refine congrArg Except.ok (Prod.ext ?_ ?_)
      · simp only [SdfXml.mk.injEq, true_and, List.length_append]
        omega
      · rw [XmlElement.text, hgap]
        simp only [List.length_append]
        omega
    · refine ⟨⟨hopened.has.name, hopened.has.attrs⟩, hclose,
        fun hsome => hcontent (hslash hsome), ?_⟩
      rw [SdfXml.inside, hspan]
      exact children.readFrom (At.start _)

/-- The end tag behind elements is found. -/
theorem XmlElements.closed : ∀ (es : XmlElements) {data s : List UInt8} {i turns : Nat}
    {gap : List Filler} {name : ElementName} {y : SdfXml},
    At data i (gapText gap ++ (es.text ++ (endTag name.bytes ++ s))) →
      y.name data = name.bytes → y.elementLen = name.bytes.length → data.length < i + turns →
        sdfXmlFindEndElement data turns i y =
          .ok ({ y with dataLen := i + (gapText gap).length + es.text.length - y.data },
            i + (gapText gap).length + es.text.length + (endTag name.bytes).length)
  | .nil, data, s, i, turns, gap, name, y, h, hname, hlen, hturns => by
    obtain ⟨turns, rfl⟩ := Nat.exists_eq_succ_of_ne_zero (by
      have hin := h.inside
      omega : turns ≠ 0)
    exact findEnd_close h hname hlen
  | .cons e gap₁ rest, data, s, i, turns, gap, name, y, h, hname, hlen, hturns => by
    obtain ⟨turns, rfl⟩ := Nat.exists_eq_succ_of_ne_zero (by
      have hin := h.inside
      omega : turns ≠ 0)
    rw [XmlElements.text, List.append_assoc, List.append_assoc] at h
    obtain ⟨xml, htakes, -⟩ := e.taken h
    have hpos : 0 < e.text.length := by
      obtain ⟨c, t, ht, -⟩ := e.text_start
      rw [ht]
      exact Nat.succ_pos _
    rw [htakes.findEnd hturns y, rest.closed h.step.step hname hlen (by omega)]
    refine congrArg Except.ok (Prod.ext ?_ ?_)
    · simp only [SdfXml.mk.injEq, true_and, XmlElements.text, List.length_append]
      omega
    · simp only [XmlElements.text, List.length_append]
      omega

/-- Elements are read one after another. -/
theorem XmlElements.readFrom : ∀ (es : XmlElements) {data : List UInt8} {i : Nat}
    {gap : List Filler}, At data i (gapText gap ++ es.text) → es.ReadFrom data i
  | .nil, data, i, gap, h => by
    rw [XmlElements.text, List.append_nil] at h
    exact find_none h
  | .cons e gap₁ rest, data, i, gap, h => by
    rw [XmlElements.text] at h
    obtain ⟨xml, htakes, hfound⟩ := e.taken h
    exact ⟨xml, _, htakes.loop data.length, hfound, rest.readFrom h.step.step⟩

end

/-! ## Documents -/

/-- The declaration is taken for an element that starts and does not end. -/
theorem findStart_declaration {d : Declaration} {w s data : List UInt8} {c : UInt8} (hw : 0x3c ∉ w)
    (hc : c ≠ 0x2f) (h : At data 0 (d.text ++ (w ++ 0x3c :: c :: s))) :
    ∃ x, sdfXmlFindStartElement data 0 = .ok (x, d.text.length + w.length) ∧
      isProlog (x.name data) = true := by
  have hopen : At data 0 (gapText [] ++ 0x3c :: 0x3f :: (ascii "xml" ++
      (attrsLead d.attrs d.space ++ (attrsSpan d.attrs d.space ++ ascii "?>")) ++
        (w ++ 0x3c :: c :: s))) := h
  have hno : isBeginElement2 (data.drop 0) = false := by
    rw [h.drop]
    rfl
  have hparts : At data 0 (0x3c :: (ascii "?xml" ++ (attrsLead d.attrs d.space ++
      ((attrsSpan d.attrs d.space ++ [0x3f]) ++ ([0x3e] ++ (w ++ 0x3c :: c :: s)))))) := by
    have hend : ascii "?>" = [0x3f] ++ [0x3e] := rfl
    simpa only [Declaration.text, hend, List.cons_append, List.append_assoc] using h
  obtain ⟨x, hread, helement, hlen, hclose, hdata⟩ :
      ∃ x, readTag data 0 = .ok x ∧ x.element = 0 + 1 ∧ x.elementLen = (ascii "?xml").length ∧
        x.elementClose = false ∧ x.data = d.text.length := by
    refine ⟨_, readTag_eq d.parts .one hparts, rfl, rfl, rfl, ?_⟩
    simp only [Declaration.text, List.length_cons, List.length_append]
    change _ = 4 + (_ + (_ + 2)) + 1
    change 0 + 1 + 4 + _ + (_ + 1) + 1 = _
    omega
  have hbehind := h.step
  rw [Nat.zero_add, ← hdata] at hbehind
  have hcontent := readContent_eq hw hbehind
  rw [if_neg hc] at hcontent
  refine ⟨{ x with data := x.data + w.length }, ?_, ?_⟩
  · have hbang : (0x3f : UInt8) ≠ 0x21 := by decide
    have hzero : 0 + (gapText []).length = 0 := rfl
    simp only [sdfXmlFindStartElement, findOpen_eq hopen hbang, hzero, xml_ok_bind, hno, hread,
      hclose, and_self, if_true, hcontent]
    exact congrArg (fun j => Except.ok (_, j + w.length)) hdata
  · have hname : SdfXml.name { x with data := x.data + w.length } data = ascii "?xml" := by
      rw [SdfXml.name, helement, hlen, hparts.tail.span]
    rw [hname]
    decide +kernel

/-- The declaration is read over, and the elements behind it are found. -/
theorem declared_readFrom {d : Declaration} {gap : List Filler} {es : XmlElements}
    {data : List UInt8} (hsome : es ≠ .nil) (h : At data 0 (d.text ++ (gapText gap ++ es.text))) :
    es.ReadFrom data 0 := by
  obtain ⟨w, gap', hgap, hw, hstop⟩ := gapText_split gap
  cases es with
  | nil => exact absurd rfl hsome
  | cons e gap₁ rest =>
    rw [hgap, XmlElements.text, List.append_assoc] at h
    obtain ⟨c, t, ht, hc⟩ := element_start hstop e (gapText gap₁ ++ rest.text)
    have hopen := h
    rw [ht] at hopen
    obtain ⟨x, hstart, hprolog⟩ := findStart_declaration hw hc hopen
    have hbehind := h.step.step
    rw [Nat.zero_add] at hbehind
    obtain ⟨xml, htakes, hfound⟩ := e.taken hbehind
    obtain ⟨n, hn⟩ : ∃ n, data.length = n + 1 := by
      have hsize := h.size
      rw [Declaration.text, List.cons_append, List.length_cons] at hsize
      exact ⟨_, by omega⟩
    refine ⟨xml, _, ?_, hfound, rest.readFrom hbehind.step.step⟩
    rw [sdfXmlFindElement, findElementLoop, hstart]
    simp only [hprolog, if_true]
    rw [hn, htakes.loop]

/-- The elements of a document come out of its text one after another, each with its own name,
attributes and text, and so do the children of each out of its data; behind the last of them
there is nothing more. -/
theorem document_read_back (doc : XmlDocument) : doc.elements.ReadFrom doc.text 0 := by
  have hstart := At.start doc.text
  rw [XmlDocument.text] at hstart ⊢
  cases hdecl : doc.declaration with
  | none =>
    rw [hdecl] at hstart
    exact doc.elements.readFrom hstart
  | some d =>
    rw [hdecl] at hstart
    exact declared_readFrom (doc.root (by rw [hdecl]; rfl)) hstart

end CassandraApi.Sdf
