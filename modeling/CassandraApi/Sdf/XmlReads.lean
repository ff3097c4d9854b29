/-
# `Sdf.XmlReads` — the element scanner read by read

The functions of `Sdf.Xml` once more, with every byte read from the buffer as a
read that can fail, every test of what is left as the code computes it, and every
length as the difference of two pointers:

    data   0 … curr … len        a read outside it is a fault

They read inside the buffer only and find what the functions of `Sdf.Xml` find
(`sdfXmlFindElement_eq`), whatever the buffer holds.  What those find lies in the
buffer, behind the cursor given (`Found`), and they come to an end.
-/
import CassandraApi.Sdf.Xml

namespace CassandraApi.Sdf

open C

/-! ## Sequences -/

theorem xml_bind_eq_ok {α β : Type} {x : Except XmlStop α} {f : α → Except XmlStop β} {b : β} :
    (x >>= f) = .ok b ↔ ∃ a, x = .ok a ∧ f a = .ok b := by
  cases x with
  | error e => exact iff_of_false (fun h => by cases h) fun ⟨_, h, _⟩ => by cases h
  | ok a => exact ⟨fun h => ⟨a, rfl, h⟩, fun ⟨_, h, h'⟩ => by cases h; exact h'⟩

/-- A sequence comes to an end when both parts do. -/
theorem bind_ends {α β : Type} {x : Except XmlStop α} {f : α → Except XmlStop β}
    (hx : x ≠ .error .stuck) (hf : ∀ a, x = .ok a → f a ≠ .error .stuck) :
    (x >>= f) ≠ .error .stuck := by
  cases x with
  | error e => exact fun h => hx (by cases h; rfl)
  | ok a => exact hf a rfl

/-! ## What is found lies in the buffer -/

section Bounds

variable {data : List UInt8} {c : UInt8} {i j turns : Nat}

theorem scanUntil_le (stop : List UInt8 → Bool) (s : List UInt8) : scanUntil stop s ≤ s.length := by
  induction s with
  | nil => exact Nat.le_refl _
  | cons c s ih =>
    rw [scanUntil]
    split
    · exact Nat.zero_le _
    · exact Nat.succ_le_succ ih

/-- A scan that starts in the buffer ends there. -/
theorem scan_le (stop : List UInt8 → Bool) (h : i ≤ data.length) :
    i + scanUntil stop (data.drop i) ≤ data.length := by
  have := scanUntil_le stop (data.drop i)
  rw [List.length_drop] at this
  omega

theorem scanUntil_stops {stop : List UInt8 → Bool} {s : List UInt8}
    (h : scanUntil stop s < s.length) : stop (s.drop (scanUntil stop s)) := by
  induction s with
  | nil => exact absurd h (Nat.not_lt_zero _)
  | cons c s ih =>
    rw [scanUntil] at h ⊢
    split_ifs at h ⊢ with hstop
    · exact hstop
    · exact ih (Nat.lt_of_succ_lt_succ h)

/-- Where a scan ends before the buffer does, its test holds. -/
theorem scan_stops (stop : List UInt8 → Bool) (h : i + scanUntil stop (data.drop i) < data.length) :
    stop (data.drop (i + scanUntil stop (data.drop i))) := by
  rw [← List.drop_drop]
  refine scanUntil_stops ?_
  rw [List.length_drop]
  omega

theorem memchr_eq_some (h : memchr data i c = some j) :
    i ≤ j ∧ j < data.length ∧ (data.drop j).head? = some c := by
  simp only [memchr] at h
  split_ifs at h with hin
  cases h
  exact ⟨Nat.le_add_right _ _, hin, by simpa using scan_stops _ hin⟩

/-- How far a comment goes. -/
theorem skipComment_bounds (h : skipComment data turns i = .ok j) : i < j ∧ j ≤ data.length := by
  induction turns generalizing i with
  | zero => cases h
  | succ turns ih =>
    rw [skipComment] at h
    cases hfound : memchr data i 0x3e with
    | none =>
      rw [hfound] at h
      cases h
    | some k =>
      obtain ⟨hle, hlt, -⟩ := memchr_eq_some hfound
      rw [hfound] at h
      dsimp only at h
      split_ifs at h with hend
      · cases h
        omega
      · obtain ⟨hlt', hle'⟩ := ih h
        omega

theorem skipComment_ends (hturns : data.length < i + turns) (hi : i ≤ data.length) :
    skipComment data turns i ≠ .error .stuck := by
  induction turns generalizing i with
  | zero => omega
  | succ turns ih =>
    rw [skipComment]
    cases hfound : memchr data i 0x3e with
    | none => simp
    | some k =>
      obtain ⟨hle, hlt, -⟩ := memchr_eq_some hfound
      dsimp only
      split_ifs with hend
      · simp
      · exact ih (by omega) (by omega)

theorem findOpen_bounds (hi : i ≤ data.length) (h : findOpen data turns i = .ok j) :
    i ≤ j ∧ j < data.length ∧ (data.drop j).head? = some 0x3c := by
  induction turns generalizing i with
  | zero => cases h
  | succ turns ih =>
    rw [findOpen] at h
    cases hfound : memchr data i 0x3c with
    | none =>
      rw [hfound] at h
      cases h
    | some k =>
      obtain ⟨hle, hlt, hk⟩ := memchr_eq_some hfound
      rw [hfound] at h
      dsimp only at h
      split_ifs at h with hcomment
      · obtain ⟨k', hskip, hrest⟩ := xml_bind_eq_ok.1 h
        obtain ⟨hlt', hle'⟩ := skipComment_bounds hskip
        obtain ⟨hle'', hend⟩ := ih hle' hrest
        exact ⟨by omega, hend⟩
      · cases h
        exact ⟨hle, hlt, hk⟩

theorem findOpen_ends (hturns : data.length < i + turns) (hi : i ≤ data.length) :
    findOpen data turns i ≠ .error .stuck := by
  induction turns generalizing i with
  | zero => omega
  | succ turns ih =>
    rw [findOpen]
    cases hfound : memchr data i 0x3c with
    | none => simp
    | some k =>
      obtain ⟨hle, hlt, -⟩ := memchr_eq_some hfound
      dsimp only
      split_ifs with hcomment
      · refine bind_ends (skipComment_ends (by omega) (by omega)) fun k' hskip => ?_
        obtain ⟨hlt', hle'⟩ := skipComment_bounds hskip
        exact ih (by omega) hle'
      · exact fun h => by cases h

/-- The spans of an element lie in the buffer, and its data ends before the cursor. -/
structure SdfXml.Inside (data : List UInt8) (xml : SdfXml) (curr : Nat) : Prop where
  element : xml.element + xml.elementLen ≤ data.length
  named : 0 < xml.elementLen
  attr : xml.attr + xml.attrLen ≤ data.length
  content : ∀ content ∈ xml.content, content + xml.contentLen ≤ data.length
  behind : xml.data + xml.dataLen ≤ curr
  cursor : curr ≤ data.length

/-- A closing bracket of two bytes is in the buffer with both. -/
theorem isEndElement2_room (h : isEndElement2 (data.drop i)) : i + 2 ≤ data.length := by
  cases hdrop : data.drop i with
  | nil => rw [hdrop] at h; cases h
  | cons c s =>
    cases s with
    | nil => rw [hdrop] at h; cases h
    | cons d s =>
      have hlen := congrArg List.length hdrop
      simp only [List.length_drop, List.length_cons] at hlen
      omega

/-- A tag ends behind its name. -/
theorem readTag_bounds {xml : SdfXml} (hi : i < data.length) (h : readTag data i = .ok xml) :
    xml.Inside data xml.data ∧ xml.dataLen = 0 ∧ xml.element = i + 1 ∧
      i + 1 + xml.elementLen < xml.data := by
  rw [readTag] at h
  dsimp only at h
  -- the name ends at `n`, the attributes start at `a` and end at `e`
  have hn := scan_le isNameEnd (show i + 1 ≤ data.length by omega)
  generalize i + 1 + scanUntil isNameEnd (data.drop (i + 1)) = n at h hn
  have ha := scan_le (fun s => !s.head?.any isXmlSpace) hn
  have hna := Nat.le_add_right n (scanUntil (fun s => !s.head?.any isXmlSpace) (data.drop n))
  generalize n + scanUntil (fun s => !s.head?.any isXmlSpace) (data.drop n) = a at h ha hna
  have hae := Nat.le_add_right a
    (scanUntil (fun s => isEndElement1 s || isEndElement2 s) (data.drop a))
  have hstops : a + scanUntil (fun s => isEndElement1 s || isEndElement2 s) (data.drop a) <
      data.length → _ := scan_stops fun s => isEndElement1 s || isEndElement2 s
  generalize a + scanUntil (fun s => isEndElement1 s || isEndElement2 s) (data.drop a) = e
    at h hae hstops
  split_ifs at h with hshort hempty hend hclose
  · have hroom : e + 2 ≤ data.length := by
      have hbracket := hstops (by omega)
      rw [Bool.or_eq_true] at hbracket
      exact isEndElement2_room (hbracket.resolve_left (by simpa using hclose))
    cases h
    refine ⟨⟨?_, ?_, ?_, by simp, ?_, ?_⟩, rfl, rfl, ?_⟩ <;> dsimp only <;> omega
  · cases h
    refine ⟨⟨?_, ?_, ?_, by simp, ?_, ?_⟩, rfl, rfl, ?_⟩ <;> dsimp only <;> omega

theorem readContent_bounds {xml xml' : SdfXml} (hin : xml.Inside data xml.data)
    (hlen : xml.dataLen = 0) (h : readContent data xml = .ok xml') :
    xml'.Inside data xml'.data ∧ xml'.dataLen = 0 ∧ xml.data ≤ xml'.data ∧
      xml'.element = xml.element ∧ xml'.elementClose = xml.elementClose := by
  obtain ⟨element, named, attr, content, behind, cursor⟩ := hin
  simp only [readContent] at h
  have hle := scan_le (fun s => isBeginElement1 s || isBeginElement2 s) cursor
  have hge := Nat.le_add_right xml.data
    (scanUntil (fun s => isBeginElement1 s || isBeginElement2 s) (data.drop xml.data))
  generalize xml.data +
    scanUntil (fun s => isBeginElement1 s || isBeginElement2 s) (data.drop xml.data) = i
    at h hle hge
  split_ifs at h with hend hnested
  · cases h
    exact ⟨⟨element, named, attr, content, by dsimp only; omega, hle⟩, hlen, hge, rfl, rfl⟩
  · cases h
    refine ⟨⟨element, named, attr, ?_, by dsimp only; omega, hle⟩, hlen, hge, rfl, rfl⟩
    rintro c ⟨⟩
    dsimp only
    omega

/-- What a start or an end tag gives: the spans, and a cursor behind it. -/
structure Started (data : List UInt8) (curr : Nat) (x : SdfXml) (i : Nat) : Prop where
  inside : x.Inside data i
  cursor : i = x.data
  noData : x.dataLen = 0
  after : curr < x.element
  before : x.element < i

theorem start_bounds {curr : Nat} {x : SdfXml} (hcurr : curr ≤ data.length)
    (h : sdfXmlFindStartElement data curr = .ok (x, i)) : Started data curr x i := by
  rw [sdfXmlFindStartElement] at h
  obtain ⟨k, hopen, h⟩ := xml_bind_eq_ok.1 h
  obtain ⟨xml, htag, h⟩ := xml_bind_eq_ok.1 h
  obtain ⟨hle, hlt, -⟩ := findOpen_bounds hcurr hopen
  obtain ⟨hin, hlen, helement, hdata⟩ := readTag_bounds hlt htag
  have hnamed := hin.named
  dsimp only at h
  split_ifs at h with hopens
  · obtain ⟨xml', hcontent, h⟩ := xml_bind_eq_ok.1 h
    cases h
    obtain ⟨hin', hlen', hle', helement', -⟩ := readContent_bounds hin hlen hcontent
    exact ⟨hin', rfl, hlen', by omega, by omega⟩
  · cases h
    exact ⟨hin, rfl, hlen, by omega, by omega⟩

theorem readTag_ends : readTag data i ≠ .error .stuck := by
  rw [readTag]
  dsimp only
  split_ifs <;> exact fun h => by cases h

theorem readContent_ends {xml : SdfXml} : readContent data xml ≠ .error .stuck := by
  simp only [readContent]
  split_ifs <;> exact fun h => by cases h

theorem start_ends {curr : Nat} (hcurr : curr ≤ data.length) :
    sdfXmlFindStartElement data curr ≠ .error .stuck := by
  refine bind_ends (findOpen_ends (by omega) hcurr) fun k _ => ?_
  refine bind_ends readTag_ends fun xml _ => ?_
  dsimp only
  split_ifs
  · exact bind_ends readContent_ends fun xml' _ h => by cases h
  · exact fun h => by cases h

/-- The end tag is behind the cursor, and its `<` not before the data. -/
theorem end_bounds {xml xml' : SdfXml} {stop : Nat} (hi : i ≤ data.length) (hdata : xml.data ≤ i)
    (h : sdfXmlFindEndElement data turns i xml = .ok (xml', stop)) :
    i < stop ∧ stop ≤ data.length ∧ xml.data + xml'.dataLen ≤ stop ∧
      xml' = { xml with dataLen := xml'.dataLen } := by
  induction turns generalizing i xml xml' stop with
  | zero => cases h
  | succ turns ih =>
    rw [sdfXmlFindEndElement] at h
    split at h
    · cases h
    · cases h
    · rename_i x k hstart
      obtain ⟨hin, hk, -, hafter, hbefore⟩ := start_bounds hi hstart
      have hcursor := hin.cursor
      split_ifs at h with hclose hslash hname
      · -- an empty element
        obtain ⟨hlt, hrest⟩ := ih hcursor (by omega) h
        exact ⟨by omega, hrest⟩
      · -- the end tag
        cases h
        refine ⟨by omega, hcursor, ?_, rfl⟩
        dsimp only
        omega
      · -- an element in between
        obtain ⟨⟨x', j⟩, hinner, hrest⟩ := xml_bind_eq_ok.1 h
        obtain ⟨hlt, hle, -⟩ := ih hcursor hk.ge hinner
        obtain ⟨hlt', hrest'⟩ := ih hle (by omega) hrest
        exact ⟨by omega, hrest'⟩

/-- Every call and every turn moves the cursor on. -/
theorem end_ends {xml : SdfXml} (hturns : data.length < i + turns) (hi : i ≤ data.length) :
    sdfXmlFindEndElement data turns i xml ≠ .error .stuck := by
  induction turns generalizing i xml with
  | zero => omega
  | succ turns ih =>
    rw [sdfXmlFindEndElement]
    have hends := start_ends hi
    split
    · simp
    · rename_i e _ hstart
      rw [hstart] at hends
      exact hends
    · rename_i x k hstart
      obtain ⟨hin, hk, -, hafter, hbefore⟩ := start_bounds hi hstart
      have hcursor := hin.cursor
      split_ifs with hclose hslash hname
      · exact ih (by omega) hcursor
      · simp
      · simp
      · refine bind_ends (ih (by omega) hcursor) fun ⟨x', j⟩ hinner => ?_
        obtain ⟨hlt, hle, -⟩ := end_bounds hcursor hk.ge hinner
        exact ih (by omega) hle

/-- What SDF_xml_find_element gives: the spans, and a cursor that has moved on. -/
structure Found (data : List UInt8) (curr : Nat) (xml : SdfXml) (stop : Nat) : Prop where
  inside : xml.Inside data stop
  after : curr < stop

theorem find_bounds {curr stop : Nat} {xml : SdfXml} (hcurr : curr ≤ data.length)
    (h : findElementLoop data turns curr = (.ok xml, stop)) : Found data curr xml stop := by
  induction turns generalizing curr with
  | zero => cases h
  | succ turns ih =>
    rw [findElementLoop] at h
    split at h
    · cases h
    · rename_i x i hstart
      obtain ⟨hin, hk, hlen, hafter, hbefore⟩ := start_bounds hcurr hstart
      split_ifs at h with hprolog hclose
      · obtain ⟨hfound, hlt⟩ := ih hin.cursor h
        exact ⟨hfound, by omega⟩
      · cases h
        exact ⟨hin, by omega⟩
      · split at h
        · cases h
        · rename_i xml' stop' hend
          cases h
          obtain ⟨hlt, hle, hdata, heq⟩ := end_bounds hin.cursor hk.ge hend
          have hspan : xml.data + xml.dataLen ≤ stop := by
            rw [heq]
            exact hdata
          obtain ⟨element, named, attr, content, -, -⟩ := hin
          rw [heq]
          exact ⟨⟨element, named, attr, content, hdata, hle⟩, by omega⟩

theorem find_ends {curr : Nat} (hturns : data.length < curr + turns) (hcurr : curr ≤ data.length) :
    (findElementLoop data turns curr).1 ≠ .error .stuck := by
  induction turns generalizing curr with
  | zero => omega
  | succ turns ih =>
    rw [findElementLoop]
    have hends := start_ends hcurr
    split
    · rename_i e hstart
      rw [hstart] at hends
      exact fun h => hends (by cases h; rfl)
    · rename_i x i hstart
      obtain ⟨hin, hk, hlen, hafter, hbefore⟩ := start_bounds hcurr hstart
      have hcursor := hin.cursor
      split_ifs with hprolog hclose
      · exact ih (by omega) hcursor
      · exact fun h => by cases h
      · have hstop : sdfXmlFindEndElement data (data.length + 1) i x ≠ .error .stuck :=
          end_ends (by omega) hcursor
        split
        · rename_i e hend
          rw [hend] at hstop
          exact fun h => hstop (by cases h; rfl)
        · exact fun h => by cases h

end Bounds

namespace Reads

/-! ## Reads -/

/-- How a function ends that does not return an element. -/
inductive Stop where
  | fault (f : Fault)
  | xml (s : XmlStop)

@[simp] theorem ok_bind {α β : Type} (a : α) (f : α → Except Stop β) :
    (Except.ok a >>= f) = f a := rfl

/-- `data[i]` -/
def rd (data : List UInt8) (i : Int) : Except Stop UInt8 :=
  if 0 ≤ i ∧ i < data.length then .ok (data.getD i.toNat 0) else .error (.fault .read)

/-- The `n` bytes at `&data[i]` that a memcmp looks at. -/
def bytes (data : List UInt8) (i : Int) (n : Nat) : Except Stop (List UInt8) :=
  if 0 ≤ i ∧ i + n ≤ data.length then .ok (span data i.toNat n) else .error (.fault .read)

/-- `(size_t) x` -/
def toSize (x : Int) : Nat := (x % 2 ^ 64).toNat

/-- `memchr(&data[i], c, n)` -/
def memchr (data : List UInt8) (c : UInt8) : Nat → Nat → Except Stop (Option Nat)
  | 0, _ => .ok none
  | n + 1, i => do if (← rd data i) = c then .ok (some i) else memchr data c n (i + 1)

/-- IS_CONST_STR; the lengths are compared as size_t. -/
def isConstStr (data : List UInt8) (curr : Int) (str : List UInt8) : Except Stop Bool := do
  if toSize (data.length - curr) ≥ str.length then
    return (← bytes data curr str.length) = str
  else return false

/-- IS_SPACE -/
def isSpace (data : List UInt8) (i : Nat) : Except Stop Bool := return isXmlSpace (← rd data i)

/-- IS_END_ELEMENT1 -/
def isEnd1 (data : List UInt8) (i : Nat) : Except Stop Bool := return (← rd data i) = 0x3e

/-- `(len - i) >= 2 && data[i] == c && test(data[i + 1])` -/
def isPair (data : List UInt8) (c : UInt8) (test : UInt8 → Bool) (i : Nat) : Except Stop Bool := do
  if (data.length - i : Int) ≥ 2 then
    if (← rd data i) = c then return test (← rd data (i + 1)) else return false
  else return false

/-- IS_END_ELEMENT2 -/
def isEnd2 (data : List UInt8) : Nat → Except Stop Bool := isPair data 0x2f (· = 0x3e)

/-- IS_BEGIN_ELEMENT1 -/
def isBegin1 (data : List UInt8) : Nat → Except Stop Bool := isPair data 0x3c (· ≠ 0x2f)

/-- IS_BEGIN_ELEMENT2 -/
def isBegin2 (data : List UInt8) : Nat → Except Stop Bool := isPair data 0x3c (· = 0x2f)

/-- `while (i < len && !stop(i)) ++i;` -/
def scan (data : List UInt8) (stop : Nat → Except Stop Bool) : Nat → Nat → Except Stop Nat
  | 0, _ => .error (.xml .stuck)
  | turns + 1, i => do
      if i < data.length then
        if ← stop i then .ok i else scan data stop turns (i + 1)
      else .ok i

/-- `a || b`, `b` being read only when `a` is false. -/
def orElse (a b : Except Stop Bool) : Except Stop Bool := do if ← a then return true else b

/-! ## The functions -/

/-- SDF_XML.  A length is the difference of two pointers, and `data_len` is `none` as long as
nothing is written to it. -/
structure RawXml where
  element : Nat
  elementLen : Int
  elementClose : Bool
  attr : Nat
  attrLen : Int
  content : Option Nat
  contentLen : Int
  data : Nat
  dataLen : Option Int

/-- From the start of a comment to behind its end. -/
def skipComment (data : List UInt8) : Nat → Nat → Except Stop Nat
  | 0, _ => .error (.xml .stuck)
  | turns + 1, i => do
      match ← memchr data 0x3e (toSize (data.length - i)) i with
      | none => .error (.xml (.error "Found start comment without ending"))
      | some i =>
          if ← isConstStr data (i - 2) (ascii "-->") then .ok (i + 1)
          else skipComment data turns (i + 1)

/-- The first `<` that does not start a comment. -/
def findOpen (data : List UInt8) : Nat → Nat → Except Stop Nat
  | 0, _ => .error (.xml .stuck)
  | turns + 1, i => do
      match ← memchr data 0x3c (toSize (data.length - i)) i with
      | none => .error (.xml .eof)
      | some i =>
          if ← isConstStr data i (ascii "<!--") then
            let i ← skipComment data (data.length + 1) i
            findOpen data turns i
          else .ok i

/-- The name, the attributes and the bracket of a tag that starts at `i`. -/
def readTag (data : List UInt8) (i : Nat) : Except Stop RawXml := do
  let element := i + 1
  let i ← scan data (fun i => orElse (orElse (isSpace data i) (isEnd1 data i)) (isEnd2 data i))
    (data.length + 1) element
  if data.length ≤ i then .error (.xml (.error "Invalid element field"))
  else if (i - element : Int) ≤ 0 then .error (.xml (.error "Invalid element structure"))
  else
    let elementLen : Int := i - element
    let attr ← scan data (fun i => (!·) <$> isSpace data i) (data.length + 1) i
    let i ← scan data (fun i => orElse (isEnd1 data i) (isEnd2 data i)) (data.length + 1) attr
    if data.length ≤ i then .error (.xml (.error "Invalid attribute field"))
    else
      let elementClose := !(← isEnd1 data i)
      .ok {
        element, elementLen, elementClose, attr, attrLen := i - attr, content := none
        contentLen := 0, data := if elementClose then i + 2 else i + 1
        dataLen := if elementClose then some 0 else none }

/-- What the element holds. -/
def readContent (data : List UInt8) (xml : RawXml) : Except Stop RawXml := do
  let content := xml.data
  let i ← scan data (fun i => orElse (isBegin1 data i) (isBegin2 data i)) (data.length + 1) content
  if data.length ≤ i then .error (.xml (.error "Invalid content field"))
  else if ← isBegin1 data i then .ok { xml with data := i }
  else .ok { xml with content := some content, contentLen := i - content, data := i }

/-- `sdf_xml_find_start_element` -/
def sdfXmlFindStartElement (data : List UInt8) (curr : Nat) : Except Stop (RawXml × Nat) := do
  let i ← findOpen data (data.length + 1) curr
  let tagClose ← isBegin2 data i
  let xml ← readTag data i
  if tagClose = false ∧ xml.elementClose = false then
    let xml ← readContent data xml
    .ok (xml, xml.data)
  else .ok (xml, xml.data)

/-- `(x.element_len-1) == xml->element_len && memcmp (x.element+1, xml->element,
xml->element_len) == 0` -/
def endsElement (data : List UInt8) (x xml : RawXml) : Except Stop Bool := do
  if x.elementLen - 1 = xml.elementLen then
    return (← bytes data (x.element + 1) (toSize xml.elementLen)) =
      (← bytes data xml.element (toSize xml.elementLen))
  else return false

/-- `sdf_xml_find_end_element` -/
def sdfXmlFindEndElement (data : List UInt8) :
    Nat → Nat → RawXml → Except Stop (RawXml × Nat)
  | 0, _, _ => .error (.xml .stuck)
  | turns + 1, i, xml =>
      match sdfXmlFindStartElement data i with
      | .error (.xml .eof) => .error (.xml (.error "Found element without ending"))
      | .error e => .error e
      | .ok (x, i) =>
          if x.elementClose then sdfXmlFindEndElement data turns i xml
          else do
            if (← rd data x.element) = 0x2f then
              if ← endsElement data x xml then
                .ok ({ xml with dataLen := some (x.element - 1 - xml.data) }, i)
              else .error (.xml (.error "Found extra element ending"))
            else
              let (_, i) ← sdfXmlFindEndElement data turns i x
              sdfXmlFindEndElement data turns i xml

/-- `xml->element_len == (sizeof(str)-1) && memcmp (xml->element, str, sizeof(str)-1) == 0` -/
def isNamed (data : List UInt8) (xml : RawXml) (str : List UInt8) : Except Stop Bool := do
  if xml.elementLen = str.length then return (← bytes data xml.element str.length) = str
  else return false

/-- The loop of SDF_xml_find_element: the result and `*curr`. -/
def findElementLoop (data : List UInt8) : Nat → Nat → Except Stop RawXml × Nat
  | 0, curr => (.error (.xml .stuck), curr)
  | turns + 1, curr =>
      match sdfXmlFindStartElement data curr with
      | .error e => (.error e, curr)
      | .ok (xml, curr) =>
          match orElse (isNamed data xml (ascii "?xml")) (isNamed data xml (ascii "!DOCTYPE")) with
          | .error e => (.error e, curr)
          | .ok true => findElementLoop data turns curr
          | .ok false =>
              if xml.elementClose then (.ok xml, curr)
              else
                match sdfXmlFindEndElement data (data.length + 1) curr xml with
                | .error e => (.error e, curr)
                | .ok (xml, curr) => (.ok xml, curr)

/-- SDF_xml_find_element -/
def sdfXmlFindElement (data : List UInt8) (curr : Nat) : Except Stop RawXml × Nat :=
  findElementLoop data (data.length + 1) curr

/-! ## Nothing is read outside -/

section Inside

variable {data : List UInt8} {i : Nat}

theorem rd_of_drop {c : UInt8} {s : List UInt8} (h : data.drop i = c :: s) : rd data i = .ok c := by
  have hlt : i < data.length := by
    by_contra hge
    rw [List.drop_eq_nil_of_le (not_lt.1 hge)] at h
    cases h
  rw [List.drop_eq_getElem_cons hlt] at h
  have hc : data[i] = c := (List.cons.inj h).1
  rw [rd, if_pos (by omega), Int.toNat_natCast, List.getD_eq_getElem _ _ hlt, hc]

theorem drop_cases (h : i < data.length) : ∃ c s, data.drop i = c :: s ∧ data.drop (i + 1) = s :=
  ⟨_, _, List.drop_eq_getElem_cons h, rfl⟩

theorem bytes_eq {k n : Nat} (h : k + n ≤ data.length) : bytes data k n = .ok (span data k n) := by
  rw [bytes, if_pos (by omega), Int.toNat_natCast]

theorem toSize_natCast {n : Nat} (h : n < 2 ^ 64) : toSize n = n := by
  unfold toSize
  omega

theorem isSpace_eq (h : i < data.length) :
    isSpace data i = .ok ((data.drop i).head?.any isXmlSpace) := by
  obtain ⟨c, s, hc, -⟩ := drop_cases h
  rw [isSpace, rd_of_drop hc, ok_bind, hc]
  rfl

theorem isEnd1_eq (h : i < data.length) : isEnd1 data i = .ok (isEndElement1 (data.drop i)) := by
  obtain ⟨c, s, hc, -⟩ := drop_cases h
  rw [isEnd1, rd_of_drop hc, ok_bind, hc, isEndElement1, List.head?_cons]
  simp only [Option.some.injEq]
  rfl

/-- The two bytes of a test are there when it reads them. -/
theorem isPair_eq (c : UInt8) (test : UInt8 → Bool) (h : i < data.length) :
    isPair data c test i = .ok (match data.drop i with
      | b :: d :: _ => b = c && test d
      | _ => false) := by
  obtain ⟨b, s, hb, hs⟩ := drop_cases h
  have hlen := congrArg List.length hs
  rw [List.length_drop] at hlen
  rw [isPair, hb]
  cases s with
  | nil =>
    rw [List.length_nil] at hlen
    rw [if_neg (by omega)]
    rfl
  | cons d s =>
    rw [List.length_cons] at hlen
    have hd : rd data (i + 1) = .ok d := by exact_mod_cast rd_of_drop hs
    rw [if_pos (by omega), rd_of_drop hb, ok_bind, hd]
    by_cases hbc : b = c
    · simp [hbc]
    · simp [hbc]
      rfl

theorem isEnd2_eq (h : i < data.length) : isEnd2 data i = .ok (isEndElement2 (data.drop i)) := by
  rw [isEnd2, isPair_eq _ _ h]
  rfl

theorem isBegin1_eq (h : i < data.length) :
    isBegin1 data i = .ok (isBeginElement1 (data.drop i)) := by
  rw [isBegin1, isPair_eq _ _ h]
  rfl

theorem isBegin2_eq (h : i < data.length) :
    isBegin2 data i = .ok (isBeginElement2 (data.drop i)) := by
  rw [isBegin2, isPair_eq _ _ h]
  rfl

theorem orElse_ok (a b : Bool) : orElse (.ok a) (.ok b) = .ok (a || b) := by
  cases a <;> rfl

theorem scan_eq {read : Nat → Except Stop Bool} (stop : List UInt8 → Bool)
    (hread : ∀ k < data.length, read k = .ok (stop (data.drop k))) {turns : Nat}
    (hturns : data.length < i + turns) (hi : i ≤ data.length) :
    scan data read turns i = .ok (i + scanUntil stop (data.drop i)) := by
  induction turns generalizing i with
  | zero => omega
  | succ turns ih =>
    rw [scan]
    split_ifs with hlt
    · obtain ⟨c, s, hc, hs⟩ := drop_cases hlt
      rw [hread i hlt, ok_bind, hc, scanUntil]
      cases stop (c :: s) with
      | true => rfl
      | false =>
        rw [if_neg Bool.false_ne_true, if_neg Bool.false_ne_true, ih (by omega) hlt, hs]
        congr 1
        omega
    · rw [List.drop_eq_nil_of_le (not_lt.1 hlt)]
      rfl

theorem memchr_eq (c : UInt8) (hi : i ≤ data.length) (hlen : data.length < 2 ^ 31) :
    memchr data c (toSize (data.length - i)) i = .ok (Sdf.memchr data i c) := by
  obtain ⟨n, hn⟩ : ∃ n, data.length = i + n := ⟨data.length - i, by omega⟩
  have hsize : toSize (data.length - i) = n := by
    rw [hn, Nat.cast_add, add_sub_cancel_left, toSize_natCast (by omega)]
  rw [hsize]
  clear hsize
  induction n generalizing i with
  | zero =>
    simp only [Sdf.memchr]
    rw [List.drop_eq_nil_of_le (by omega), if_neg (by simp [scanUntil]; omega)]
    rfl
  | succ n ih =>
    obtain ⟨b, s, hb, hs⟩ := drop_cases (show i < data.length by omega)
    rw [memchr, rd_of_drop hb, ok_bind]
    simp only [Sdf.memchr, hb, scanUntil, List.head?_cons, Option.some.injEq, decide_eq_true_eq]
    split_ifs with hbc hlt hlt
    · rfl
    · omega
    · rw [ih (by omega) (by omega)]
      simp only [Sdf.memchr, hs]
      rw [if_pos (by omega)]
      congr 2
      omega
    · rw [ih (by omega) (by omega)]
      simp only [Sdf.memchr, hs]
      rw [if_neg (by omega)]

theorem isConstStr_eq {k : Nat} {str : List UInt8} (hk : k ≤ data.length)
    (hlen : data.length < 2 ^ 31) :
    isConstStr data k str = .ok (str.isPrefixOf (data.drop k)) := by
  have hsize : toSize (data.length - k) = data.length - k := by
    rw [← Nat.cast_sub hk, toSize_natCast (by omega)]
  rw [isConstStr, hsize]
  have hprefix : str.isPrefixOf (data.drop k) = true ↔ span data k str.length = str := by
    rw [List.isPrefixOf_iff_prefix, List.prefix_iff_eq_take, eq_comm]
    rfl
  split_ifs with hroom
  · rw [bytes_eq (by omega), ok_bind]
    congr 1
    rw [Bool.eq_iff_iff, hprefix, decide_eq_true_iff]
  · have hnot : str.isPrefixOf (data.drop k) = false := by
      rw [Bool.eq_false_iff, Ne, List.isPrefixOf_iff_prefix]
      intro hpre
      have := hpre.length_le
      rw [List.length_drop] at this
      omega
    rw [hnot]
    rfl

end Inside

/-! ## The same is found -/

/-- The data of `Sdf.Xml` with its lengths as differences. -/
def raw (x : SdfXml) (dataLen : Option Int) : RawXml :=
  { x with elementLen := x.elementLen, attrLen := x.attrLen, contentLen := x.contentLen, dataLen }

/-- `data_len` behind a start tag. -/
def startLen (x : SdfXml) : Option Int := if x.elementClose then some 0 else none

@[simp] theorem raw_element (x : SdfXml) (n : Option Int) : (raw x n).element = x.element := rfl

@[simp] theorem raw_elementLen (x : SdfXml) (n : Option Int) :
    (raw x n).elementLen = x.elementLen := rfl

@[simp] theorem raw_elementClose (x : SdfXml) (n : Option Int) :
    (raw x n).elementClose = x.elementClose := rfl

@[simp] theorem raw_data (x : SdfXml) (n : Option Int) : (raw x n).data = x.data := rfl

theorem map_ok {α β : Type} (f : α → β) (a : α) :
    Except.map f (Except.ok a : Except XmlStop α) = .ok (f a) := rfl

theorem mapError_ok {α : Type} (a : α) :
    Except.mapError Stop.xml (Except.ok a) = .ok a := rfl

section Same

variable {data : List UInt8} {i turns : Nat} (hlen : data.length < 2 ^ 31)
include hlen

/-- Behind the start of a comment, or far enough from the start of the buffer. -/
theorem skipComment_eq (hturns : data.length < i + turns) (hi : i ≤ data.length)
    (hstart : 2 ≤ i ∨ ascii "<!" <+: data.drop i) :
    skipComment data turns i = (Sdf.skipComment data turns i).mapError .xml := by
  induction turns generalizing i with
  | zero => omega
  | succ turns ih =>
    rw [skipComment, Sdf.skipComment, memchr_eq _ hi hlen, ok_bind]
    cases hfound : Sdf.memchr data i 0x3e with
    | none => rfl
    | some k =>
      obtain ⟨hle, hlt, hk⟩ := memchr_eq_some hfound
      have hk2 : 2 ≤ k := by
        obtain hfar | ⟨rest, hrest⟩ := hstart
        · omega
        · -- the two bytes at the start of the comment are not the one looked for
          by_contra hnear
          obtain rfl | rfl : k = i ∨ k = i + 1 := by omega
          · rw [← hrest] at hk
            simp [ascii] at hk
          · rw [← List.drop_drop, ← hrest] at hk
            simp [ascii] at hk
      have hcast : ((k : Int) - 2) = ((k - 2 : Nat) : Int) := by omega
      dsimp only
      rw [hcast, isConstStr_eq (by omega) hlen, ok_bind]
      split_ifs with hend
      · rfl
      · exact ih (by omega) (by omega) (.inl (by omega))

theorem findOpen_eq (hturns : data.length < i + turns) (hi : i ≤ data.length) :
    findOpen data turns i = (Sdf.findOpen data turns i).mapError .xml := by
  induction turns generalizing i with
  | zero => omega
  | succ turns ih =>
    rw [findOpen, Sdf.findOpen, memchr_eq _ hi hlen, ok_bind]
    cases hfound : Sdf.memchr data i 0x3c with
    | none => rfl
    | some k =>
      obtain ⟨hle, hlt, hk⟩ := memchr_eq_some hfound
      dsimp only
      rw [isConstStr_eq (by omega) hlen, ok_bind]
      split_ifs with hcomment
      · rw [skipComment_eq hlen (by omega) (by omega) (.inr ?_)]
        · cases hskip : Sdf.skipComment data (data.length + 1) k with
          | error e => rfl
          | ok k' =>
            obtain ⟨hlt', hle'⟩ := skipComment_bounds hskip
            exact ih (by omega) hle'
        · have hshort : ascii "<!" <+: ascii "<!--" := ⟨ascii "--", rfl⟩
          exact hshort.trans (List.isPrefixOf_iff_prefix.1 hcomment)
      · rfl

omit hlen in
theorem readTag_eq (hi : i < data.length) :
    readTag data i = ((Sdf.readTag data i).map fun x => raw x (startLen x)).mapError .xml := by
  have hname : ∀ k < data.length,
      orElse (orElse (isSpace data k) (isEnd1 data k)) (isEnd2 data k) =
        .ok (isNameEnd (data.drop k)) := by
    intro k hk
    rw [isSpace_eq hk, isEnd1_eq hk, isEnd2_eq hk, orElse_ok, orElse_ok]
    rfl
  have hspace : ∀ k < data.length,
      ((!·) <$> isSpace data k) = .ok (!(data.drop k).head?.any isXmlSpace) := by
    intro k hk
    rw [isSpace_eq hk]
    rfl
  have hend : ∀ k < data.length, orElse (isEnd1 data k) (isEnd2 data k) =
      .ok (isEndElement1 (data.drop k) || isEndElement2 (data.drop k)) := by
    intro k hk
    rw [isEnd1_eq hk, isEnd2_eq hk, orElse_ok]
  have hn := scan_le isNameEnd (show i + 1 ≤ data.length by omega)
  rw [readTag, scan_eq isNameEnd hname (by omega) (by omega), ok_bind, Sdf.readTag]
  dsimp only
  generalize i + 1 + scanUntil isNameEnd (data.drop (i + 1)) = n at hn ⊢
  by_cases hshort : data.length ≤ n
  · rw [if_pos hshort, if_pos hshort]
    rfl
  rw [if_neg hshort, if_neg hshort]
  by_cases hempty : n - (i + 1) = 0
  · rw [if_pos (by omega), if_pos hempty]
    rfl
  rw [if_neg (by omega), if_neg hempty,
    scan_eq (fun s => !s.head?.any isXmlSpace) hspace (by omega) hn, ok_bind]
  have ha := scan_le (fun s => !s.head?.any isXmlSpace) hn
  generalize n + scanUntil (fun s => !s.head?.any isXmlSpace) (data.drop n) = a at ha ⊢
  rw [scan_eq (fun s => isEndElement1 s || isEndElement2 s) hend (by omega) ha, ok_bind]
  have hae := Nat.le_add_right a
    (scanUntil (fun s => isEndElement1 s || isEndElement2 s) (data.drop a))
  generalize a + scanUntil (fun s => isEndElement1 s || isEndElement2 s) (data.drop a) = e at hae ⊢
  by_cases hopen : data.length ≤ e
  · rw [if_pos hopen, if_pos hopen]
    rfl
  rw [if_neg hopen, if_neg hopen, isEnd1_eq (by omega), ok_bind]
  have hname' : ((n - (i + 1) : Nat) : Int) = n - (i + 1 : Nat) := by omega
  have hattr' : ((e - a : Nat) : Int) = e - a := by omega
  cases isEndElement1 (data.drop e) <;>
    simp [raw, startLen, Except.map, Except.mapError, pure, Except.pure, hname', hattr']

omit hlen in
theorem readContent_eq {xml : SdfXml} (dataLen : Option Int) (hdata : xml.data ≤ data.length) :
    readContent data (raw xml dataLen) =
      ((Sdf.readContent data xml).map fun x => raw x dataLen).mapError .xml := by
  have hread : ∀ k < data.length, orElse (isBegin1 data k) (isBegin2 data k) =
      .ok (isBeginElement1 (data.drop k) || isBeginElement2 (data.drop k)) := by
    intro k hk
    rw [isBegin1_eq hk, isBegin2_eq hk, orElse_ok]
  simp only [readContent, Sdf.readContent]
  rw [raw_data, scan_eq (fun s => isBeginElement1 s || isBeginElement2 s) hread (by omega) hdata,
    ok_bind]
  have hge := Nat.le_add_right xml.data
    (scanUntil (fun s => isBeginElement1 s || isBeginElement2 s) (data.drop xml.data))
  generalize xml.data +
    scanUntil (fun s => isBeginElement1 s || isBeginElement2 s) (data.drop xml.data) = i at hge ⊢
  by_cases hend : data.length ≤ i
  · rw [if_pos hend, if_pos hend]
    rfl
  rw [if_neg hend, if_neg hend, isBegin1_eq (by omega), ok_bind]
  have hcast : ((i - xml.data : Nat) : Int) = i - xml.data := by omega
  cases isBeginElement1 (data.drop i) with
  | true => rfl
  | false => simp [raw, Except.map, Except.mapError, pure, Except.pure, hcast]

theorem start_eq {curr : Nat} (hcurr : curr ≤ data.length) :
    sdfXmlFindStartElement data curr =
      ((Sdf.sdfXmlFindStartElement data curr).map fun p =>
        (raw p.1 (startLen p.1), p.2)).mapError .xml := by
  rw [sdfXmlFindStartElement, Sdf.sdfXmlFindStartElement, findOpen_eq hlen (by omega) hcurr]
  cases hopen : Sdf.findOpen data (data.length + 1) curr with
  | error e => rfl
  | ok k =>
    obtain ⟨-, hlt, -⟩ := findOpen_bounds hcurr hopen
    rw [mapError_ok, ok_bind, xml_ok_bind, isBegin2_eq hlt, ok_bind, readTag_eq hlt]
    cases htag : Sdf.readTag data k with
    | error e => rfl
    | ok xml =>
      obtain ⟨hin, hlen0, -⟩ := readTag_bounds hlt htag
      rw [xml_ok_bind, map_ok, mapError_ok, ok_bind]
      dsimp only
      rw [raw_elementClose]
      by_cases hopens : isBeginElement2 (data.drop k) = false ∧ xml.elementClose = false
      · have hnone : startLen xml = none := by simp [startLen, hopens.2]
        rw [if_pos hopens, if_pos hopens, hnone, readContent_eq none (hin.cursor)]
        cases hcontent : Sdf.readContent data xml with
        | error e => rfl
        | ok xml' =>
          obtain ⟨-, -, -, -, hclose⟩ := readContent_bounds hin hlen0 hcontent
          have hnone' : startLen xml' = none := by simp [startLen, hclose, hopens.2]
          rw [xml_ok_bind, map_ok, mapError_ok, ok_bind, ← hnone']
          rfl
      · rw [if_neg hopens, if_neg hopens]
        rfl

theorem endsElement_eq {x xml : SdfXml} {n m : Option Int}
    (hx : x.element + x.elementLen ≤ data.length) (hnamed : 0 < x.elementLen)
    (hxml : xml.element + xml.elementLen ≤ data.length) :
    endsElement data (raw x n) (raw xml m) = .ok (decide (x.elementLen - 1 = xml.elementLen ∧
      span data (x.element + 1) xml.elementLen = xml.name data)) := by
  rw [endsElement, raw_elementLen, raw_elementLen, raw_element, raw_element]
  by_cases hsame : x.elementLen - 1 = xml.elementLen
  · have hcast : ((x.element : Int) + 1) = ((x.element + 1 : Nat) : Int) := by omega
    rw [if_pos (by omega), toSize_natCast (by omega), hcast, bytes_eq (by omega), ok_bind,
      bytes_eq hxml, ok_bind]
    simp [hsame, SdfXml.name]
    rfl
  · rw [if_neg (by omega)]
    simp [hsame]
    rfl

theorem end_eq {xml : SdfXml} (n : Option Int) (hi : i ≤ data.length) (hdata : xml.data ≤ i)
    (hxml : xml.element + xml.elementLen ≤ data.length) :
    sdfXmlFindEndElement data turns i (raw xml n) =
      ((Sdf.sdfXmlFindEndElement data turns i xml).map fun p =>
        (raw p.1 (some p.1.dataLen), p.2)).mapError .xml := by
  induction turns generalizing i xml n with
  | zero => rfl
  | succ turns ih =>
    rw [sdfXmlFindEndElement, Sdf.sdfXmlFindEndElement, start_eq hlen hi]
    cases hstart : Sdf.sdfXmlFindStartElement data i with
    | error e => cases e <;> rfl
    | ok p =>
      obtain ⟨x, k⟩ := p
      obtain ⟨hin, hk, -, hafter, hbefore⟩ := start_bounds hi hstart
      obtain ⟨helement, hnamed, -, -, -, hcursor⟩ := hin
      rw [map_ok, mapError_ok]
      dsimp only
      rw [raw_elementClose]
      cases hclose : x.elementClose with
      | true =>
        rw [if_pos rfl, if_pos rfl]
        exact ih n hcursor (by omega) hxml
      | false =>
        obtain ⟨c, s, hc, -⟩ := drop_cases (show x.element < data.length by omega)
        rw [if_neg Bool.false_ne_true, if_neg Bool.false_ne_true, raw_element, rd_of_drop hc,
          ok_bind, hc, List.head?_cons]
        by_cases hslash : c = 0x2f
        · rw [if_pos hslash, if_pos (congrArg some hslash),
            endsElement_eq hlen helement hnamed hxml, ok_bind]
          by_cases hends : x.elementLen - 1 = xml.elementLen ∧
              span data (x.element + 1) xml.elementLen = xml.name data
          · have hcast : ((x.element - 1 - xml.data : Nat) : Int) = x.element - 1 - xml.data := by
              omega
            rw [if_pos (decide_eq_true hends), if_pos hends, map_ok, mapError_ok, raw_data]
            simp only [hcast]
            rfl
          · rw [decide_eq_false hends, if_neg Bool.false_ne_true, if_neg hends]
            rfl
        · rw [if_neg hslash, if_neg fun h => hslash (Option.some.inj h),
            ih _ hcursor hk.ge helement]
          cases hinner : Sdf.sdfXmlFindEndElement data turns k x with
          | error e => rfl
          | ok p =>
            obtain ⟨x', j⟩ := p
            obtain ⟨hlt, hle, -⟩ := end_bounds hcursor hk.ge hinner
            rw [map_ok, mapError_ok, ok_bind, xml_ok_bind]
            exact ih n hle (by omega) hxml

omit hlen in
theorem isNamed_eq {x : SdfXml} {n : Option Int} (hx : x.element + x.elementLen ≤ data.length)
    (str : List UInt8) : isNamed data (raw x n) str = .ok (decide (x.name data = str)) := by
  rw [isNamed, raw_elementLen, raw_element]
  by_cases hsame : x.elementLen = str.length
  · rw [if_pos (by omega), bytes_eq (by omega), ok_bind, ← hsame]
    rfl
  · have hname : x.name data ≠ str := by
      rintro rfl
      apply hsame
      rw [SdfXml.name, span, List.length_take, List.length_drop]
      omega
    rw [if_neg (by omega), decide_eq_false hname]
    rfl

theorem find_eq {curr : Nat} (hcurr : curr ≤ data.length) :
    findElementLoop data turns curr =
      (((Sdf.findElementLoop data turns curr).1.map fun x => raw x (some x.dataLen)).mapError .xml,
        (Sdf.findElementLoop data turns curr).2) := by
  induction turns generalizing curr with
  | zero => rfl
  | succ turns ih =>
    rw [findElementLoop, Sdf.findElementLoop, start_eq hlen hcurr]
    cases hstart : Sdf.sdfXmlFindStartElement data curr with
    | error e => rfl
    | ok p =>
      obtain ⟨x, k⟩ := p
      obtain ⟨hin, hk, hnoData, hafter, hbefore⟩ := start_bounds hcurr hstart
      rw [map_ok, mapError_ok]
      dsimp only
      rw [isNamed_eq hin.element, isNamed_eq hin.element, orElse_ok]
      have hprolog : (decide (x.name data = ascii "?xml") ||
          decide (x.name data = ascii "!DOCTYPE")) = isProlog (x.name data) := rfl
      rw [hprolog, raw_elementClose]
      cases isProlog (x.name data) with
      | true => exact ih hin.cursor
      | false =>
        dsimp only
        rw [if_neg Bool.false_ne_true]
        cases hclose : x.elementClose with
        | true =>
          have hdata : startLen x = some (x.dataLen : Int) := by simp [startLen, hclose, hnoData]
          rw [hdata]
          rfl
        | false =>
          rw [if_neg Bool.false_ne_true, if_neg Bool.false_ne_true,
            end_eq hlen _ hin.cursor hk.ge hin.element]
          cases Sdf.sdfXmlFindEndElement data (data.length + 1) k x <;> rfl

end Same

/-- Read by read, SDF_xml_find_element finds what it finds in `Sdf.Xml`. -/
theorem sdfXmlFindElement_eq {data : List UInt8} {curr : Nat} (hlen : data.length < 2 ^ 31)
    (hcurr : curr ≤ data.length) :
    sdfXmlFindElement data curr =
      (((Sdf.sdfXmlFindElement data curr).1.map fun x => raw x (some x.dataLen)).mapError .xml,
        (Sdf.sdfXmlFindElement data curr).2) :=
  find_eq hlen hcurr

/-- The spans have lengths that are not negative, and lie in the first `len` bytes; the data is
set and ends before the cursor. -/
structure RawXml.Within (xml : RawXml) (len curr : Nat) : Prop where
  element : 0 ≤ xml.elementLen ∧ xml.element + xml.elementLen ≤ len
  attr : 0 ≤ xml.attrLen ∧ xml.attr + xml.attrLen ≤ len
  content : ∀ content ∈ xml.content, 0 ≤ xml.contentLen ∧ content + xml.contentLen ≤ len
  data : ∃ n ∈ xml.dataLen, 0 ≤ n ∧ xml.data + n ≤ curr

theorem raw_within {data : List UInt8} {x : SdfXml} {stop : Nat} (h : x.Inside data stop) :
    (raw x (some x.dataLen)).Within data.length stop where
  element := ⟨Int.natCast_nonneg _, Int.ofNat_le.2 h.element⟩
  attr := ⟨Int.natCast_nonneg _, Int.ofNat_le.2 h.attr⟩
  content c hc := ⟨Int.natCast_nonneg _, Int.ofNat_le.2 (h.content c hc)⟩
  data := ⟨x.dataLen, rfl, Int.natCast_nonneg _, Int.ofNat_le.2 h.behind⟩

/-- On every buffer SDF_xml_find_element comes to an end without a read outside, and where it
finds an element the cursor moves on and the spans lie in the buffer. -/
theorem find_element_safe {data : List UInt8} {curr : Nat} (hlen : data.length < 2 ^ 31)
    (hcurr : curr ≤ data.length) :
    (∀ stop, (sdfXmlFindElement data curr).1 = .error stop → ∃ e, stop = .xml e ∧ e ≠ .stuck) ∧
      ∀ xml curr', sdfXmlFindElement data curr = (.ok xml, curr') →
        curr < curr' ∧ curr' ≤ data.length ∧ xml.Within data.length curr' := by
  have hends : (Sdf.sdfXmlFindElement data curr).1 ≠ .error .stuck := find_ends (by omega) hcurr
  rw [sdfXmlFindElement_eq hlen hcurr]
  cases hfind : Sdf.sdfXmlFindElement data curr with
  | mk result stop =>
    rw [hfind] at hends
    cases result with
    | error e =>
      constructor
      · rintro _ ⟨⟩
        exact ⟨e, rfl, fun h => hends (by rw [h])⟩
      · rintro xml curr' ⟨⟩
    | ok x =>
      obtain ⟨hin, hafter⟩ := find_bounds hcurr hfind
      constructor
      · rintro _ ⟨⟩
      · rintro xml curr' ⟨⟩
        exact ⟨hafter, hin.cursor, raw_within hin⟩

theorem find_element_safe_cut :
    (∀ stop, (sdfXmlFindElement (ascii "<a><b>x</b") 0).1 = .error stop →
        ∃ e, stop = .xml e ∧ e ≠ .stuck) ∧
      ∀ xml curr', sdfXmlFindElement (ascii "<a><b>x</b") 0 = (.ok xml, curr') →
        0 < curr' ∧ curr' ≤ (ascii "<a><b>x</b").length ∧
          xml.Within (ascii "<a><b>x</b").length curr' :=
  find_element_safe (by decide) (by decide)

end Reads

end CassandraApi.Sdf
