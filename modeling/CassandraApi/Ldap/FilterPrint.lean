/-
# `Ldap.FilterPrint` — LDAP_filter_to_string

The tree is written as text: an AND, OR or NOT prints each operand to an array of
256 bytes on the stack and copies it from there, and a substrings filter puts its
value together in one of 512.  What comes behind the initial part of such a value
is first written to through a pointer that was never set; what becomes of that
write is `stray`.  A cursor tells whether the text ends with a star already.

Lists of the tree are emptied on the way; nothing reads them again.
-/
import CassandraApi.C.StringArray
import CassandraApi.Ldap.FilterRoom

namespace CassandraApi.Ldap

open C Ber

/-! ## LDAP_filter_to_string -/

/-- `(%.*s<op>%.*s)` of a comparison. -/
def comparisonText (op : String) (name value : List UInt8) : List UInt8 :=
  ascii "(" ++ beforeNul name ++ ascii op ++ beforeNul value ++ ascii ")"

/-- The value of a substrings filter, `cursor` being ck_str_p. -/
def printParts (stray : Except Fault Unit) :
    List (SubstringChoice × List UInt8) → Block → Nat → Except Fault Block
  | [], value, _ => pure value
  | (.initial, s) :: parts, value, cursor => do
      let value ← sprintf value (beforeNul s ++ ascii "*")
      printParts stray parts value (cursor + s.length)
  | (.any, s) :: parts, value, cursor => do
      stray
      let value ← if (← value.rd cursor) = 0x2a then do
          let value ← strcat value (beforeNul s)
          strcat value (ascii "*")
        else do
          let value ← strcat value (ascii "*")
          let value ← strcat value (beforeNul s)
          strcat value (ascii "*")
      printParts stray parts value (cursor + s.length + 1)
  | (.final, s) :: parts, value, cursor => do
      stray
      let value ← if (← value.rd cursor) = 0x2a then strcat value (beforeNul s)
        else do
          let value ← strcat value (ascii "*")
          strcat value (beforeNul s)
      printParts stray parts value cursor

/-- A part of an extensible match, if it is there, with what is put before it. -/
def printOptional (before : String) (s : Option (List UInt8)) (expression : Block) :
    Except Fault Block :=
  match s with
  | none => pure expression
  | some s => strcat expression (ascii before ++ beforeNul s)

mutual

/-- LDAP_filter_to_string; arrays hold `garbage` before they are written. -/
def ldapFilterToString (stray : Except Fault Unit) (garbage : Nat → UInt8) :
    SearchFilter → Block → Except Fault Block
  | .and members, expression => do
      let expression ← strcat expression (ascii "(&")
      let expression ← printOperands stray garbage members expression
      strcat expression (ascii ")")
  | .or members, expression => do
      let expression ← strcat expression (ascii "(|")
      let expression ← printOperands stray garbage members expression
      strcat expression (ascii ")")
  | .not member, expression => do
      let expressionA ← ldapFilterToString stray garbage member (emptyString 256 garbage)
      sprintf expression (ascii "(!" ++ (← expressionA.cstr 0) ++ ascii ")")
  | .equalityMatch name value, expression => sprintf expression (comparisonText "=" name value)
  | .substrings type parts, expression => do
      let value ← printParts stray parts (emptyString 512 garbage) 0
      sprintf expression (ascii "(" ++ beforeNul (type.getD []) ++ ascii "=" ++ (← value.cstr 0) ++
        ascii ")")
  | .greaterOrEqual name value, expression => sprintf expression (comparisonText ">=" name value)
  | .lessOrEqual name value, expression => sprintf expression (comparisonText "<=" name value)
  | .present value, expression =>
      sprintf expression (ascii "(" ++ beforeNul value ++ ascii "=*)")
  | .approxMatch name value, expression => sprintf expression (comparisonText "~=" name value)
  | .extensibleMatch matchingRule type matchValue dnAttributes, expression => do
      let expression ← strcat expression (ascii "(")
      let expression ← printOptional "" type expression
      let expression ← (if type.isSome ∧ dnAttributes then strcat expression (ascii ":dn")
        else pure expression)
      let expression ← printOptional ":" matchingRule expression
      let expression ← printOptional ":=" matchValue expression
      strcat expression (ascii ")")
  -- FAND is zero, so that a filter as it was allocated is an AND of nothing
  | .zeroed, expression => do
      let expression ← strcat expression (ascii "(&")
      strcat expression (ascii ")")

/-- The operands of an AND or OR, one by one. -/
def printOperands (stray : Except Fault Unit) (garbage : Nat → UInt8) :
    List SearchFilter → Block → Except Fault Block
  | [], expression => pure expression
  | member :: members, expression => do
      let expressionA ← ldapFilterToString stray garbage member (emptyString 256 garbage)
      let expression ← strcat expression (← expressionA.cstr 0)
      printOperands stray garbage members expression

end

/-! ## The text of a filter -/

/-- The star behind an initial part, and what follows it. -/
def starText : List (SubstringChoice × List UInt8) → List UInt8
  | (.any, s) :: parts => ascii "*" ++ s ++ starText parts
  | (.final, s) :: _ => ascii "*" ++ s
  | _ => ascii "*"

/-- `[initial] "*" *(any "*") [final]` -/
def substringText : List (SubstringChoice × List UInt8) → List UInt8
  | (.initial, s) :: parts => s ++ starText parts
  | parts => starText parts

def optionalText (before : String) (s : Option (List UInt8)) : List UInt8 :=
  match s with
  | none => []
  | some s => ascii before ++ s

mutual

/-- The text of a filter whose strings need no escapes. -/
def filterText : SearchFilter → List UInt8
  | .and members => ascii "(&" ++ membersText members ++ ascii ")"
  | .or members => ascii "(|" ++ membersText members ++ ascii ")"
  | .not member => ascii "(!" ++ filterText member ++ ascii ")"
  | .equalityMatch name value => ascii "(" ++ name ++ ascii "=" ++ value ++ ascii ")"
  | .substrings type parts =>
      ascii "(" ++ type.getD [] ++ ascii "=" ++ substringText parts ++ ascii ")"
  | .greaterOrEqual name value => ascii "(" ++ name ++ ascii ">=" ++ value ++ ascii ")"
  | .lessOrEqual name value => ascii "(" ++ name ++ ascii "<=" ++ value ++ ascii ")"
  | .present value => ascii "(" ++ value ++ ascii "=*)"
  | .approxMatch name value => ascii "(" ++ name ++ ascii "~=" ++ value ++ ascii ")"
  | .extensibleMatch matchingRule type matchValue dnAttributes =>
      ascii "(" ++ optionalText "" type ++ (if dnAttributes then ascii ":dn" else []) ++
        optionalText ":" matchingRule ++ optionalText ":=" matchValue ++ ascii ")"
  | .zeroed => []

def membersText : List SearchFilter → List UInt8
  | [] => []
  | member :: members => filterText member ++ membersText members

end

/-- What LDAP_filter_to_string is for: the text of the filter, whatever the memory holds that it
has not written. -/
def Faithful (f : SearchFilter) : Prop :=
  ∀ (stray : Except Fault Unit) (garbage : Nat → UInt8) (expression : Block), Text expression [] →
    (filterText f).length < expression.size →
      ∃ expression', ldapFilterToString stray garbage f expression = .ok expression' ∧
        Text expression' (filterText f)

/-! ## The filters that are printed -/

/-- None of the characters `( ) * \\` and NUL. -/
def PlainString (s : List UInt8) : Prop := ∀ c ∈ s, c ∉ 0 :: ascii "()*\\"

/-- An initial part is the first, and a final one the last. -/
structure PartsOrdered (parts : List (SubstringChoice × List UInt8)) : Prop where
  initial : ∀ p ∈ parts.tail, p.1 ≠ .initial
  final : ∀ p ∈ parts.dropLast, p.1 ≠ .final

mutual

/-- The parts of every substrings filter have their order, and the strings are plain. -/
def WellFormed : SearchFilter → Prop
  | .and members => AllWellFormed members
  | .or members => AllWellFormed members
  | .not member => WellFormed member
  | .equalityMatch name value => PlainString name ∧ PlainString value
  | .substrings type parts =>
      (∀ s ∈ type, PlainString s) ∧ (∀ p ∈ parts, PlainString p.2) ∧ PartsOrdered parts
  | .greaterOrEqual name value => PlainString name ∧ PlainString value
  | .lessOrEqual name value => PlainString name ∧ PlainString value
  | .present value => PlainString value
  | .approxMatch name value => PlainString name ∧ PlainString value
  | .extensibleMatch matchingRule type matchValue _ =>
      (∀ s ∈ matchingRule, PlainString s) ∧ (∀ s ∈ type, PlainString s) ∧
        ∀ s ∈ matchValue, PlainString s
  | .zeroed => False

def AllWellFormed : List SearchFilter → Prop
  | [] => True
  | member :: members => WellFormed member ∧ AllWellFormed members

end

mutual

/-- The condition for a filter to be printed: a substrings filter is an initial part and nothing
else, an extensible match names a type where it has dnAttributes, and every text and value has room
in the array that it is put together in. -/
def Printable : SearchFilter → Prop
  | .and members => OperandsPrintable members
  | .or members => OperandsPrintable members
  | .not member => Printable member ∧ (filterText member).length < 256
  | .substrings _ parts => ∃ s, parts = [(.initial, s)] ∧ s.length + 1 < 512
  | .extensibleMatch _ type _ dnAttributes => dnAttributes = true → type.isSome = true
  | _ => True

def OperandsPrintable : List SearchFilter → Prop
  | [] => True
  | member :: members =>
      (Printable member ∧ (filterText member).length < 256) ∧ OperandsPrintable members

end

section

variable {stray : Except Fault Unit} {garbage : Nat → UInt8} {s name value : List UInt8}

theorem PlainString.noNul (h : PlainString s) : 0 ∉ s := fun hzero =>
  h 0 hzero List.mem_cons_self

theorem PlainString.beforeNul (h : PlainString s) : beforeNul s = s := beforeNul_eq_self.2 h.noNul

/-- A comparison is printed at once. -/
theorem comparison_text (op : String) (hn : PlainString name) (hv : PlainString value)
    (hop : 0 ∉ ascii op) :
    comparisonText op name value = ascii "(" ++ name ++ ascii op ++ value ++ ascii ")" ∧
      0 ∉ comparisonText op name value := by
  have hopen : 0 ∉ ascii "(" := by decide
  have hclose : 0 ∉ ascii ")" := by decide
  rw [comparisonText, hn.beforeNul, hv.beforeNul]
  exact ⟨rfl, noNul_append (noNul_append (noNul_append (noNul_append hopen hn.noNul) hop) hv.noNul)
    hclose⟩

theorem printOptional_appends (before : String) {o : Option (List UInt8)}
    (ho : ∀ s ∈ o, PlainString s) (hbefore : 0 ∉ ascii before) :
    AppendsText (printOptional before o) (optionalText before o) := by
  cases o with
  | none => exact pure_appends
  | some s =>
    have hs := ho s rfl
    show AppendsText (strcat · (ascii before ++ beforeNul s)) (ascii before ++ s)
    rw [hs.beforeNul]
    exact strcat_appends (noNul_append hbefore hs.noNul)

/-- What an extensible match is printed as. -/
theorem printExtensible_appends {rule type value : Option (List UInt8)} (dnAttributes : Bool)
    (hrule : ∀ s ∈ rule, PlainString s) (htype : ∀ s ∈ type, PlainString s)
    (hvalue : ∀ s ∈ value, PlainString s) :
    AppendsText
      (fun b => ldapFilterToString stray garbage (.extensibleMatch rule type value dnAttributes) b)
      (ascii "(" ++ (optionalText "" type ++
        ((if type.isSome ∧ dnAttributes then ascii ":dn" else []) ++
          (optionalText ":" rule ++ (optionalText ":=" value ++ ascii ")"))))) := by
  have hdn : AppendsText
      (fun b => if type.isSome ∧ dnAttributes then strcat b (ascii ":dn") else pure b)
      (if type.isSome ∧ dnAttributes then ascii ":dn" else []) := by
    split
    · exact strcat_appends (by decide)
    · exact pure_appends
  have hopen : AppendsText (strcat · (ascii "(")) (ascii "(") := strcat_appends (by decide)
  have hclose : AppendsText (strcat · (ascii ")")) (ascii ")") := strcat_appends (by decide)
  have hall := hopen.then ((printOptional_appends "" htype (by decide)).then (hdn.then
    ((printOptional_appends ":" hrule (by decide)).then
      ((printOptional_appends ":=" hvalue (by decide)).then hclose))))
  simp only [ldapFilterToString]
  exact hall

end

/-! ## Printable filters are printed -/

section

variable {stray : Except Fault Unit} {garbage : Nat → UInt8}

/-- Written to an empty string, the text of the filter comes out. -/
def Prints (stray : Except Fault Unit) (garbage : Nat → UInt8) (f : SearchFilter) : Prop :=
  ∀ b : Block, Text b [] → (filterText f).length < b.size →
    ∃ b', ldapFilterToString stray garbage f b = .ok b' ∧ Text b' (filterText f)

theorem AppendsText.prints {f : SearchFilter} {t : List UInt8}
    (h : AppendsText (fun b => ldapFilterToString stray garbage f b) t) (ht : t = filterText f) :
    Prints stray garbage f := by
  intro b hb room
  subst ht
  obtain ⟨b', hok⟩ := h.ok hb (by simpa using room)
  exact ⟨b', hok, (h.text hb hok).1⟩

/-- A filter that a single sprintf prints. -/
structure Immediate (f : SearchFilter) : Prop where
  eq : ∀ (stray : Except Fault Unit) (garbage : Nat → UInt8) (b : Block),
    ldapFilterToString stray garbage f b = sprintf b (filterText f)
  noNul : 0 ∉ filterText f

theorem Immediate.prints {f : SearchFilter} (h : Immediate f) : Prints stray garbage f := by
  intro b hb room
  obtain ⟨b', hok, htext, -⟩ := sprintf_ok h.noNul room
  exact ⟨b', by rw [h.eq, hok], htext⟩

theorem immediate_comparison (op : String) {make : List UInt8 → List UInt8 → SearchFilter}
    {name value : List UInt8} (hn : PlainString name) (hv : PlainString value) (hop : 0 ∉ ascii op)
    (hprint : ∀ (stray : Except Fault Unit) (garbage : Nat → UInt8) (b : Block),
      ldapFilterToString stray garbage (make name value) b =
        sprintf b (comparisonText op name value))
    (htext : filterText (make name value) = ascii "(" ++ name ++ ascii op ++ value ++ ascii ")") :
    Immediate (make name value) := by
  obtain ⟨heq, hno⟩ := comparison_text op hn hv hop
  refine ⟨fun stray garbage b => ?_, ?_⟩
  · rw [hprint, heq, htext]
  · rwa [htext, ← heq]

theorem immediate_present {value : List UInt8} (hv : PlainString value) :
    Immediate (.present value) := by
  have hopen : 0 ∉ ascii "(" := by decide
  have hclose : 0 ∉ ascii "=*)" := by decide
  refine ⟨fun stray garbage b => ?_, ?_⟩
  · rw [ldapFilterToString, hv.beforeNul, filterText]
  · rw [filterText]
    exact noNul_append (noNul_append hopen hv.noNul) hclose

/-- The comparisons and the presence test. -/
def SearchFilter.IsItem : SearchFilter → Prop
  | .equalityMatch _ _ | .greaterOrEqual _ _ | .lessOrEqual _ _ | .approxMatch _ _ | .present _ => True
  | _ => False

theorem immediate_item : ∀ {f : SearchFilter}, f.IsItem → WellFormed f → Immediate f
  | .equalityMatch _ _, _, wf =>
    immediate_comparison "=" wf.1 wf.2 (by decide) (fun _ _ _ => by rw [ldapFilterToString])
      (by rw [filterText])
  | .greaterOrEqual _ _, _, wf =>
    immediate_comparison ">=" wf.1 wf.2 (by decide) (fun _ _ _ => by rw [ldapFilterToString])
      (by rw [filterText])
  | .lessOrEqual _ _, _, wf =>
    immediate_comparison "<=" wf.1 wf.2 (by decide) (fun _ _ _ => by rw [ldapFilterToString])
      (by rw [filterText])
  | .approxMatch _ _, _, wf =>
    immediate_comparison "~=" wf.1 wf.2 (by decide) (fun _ _ _ => by rw [ldapFilterToString])
      (by rw [filterText])
  | .present _, _, wf => immediate_present wf

/-- A set of filters between its brackets. -/
theorem set_appends (opening : String) {members : List SearchFilter} (hopen : 0 ∉ ascii opening)
    (h : AppendsText (printOperands stray garbage members) (membersText members)) :
    AppendsText (fun b => strcat b (ascii opening) >>= fun b =>
        printOperands stray garbage members b >>= fun b => strcat b (ascii ")"))
      (ascii opening ++ membersText members ++ ascii ")") := by
  rw [List.append_assoc]
  exact (strcat_appends hopen).then (h.then (strcat_appends (by decide)))

theorem initial_prints {type : Option (List UInt8)} {s : List UInt8}
    (htype : ∀ t ∈ type, PlainString t) (hs : PlainString s) (room : s.length + 1 < 512) :
    Prints stray garbage (.substrings type [(.initial, s)]) := by
  have hstar : 0 ∉ ascii "*" := by decide
  have hopen : 0 ∉ ascii "(" := by decide
  have hequals : 0 ∉ ascii "=" := by decide
  have hclose : 0 ∉ ascii ")" := by decide
  have hname : PlainString (type.getD []) := by
    cases type with
    | none => exact fun c hc => absurd hc List.not_mem_nil
    | some t => exact htype t rfl
  have hvalue : 0 ∉ s ++ ascii "*" := noNul_append hs.noNul hstar
  obtain ⟨v, hv, vtext, -⟩ := sprintf_ok (b := emptyString 512 garbage) hvalue (by
    rw [List.length_append]
    exact room)
  have hsome : 0 ∉ filterText (.substrings type [(.initial, s)]) := by
    rw [filterText]
    exact noNul_append (noNul_append (noNul_append (noNul_append hopen hname.noNul) hequals) hvalue)
      hclose
  intro b hb hout
  obtain ⟨b', hok, htext, -⟩ := sprintf_ok hsome hout
  refine ⟨b', ?_, htext⟩
  rw [← hok]
  simp only [ldapFilterToString, printParts, hs.beforeNul, hv, ok_bind, pure_eq_ok, vtext.cstr,
    hname.beforeNul, filterText, substringText, starText]

mutual

theorem prints_of_printable : ∀ {f : SearchFilter}, WellFormed f → Printable f →
    Prints stray garbage f
  | .and members, wf, printable => by
    have hset := set_appends "(&" (by decide) (operands_appends wf printable)
    refine AppendsText.prints ?_ (by rw [filterText])
    simpa only [ldapFilterToString] using hset
  | .or members, wf, printable => by
    have hset := set_appends "(|" (by decide) (operands_appends wf printable)
    refine AppendsText.prints ?_ (by rw [filterText])
    simpa only [ldapFilterToString] using hset
  | .not member, wf, printable => by
    obtain ⟨hmember, hshort⟩ := printable
    obtain ⟨a, ha, atext⟩ :=
      prints_of_printable (f := member) wf hmember _ (emptyString_text (by decide) garbage) hshort
    have hopen : 0 ∉ ascii "(!" := by decide
    have hclose : 0 ∉ ascii ")" := by decide
    intro b hb room
    rw [filterText] at room ⊢
    obtain ⟨b', hok, htext, -⟩ :=
      sprintf_ok (noNul_append (noNul_append hopen atext.noNul) hclose) room
    refine ⟨b', ?_, htext⟩
    simp only [ldapFilterToString, ha, ok_bind, atext.cstr, hok]
  | .equalityMatch name value, wf, _ =>
    (immediate_item (f := .equalityMatch name value) trivial wf).prints
  | .substrings type parts, wf, printable => by
    obtain ⟨htype, hparts, -⟩ := wf
    obtain ⟨s, rfl, hshort⟩ := printable
    exact initial_prints htype (hparts _ List.mem_cons_self) hshort
  | .greaterOrEqual name value, wf, _ =>
    (immediate_item (f := .greaterOrEqual name value) trivial wf).prints
  | .lessOrEqual name value, wf, _ =>
    (immediate_item (f := .lessOrEqual name value) trivial wf).prints
  | .present value, wf, _ => (immediate_present wf).prints
  | .approxMatch name value, wf, _ =>
    (immediate_item (f := .approxMatch name value) trivial wf).prints
  | .extensibleMatch rule type value dn, wf, printable => by
    obtain ⟨hrule, htype, hvalue⟩ := wf
    refine AppendsText.prints (printExtensible_appends dn hrule htype hvalue) ?_
    cases dn with
    | false => simp [filterText]
    | true =>
      have htyped : type.isSome = true := printable rfl
      simp [filterText, htyped]
  | .zeroed, wf, _ => by cases wf

theorem operands_appends : ∀ {members : List SearchFilter}, AllWellFormed members →
    OperandsPrintable members →
      AppendsText (printOperands stray garbage members) (membersText members)
  | [], _, _ => by
    have heq : printOperands stray garbage [] = pure := funext fun b => by rw [printOperands]
    rw [heq, membersText]
    exact pure_appends
  | member :: members, wf, printable => by
    obtain ⟨⟨hmember, hshort⟩, hmembers⟩ := printable
    obtain ⟨a, ha, atext⟩ :=
      prints_of_printable wf.1 hmember _ (emptyString_text (by decide) garbage) hshort
    have heq : printOperands stray garbage (member :: members) = fun b =>
        strcat b (filterText member) >>= printOperands stray garbage members := by
      funext b
      simp only [printOperands, ha, ok_bind, atext.cstr]
    rw [heq, membersText]
    exact (strcat_appends atext.noNul).then (operands_appends wf.2 hmembers)

end

end

/-! ## Only they are -/

section

variable {e : Fault} {garbage : Nat → UInt8}

/-- What comes out where the stray write is a fault is no longer than the text of the filter, and
that long only if the filter is printable. -/
def AtMost (e : Fault) (garbage : Nat → UInt8) (f : SearchFilter) : Prop :=
  ∀ b b' : Block, Text b [] → ldapFilterToString (.error e) garbage f b = .ok b' →
    ∃ s, Text b' s ∧ b'.size = b.size ∧ s.length ≤ (filterText f).length ∧
      (s.length = (filterText f).length → Printable f)

theorem Immediate.atMost {f : SearchFilter} (h : Immediate f) (printable : Printable f) :
    AtMost e garbage f := by
  intro b b' hb hok
  rw [h.eq] at hok
  obtain ⟨htext, hsize⟩ := sprintf_text h.noNul hok
  exact ⟨_, htext, hsize, le_refl _, fun _ => printable⟩

/-- The value of a substrings filter comes to an end for an initial part alone, and where there is
no part at all. -/
theorem printParts_ok {parts : List (SubstringChoice × List UInt8)} {v : Block}
    (hplain : ∀ p ∈ parts, PlainString p.2) (ordered : PartsOrdered parts)
    (hok : printParts (.error e) parts (emptyString 512 garbage) 0 = .ok v) :
    (parts = [] ∧ Text v []) ∨
      ∃ s, parts = [(.initial, s)] ∧ s.length + 1 < 512 ∧ Text v (s ++ ascii "*") := by
  match parts, hplain, ordered, hok with
  | [], _, _, hok =>
    cases hok
    exact .inl ⟨rfl, emptyString_text (by decide) garbage⟩
  | (.any, _) :: _, _, _, hok => cases hok
  | (.final, _) :: _, _, _, hok => cases hok
  | [(.initial, s)], hplain, _, hok =>
    have hs : PlainString s := hplain _ List.mem_cons_self
    have hstar : 0 ∉ ascii "*" := by decide
    simp only [printParts, hs.beforeNul] at hok
    obtain ⟨v', hv, hrest⟩ := bind_eq_ok.1 hok
    cases hrest
    obtain ⟨htext, hsize⟩ := sprintf_text (noNul_append hs.noNul hstar) hv
    have hroom := htext.room
    rw [hsize, List.length_append] at hroom
    exact .inr ⟨s, rfl, hroom, htext⟩
  | (.initial, s) :: (.any, _) :: _, _, _, hok =>
    obtain ⟨_, _, hrest⟩ := bind_eq_ok.1 hok
    cases hrest
  | (.initial, s) :: (.final, _) :: _, _, _, hok =>
    obtain ⟨_, _, hrest⟩ := bind_eq_ok.1 hok
    cases hrest
  | (.initial, _) :: (.initial, t) :: _, _, ordered, _ =>
    exact absurd rfl (ordered.initial (.initial, t) List.mem_cons_self)

theorem substrings_atMost {type : Option (List UInt8)}
    {parts : List (SubstringChoice × List UInt8)} (htype : ∀ s ∈ type, PlainString s)
    (hparts : ∀ p ∈ parts, PlainString p.2) (ordered : PartsOrdered parts) :
    AtMost e garbage (.substrings type parts) := by
  intro b b' hb hok
  have hopen : 0 ∉ ascii "(" := by decide
  have hequals : 0 ∉ ascii "=" := by decide
  have hclose : 0 ∉ ascii ")" := by decide
  have hname : PlainString (type.getD []) := by
    cases type with
    | none => exact fun c hc => absurd hc List.not_mem_nil
    | some t => exact htype t rfl
  rw [ldapFilterToString] at hok
  obtain ⟨v, hv, hok⟩ := bind_eq_ok.1 hok
  have hsprintf : ∀ {value : List UInt8}, Text v value → ∃ s, Text b' s ∧ b'.size = b.size ∧
      s = ascii "(" ++ type.getD [] ++ ascii "=" ++ value ++ ascii ")" := by
    intro value vtext
    simp only [vtext.cstr, ok_bind, hname.beforeNul] at hok
    obtain ⟨htext, hsize⟩ := sprintf_text (noNul_append (noNul_append (noNul_append
      (noNul_append hopen hname.noNul) hequals) vtext.noNul) hclose) hok
    exact ⟨_, htext, hsize, rfl⟩
  rcases printParts_ok hparts ordered hv with ⟨rfl, vtext⟩ | ⟨s, rfl, hshort, vtext⟩
  · obtain ⟨t, htext, hsize, rfl⟩ := hsprintf vtext
    have hlt : (ascii "(" ++ type.getD [] ++ ascii "=" ++ [] ++ ascii ")").length <
        (filterText (.substrings type [])).length := by
      simp [filterText, substringText, starText, ascii]
    exact ⟨_, htext, hsize, hlt.le, fun heq => absurd heq hlt.ne⟩
  · obtain ⟨t, htext, hsize, rfl⟩ := hsprintf vtext
    exact ⟨_, htext, hsize, le_of_eq rfl, fun _ => ⟨s, rfl, hshort⟩⟩

theorem extensible_atMost {rule type value : Option (List UInt8)} (dnAttributes : Bool)
    (hrule : ∀ s ∈ rule, PlainString s) (htype : ∀ s ∈ type, PlainString s)
    (hvalue : ∀ s ∈ value, PlainString s) :
    AtMost e garbage (.extensibleMatch rule type value dnAttributes) := by
  intro b b' hb hok
  obtain ⟨htext, hsize⟩ := (printExtensible_appends dnAttributes hrule htype hvalue).text hb hok
  refine ⟨_, htext, hsize, ?_⟩
  -- the text lacks ":dn" where there is a flag and no type
  cases dnAttributes with
  | false => exact ⟨by simp [filterText], fun _ hflag => nomatch hflag⟩
  | true =>
    cases type with
    | none => exact ⟨by simp [filterText], fun heq => by simp [filterText, ascii] at heq; omega⟩
    | some t => exact ⟨by simp [filterText], fun _ _ => rfl⟩

/-- The same of a list of operands, put behind a string. -/
def OperandsAtMost (e : Fault) (garbage : Nat → UInt8) (members : List SearchFilter) : Prop :=
  ∀ (b b' : Block) (s : List UInt8), Text b s →
    printOperands (.error e) garbage members b = .ok b' →
      ∃ u, Text b' (s ++ u) ∧ b'.size = b.size ∧ u.length ≤ (membersText members).length ∧
        (u.length = (membersText members).length → OperandsPrintable members)

theorem set_atMost (opening : String) {f : SearchFilter} {members : List SearchFilter}
    (hopen : 0 ∉ ascii opening) (hmembers : OperandsAtMost e garbage members)
    (hprint : ∀ b, ldapFilterToString (.error e) garbage f b =
      strcat b (ascii opening) >>= fun b =>
        printOperands (.error e) garbage members b >>= fun b => strcat b (ascii ")"))
    (htext : filterText f = ascii opening ++ membersText members ++ ascii ")")
    (hprintable : OperandsPrintable members → Printable f) : AtMost e garbage f := by
  have hclose : 0 ∉ ascii ")" := by decide
  intro b b' hb hok
  rw [hprint] at hok
  obtain ⟨b₁, h₁, hok⟩ := bind_eq_ok.1 hok
  obtain ⟨b₂, h₂, h₃⟩ := bind_eq_ok.1 hok
  obtain ⟨text₁, size₁⟩ := strcat_text hb hopen h₁
  obtain ⟨u, text₂, size₂, hle, hiff⟩ := hmembers _ _ _ text₁ h₂
  obtain ⟨text₃, size₃⟩ := strcat_text text₂ hclose h₃
  rw [htext]
  refine ⟨_, text₃, by omega, ?_, fun heq => hprintable (hiff ?_)⟩
  · simp only [List.length_append, List.length_nil]
    omega
  · simp only [List.length_append, List.length_nil] at heq
    omega

mutual

theorem atMost_of_wellFormed : ∀ {f : SearchFilter}, WellFormed f → AtMost e garbage f
  | .and _, wf =>
    set_atMost "(&" (by decide) (operands_atMost wf) (fun _ => by rw [ldapFilterToString])
      (by rw [filterText]) id
  | .or _, wf =>
    set_atMost "(|" (by decide) (operands_atMost wf) (fun _ => by rw [ldapFilterToString])
      (by rw [filterText]) id
  | .not member, wf => by
    have hopen : 0 ∉ ascii "(!" := by decide
    have hclose : 0 ∉ ascii ")" := by decide
    intro b b' hb hok
    rw [ldapFilterToString] at hok
    obtain ⟨a, ha, hok⟩ := bind_eq_ok.1 hok
    obtain ⟨u, atext, asize, hle, hiff⟩ :=
      atMost_of_wellFormed (f := member) wf _ _ (emptyString_text (by decide) garbage) ha
    have hroom := atext.room
    rw [asize] at hroom
    simp only [atext.cstr, ok_bind] at hok
    obtain ⟨htext, hsize⟩ := sprintf_text (noNul_append (noNul_append hopen atext.noNul) hclose) hok
    refine ⟨_, htext, hsize, ?_, fun heq => ?_⟩
    · simp only [filterText, List.length_append]
      omega
    · simp only [filterText, List.length_append] at heq
      have hsame : u.length = (filterText member).length := by omega
      exact ⟨hiff hsame, by rw [← hsame]; exact hroom⟩
  | .equalityMatch name value, wf =>
    (immediate_item (f := .equalityMatch name value) trivial wf).atMost trivial
  | .substrings _ _, wf => substrings_atMost wf.1 wf.2.1 wf.2.2
  | .greaterOrEqual name value, wf =>
    (immediate_item (f := .greaterOrEqual name value) trivial wf).atMost trivial
  | .lessOrEqual name value, wf =>
    (immediate_item (f := .lessOrEqual name value) trivial wf).atMost trivial
  | .present _, wf => (immediate_present wf).atMost trivial
  | .approxMatch name value, wf =>
    (immediate_item (f := .approxMatch name value) trivial wf).atMost trivial
  | .extensibleMatch _ _ _ dn, wf => extensible_atMost dn wf.1 wf.2.1 wf.2.2
  | .zeroed, wf => by cases wf

theorem operands_atMost : ∀ {members : List SearchFilter}, AllWellFormed members →
    OperandsAtMost e garbage members
  | [], _, b, b', s, hb, hok => by
    cases hok
    exact ⟨[], by rwa [List.append_nil], rfl, le_of_eq rfl, fun _ => trivial⟩
  | member :: members, wf, b, b', s, hb, hok => by
    rw [printOperands] at hok
    obtain ⟨a, ha, hok⟩ := bind_eq_ok.1 hok
    obtain ⟨u, atext, asize, hle, hiff⟩ :=
      atMost_of_wellFormed wf.1 _ _ (emptyString_text (by decide) garbage) ha
    have hroom := atext.room
    rw [asize] at hroom
    simp only [atext.cstr, ok_bind] at hok
    obtain ⟨b₁, h₁, h₂⟩ := bind_eq_ok.1 hok
    obtain ⟨text₁, size₁⟩ := strcat_text hb atext.noNul h₁
    obtain ⟨v, text₂, size₂, hle', hiff'⟩ := operands_atMost wf.2 _ _ _ text₁ h₂
    refine ⟨u ++ v, by rwa [← List.append_assoc], by omega, ?_, fun heq => ?_⟩
    · simp only [membersText, List.length_append]
      omega
    · simp only [membersText, List.length_append] at heq
      have hsame : u.length = (filterText member).length := by omega
      exact ⟨⟨hiff hsame, by rw [← hsame]; exact hroom⟩, hiff' (by omega)⟩

end

theorem faithful_iff {f : SearchFilter} (wf : WellFormed f) : Faithful f ↔ Printable f := by
  constructor
  · intro h
    have hempty := emptyString_text (Nat.succ_pos (filterText f).length) fun _ => 0
    obtain ⟨b', hok, htext⟩ := h (.error .read) (fun _ => 0) _ hempty (Nat.lt_succ_self _)
    obtain ⟨s, htext', -, -, hprintable⟩ := atMost_of_wellFormed wf _ _ hempty hok
    exact hprintable (by rw [htext'.inj htext])
  · intro printable stray garbage b hb room
    exact prints_of_printable wf printable b hb room

end

/-! ## Filters that were decoded -/

theorem allWellFormed_iff {members : List SearchFilter} :
    AllWellFormed members ↔ ∀ m ∈ members, WellFormed m := by
  induction members with
  | nil => simp [AllWellFormed]
  | cons m members ih => rw [AllWellFormed, ih, List.forall_mem_cons]

theorem wellFormed_set {tag : UInt8} {make : List SearchFilter → SearchFilter}
    {members : List SearchFilter} (htag : (tag, make) ∈ filterSets) :
    WellFormed (make members) ↔ ∀ m ∈ members, WellFormed m := by
  simp only [filterSets, List.mem_cons, Prod.mk.injEq, List.not_mem_nil, or_false] at htag
  rcases htag with ⟨-, rfl⟩ | ⟨-, rfl⟩ <;> rw [WellFormed, allWellFormed_iff]

theorem reached_front {α : Type} (size : α → Nat) (h : Nat) (xs : List α) :
    reached size h xs <+: xs := by
  induction xs with
  | nil => exact List.prefix_rfl
  | cons x xs ih =>
    rw [reached]
    split
    · exact List.prefix_cons_inj x |>.2 ih
    · exact List.nil_prefix

/-- What the parts at the front are in, the parts are. -/
theorem PartsOrdered.front {parts parts' : List (SubstringChoice × List UInt8)}
    (h : PartsOrdered parts) (hfront : parts' <+: parts) : PartsOrdered parts' := by
  obtain ⟨rest, rfl⟩ := hfront
  constructor
  · intro p hp
    cases parts' with
    | nil => cases hp
    | cons q parts' => exact h.initial p (List.mem_append_left _ hp)
  · intro p hp
    refine h.final p ?_
    cases rest with
    | nil => rwa [List.append_nil]
    | cons q rest =>
      rw [List.dropLast_append_of_ne_nil (List.cons_ne_nil q rest)]
      exact List.mem_append_left _ (List.dropLast_subset parts' hp)

/-- A well-formed filter that the decoder has room for is read as one that is well formed too,
whatever is left out at the end of its lists. -/
theorem decodes_wellFormed {t : SearchFilter} {out : List UInt8} (h : FilterFits t out)
    (wf : WellFormed t) : ∃ t', Decodes out t' ∧ WellFormed t' := by
  induction h with
  | @set tag make members out htag filters fits hout hlast ih =>
    have hmembers := (wellFormed_set htag).1 wf
    have hread : ∀ x ∈ members, ∃ t', Decodes x.2 t' ∧ WellFormed t' := fun x hx =>
      ih x hx (hmembers x.1 (List.mem_map_of_mem hx))
    choose! read hdecodes hread using hread
    refine ⟨_, decodes_set htag (fun x hx => ?_) fits hout hdecodes, ?_⟩
    · obtain ⟨tag, content, hvalue, -⟩ := (filters x hx).shape
      exact ⟨tag, content, hvalue⟩
    · refine (wellFormed_set htag).2 fun m hm => ?_
      obtain ⟨x, hx, rfl⟩ := List.mem_map.1 hm
      exact hread x ((reached_front _ _ _).subset hx)
  | @not t m out _ fits hout ih =>
    have hmember : WellFormed t := wf
    obtain ⟨t', hdecodes, hread⟩ := ih hmember
    exact ⟨.not t', decodes_not fits hout hdecodes, hread⟩
  | comparison htag hname hvalue fitsName fitsValue hout =>
    exact ⟨_, decodes_comparison htag hname hvalue fitsName fitsValue hout, wf⟩
  | @substrings type t l out parts htype fitsType hparts fits hlist hout hlast =>
    obtain ⟨hplain, hall, ordered⟩ := wf
    have hfront := (reached_front (fun x => x.2.length) (out.length - (t ++ l).length)
      parts).map Prod.fst
    exact ⟨_, decodes_substrings htype fitsType hparts fits hlist hout, hplain,
      fun p hp => hall p (hfront.subset hp), ordered.front hfront⟩
  | present fits hout => exact ⟨_, decodes_present fits hout, wf⟩
  | extensible hrule htype hvalue fits hflag hout =>
    exact ⟨_, decodes_extensible hrule htype hvalue fits hflag hout, wf⟩

/-- Whatever tree a well-formed filter is read as, it is printed as its text if and only if it is
printable. -/
theorem decoded_filter_printed_iff {t : SearchFilter} {out : List UInt8} (h : AnyFilter t out)
    (wf : WellFormed t) (hlen : out.length < 2 ^ 31) {garbage : Nat → UInt8} {depth : Nat}
    {buf : Block} {i : Nat} {c : UInt8} (hdepth : 256 < depth) (hc : c ≠ 0x84)
    (held : Holds buf i (out ++ [c]))
    {f : SearchFilter} (hok : ldapStringToFilter garbage depth buf i = .ok f) :
    Faithful f ↔ Printable f := by
  have fits := h.fits_of_ok hlen held hok
  obtain ⟨t', hdecodes, wf'⟩ := decodes_wellFormed fits wf
  rw [hdecodes garbage depth buf i c hlen (.inr hdepth) hc held] at hok
  cases hok
  exact faithful_iff wf'

/-- A filter for `cn` with one part, `a`. -/
def partFilter (choice : SubstringChoice) : SearchFilter :=
  .substrings (some (ascii "cn")) [(choice, ascii "a")]

def partOctets (choice : SubstringChoice) : List UInt8 :=
  [0xa4, 9, 0x04, 2, 0x63, 0x6e, 0x30, 3, choice.tag, 1, 0x61]

theorem part_octets (choice : SubstringChoice) :
    AnyFilter (partFilter choice) (partOctets choice) := by
  have hpart : ∀ x ∈ [((choice, ascii "a"), [choice.tag, 1, (0x61 : UInt8)])],
      Tlv x.1.1.tag x.1.2 x.2 := by
    intro x hx
    obtain rfl := List.mem_singleton.1 hx
    exact .mk (L := [1]) (.short (show 1 < 128 by decide))
  exact .substrings (t := [0x04, 2, 0x63, 0x6e]) (l := [0x30, 3, choice.tag, 1, 0x61])
    (.mk (L := [2]) (.short (by decide))) trivial hpart (fun _ _ => trivial)
    (.mk (L := [3]) (.short (show 3 < 128 by decide)))
    (.mk (L := [9]) (.short (show 9 < 128 by decide))) fun _ _ => trivial

theorem part_wellFormed (choice : SubstringChoice) : WellFormed (partFilter choice) := by
  have hname : PlainString (ascii "cn") := by
    simp [PlainString, ascii]
  have hvalue : PlainString (ascii "a") := by
    simp [PlainString, ascii]
  refine ⟨fun s hs => ?_, fun p hp => ?_, ⟨fun p hp => ?_, fun p hp => ?_⟩⟩
  · cases hs
    exact hname
  · obtain rfl := List.mem_singleton.1 hp
    exact hvalue
  · cases hp
  · cases hp

theorem decoded_filter_printed_iff_initial :
    Faithful (partFilter .initial) ↔ Printable (partFilter .initial) :=
  decoded_filter_printed_iff (part_octets .initial) (part_wellFormed .initial) (by decide)
    (show 256 < 257 by decide) (show (0 : UInt8) ≠ 0x84 by decide)
    (Block.ofList_holds (partOctets .initial ++ [0]))
    (show ldapStringToFilter (fun _ => 0) 257 (.ofList (partOctets .initial ++ [0])) 0 =
      .ok (partFilter .initial) from rfl)

/-- `(cn=*a*)`, which is put together behind a pointer that was never set. -/
theorem any_part_not_printed :
    AnyFilter (partFilter .any) (partOctets .any) ∧ WellFormed (partFilter .any) ∧
      (partOctets .any).length ≤ 511 ∧
      ldapStringToFilter (fun _ => 0) 257 (.ofList (partOctets .any ++ [0])) 0 =
        .ok (partFilter .any) ∧
      ¬ Faithful (partFilter .any) := by
  refine ⟨part_octets .any, part_wellFormed .any, by decide, rfl, fun h => ?_⟩
  obtain ⟨s, hparts, -⟩ := (faithful_iff (part_wellFormed .any)).1 h
  cases hparts

end CassandraApi.Ldap
