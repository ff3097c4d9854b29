/-
# `Sdf.Attributes` — the attributes of a tag

SDF_xml_find_attribute reads one attribute after another out of the text between
the name of an element and its bracket, and SDF_config_find_attr decodes the
value of the first with a given name:

    space* (name space* = space* quote value quote)   space+ (…)   space+ (…)   space*

The layouts are a relation (`Rendered`), whose induction is what the scanner goes
through.  SDF_config_find_attr has two weak places, both for a name that is out of
all proportion: its length is kept in an int, so that another name may be found
for it, and when it is not found and has to be, all of it is printed to a log
buffer of 32 KiB (`attribute_lookup_iff`).
-/
import CassandraApi.Sdf.Escape
import CassandraApi.Sdf.Log
import CassandraApi.Sdf.XmlTree

namespace CassandraApi.Sdf

open C

/-! ## SDF_xml_find_attribute -/

/-- What the four pointers get. -/
structure Attribute where
  name : Nat
  nlen : Nat
  value : Nat
  vlen : Nat

def Attribute.nameIn (a : Attribute) (data : List UInt8) : List UInt8 := span data a.name a.nlen

def Attribute.valueIn (a : Attribute) (data : List UInt8) : List UInt8 := span data a.value a.vlen

/-- `while (i < len && IS_SPACE(data[i])) ++i;` -/
def skipSpaces (data : List UInt8) (i : Nat) : Nat :=
  i + scanUntil (fun s => !s.head?.any isXmlSpace) (data.drop i)

/-- `IS_SPACE(data[i])` or `data[i] == '='` -/
def isAttributeEnd (s : List UInt8) : Bool := s.head?.any fun c => isXmlSpace c || c = 0x3d

def invalidAttribute : XmlStop := .error "Invalid attribute"

/-- The quoted value at `i`. -/
def readValue (data : List UInt8) (name nlen i : Nat) : Except XmlStop (Attribute × Nat) :=
  match (data.drop i).head? with
  | none => throw invalidAttribute
  | some q =>
      if ¬ (q = 0x27 ∨ q = 0x22) then throw invalidAttribute
      else
        let value := i + 1
        let i := value + scanUntil (fun s => s.head? = some q) (data.drop value)
        if data.length ≤ i then throw invalidAttribute
        else if (data.drop (i + 1)).head?.any fun c => !isXmlSpace c then throw invalidAttribute
        else pure ({ name, nlen, value, vlen := i - value }, i + 1)

/-- SDF_xml_find_attribute: the attribute, and `*curr`. -/
def sdfXmlFindAttribute (data : List UInt8) (curr : Nat) : Except XmlStop (Attribute × Nat) :=
  let name := skipSpaces data curr
  if data.length ≤ name then throw .eof
  else
    let i := name + scanUntil isAttributeEnd (data.drop name)
    let nlen := i - name
    let i := skipSpaces data i
    if data.length ≤ i ∨ nlen = 0 ∨ (data.drop i).head? ≠ some 0x3d then throw invalidAttribute
    else readValue data name nlen (skipSpaces data (i + 1))

/-! ## SDF_config_find_attr -/

/-- SDFLOG_MSG_SIZE -/
def sdflogMsgSize : Nat := 32 * 1024

/-- SDFLOG_ERROR: the message, printed to `log_buffer` when log_level has the bit. -/
def sdflogError (logLevel : Nat) (msg : List UInt8) : Except Fault (Option (List UInt8)) :=
  if logLevel &&& Level.error.value ≠ 0 then
    if msg.length + 1 ≤ sdflogMsgSize then pure (some msg) else throw .overrun
  else pure none

/-- SDF_CONFIG_RET_OK, SDF_CONFIG_RET_ERROR, SDF_CONFIG_RET_EOF -/
inductive ConfigRet where
  | ok
  | error
  | eof
  deriving DecidableEq

/-- What SDF_config_find_attr leaves: its code, the buffer of the caller, and what it logs. -/
structure ConfigReply where
  code : ConfigRet
  value : Block
  logged : Option (List UInt8) := none

/-- `n = (int) strlen (name)`, and the test for the attribute that has been read.  As `n` is the
length of the attribute's name, both have so many bytes. -/
def hasName (data name : List UInt8) (a : Attribute) : Bool :=
  int32 name.length = a.nlen && a.nameIn data = name.take a.nlen

/-- `for (;;)` -/
def findAttrLoop (data name : List UInt8) : Nat → Nat → Except XmlStop Attribute
  | 0, _ => .error .stuck
  | turns + 1, i => do
      let (a, i) ← sdfXmlFindAttribute data i
      if hasName data name a then .ok a else findAttrLoop data name turns i

/-- SDF_config_find_attr for the attributes `attr`, with `behind` in memory behind them. -/
def sdfConfigFindAttr (logLevel : Nat) (attr behind name : List UInt8) (value : Block) (vsize : Int)
    (mandatory : Bool) : Except Fault ConfigReply :=
  match findAttrLoop attr name (attr.length + 1) 0 with
  | .error .stuck => throw .stuck
  | .error (.error err) => do
      let logged ← sdflogError logLevel
        (ascii "SDF_xml_find_attribute return error [" ++ ascii err ++ ascii "]")
      pure { code := .error, value, logged }
  | .error .eof =>
      if mandatory then do
        let logged ← sdflogError logLevel
          (ascii "Can not find attribute \"" ++ name ++ ascii "\"")
        pure { code := .error, value, logged }
      else pure { code := .eof, value }
  | .ok a =>
      if vsize ≤ a.vlen then do
        let logged ← sdflogError logLevel (ascii "value buffer may not big enough")
        pure { code := .error, value, logged }
      else do
        let memory := attr.drop (a.value + a.vlen) ++ behind
        let value ← value.write 0 (sdfXmlDecodeData memory (a.valueIn attr) ++ [0])
        pure { code := .ok, value }

/-! ## The layouts -/

/-- Not empty, and free of white space and of `=`. -/
structure AttributeName where
  bytes : List UInt8
  some : bytes ≠ []
  chars : ∀ c ∈ bytes, isXmlSpace c = false ∧ c ≠ 0x3d

/-- An attribute, with the white space on both sides of the `=`. -/
structure WrittenAttribute where
  name : AttributeName
  before : Space
  behind : Space
  quote : UInt8
  quoted : quote = 0x27 ∨ quote = 0x22
  value : Encoded

namespace WrittenAttribute

/-- From the quote on. -/
def quotedValue (a : WrittenAttribute) : List UInt8 := a.quote :: (a.value.bytes ++ [a.quote])

def text (a : WrittenAttribute) : List UInt8 :=
  a.name.bytes ++ (a.before.bytes ++ 0x3d :: (a.behind.bytes ++ a.quotedValue))

end WrittenAttribute

/-- The texts of a list of attributes.  White space may be anywhere between them, and is behind
each one that is not the last. -/
inductive Rendered : List WrittenAttribute → List UInt8 → Prop
  | nil (space : Space) : Rendered [] space.bytes
  | cons (space : Space) (a : WrittenAttribute) {as : List WrittenAttribute} {s : List UInt8} :
      Rendered as s → (∀ c ∈ s.head?, isXmlSpace c = true) →
      Rendered (a :: as) (space.bytes ++ (a.text ++ s))

/-- The pointers stand for the name and the value. -/
structure Attribute.Is (r : Attribute) (data : List UInt8) (a : WrittenAttribute) : Prop where
  name : r.nameIn data = a.name.bytes
  nlen : r.nlen = a.name.bytes.length
  value : r.valueIn data = a.value.bytes
  vlen : r.vlen = a.value.bytes.length
  /-- A quote is behind the value. -/
  closed : (data.drop (r.value + r.vlen)).head? = some a.quote

/-- Call after call from the cursor `curr` on returns the attributes in order, then nothing. -/
def ReadAttributes (data : List UInt8) : List WrittenAttribute → Nat → Prop
  | [], curr => sdfXmlFindAttribute data curr = .error .eof
  | a :: as, curr =>
      ∃ r curr', sdfXmlFindAttribute data curr = .ok (r, curr') ∧ r.Is data a ∧
        ReadAttributes data as curr'

/-- What a lookup should return: the decoded value of the first attribute with exactly that name,
if there is one and the buffer is larger than its value as it is written. -/
def LooksUp (as : List WrittenAttribute) (name : List UInt8) (value : Block) (vsize : Int)
    (mandatory : Bool) (r : Except Fault ConfigReply) : Prop :=
  ∃ reply, r = .ok reply ∧
    match as.find? fun a => a.name.bytes = name with
    | none => reply.code = (if mandatory then .error else .eof) ∧ reply.value = value
    | some a =>
        if vsize ≤ a.value.bytes.length then reply.code = .error ∧ reply.value = value
        else reply.code = .ok ∧
          Filled value 0 (sdfXmlDecodeData [0] a.value.bytes ++ [0]) reply.value

/-- The attributes that are taken for the name: theirs is what is left of it when its length is
cut to an int. -/
def TakenFor (name : List UInt8) (a : WrittenAttribute) : Prop :=
  int32 name.length = a.name.bytes.length ∧ a.name.bytes = name.take a.name.bytes.length

instance (name : List UInt8) : DecidablePred (TakenFor name) :=
  fun _ => inferInstanceAs (Decidable (_ ∧ _))

/-- A name that is too long for an int is not taken for another one, or a call fails that has to;
and when a name is to be logged, it has its place in the log buffer. -/
def NameFits (logLevel : Nat) (as : List WrittenAttribute) (name : List UInt8) (vsize : Int)
    (mandatory : Bool) : Prop :=
  match as.find? fun a => TakenFor name a with
  | none => mandatory = true → logLevel &&& Level.error.value ≠ 0 →
      name.length + 26 ≤ sdflogMsgSize
  | some a => name.length < 2 ^ 31 ∨ mandatory = true ∧ vsize ≤ a.value.bytes.length

/-! ## Reading what is written -/

section

variable {data s : List UInt8} {i : Nat}

theorem skipSpaces_eq {space : Space} (h : At data i (space.bytes ++ s))
    (hs : ∀ c ∈ s.head?, isXmlSpace c = false) :
    skipSpaces data i = i + space.bytes.length := by
  have hend : scanUntil (fun s => !s.head?.any isXmlSpace) s = 0 := by
    cases s with
    | nil => rfl
    | cons c s => exact scanUntil_stop (by simp [hs c rfl])
  rw [skipSpaces, h.drop, scanUntil_plain, hend, Nat.add_zero]
  intro c hc zs
  simp [space.white c hc]

/-- A name ends at white space and at `=`. -/
theorem AttributeName.scan (name : AttributeName) (before : Space) :
    scanUntil isAttributeEnd (name.bytes ++ (before.bytes ++ 0x3d :: s)) = name.bytes.length := by
  have hend : scanUntil isAttributeEnd (before.bytes ++ 0x3d :: s) = 0 := by
    cases hb : before.bytes with
    | nil => exact scanUntil_stop rfl
    | cons c w =>
      have hc := before.white c (by rw [hb]; exact List.mem_cons_self)
      exact scanUntil_stop (by simp [isAttributeEnd, hc])
  rw [scanUntil_plain, hend, Nat.add_zero]
  intro c hc zs
  simp [isAttributeEnd, name.chars c hc]

theorem WrittenAttribute.quote_not_mem (a : WrittenAttribute) : a.quote ∉ a.value.bytes := by
  rcases a.quoted with hq | hq
  · exact a.value.not_mem (by rw [hq]; decide)
  · exact a.value.not_mem (by rw [hq]; decide)

theorem WrittenAttribute.quote_not_space (a : WrittenAttribute) : isXmlSpace a.quote = false := by
  rcases a.quoted with hq | hq
  · rw [hq]; rfl
  · rw [hq]; rfl

theorem readValue_eq (name nlen : Nat) {a : WrittenAttribute}
    (h : At data i (a.quotedValue ++ s)) (hs : ∀ c ∈ s.head?, isXmlSpace c = true) :
    readValue data name nlen i =
      .ok ({ name, nlen, value := i + 1, vlen := a.value.bytes.length },
        i + a.quotedValue.length) := by
  have hvalue : At data (i + 1) (a.value.bytes ++ a.quote :: s) := by
    have hopen := h
    rw [WrittenAttribute.quotedValue, List.cons_append, List.append_assoc] at hopen
    exact hopen.tail
  have hscan : scanUntil (fun s => s.head? = some a.quote) (a.value.bytes ++ a.quote :: s) =
      a.value.bytes.length := by
    rw [scanUntil_plain, scanUntil_stop (by simp), Nat.add_zero]
    intro c hc zs
    have hne : c ≠ a.quote := fun he => a.quote_not_mem (he ▸ hc)
    simpa using hne
  have hsize := hvalue.size
  rw [List.length_append, List.length_cons] at hsize
  have hlast : ¬ ((data.drop (i + 1 + a.value.bytes.length + 1)).head?.any
      fun c => !isXmlSpace c) = true := by
    rw [hvalue.step.tail.drop]
    cases s with
    | nil => decide
    | cons c s => simp [hs c rfl]
  have hlen : i + 1 + a.value.bytes.length + 1 = i + a.quotedValue.length := by
    rw [WrittenAttribute.quotedValue, List.length_cons, List.length_append, List.length_singleton]
    omega
  have hhead : (data.drop i).head? = some a.quote := by
    rw [h.drop]
    rfl
  rw [readValue, hhead]
  simp only [not_not.2 a.quoted, if_false, hvalue.drop, hscan]
  rw [if_neg (by omega), if_neg hlast, hlen, Nat.add_sub_cancel_left]
  rfl

/-- An attribute is read with the white space in front of it. -/
theorem findAttribute_eq {space : Space} {a : WrittenAttribute}
    (h : At data i (space.bytes ++ (a.text ++ s))) (hs : ∀ c ∈ s.head?, isXmlSpace c = true) :
    ∃ r, sdfXmlFindAttribute data i = .ok (r, i + space.bytes.length + a.text.length) ∧
      r.Is data a := by
  obtain ⟨c, name, hc⟩ := List.exists_cons_of_ne_nil a.name.some
  have hname := h.step
  rw [WrittenAttribute.text, List.append_assoc, List.append_assoc, List.cons_append,
    List.append_assoc] at hname
  have hbefore := hname.step
  have hequals := hbefore.step
  have hquote := hequals.tail.step
  have hskip : skipSpaces data i = i + space.bytes.length := by
    refine skipSpaces_eq h fun d hd => ?_
    rw [WrittenAttribute.text, hc] at hd
    obtain rfl := Option.some.inj hd
    exact (a.name.chars _ (by rw [hc]; exact List.mem_cons_self)).1
  have hskip₁ := skipSpaces_eq hbefore fun d hd => by
    obtain rfl := Option.some.inj hd
    decide
  have hskip₂ := skipSpaces_eq hequals.tail fun d hd => by
    obtain rfl := Option.some.inj hd
    exact a.quote_not_space
  have hpos : a.name.bytes.length ≠ 0 := by
    rw [hc]
    exact Nat.succ_ne_zero _
  have hsize := hbefore.size
  rw [List.length_append, List.length_cons] at hsize
  have hend : i + space.bytes.length + a.text.length =
      i + space.bytes.length + a.name.bytes.length + a.before.bytes.length + 1 +
        a.behind.bytes.length + a.quotedValue.length := by
    rw [WrittenAttribute.text]
    simp only [List.length_append, List.length_cons]
    omega
  have hfound : sdfXmlFindAttribute data i = readValue data (i + space.bytes.length)
      a.name.bytes.length (i + space.bytes.length + a.name.bytes.length +
        a.before.bytes.length + 1 + a.behind.bytes.length) := by
    rw [sdfXmlFindAttribute]
    simp only [hskip, hname.drop, a.name.scan, hskip₁, hequals.drop, List.head?_cons, hskip₂,
      Nat.add_sub_cancel_left]
    rw [if_neg (by omega), if_neg]
    simp only [hpos, ne_eq, not_true_eq_false, or_false]
    omega
  rw [readValue_eq _ _ hquote hs, ← hend] at hfound
  have hvalue := hquote
  rw [WrittenAttribute.quotedValue, List.cons_append, List.append_assoc] at hvalue
  refine ⟨_, hfound, hname.span, rfl, hvalue.tail.span, rfl, ?_⟩
  have hquoted := hvalue.tail.step.drop
  rw [hquoted]
  rfl

theorem findAttribute_eof {space : Space} (h : At data i space.bytes) :
    sdfXmlFindAttribute data i = .error .eof := by
  have hat : At data i (space.bytes ++ []) := by rwa [List.append_nil]
  have hsize := h.size
  rw [sdfXmlFindAttribute, skipSpaces_eq hat (by simp)]
  exact if_pos (by omega)

/-- One attribute after another is read. -/
theorem Rendered.read {as : List WrittenAttribute} (hr : Rendered as s) (h : At data i s) :
    ReadAttributes data as i := by
  induction hr generalizing i with
  | nil space => exact findAttribute_eof h
  | cons space a _ hs ih =>
    obtain ⟨r, hread, his⟩ := findAttribute_eq h hs
    exact ⟨r, _, hread, his, ih h.step.step⟩

end

/-! ## Looking up -/

section

variable {data name : List UInt8} {as : List WrittenAttribute} {curr turns : Nat}

theorem Attribute.Is.hasName_iff {r : Attribute} {a : WrittenAttribute} (h : r.Is data a) :
    hasName data name r = true ↔ TakenFor name a := by
  rw [hasName, h.nlen, h.name, Bool.and_eq_true, decide_eq_true_eq, decide_eq_true_eq]
  rfl

/-- The loop stops at the first attribute that is taken for the name. -/
theorem ReadAttributes.loop (h : ReadAttributes data as curr) (hturns : as.length < turns) :
    (as.find? (fun a => TakenFor name a) = none →
      findAttrLoop data name turns curr = .error .eof) ∧
    ∀ a, as.find? (fun a => TakenFor name a) = some a →
      ∃ r, findAttrLoop data name turns curr = .ok r ∧ r.Is data a := by
  induction as generalizing curr turns with
  | nil =>
    obtain ⟨turns, rfl⟩ := Nat.exists_eq_succ_of_ne_zero (Nat.ne_zero_of_lt hturns)
    refine ⟨fun _ => ?_, fun a ha => absurd ha (by simp)⟩
    rw [findAttrLoop, h]
    rfl
  | cons b as ih =>
    obtain ⟨turns, rfl⟩ := Nat.exists_eq_succ_of_ne_zero (Nat.ne_zero_of_lt hturns)
    obtain ⟨r, curr', hread, his, hrest⟩ := h
    have hstep : findAttrLoop data name (turns + 1) curr =
        if hasName data name r then .ok r else findAttrLoop data name turns curr' := by
      rw [findAttrLoop, hread, xml_ok_bind]
    by_cases htaken : TakenFor name b
    · rw [List.find?_cons_of_pos (by simpa using htaken), hstep,
        if_pos (his.hasName_iff.2 htaken)]
      refine ⟨fun h => absurd h (Option.some_ne_none b), fun a ha => ?_⟩
      exact ⟨r, rfl, Option.some.inj ha ▸ his⟩
    · rw [List.find?_cons_of_neg (by simpa using htaken), hstep,
        if_neg (his.hasName_iff.not.2 htaken)]
      exact ih hrest (Nat.lt_of_succ_lt_succ hturns)

end

/-! ## Logging -/

section

variable {logLevel : Nat} {msg : List UInt8}

theorem sdflogError_iff : (∃ logged, sdflogError logLevel msg = .ok logged) ↔
    (logLevel &&& Level.error.value ≠ 0 → msg.length + 1 ≤ sdflogMsgSize) := by
  rw [sdflogError]
  split_ifs with hlevel hroom
  · simp only [hroom, implies_true, iff_true]
    exact ⟨_, rfl⟩
  · simp only [hlevel, hroom, ne_eq, not_false_eq_true, forall_const, iff_false]
    rintro ⟨_, ⟨⟩⟩
  · simp only [hlevel, false_implies, iff_true]
    exact ⟨_, rfl⟩

theorem sdflogError_short (h : msg.length < sdflogMsgSize) :
    ∃ logged, sdflogError logLevel msg = .ok logged := sdflogError_iff.2 fun _ => h

end

/-! ## Names -/

section

variable {name s : List UInt8} {a : WrittenAttribute} {as : List WrittenAttribute}

theorem Rendered.length_le (h : Rendered as s) : as.length ≤ s.length := by
  induction h with
  | nil => exact Nat.zero_le _
  | cons space a _ _ ih =>
    rw [List.length_cons, List.length_append, List.length_append, WrittenAttribute.text]
    simp only [List.length_append, List.length_cons]
    omega

theorem Rendered.name_length_le (h : Rendered as s) (ha : a ∈ as) :
    a.name.bytes.length ≤ s.length := by
  induction h with
  | nil => cases ha
  | cons space b _ _ ih =>
    rw [List.length_append, List.length_append]
    rcases List.mem_cons.1 ha with rfl | ha
    · rw [WrittenAttribute.text, List.length_append]
      omega
    · have hle := ih ha
      omega

theorem takenFor_iff (h : name.length < 2 ^ 31) : TakenFor name a ↔ a.name.bytes = name := by
  rw [TakenFor, int32_natCast h, Nat.cast_inj]
  constructor
  · rintro ⟨hlen, htake⟩
    rwa [← hlen, List.take_length] at htake
  · rintro rfl
    exact ⟨rfl, List.take_length.symm⟩

/-- A name that is there is found. -/
theorem find_none_of_taken (h : Rendered as s) (hlen : s.length < 2 ^ 31)
    (hnone : as.find? (fun a => TakenFor name a) = none) :
    as.find? (fun a => a.name.bytes = name) = none := by
  rw [List.find?_eq_none] at hnone ⊢
  intro a ha heq
  rw [decide_eq_true_eq] at heq
  have hname : name.length < 2 ^ 31 := heq ▸ (h.name_length_le ha).trans_lt hlen
  exact hnone a ha (decide_eq_true ((takenFor_iff hname).2 heq))

theorem find_eq_taken (h : name.length < 2 ^ 31) :
    as.find? (fun a => a.name.bytes = name) = as.find? fun a => TakenFor name a := by
  simp only [takenFor_iff h]

/-- No attribute has a name that is too long for an int. -/
theorem find_none_of_long (h : Rendered as s) (hlen : s.length < 2 ^ 31)
    (hname : ¬ name.length < 2 ^ 31) : as.find? (fun a => a.name.bytes = name) = none := by
  rw [List.find?_eq_none]
  intro a ha heq
  rw [decide_eq_true_eq] at heq
  exact hname (heq ▸ (h.name_length_le ha).trans_lt hlen)

end

/-! ## SDF_config_find_attr -/

theorem WrittenAttribute.quote_not_entity (a : WrittenAttribute) :
    ∀ e ∈ entities, a.quote ∉ e.1 := by
  rcases a.quoted with hq | hq
  · rw [hq]
    simp [entities, ascii]
  · rw [hq]
    simp [entities, ascii]

/-- The value is decoded as it would be at the end of a string. -/
theorem Attribute.Is.decode {r : Attribute} {data : List UInt8} {a : WrittenAttribute}
    (h : r.Is data a) (behind : List UInt8) :
    sdfXmlDecodeData (data.drop (r.value + r.vlen) ++ behind) (r.valueIn data) =
      sdfXmlDecodeData [0] a.value.bytes := by
  obtain ⟨rest, hrest⟩ : ∃ rest, data.drop (r.value + r.vlen) = a.quote :: rest := by
    have hclosed := h.closed
    rw [List.head?_eq_some_iff] at hclosed
    exact hclosed
  rw [hrest, h.value, List.cons_append]
  exact decode_behind a.quote_not_entity entities_no_nul _ _ _

section

variable {s name : List UInt8} {as : List WrittenAttribute} {value : Block} {vsize : Int}
  (logLevel : Nat) (behind : List UInt8) (mandatory : Bool)

/-- Nothing is found. -/
theorem findAttr_none (hr : Rendered as s)
    (hnone : as.find? (fun a => TakenFor name a) = none) :
    (∃ reply, sdfConfigFindAttr logLevel s behind name value vsize mandatory = .ok reply ∧
      reply.code = (if mandatory then .error else .eof) ∧ reply.value = value) ↔
    (mandatory = true → logLevel &&& Level.error.value ≠ 0 → name.length + 26 ≤ sdflogMsgSize) := by
  have hturns : as.length < s.length + 1 := Nat.lt_succ_of_le hr.length_le
  have hloop := ((hr.read (At.start s)).loop hturns).1 hnone
  rw [sdfConfigFindAttr, hloop]
  cases mandatory with
  | false => exact iff_of_true ⟨_, rfl, rfl, rfl⟩ fun h => absurd h (by decide)
  | true =>
    have hmsg : (ascii "Can not find attribute \"" ++ name ++ ascii "\"").length + 1 =
        name.length + 26 := by
      rw [List.length_append, List.length_append]
      change 24 + name.length + 1 + 1 = _
      omega
    rw [← hmsg]
    constructor
    · rintro ⟨reply, hok, -⟩ -
      obtain ⟨logged, hlog, -⟩ := bind_eq_ok.1 hok
      exact sdflogError_iff.1 ⟨logged, hlog⟩
    · intro h
      obtain ⟨logged, hlog⟩ := sdflogError_iff.2 (h rfl)
      exact ⟨_, bind_eq_ok.2 ⟨logged, hlog, rfl⟩, rfl, rfl⟩

/-- What is found goes to the buffer if that is large enough. -/
theorem findAttr_some (hr : Rendered as s) (hsize : vsize ≤ value.size) {a : WrittenAttribute}
    (hsome : as.find? (fun a => TakenFor name a) = some a) :
    ∃ reply, sdfConfigFindAttr logLevel s behind name value vsize mandatory = .ok reply ∧
      if vsize ≤ a.value.bytes.length then reply.code = .error ∧ reply.value = value
      else reply.code = .ok ∧
        Filled value 0 (sdfXmlDecodeData [0] a.value.bytes ++ [0]) reply.value := by
  have hturns : as.length < s.length + 1 := Nat.lt_succ_of_le hr.length_le
  obtain ⟨r, hloop, his⟩ := ((hr.read (At.start s)).loop hturns).2 a hsome
  simp only [sdfConfigFindAttr, hloop, his.vlen]
  split_ifs with hroom
  · obtain ⟨logged, hlog⟩ : ∃ logged, sdflogError logLevel
        (ascii "value buffer may not big enough") = .ok logged := sdflogError_short (by decide)
    exact ⟨_, bind_eq_ok.2 ⟨logged, hlog, rfl⟩, rfl, rfl⟩
  · have hdecode := his.decode behind
    rw [his.vlen] at hdecode
    have hlen := decode_length_le [0] a.value.bytes
    have hwrites : 0 + (sdfXmlDecodeData [0] a.value.bytes ++ [0]).length ≤ value.size := by
      rw [List.length_append, List.length_singleton]
      omega
    obtain ⟨value', hwrite, hfilled⟩ := write_filled hwrites
    rw [hdecode]
    exact ⟨_, bind_eq_ok.2 ⟨value', hwrite, rfl⟩, rfl, hfilled⟩

theorem looksUp_iff (hr : Rendered as s) (hlen : s.length < 2 ^ 31) (hsize : vsize ≤ value.size) :
    LooksUp as name value vsize mandatory
      (sdfConfigFindAttr logLevel s behind name value vsize mandatory) ↔
      NameFits logLevel as name vsize mandatory := by
  rw [LooksUp, NameFits]
  cases hfind : as.find? fun a => TakenFor name a with
  | none =>
    simp only [find_none_of_taken hr hlen hfind]
    exact findAttr_none logLevel behind mandatory hr hfind
  | some a =>
    have hfound := findAttr_some logLevel behind mandatory hr hsize hfind
    by_cases hname : name.length < 2 ^ 31
    · rw [find_eq_taken hname, hfind]
      exact iff_of_true hfound (.inl hname)
    · rw [find_none_of_long hr hlen hname]
      obtain ⟨reply, hok, hreply⟩ := hfound
      constructor
      · rintro ⟨reply', hok', hcode, -⟩
        obtain rfl := Except.ok.inj (hok.symm.trans hok')
        split_ifs at hreply with hroom
        · rw [hreply.1] at hcode
          refine .inr ⟨?_, hroom⟩
          by_contra hm
          rw [if_neg hm] at hcode
          cases hcode
        · rw [hreply.1] at hcode
          split at hcode <;> cases hcode
      · rintro (hlt | ⟨rfl, hroom⟩)
        · exact absurd hlt hname
        · rw [if_pos hroom] at hreply
          exact ⟨reply, hok, hreply⟩

/-- The attributes are read back in order, and each is found under its name, if and only if the
name fits. -/
theorem attribute_lookup_iff (hr : Rendered as s) (hlen : s.length < 2 ^ 31)
    (hsize : vsize ≤ value.size) :
    ReadAttributes s as 0 ∧ LooksUp as name value vsize mandatory
      (sdfConfigFindAttr logLevel s behind name value vsize mandatory) ↔
      NameFits logLevel as name vsize mandatory := by
  rw [looksUp_iff logLevel behind mandatory hr hlen hsize]
  exact and_iff_right (hr.read (At.start s))

end

/-- `a ="x"` -/
def attributeA : WrittenAttribute where
  name := ⟨ascii "a", by simp [ascii], by simp [ascii, isXmlSpace]⟩
  before := ⟨[0x20], by simp [isXmlSpace]⟩
  behind := ⟨[], by simp⟩
  quote := 0x22
  quoted := .inr rfl
  value := ⟨ascii "x", [0], ascii "x", rfl⟩

theorem rendered_attributeA : Rendered [attributeA] (ascii "a =\"x\"") :=
  .cons ⟨[], by simp⟩ attributeA (.nil ⟨[], by simp⟩) (by simp)

theorem attribute_lookup_a : ReadAttributes (ascii "a =\"x\"") [attributeA] 0 ∧
    LooksUp [attributeA] (ascii "a") (.ofList [0, 0]) 2 true
      (sdfConfigFindAttr 2 (ascii "a =\"x\"") [] (ascii "a") (.ofList [0, 0]) 2 true) := by
  have hfind : [attributeA].find? (fun a => TakenFor (ascii "a") a) = some attributeA := by
    rw [← find_eq_taken (by decide)]
    rfl
  refine (attribute_lookup_iff 2 [] true rendered_attributeA (by decide) (by decide)).2 ?_
  rw [NameFits, hfind]
  exact .inl (by decide)

/-- A name of 32743 bytes is asked for and is not there. -/
theorem long_name_overruns :
    ¬ ∀ (as : List WrittenAttribute) (s : List UInt8), Rendered as s → s.length < 2 ^ 31 →
      ∀ (logLevel : Nat) (behind name : List UInt8) (value : Block) (vsize : Int)
        (mandatory : Bool), 0 ∉ name → vsize ≤ value.size →
        ReadAttributes s as 0 ∧ LooksUp as name value vsize mandatory
          (sdfConfigFindAttr logLevel s behind name value vsize mandatory) := by
  intro h
  obtain ⟨name, hlen, h0⟩ : ∃ name : List UInt8, name.length = 32743 ∧ 0 ∉ name :=
    ⟨List.replicate 32743 0x62, List.length_replicate,
      fun h => absurd (List.eq_of_mem_replicate h) (by decide)⟩
  have hlook := (h _ _ rendered_attributeA (by decide) 2 [] name (.ofList []) 0 true h0
    (by decide)).2
  rw [looksUp_iff 2 [] true rendered_attributeA (by decide) (by decide)] at hlook
  have hnone : [attributeA].find? (fun a => TakenFor name a) = none := by
    rw [List.find?_cons_of_neg, List.find?_nil]
    rw [decide_eq_true_eq, takenFor_iff (by omega)]
    intro heq
    rw [← heq] at hlen
    exact absurd hlen (by decide)
  rw [NameFits, hnone] at hlook
  have hroom : name.length + 26 ≤ sdflogMsgSize := hlook rfl (by decide)
  rw [hlen] at hroom
  exact absurd hroom (by decide)

end CassandraApi.Sdf
