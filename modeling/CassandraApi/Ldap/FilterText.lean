/-
# `Ldap.FilterText` — the text of a search filter, encoded

    & (f) (f) …      | (f) (f) …      ! (f)
    name=value   name>=value   name<=value   name~=value   name=*

process_filter takes such a text without the parentheses around it.  A compound
is split at its parentheses; an operand is copied to `buff`, an array of 128
bytes, and what the operands encode to is collected in `b_buff`, an array of 1024
bytes, because the length in front of it is not known earlier.  An item is
recognised by a cascade of scans over the whole of its text: for `:=`, then for
`<`, `>` and `~`, then for `=`, and then for `*`.

The array a filter is written to is the list of the bytes in it, and `filt_len`
the length of that list.  An expression is its bytes before the NUL.
-/
import CassandraApi.Ber.Tlv
import CassandraApi.Ldap.Encode

namespace CassandraApi.Ldap

open C Ber

/-! ## Arrays -/

/-- `memcpy(&b_filt[filt_len], …); filt_len += …`; `b_filt` and `b_buff` have 1024 bytes. -/
def putFilter (bFilt bytes : List UInt8) : Except Fault (List UInt8) :=
  if (bFilt ++ bytes).length ≤ 1024 then .ok (bFilt ++ bytes) else .error .overrun

/-- `memcpy(buff, p, r); buff[r] = 0`, for an array of 128 bytes. -/
def copyToBuff (bytes : List UInt8) : Except Fault (List UInt8) :=
  if bytes.length < 128 then .ok bytes else .error .overrun

/-- `expression[i]`: the NUL is there, what is behind it was never written. -/
def charAt (expression : List UInt8) (i : Nat) : Except Fault UInt8 :=
  if i < expression.length then .ok (expression.getD i 0)
  else if i = expression.length then .ok 0
  else .error .read

/-- `while (*end_p++ != c && end_p - filt_p < len);`, as the index `end_p - filt_p`. -/
def scanPast (c : UInt8) : List UInt8 → Nat
  | [] => 1
  | [_] => 1
  | x :: y :: xs => if x = c then 1 else scanPast c (y :: xs) + 1

/-- A tag, the length as one octet, and the bytes. -/
def shortField (tag : UInt8) (bytes : List UInt8) : List UInt8 :=
  tag :: UInt8.ofNat bytes.length :: bytes

/-! ## Matching rules -/

/-- MATCHDATA: what the arrays hold before their zeros. -/
structure MatchData where
  ruleId : List UInt8 := []
  matchType : List UInt8 := []
  matchValue : List UInt8 := []
  dnAttr : List UInt8 := []

/-- `memcpy(field, s, strlen(s))`: the end of a longer string that was there before stays. -/
def copyMatchField (cap : Nat) (field s : List UInt8) : Except Fault (List UInt8) :=
  if s.length ≤ cap then .ok (s ++ field.drop s.length) else .error .overrun

/-- One token between colons. -/
def matchToken (m : MatchData) (token : List UInt8) : Except Fault MatchData := do
  if 0x2e ∈ token then pure { m with ruleId := ← copyMatchField 100 m.ruleId token }
  else if token = ascii "dn" then pure { m with dnAttr := ← copyMatchField 3 m.dnAttr token }
  else
    -- from the '=' on, which is copied with the value
    match token.dropWhile (· ≠ 0x3d) with
    | [] => pure { m with matchType := ← copyMatchField 10 m.matchType token }
    | value => pure { m with matchValue := ← copyMatchField 255 m.matchValue value }

/-- A field that is not empty; `strlen` does not stop in a full array. -/
def matchField (tag : UInt8) (cap : Nat) (field : List UInt8) : Except Fault (List UInt8) :=
  if field = [] then .ok []
  else if field.length < cap then .ok (shortField tag field)
  else .error .read

/-- `matching_rule` -/
def matchingRule (data bFilt : List UInt8) : Except Fault (List UInt8) := do
  let m ← (strtok 0x3a data).foldlM matchToken {}
  let rule ← matchField 0x81 100 m.ruleId
  let type ← matchField 0x82 10 m.matchType
  let value ← matchField 0x83 255 m.matchValue
  let dn : List UInt8 :=
    if m.dnAttr = [] then [] else [0x84, UInt8.ofNat (m.dnAttr.length - 1), 0xff]
  let bFiltTemp := rule ++ type ++ value ++ dn
  if 255 < bFiltTemp.length then throw .overrun
  else if bFiltTemp.length = 255 then throw .read
  else putFilter bFilt (shortField 0xa9 bFiltTemp)

/-! ## Items -/

/-- `check_operation`: the filter with the item behind it, when the item has this operator. -/
def checkOperation (oper valOper : UInt8) (bFilt expression : List UInt8) :
    Except Fault (Option (List UInt8)) := do
  let end_ := scanPast oper expression
  if (← charAt expression end_) = 0x3d then
    let L ← insertLength (expression.length + 2)
    let bFilt ← putFilter bFilt (valOper :: L)
    let bFilt ← putFilter bFilt (shortField 0x04 (expression.take (end_ - 1)))
    let bFilt ← putFilter bFilt (shortField 0x04 (expression.drop (end_ + 1)))
    pure (some bFilt)
  else pure none

/-- The parts between two stars or more: the one with the number of the last star is the final
one. -/
def substringOctets (countSub : Nat) : Nat → List (List UInt8) → List UInt8
  | _, [] => []
  | index, s :: parts =>
      shortField (if index = countSub - 1 then 0x82 else 0x81) s ++
        substringOctets countSub (index + 1) parts

/-- `any_substring`.  The length octet at `editLen` becomes `filt_len - 2`, wherever the filter
starts. -/
def anySubstring (value bFilt : List UInt8) (countSub editLen : Nat) :
    Except Fault (List UInt8) := do
  let parts := strtok 0x2a value
  let tempSub := substringOctets countSub 0 parts
  if 255 < tempSub.length then throw .overrun
  else if tempSub.length = 255 then throw .read
  let bFilt ← putFilter bFilt (UInt8.ofNat tempSub.length :: tempSub)
  if parts = [] then pure bFilt
  else pure (bFilt.set editLen (UInt8.ofNat (bFilt.length - 2)))

/-- What comes behind the attribute of a value with one star. -/
def oneStar (value : List UInt8) : List UInt8 :=
  if value.head? = some 0x2a then
    0x30 :: UInt8.ofNat (value.length + 1) :: shortField 0x82 value.tail
  else if value.getLast? = some 0x2a then
    0x30 :: UInt8.ofNat (value.length + 1) :: shortField 0x80 value.dropLast
  else
    let subP := scanPast 0x2a value
    0x30 :: UInt8.ofNat (value.length + 3) ::
      (shortField 0x80 (value.take (subP - 1)) ++ shortField 0x82 (value.drop subP))

/-- The part of `create_ber_filter` for an item with none of the three operators. -/
def equalityFilter (bFilt expression : List UInt8) : Except Fault (List UInt8) := do
  let len := expression.length
  let end_ := scanPast 0x3d expression
  let name := expression.take (end_ - 1)
  let value := expression.drop end_
  if (← charAt expression end_) = 0x2a ∧ end_ = len - 1 then
    putFilter bFilt (shortField 0x87 name)
  else if end_ = len then
    -- no '=', or nothing behind it
    let objectClass := ascii "objectClass"
    let L ← insertLength (objectClass.length + len + 4)
    putFilter bFilt (0xa3 :: L ++ shortField 0x04 objectClass ++ shortField 0x04 expression)
  else
    let countSub := value.count 0x2a
    if countSub = 0 then
      let L ← insertLength (len + 3)
      let bFilt ← putFilter bFilt (0xa3 :: L)
      let bFilt ← putFilter bFilt (shortField 0x04 name)
      putFilter bFilt (shortField 0x04 value)
    else if countSub = 1 then
      let ends := value.getLast? = some 0x2a ∨ value.head? = some 0x2a
      let L ← insertLength (len + if ends then 4 else 6)
      let bFilt ← putFilter bFilt (0xa4 :: L)
      let bFilt ← putFilter bFilt (shortField 0x04 name)
      putFilter bFilt (oneStar value)
    else
      let L ← insertLength (len + countSub * 2 + 2 - 1)
      let bFilt ← putFilter bFilt (0xa4 :: L)
      let editLen := bFilt.length - 1
      let bFilt ← putFilter bFilt (shortField 0x04 name)
      let bFilt ← putFilter bFilt [0x30]
      anySubstring value bFilt countSub editLen

/-- `create_ber_filter` -/
def createBerFilter (expression bFilt : List UInt8) : Except Fault (List UInt8) := do
  if (strstr expression (ascii ":=")).isSome then matchingRule expression bFilt
  else
    match ← checkOperation 0x3c 0xa6 bFilt expression with
    | some bFilt => pure bFilt
    | none =>
        match ← checkOperation 0x3e 0xa5 bFilt expression with
        | some bFilt => pure bFilt
        | none =>
            match ← checkOperation 0x7e 0xa8 bFilt expression with
            | some bFilt => pure bFilt
            | none => equalityFilter bFilt expression

/-! ## process_filter -/

/-- The bytes before the parenthesis that closes, `count` more being open. -/
def closing : Nat → List UInt8 → Nat
  | _, [] => 0
  | count, c :: cs =>
      if c = 0x28 then closing (count + 1) cs + 1
      else if c = 0x29 ∧ 0 < count then closing (count - 1) cs + 1
      else if c = 0x29 then 0
      else closing count cs + 1

/-- The tags of the compounds. -/
def compoundTag (c : Option UInt8) : Option UInt8 :=
  if c = some 0x26 then some 0xa0
  else if c = some 0x7c then some 0xa1
  else if c = some 0x21 then some 0xa2
  else none

/-- `while (object_len > 0)` over the operands.  Any byte is taken for the parenthesis that
opens. -/
def processOperands (process : List UInt8 → List UInt8 → Except Fault (List UInt8)) :
    Nat → List UInt8 → List UInt8 → Except Fault (List UInt8)
  | _, [], bBuff => .ok bBuff
  | 0, _ :: _, _ => .error .stuck
  | turns + 1, _ :: rest, bBuff => do
      let r := closing 0 rest
      let buff ← copyToBuff (rest.take r)
      let bBuff ← process buff bBuff
      processOperands process turns (rest.drop (r + 1)) bBuff

/-- `process_filter` on a stack with room for `depth` calls. -/
def processFilterIn : Nat → List UInt8 → List UInt8 → Except Fault (List UInt8)
  | 0, _, _ => .error .stuck
  | depth + 1, expression, bFilt =>
      match compoundTag expression.head? with
      | some tag => do
          let bFilt ← putFilter bFilt [tag]
          let bBuff ← processOperands (processFilterIn depth) expression.length expression.tail []
          let L ← insertLength bBuff.length
          putFilter bFilt (L ++ bBuff)
      | none => do
          let buff ← copyToBuff expression
          createBerFilter buff bFilt

/-- `process_filter`: an operand is shorter than its compound, which bounds the calls. -/
def processFilter (expression bFilt : List UInt8) : Except Fault (List UInt8) :=
  processFilterIn (expression.length + 1) expression bFilt

/-- What LDAP_gen_search_request makes of its object: `*` and nothing stand for any class, and
the outer parentheses are taken off. -/
def processObject (object : List UInt8) : Except Fault (List UInt8) :=
  if object = [] ∨ object = ascii "*" ∨ object = ascii "(*)" then .ok presentObjectClass
  else
    match object with
    | 0x28 :: rest => processFilter (if rest.getLast? = some 0x29 then rest.dropLast else rest) []
    | _ => processFilter object []

/-! ## Filters -/

/-- The operators between a name and a value. -/
inductive Comparison where
  | equal
  | greaterOrEqual
  | lessOrEqual
  | approx
  deriving DecidableEq

def Comparison.text : Comparison → List UInt8
  | .equal => ascii "="
  | .greaterOrEqual => ascii ">="
  | .lessOrEqual => ascii "<="
  | .approx => ascii "~="

def Comparison.tag : Comparison → UInt8
  | .equal => 0xa3
  | .greaterOrEqual => 0xa5
  | .lessOrEqual => 0xa6
  | .approx => 0xa8

inductive Connective where
  | and
  | or
  | not
  deriving DecidableEq

def Connective.char : Connective → UInt8
  | .and => 0x26
  | .or => 0x7c
  | .not => 0x21

def Connective.tag : Connective → UInt8
  | .and => 0xa0
  | .or => 0xa1
  | .not => 0xa2

/-- How many operands there may be. -/
def Connective.Takes : Connective → Nat → Prop
  | .not, n => n = 1
  | _, n => 1 ≤ n

inductive FilterTree where
  | compound (op : Connective) (operands : List FilterTree)
  | item (op : Comparison) (name value : List UInt8)
  | present (name : List UInt8)

mutual

/-- What is written between the parentheses. -/
def FilterTree.text : FilterTree → List UInt8
  | .compound op operands => op.char :: operandsText operands
  | .item op name value => name ++ (op.text ++ value)
  | .present name => name ++ ascii "=*"

/-- Operands, each in its parentheses. -/
def operandsText : List FilterTree → List UInt8
  | [] => []
  | t :: ts => 0x28 :: (t.text ++ 0x29 :: operandsText ts)

end

mutual

/-- The encoding: a tag, the length, and the encodings of the operands in order, or a name and
a value. -/
def FilterTree.octets : FilterTree → List UInt8
  | .compound op operands => tlv op.tag (operandsOctets operands)
  | .item op name value => tlv op.tag (tlv 0x04 name ++ tlv 0x04 value)
  | .present name => tlv 0x87 name

def operandsOctets : List FilterTree → List UInt8
  | [] => []
  | t :: ts => t.octets ++ operandsOctets ts

end

/-- Letters, digits and `-`. -/
structure IsName (s : List UInt8) : Prop where
  some : s ≠ []
  chars : ∀ c ∈ s, 65 ≤ c ∧ c ≤ 90 ∨ 97 ≤ c ∧ c ≤ 122 ∨ 48 ≤ c ∧ c ≤ 57 ∨ c = 0x2d

/-- No NUL and none of `( ) * < > ~ :`. -/
structure IsValue (s : List UInt8) : Prop where
  some : s ≠ []
  chars : ∀ c ∈ s, c ∉ 0 :: ascii "()*<>~:"

mutual

/-- Names, values and numbers of operands are as they have to be, and what is copied has room. -/
def FilterTree.Writable : FilterTree → Prop
  | .compound op operands =>
      op.Takes operands.length ∧ (FilterTree.compound op operands).octets.length ≤ 1024 ∧
        OperandsWritable operands
  | .item op name value =>
      IsName name ∧ IsValue value ∧ (FilterTree.item op name value).text.length ≤ 127
  | .present name => IsName name ∧ (FilterTree.present name).text.length ≤ 127

def OperandsWritable : List FilterTree → Prop
  | [] => True
  | t :: ts => t.text.length ≤ 127 ∧ t.Writable ∧ OperandsWritable ts

end

/-! ## The characters of a name and of a value -/

theorem IsName.not_mem {s : List UInt8} {c : UInt8} (h : IsName s)
    (hc : c ∈ ascii "()*<>~:=&|!") : c ∉ s := by
  have hother : ∀ c ∈ ascii "()*<>~:=&|!",
      ¬ (65 ≤ c ∧ c ≤ 90 ∨ 97 ≤ c ∧ c ≤ 122 ∨ 48 ≤ c ∧ c ≤ 57 ∨ c = 0x2d) := by decide +kernel
  exact fun hmem => hother c hc (h.chars c hmem)

theorem IsValue.not_mem {s : List UInt8} {c : UInt8} (h : IsValue s)
    (hc : c ∈ ascii "()*<>~:") : c ∉ s := fun hmem =>
  h.chars c hmem (List.mem_cons_of_mem 0 hc)

theorem Comparison.not_mem_text {c : UInt8} (op : Comparison) (hc : c ∈ ascii "()*:&|!") :
    c ∉ op.text := by
  have hall : ∀ c ∈ ascii "()*:&|!", ∀ op : Comparison, c ∉ op.text := by
    intro c hc op
    cases op <;> revert c <;> decide +kernel
  exact hall c hc op

/-- The text of an item is a name, an operator and a value. -/
theorem not_mem_item {name value : List UInt8} {c : UInt8} (op : Comparison) (hn : IsName name)
    (hv : IsValue value) (hc : c ∈ ascii "()*:") : c ∉ name ++ (op.text ++ value) := by
  have hin : c ∈ ascii "()*<>~:=&|!" ∧ c ∈ ascii "()*<>~:" ∧ c ∈ ascii "()*:&|!" := by
    revert c
    decide +kernel
  intro hmem
  rcases List.mem_append.1 hmem with hmem | hmem
  · exact hn.not_mem hin.1 hmem
  rcases List.mem_append.1 hmem with hmem | hmem
  · exact op.not_mem_text hin.2.2 hmem
  · exact hv.not_mem hin.2.1 hmem

theorem not_mem_present {name : List UInt8} {c : UInt8} (hn : IsName name)
    (hc : c ∈ ascii "()<>~:") : c ∉ name ++ ascii "=*" := by
  have hin : c ∈ ascii "()*<>~:=&|!" ∧ c ∉ ascii "=*" := by
    revert c
    decide +kernel
  intro hmem
  rcases List.mem_append.1 hmem with hmem | hmem
  · exact hn.not_mem hin.1 hmem
  · exact hin.2 hmem

/-! ## The parenthesis that closes -/

theorem closing_plain {xs : List UInt8} (rest : List UInt8) (count : Nat) (ho : 0x28 ∉ xs)
    (hc : 0x29 ∉ xs) : closing count (xs ++ rest) = xs.length + closing count rest := by
  induction xs with
  | nil => simp
  | cons x xs ih =>
    rw [List.mem_cons, not_or] at ho hc
    have hne : x ≠ 0x29 := Ne.symm hc.1
    rw [List.cons_append, closing, if_neg (Ne.symm ho.1), if_neg (fun h => hne h.1), if_neg hne,
      ih ho.2 hc.2, List.length_cons]
    omega

mutual

/-- A filter closes as many parentheses as it opens. -/
theorem closing_text : ∀ {t : FilterTree}, t.Writable → ∀ (rest : List UInt8) (count : Nat),
    closing count (t.text ++ rest) = t.text.length + closing count rest
  | .compound op operands, h, rest, count => by
    rw [FilterTree.Writable] at h
    have hplain : op.char ≠ 0x28 ∧ op.char ≠ 0x29 := by cases op <;> decide
    rw [FilterTree.text, List.cons_append, closing, if_neg hplain.1,
      if_neg (fun h => hplain.2 h.1), if_neg hplain.2, closing_operands h.2.2, List.length_cons]
    omega
  | .item op name value, h, rest, count => by
    rw [FilterTree.Writable] at h
    rw [FilterTree.text]
    exact closing_plain rest count (not_mem_item op h.1 h.2.1 (by decide))
      (not_mem_item op h.1 h.2.1 (by decide))
  | .present name, h, rest, count => by
    rw [FilterTree.Writable] at h
    rw [FilterTree.text]
    exact closing_plain rest count (not_mem_present h.1 (by decide))
      (not_mem_present h.1 (by decide))

theorem closing_operands : ∀ {ts : List FilterTree}, OperandsWritable ts →
    ∀ (rest : List UInt8) (count : Nat),
      closing count (operandsText ts ++ rest) = (operandsText ts).length + closing count rest
  | [], _, rest, count => by
    rw [operandsText, List.nil_append, List.length_nil, Nat.zero_add]
  | t :: ts, h, rest, count => by
    rw [OperandsWritable] at h
    rw [operandsText, List.cons_append, closing, if_pos rfl, List.append_assoc,
      closing_text h.2.1, List.cons_append, closing, if_neg (by decide),
      if_pos ⟨rfl, Nat.succ_pos count⟩, Nat.add_sub_cancel, closing_operands h.2.2]
    simp only [List.length_cons, List.length_append]
    omega

end

/-- The parenthesis behind a filter is the one that closes. -/
theorem closing_end {t : FilterTree} (h : t.Writable) (rest : List UInt8) :
    closing 0 (t.text ++ 0x29 :: rest) = t.text.length := by
  rw [closing_text h, closing, if_neg (by decide), if_neg (by simp), if_pos rfl, Nat.add_zero]

/-! ## Scans -/

theorem scanPast_found {c : UInt8} {xs : List UInt8} (y : UInt8) (ys : List UInt8) (h : c ∉ xs) :
    scanPast c (xs ++ c :: y :: ys) = xs.length + 1 := by
  induction xs with
  | nil => rw [List.nil_append, scanPast, if_pos rfl, List.length_nil]
  | cons x xs ih =>
    rw [List.mem_cons, not_or] at h
    obtain ⟨z, zs, hzs⟩ : ∃ z zs, xs ++ c :: y :: ys = z :: zs := by
      cases xs with
      | nil => exact ⟨c, y :: ys, rfl⟩
      | cons z zs => exact ⟨z, zs ++ c :: y :: ys, rfl⟩
    rw [List.cons_append, hzs, scanPast, if_neg (Ne.symm h.1), ← hzs, ih h.2, List.length_cons]

theorem scanPast_absent {c : UInt8} {xs : List UInt8} (h : c ∉ xs) (some : xs ≠ []) :
    scanPast c xs = xs.length := by
  induction xs with
  | nil => exact absurd rfl some
  | cons x xs ih =>
    rw [List.mem_cons, not_or] at h
    cases xs with
    | nil => rfl
    | cons y ys =>
      rw [scanPast, if_neg (Ne.symm h.1), ih h.2 (List.cons_ne_nil y ys), List.length_cons]
      rfl

theorem charAt_append (xs ys : List UInt8) (y : UInt8) :
    charAt (xs ++ y :: ys) xs.length = .ok y := by
  rw [charAt, if_pos (by simp), List.getD_append_right _ _ _ _ le_rfl, Nat.sub_self]
  rfl

theorem charAt_end (xs : List UInt8) : charAt xs xs.length = .ok 0 := by
  rw [charAt, if_neg (lt_irrefl _), if_pos rfl]

theorem strstr_none {c : UInt8} {needle s : List UInt8} (h : c ∉ s) :
    strstr s (c :: needle) = none := by
  induction s with
  | nil => rfl
  | cons x xs ih =>
    rw [List.mem_cons, not_or] at h
    have hne : ¬ c :: needle <+: x :: xs := by
      intro hp
      exact h.1 (List.cons_prefix_cons.1 hp).1
    rw [strstr, if_neg hne, ih h.2]
    rfl

/-! ## Items -/

theorem putFilter_eq {bFilt bytes : List UInt8} (room : (bFilt ++ bytes).length ≤ 1024) :
    putFilter bFilt bytes = .ok (bFilt ++ bytes) :=
  if_pos room

theorem shortField_eq {tag : UInt8} {bytes : List UInt8} (h : bytes.length < 128) :
    shortField tag bytes = tlv tag bytes := by
  rw [shortField, tlv, lengthOctets, if_pos h]
  rfl

/-- The octets of a name and a value, with their lengths in one octet each. -/
theorem item_octets (tag : UInt8) {name value : List UInt8} {n : Nat} (hn : name.length < 128)
    (hv : value.length < 128) (hlen : n = name.length + value.length + 4) :
    tlv tag (tlv 0x04 name ++ tlv 0x04 value) =
      (tag :: lengthOctets n) ++ shortField 0x04 name ++ shortField 0x04 value := by
  have hsize : (tlv 0x04 name ++ tlv 0x04 value).length = n := by
    rw [← shortField_eq hn, ← shortField_eq hv, hlen]
    simp only [shortField, List.length_append, List.length_cons]
    omega
  rw [tlv, hsize, shortField_eq hn, shortField_eq hv, List.cons_append, List.cons_append,
    List.append_assoc]

/-- A header and two fields, put one after another. -/
theorem putFilter_item {α : Type} {bFilt a b c : List UInt8}
    (next : List UInt8 → Except Fault α) (room : (bFilt ++ (a ++ b ++ c)).length ≤ 1024) :
    (do
      let bFilt ← putFilter bFilt a
      let bFilt ← putFilter bFilt b
      let bFilt ← putFilter bFilt c
      next bFilt) = next (bFilt ++ (a ++ b ++ c)) := by
  have hc : (bFilt ++ a ++ b ++ c).length ≤ 1024 := by
    rwa [List.append_assoc, List.append_assoc, ← List.append_assoc a]
  have hb : (bFilt ++ a ++ b).length ≤ 1024 := (List.sublist_append_left _ c).length_le.trans hc
  have ha : (bFilt ++ a).length ≤ 1024 := (List.sublist_append_left _ b).length_le.trans hb
  rw [putFilter_eq ha, ok_bind, putFilter_eq hb, ok_bind, putFilter_eq hc, ok_bind,
    List.append_assoc, List.append_assoc, ← List.append_assoc a]

theorem checkOperation_absent {oper valOper : UInt8} {bFilt expression : List UInt8}
    (h : oper ∉ expression) (some : expression ≠ []) :
    checkOperation oper valOper bFilt expression = .ok none := by
  rw [checkOperation, scanPast_absent h some, charAt_end]
  rfl

theorem checkOperation_found {oper valOper : UInt8} {bFilt name value : List UInt8}
    (h : oper ∉ name) (hlen : name.length + value.length + 2 < 128)
    (room : (bFilt ++ tlv valOper (tlv 0x04 name ++ tlv 0x04 value)).length ≤ 1024) :
    checkOperation oper valOper bFilt (name ++ oper :: 0x3d :: value) =
      .ok (some (bFilt ++ tlv valOper (tlv 0x04 name ++ tlv 0x04 value))) := by
  have hchar : charAt (name ++ oper :: 0x3d :: value) (name.length + 1) = .ok 0x3d := by
    have hat := charAt_append (name ++ [oper]) value 0x3d
    rwa [List.append_assoc, List.length_append] at hat
  have hname : (name ++ oper :: 0x3d :: value).take (name.length + 1 - 1) = name := by simp
  have hvalue : (name ++ oper :: 0x3d :: value).drop (name.length + 1 + 1) = value := by
    simp [Nat.add_assoc, List.drop_append]
  have hsize : (name ++ oper :: 0x3d :: value).length + 2 = name.length + value.length + 4 := by
    simp only [List.length_append, List.length_cons]
    omega
  have hL : insertLength (name.length + value.length + 4) =
      .ok (lengthOctets (name.length + value.length + 4)) := by
    rw [insertLength_eq_ite, if_pos (by omega)]
  have hoctets := item_octets valOper (show name.length < 128 by omega)
    (show value.length < 128 by omega) rfl
  rw [hoctets] at room ⊢
  rw [checkOperation, scanPast_found _ _ h, hchar, ok_bind, if_pos rfl, hsize, hL, ok_bind, hname,
    hvalue]
  exact putFilter_item (fun b => pure (some b)) room

theorem equalityFilter_equal {bFilt name value : List UInt8} (hn : IsName name)
    (hv : IsValue value) (hlen : name.length + value.length + 1 < 128)
    (room : (bFilt ++ tlv 0xa3 (tlv 0x04 name ++ tlv 0x04 value)).length ≤ 1024) :
    equalityFilter bFilt (name ++ 0x3d :: value) =
      .ok (bFilt ++ tlv 0xa3 (tlv 0x04 name ++ tlv 0x04 value)) := by
  obtain ⟨v, vs, rfl⟩ := List.exists_cons_of_ne_nil hv.some
  have hstar : 0x2a ∉ v :: vs := hv.not_mem (by decide)
  have hv0 : v ≠ 0x2a := by
    rintro rfl
    exact hstar List.mem_cons_self
  have hchar : charAt (name ++ 0x3d :: v :: vs) (name.length + 1) = .ok v := by
    have hat := charAt_append (name ++ [0x3d]) vs v
    rwa [List.append_assoc, List.length_append] at hat
  have hscan : scanPast 0x3d (name ++ 0x3d :: v :: vs) = name.length + 1 :=
    scanPast_found _ _ (hn.not_mem (by decide))
  have hname : (name ++ 0x3d :: v :: vs).take (name.length + 1 - 1) = name := by simp
  have hvalue : (name ++ 0x3d :: v :: vs).drop (name.length + 1) = v :: vs := by
    simp [List.drop_append]
  have hsize : (name ++ 0x3d :: v :: vs).length = name.length + (v :: vs).length + 1 := by
    simp only [List.length_append, List.length_cons]
    omega
  have hnot : ¬ name.length + 1 = name.length + (v :: vs).length + 1 := by
    rw [List.length_cons]
    omega
  have hL : insertLength (name.length + (v :: vs).length + 1 + 3) =
      .ok (lengthOctets (name.length + (v :: vs).length + 1 + 3)) := by
    rw [insertLength_eq_ite, if_pos (by omega)]
  have hoctets := item_octets 0xa3 (show name.length < 128 by omega)
    (show (v :: vs).length < 128 by omega) (n := name.length + (v :: vs).length + 1 + 3) rfl
  rw [hoctets] at room ⊢
  simp only [equalityFilter, hscan, hchar, ok_bind, hv0, false_and, if_false, hname, hvalue, hsize,
    hnot, List.count_eq_zero.2 hstar, if_true, hL]
  have hput := putFilter_item pure room
  simp only [bind_pure] at hput
  exact hput

theorem equalityFilter_present {bFilt name : List UInt8} (hn : IsName name)
    (hlen : name.length < 128) (room : (bFilt ++ tlv 0x87 name).length ≤ 1024) :
    equalityFilter bFilt (name ++ ascii "=*") = .ok (bFilt ++ tlv 0x87 name) := by
  have htext : name ++ ascii "=*" = name ++ 0x3d :: 0x2a :: [] := rfl
  have hchar : charAt (name ++ 0x3d :: 0x2a :: []) (name.length + 1) = .ok 0x2a := by
    have hat := charAt_append (name ++ [0x3d]) [] 0x2a
    rwa [List.append_assoc, List.length_append] at hat
  have hscan : scanPast 0x3d (name ++ 0x3d :: 0x2a :: []) = name.length + 1 :=
    scanPast_found _ _ (hn.not_mem (by decide))
  have hname : (name ++ 0x3d :: 0x2a :: []).take (name.length + 1 - 1) = name := by simp
  have hlast : name.length + 1 = (name ++ 0x3d :: 0x2a :: []).length - 1 := by simp
  rw [htext]
  simp only [equalityFilter, hscan, hchar, ok_bind, hname]
  rw [if_pos ⟨trivial, hlast⟩, shortField_eq hlen, putFilter_eq room]

/-- Without colons, an item is looked at for the three operators. -/
theorem createBerFilter_eq {bFilt expression : List UInt8} (hcolon : 0x3a ∉ expression) :
    createBerFilter expression bFilt = (do
      match ← checkOperation 0x3c 0xa6 bFilt expression with
      | some bFilt => pure bFilt
      | none =>
          match ← checkOperation 0x3e 0xa5 bFilt expression with
          | some bFilt => pure bFilt
          | none =>
              match ← checkOperation 0x7e 0xa8 bFilt expression with
              | some bFilt => pure bFilt
              | none => equalityFilter bFilt expression) := by
  have hrule : strstr expression (ascii ":=") = none := strstr_none hcolon
  rw [createBerFilter, hrule]
  rfl

theorem createBerFilter_present {bFilt name : List UInt8} (hn : IsName name)
    (hlen : name.length < 128) (room : (bFilt ++ tlv 0x87 name).length ≤ 1024) :
    createBerFilter (name ++ ascii "=*") bFilt = .ok (bFilt ++ tlv 0x87 name) := by
  have some : name ++ ascii "=*" ≠ [] := List.append_ne_nil_of_left_ne_nil hn.some _
  rw [createBerFilter_eq (not_mem_present hn (by decide)),
    checkOperation_absent (not_mem_present hn (by decide)) some, ok_bind]
  simp only [checkOperation_absent (not_mem_present hn (show 0x3e ∈ ascii "()<>~:" by decide)) some,
    checkOperation_absent (not_mem_present hn (show 0x7e ∈ ascii "()<>~:" by decide)) some, ok_bind]
  exact equalityFilter_present hn hlen room

theorem createBerFilter_item {bFilt name value : List UInt8} (op : Comparison) (hn : IsName name)
    (hv : IsValue value) (hlen : (name ++ (op.text ++ value)).length < 128)
    (room : (bFilt ++ tlv op.tag (tlv 0x04 name ++ tlv 0x04 value)).length ≤ 1024) :
    createBerFilter (name ++ (op.text ++ value)) bFilt =
      .ok (bFilt ++ tlv op.tag (tlv 0x04 name ++ tlv 0x04 value)) := by
  have hsome : name ++ (op.text ++ value) ≠ [] := List.append_ne_nil_of_left_ne_nil hn.some _
  have hin : ∀ oper ∈ ascii "<>~", oper ∈ ascii "()*<>~:=&|!" ∧ oper ∈ ascii "()*<>~:" := by
    decide +kernel
  -- an operator that is not this one is nowhere in the text
  have habsent : ∀ oper valOper : UInt8, oper ∈ ascii "<>~" → oper ∉ op.text →
      checkOperation oper valOper bFilt (name ++ (op.text ++ value)) = .ok none := by
    intro oper valOper hoper hop
    refine checkOperation_absent ?_ hsome
    simp only [List.mem_append, not_or]
    exact ⟨hn.not_mem (hin oper hoper).1, hop, hv.not_mem (hin oper hoper).2⟩
  have hfound : ∀ oper valOper : UInt8, oper ∈ ascii "<>~" → op.text = [oper, 0x3d] →
      op.tag = valOper → checkOperation oper valOper bFilt (name ++ (op.text ++ value)) =
        .ok (some (bFilt ++ tlv op.tag (tlv 0x04 name ++ tlv 0x04 value))) := by
    rintro oper _ hoper htext rfl
    rw [htext] at hlen ⊢
    rw [List.cons_append, List.cons_append, List.nil_append] at hlen ⊢
    simp only [List.length_append, List.length_cons] at hlen
    exact checkOperation_found (hn.not_mem (hin oper hoper).1) (by omega) room
  rw [createBerFilter_eq (not_mem_item op hn hv (by decide))]
  cases op with
  | lessOrEqual =>
    rw [hfound 0x3c 0xa6 (by decide) rfl rfl]
    rfl
  | greaterOrEqual =>
    rw [habsent 0x3c 0xa6 (by decide) (by decide), ok_bind]
    simp only [hfound 0x3e 0xa5 (by decide) rfl rfl, ok_bind, pure_eq_ok]
  | approx =>
    rw [habsent 0x3c 0xa6 (by decide) (by decide), ok_bind]
    simp only [habsent 0x3e 0xa5 (by decide) (by decide), ok_bind,
      hfound 0x7e 0xa8 (by decide) rfl rfl, pure_eq_ok]
  | equal =>
    rw [habsent 0x3c 0xa6 (by decide) (by decide), ok_bind]
    simp only [habsent 0x3e 0xa5 (by decide) (by decide), ok_bind,
      habsent 0x7e 0xa8 (by decide) (by decide)]
    have hone : Comparison.equal.text.length = 1 := rfl
    rw [List.length_append, List.length_append, hone] at hlen
    change equalityFilter bFilt (name ++ 0x3d :: value) = _
    exact equalityFilter_equal hn hv (by omega) room

/-! ## Compounds -/

theorem compoundTag_name {s rest : List UInt8} (h : IsName s) :
    compoundTag (s ++ rest).head? = none := by
  obtain ⟨c, cs, rfl⟩ := List.exists_cons_of_ne_nil h.some
  have hne : ∀ {d : UInt8}, d ∈ ascii "()*<>~:=&|!" → some c ≠ some d := by
    rintro d hd ⟨⟩
    exact h.not_mem hd List.mem_cons_self
  rw [List.cons_append, List.head?_cons, compoundTag, if_neg (hne (by decide)),
    if_neg (hne (by decide)), if_neg (hne (by decide))]

theorem compoundTag_char (op : Connective) (rest : List UInt8) :
    compoundTag (op.char :: rest).head? = some op.tag := by
  cases op <;> rfl

mutual

theorem processFilterIn_eq : ∀ {t : FilterTree} {depth : Nat} {bFilt : List UInt8}, t.Writable →
    t.text.length < depth → (bFilt ++ t.octets).length ≤ 1024 →
      processFilterIn depth t.text bFilt = .ok (bFilt ++ t.octets)
  | _, 0, _, _, hdepth, _ => absurd hdepth (Nat.not_lt_zero _)
  | .compound op operands, depth + 1, bFilt, h, hdepth, room => by
    rw [FilterTree.Writable] at h
    obtain ⟨-, hsize, hoperands⟩ := h
    rw [FilterTree.octets] at hsize room ⊢
    rw [FilterTree.text, List.length_cons] at hdepth
    have hshort : (operandsOctets operands).length < 2 ^ 24 := by
      rw [tlv_length] at hsize
      omega
    have hroom : ([] ++ operandsOctets operands).length ≤ 1024 := by
      rw [tlv_length] at hsize
      rw [List.nil_append]
      omega
    have hbuff := processOperands_eq hoperands (Nat.lt_of_succ_lt_succ hdepth)
      (Nat.le_succ (operandsText operands).length) hroom
    have hL : insertLength (operandsOctets operands).length =
        .ok (lengthOctets (operandsOctets operands).length) := by
      rw [insertLength_eq_ite, if_pos hshort]
    rw [tlv] at room ⊢
    rw [List.append_cons] at room ⊢
    have htag : (bFilt ++ [op.tag]).length ≤ 1024 :=
      (List.sublist_append_left _ _).length_le.trans room
    rw [processFilterIn, FilterTree.text, compoundTag_char]
    simp only [List.tail_cons, List.length_cons, putFilter_eq htag, ok_bind, hbuff, List.nil_append,
      hL, putFilter_eq room]
  | .item op name value, depth + 1, bFilt, h, _, room => by
    rw [FilterTree.Writable] at h
    obtain ⟨hn, hv, hlen⟩ := h
    rw [FilterTree.octets] at room ⊢
    rw [FilterTree.text] at hlen ⊢
    have hcopy : copyToBuff (name ++ (op.text ++ value)) = .ok (name ++ (op.text ++ value)) :=
      if_pos (Nat.lt_succ_of_le hlen)
    rw [processFilterIn, compoundTag_name hn, hcopy]
    exact createBerFilter_item op hn hv (Nat.lt_succ_of_le hlen) room
  | .present name, depth + 1, bFilt, h, _, room => by
    rw [FilterTree.Writable] at h
    obtain ⟨hn, hlen⟩ := h
    rw [FilterTree.octets] at room ⊢
    rw [FilterTree.text] at hlen ⊢
    have hcopy : copyToBuff (name ++ ascii "=*") = .ok (name ++ ascii "=*") :=
      if_pos (Nat.lt_succ_of_le hlen)
    rw [List.length_append] at hlen
    rw [processFilterIn, compoundTag_name hn, hcopy]
    exact createBerFilter_present hn (by omega) room

theorem processOperands_eq : ∀ {ts : List FilterTree} {depth turns : Nat} {bBuff : List UInt8},
    OperandsWritable ts → (operandsText ts).length < depth → (operandsText ts).length ≤ turns →
      (bBuff ++ operandsOctets ts).length ≤ 1024 →
        processOperands (processFilterIn depth) turns (operandsText ts) bBuff =
          .ok (bBuff ++ operandsOctets ts)
  | [], depth, turns, bBuff, _, _, _, _ => by
    rw [operandsText, operandsOctets, List.append_nil, processOperands]
  | t :: ts, depth, turns, bBuff, h, hdepth, hturns, room => by
    rw [OperandsWritable] at h
    obtain ⟨hlen, ht, hts⟩ := h
    rw [operandsText] at hdepth hturns ⊢
    simp only [List.length_cons, List.length_append] at hdepth hturns
    obtain ⟨turns, rfl⟩ := Nat.exists_eq_succ_of_ne_zero (by omega : turns ≠ 0)
    rw [operandsOctets, ← List.append_assoc] at room ⊢
    have hcopy : copyToBuff t.text = .ok t.text := if_pos (Nat.lt_succ_of_le hlen)
    have hfirst := processFilterIn_eq ht (show t.text.length < depth by omega)
      ((List.sublist_append_left (bBuff ++ t.octets) _).length_le.trans room)
    have hrest := processOperands_eq hts (show (operandsText ts).length < depth by omega)
      (show (operandsText ts).length ≤ turns by omega) room
    have htake : (t.text ++ 0x29 :: operandsText ts).take t.text.length = t.text := by simp
    have hdrop : (t.text ++ 0x29 :: operandsText ts).drop (t.text.length + 1) = operandsText ts := by
      simp [List.drop_append]
    simp only [processOperands, closing_end ht, htake, hcopy, ok_bind, hfirst, hdrop, hrest]

end

/-! ## Every filter -/

/-- What a compound encodes to has a bound; the texts of the others are short enough. -/
theorem FilterTree.octets_length_le {t : FilterTree} (h : t.Writable) : t.octets.length ≤ 1024 := by
  cases t with
  | compound op operands =>
    rw [FilterTree.Writable] at h
    exact h.2.1
  | item op name value =>
    rw [FilterTree.Writable, FilterTree.text] at h
    have hlen := h.2.2
    have hname := tlv_length_le 0x04 name
    have hvalue := tlv_length_le 0x04 value
    have hall := tlv_length_le op.tag (tlv 0x04 name ++ tlv 0x04 value)
    rw [List.length_append] at hlen hall
    rw [List.length_append] at hlen
    rw [FilterTree.octets]
    omega
  | present name =>
    rw [FilterTree.Writable, FilterTree.text, List.length_append] at h
    have hlen := h.2
    have hall := tlv_length_le 0x87 name
    rw [FilterTree.octets]
    omega

/-- The text of a filter is not one of those that stand for any class. -/
theorem processObject_eq {t : FilterTree} (h : t.Writable) :
    processObject (0x28 :: (t.text ++ [0x29])) = processFilter t.text [] := by
  have hone : t.text ≠ ascii "*" := by
    intro he
    have hbound : 2 ≤ t.text.length := by
      cases t with
      | compound op operands =>
        rw [FilterTree.Writable] at h
        cases operands with
        | nil =>
          have htakes := h.1
          cases op <;> cases htakes
        | cons t ts =>
          simp only [FilterTree.text, operandsText, List.length_cons]
          omega
      | item op name value =>
        rw [FilterTree.Writable] at h
        have hname := List.length_pos_iff.2 h.1.some
        have hvalue := List.length_pos_iff.2 h.2.1.some
        simp only [FilterTree.text, List.length_append]
        omega
      | present name =>
        rw [FilterTree.text, List.length_append]
        exact Nat.le_add_left 2 name.length
    rw [he] at hbound
    exact absurd hbound (by decide)
  have hstar : ¬ (0x28 :: (t.text ++ [0x29]) = [] ∨ 0x28 :: (t.text ++ [0x29]) = ascii "*" ∨
      0x28 :: (t.text ++ [0x29]) = ascii "(*)") := by
    rintro (he | he | he)
    · cases he
    · exact absurd (List.cons.inj he).1 (by decide)
    · have htail : t.text ++ [0x29] = ascii "*" ++ [0x29] := (List.cons.inj he).2
      exact hone (List.append_cancel_right htail)
  rw [processObject, if_neg hstar]
  simp only [List.getLast?_concat, List.dropLast_concat, if_true]

end CassandraApi.Ldap
