/-
# `Ldap.FilterJourney` — a search filter, from its text to its text

The caller of a search writes its filter as text, process_filter encodes it,
LDAP_string_to_filter reads a tree from the octets, and LDAP_filter_to_string
writes the tree as text.  It is the text that was sent, but for

    (& … (a=*))        (| … (a=*))

of 256 octets and more: the header takes four octets then, and a last operand that
takes three, the presence test for a name of one character, is left out
(`readOperands`).  It is only the whole filter that can lose one: process_filter
takes no operand of more than 127 characters, and its encoding is never longer
than eight fifths of the text in its parentheses (`octets_size`).
-/
import CassandraApi.Ldap.Controlled
import CassandraApi.Ldap.FilterPrint
import CassandraApi.Ldap.FilterText

namespace CassandraApi.Ldap

open C Ber

/-! ## The tree of a text -/

def Comparison.make : Comparison → List UInt8 → List UInt8 → SearchFilter
  | .equal => .equalityMatch
  | .greaterOrEqual => .greaterOrEqual
  | .lessOrEqual => .lessOrEqual
  | .approx => .approxMatch

def Connective.make : Connective → List SearchFilter → SearchFilter
  | .and, members => .and members
  | .or, members => .or members
  | .not, members => .not (members.headD .zeroed)

mutual

/-- The filter that the text stands for. -/
def FilterTree.filter : FilterTree → SearchFilter
  | .compound op operands => op.make (operandFilters operands)
  | .item op name value => op.make name value
  | .present name => .present name

def operandFilters : List FilterTree → List SearchFilter
  | [] => []
  | t :: ts => t.filter :: operandFilters ts

end

/-- The operands that are read: behind a header of four octets, not a last one of three. -/
def readOperands (operands : List FilterTree) : List FilterTree :=
  if 256 ≤ (operandsOctets operands).length ∧
      operands.getLast?.map (fun t => t.octets.length) = some 3 then operands.dropLast
  else operands

/-- What is read of a filter. -/
def FilterTree.read : FilterTree → FilterTree
  | .compound op operands => .compound op (readOperands operands)
  | .item op name value => .item op name value
  | .present name => .present name

/-! ## Sizes -/

theorem lengthOctets_length {n : Nat} (h : n < 65536) :
    (lengthOctets n).length = if n < 128 then 1 else if n < 256 then 2 else 3 := by
  unfold lengthOctets
  split_ifs <;> simp [octets_length]

theorem operandsWritable_iff {ts : List FilterTree} :
    OperandsWritable ts ↔ ∀ t ∈ ts, t.text.length ≤ 127 ∧ t.Writable := by
  induction ts with
  | nil => simp [OperandsWritable]
  | cons t ts ih => rw [OperandsWritable, ih, List.forall_mem_cons, and_assoc]

mutual

/-- The encoding of a filter against its text, in the parentheses. -/
theorem octets_size : ∀ {t : FilterTree}, t.Writable →
    5 * t.octets.length ≤ 8 * (t.text.length + 2)
  | .compound op operands, h => by
    rw [FilterTree.Writable, FilterTree.octets, tlv_length] at h
    have hcontent := operands_size h.2.2
    have hheader := lengthOctets_length (n := (operandsOctets operands).length) (by omega)
    rw [FilterTree.octets, tlv_length, FilterTree.text, List.length_cons]
    split_ifs at hheader <;> omega
  | .item op name value, h => by
    rw [FilterTree.Writable, FilterTree.text] at h
    obtain ⟨hn, hv, hlen⟩ := h
    have hname := List.length_pos_iff.2 hn.some
    have hvalue := List.length_pos_iff.2 hv.some
    have hop : 1 ≤ op.text.length := by cases op <;> decide
    rw [List.length_append, List.length_append] at hlen
    have hsizes : (tlv 0x04 name ++ tlv 0x04 value).length = name.length + value.length + 4 := by
      rw [List.length_append, tlv_length, tlv_length, lengthOctets_length (by omega),
        lengthOctets_length (by omega), if_pos (by omega), if_pos (by omega)]
      omega
    have hheader := lengthOctets_length (n := name.length + value.length + 4) (by omega)
    rw [FilterTree.octets, tlv_length, hsizes, FilterTree.text, List.length_append,
      List.length_append]
    split_ifs at hheader <;> omega
  | .present name, h => by
    rw [FilterTree.Writable, FilterTree.text, List.length_append] at h
    have hname := List.length_pos_iff.2 h.1.some
    have hheader := lengthOctets_length (n := name.length) (by omega)
    rw [if_pos (by omega)] at hheader
    rw [FilterTree.octets, tlv_length, FilterTree.text, List.length_append]
    omega

theorem operands_size : ∀ {ts : List FilterTree}, OperandsWritable ts →
    5 * (operandsOctets ts).length ≤ 8 * (operandsText ts).length
  | [], _ => by
    rw [operandsOctets, operandsText]
    exact Nat.zero_le _
  | t :: ts, h => by
    rw [OperandsWritable] at h
    have hfirst := octets_size h.2.1
    have hrest := operands_size h.2.2
    rw [operandsOctets, operandsText, List.length_cons, List.length_append, List.length_append,
      List.length_cons]
    omega

end

/-- A filter is one value, with one of ten tags. -/
theorem FilterTree.octets_eq (t : FilterTree) :
    ∃ tag content, t.octets = tlv tag content ∧ (tag &&& 0x1f).toNat ≤ 9 := by
  cases t with
  | compound op operands =>
    exact ⟨op.tag, _, FilterTree.octets.eq_1 op operands, by cases op <;> decide⟩
  | item op name value =>
    exact ⟨op.tag, _, FilterTree.octets.eq_2 op name value, by cases op <;> decide⟩
  | present name => exact ⟨0x87, name, FilterTree.octets.eq_3 name, by decide⟩

theorem lengthOctets_pos (n : Nat) : 1 ≤ (lengthOctets n).length := by
  unfold lengthOctets
  split_ifs <;> exact Nat.le_add_left 1 _

theorem FilterTree.two_le (t : FilterTree) : 2 ≤ t.octets.length := by
  obtain ⟨tag, content, hoctets, -⟩ := t.octets_eq
  have hlength := lengthOctets_pos content.length
  rw [hoctets, tlv_length]
  omega

/-- No filter takes fewer than three octets. -/
theorem FilterTree.three_le {t : FilterTree} (h : t.Writable) : 3 ≤ t.octets.length := by
  cases t with
  | compound op operands =>
    rw [FilterTree.Writable] at h
    have hsome : operands ≠ [] := by
      rintro rfl
      have htakes := h.1
      cases op <;> cases htakes
    obtain ⟨t, ts, rfl⟩ := List.exists_cons_of_ne_nil hsome
    have hfirst := t.two_le
    have hlength := lengthOctets_pos (t.octets ++ operandsOctets ts).length
    rw [FilterTree.octets, tlv_length, operandsOctets]
    rw [List.length_append] at hlength ⊢
    omega
  | item op name value =>
    have hlength := lengthOctets_pos (tlv 0x04 name ++ tlv 0x04 value).length
    have hname := lengthOctets_pos name.length
    rw [FilterTree.octets, tlv_length]
    rw [List.length_append, tlv_length] at hlength ⊢
    omega
  | present name =>
    rw [FilterTree.Writable] at h
    have hname := List.length_pos_iff.2 h.1.some
    have hlength := lengthOctets_pos name.length
    rw [FilterTree.octets, tlv_length]
    omega

/-! ## The tree that is read -/

/-- Nothing is left out of an operand. -/
theorem FilterTree.read_short {t : FilterTree} (h : t.Writable) (hlen : t.text.length ≤ 127) :
    t.read = t := by
  cases t with
  | compound op operands =>
    have hsize := octets_size h
    rw [FilterTree.octets, tlv_length] at hsize
    rw [FilterTree.read, readOperands, if_neg (by omega)]
  | item op name value => rfl
  | present name => rfl

/-- Nor out of a NOT. -/
theorem FilterTree.read_not {ts : List FilterTree} (h : (FilterTree.compound .not ts).Writable) :
    (FilterTree.compound .not ts).read = .compound .not ts := by
  rw [FilterTree.Writable] at h
  obtain ⟨t, rfl⟩ := List.length_eq_one_iff.1 h.1
  have hoperand := operandsWritable_iff.1 h.2.2 t List.mem_cons_self
  have hsize := octets_size hoperand.2
  rw [FilterTree.read, readOperands, if_neg]
  rw [operandsOctets, operandsOctets, List.append_nil]
  omega

/-- The operands, with their octets. -/
def operandItems (ts : List FilterTree) : List (SearchFilter × List UInt8) :=
  ts.map fun t => (t.filter, t.octets)

theorem operandItems_octets (ts : List FilterTree) :
    (operandItems ts).flatMap Prod.snd = operandsOctets ts := by
  induction ts with
  | nil => rw [operandsOctets, operandItems, List.map_nil, List.flatMap_nil]
  | cons t ts ih => rw [operandsOctets, ← ih, operandItems, List.map_cons, List.flatMap_cons,
      ← operandItems]

theorem operandItems_filters (ts : List FilterTree) :
    (operandItems ts).map Prod.fst = operandFilters ts := by
  induction ts with
  | nil => rw [operandFilters, operandItems, List.map_nil, List.map_nil]
  | cons t ts ih => rw [operandFilters, ← ih, operandItems, List.map_cons, List.map_cons,
      ← operandItems]

/-- All but the last, where the last is shorter than the header and no other is. -/
theorem reached_dropLast {α : Type} {size : α → Nat} {h : Nat} {ys : List α} {z : α}
    (hz : size z < h) (hys : ∀ y ∈ ys, h ≤ size y + size z) : reached size h (ys ++ [z]) = ys := by
  induction ys with
  | nil =>
    have hsum : ([z].map size).sum = size z := by simp
    rw [List.nil_append, reached, hsum, if_neg (by omega)]
  | cons y ys ih =>
    have hy := hys y List.mem_cons_self
    have hle : h ≤ ((y :: (ys ++ [z])).map size).sum := by
      simp only [List.map_cons, List.map_append, List.map_nil, List.sum_cons, List.sum_append,
        List.sum_nil]
      omega
    rw [List.cons_append, reached, if_pos hle,
      ih fun x hx => hys x (List.mem_cons_of_mem _ hx)]

/-- The loop over the operands comes to those that are read. -/
theorem reached_operands {ts : List FilterTree} (h : OperandsWritable ts)
    (hsize : (operandsOctets ts).length < 65536) :
    reached (fun x => x.2.length) (1 + (lengthOctets (operandsOctets ts).length).length)
      (operandItems ts) = operandItems (readOperands ts) := by
  have hheader := lengthOctets_length hsize
  rw [operandsWritable_iff] at h
  rcases List.eq_nil_or_concat' ts with rfl | ⟨front, last, rfl⟩
  · rw [readOperands, if_neg fun hlost => by cases hlost.2]
    rfl
  have hlast := FilterTree.three_le (h last (by simp)).2
  rw [readOperands, List.getLast?_concat, List.dropLast_concat]
  by_cases hlost : 256 ≤ (operandsOctets (front ++ [last])).length ∧ last.octets.length = 3
  · rw [if_neg (by omega), if_neg (by omega)] at hheader
    rw [if_pos ⟨hlost.1, congrArg some hlost.2⟩, hheader, operandItems, List.map_append]
    refine reached_dropLast (by simp [hlost.2]) fun y hy => ?_
    obtain ⟨t, ht, rfl⟩ := List.mem_map.1 hy
    have htwo := t.two_le
    simp only [hlost.2]
    omega
  · rw [if_neg fun hboth => hlost ⟨hboth.1, Option.some.inj hboth.2⟩]
    refine reached_eq_self fun x hx => ?_
    rw [operandItems, List.map_append, List.map_singleton, List.getLast?_concat] at hx
    cases hx
    simp only
    split_ifs at hheader <;> omega

theorem decodes_operands {tag : UInt8} {make : List SearchFilter → SearchFilter}
    {ts : List FilterTree} (htag : (tag, make) ∈ filterSets) (h : OperandsWritable ts)
    (hsize : (operandsOctets ts).length < 65536)
    (reads : ∀ t ∈ ts, Decodes t.octets t.filter) :
    Decodes (tlv tag (operandsOctets ts)) (make (operandFilters (readOperands ts))) := by
  have shape : ∀ x ∈ operandItems ts, ∃ tag content, Tlv tag content x.2 := by
    intro x hx
    obtain ⟨t, ht, rfl⟩ := List.mem_map.1 hx
    obtain ⟨tag, content, hoctets, -⟩ := t.octets_eq
    have hwritable := operandsWritable_iff.1 h t ht
    have hlen := octets_size hwritable.2
    rw [hoctets, tlv_length] at hlen
    exact ⟨tag, content, hoctets ▸ tlv_isTlv (by omega)⟩
  have fits : ∀ x ∈ operandItems ts, x.2.length < 512 := by
    intro x hx
    obtain ⟨t, ht, rfl⟩ := List.mem_map.1 hx
    have hwritable := operandsWritable_iff.1 h t ht
    have hoctets := octets_size hwritable.2
    simp only
    omega
  have hout : Tlv tag ((operandItems ts).flatMap Prod.snd) (tlv tag (operandsOctets ts)) := by
    rw [operandItems_octets]
    exact tlv_isTlv (by omega)
  have hreads : ∀ x ∈ operandItems ts, Decodes x.2 x.1 := by
    intro x hx
    obtain ⟨t, ht, rfl⟩ := List.mem_map.1 hx
    exact reads t ht
  have hset := decodes_set htag shape fits hout hreads
  have hheader : (tlv tag (operandsOctets ts)).length - (operandsOctets ts).length =
      1 + (lengthOctets (operandsOctets ts).length).length := by
    rw [tlv_length]
    omega
  rwa [operandItems_octets, hheader, reached_operands h hsize, operandItems_filters] at hset

mutual

/-- A filter is read, but for an operand that is left out. -/
theorem FilterTree.decodes : ∀ {t : FilterTree}, t.Writable → Decodes t.octets t.read.filter
  | .compound op operands, h => by
    have hparts := h
    rw [FilterTree.Writable] at hparts
    obtain ⟨htakes, hlen, hoperands⟩ := hparts
    have reads := operands_decode hoperands
    rw [FilterTree.octets] at hlen ⊢
    have hsize : (operandsOctets operands).length < 65536 := by
      rw [tlv_length] at hlen
      omega
    cases op with
    | and =>
      have hset : ((0xa0 : UInt8), SearchFilter.and) ∈ filterSets := List.mem_cons_self
      rw [FilterTree.read, FilterTree.filter]
      exact decodes_operands hset hoperands hsize reads
    | or =>
      have hset : ((0xa1 : UInt8), SearchFilter.or) ∈ filterSets :=
        List.mem_cons_of_mem _ List.mem_cons_self
      rw [FilterTree.read, FilterTree.filter]
      exact decodes_operands hset hoperands hsize reads
    | not =>
      rw [FilterTree.read_not h, FilterTree.filter]
      obtain ⟨t, rfl⟩ := List.length_eq_one_iff.1 htakes
      have hoperand := operandsWritable_iff.1 hoperands t List.mem_cons_self
      have hoctets := octets_size hoperand.2
      have hone : operandsOctets [t] = t.octets := by
        rw [operandsOctets, operandsOctets, List.append_nil]
      rw [operandFilters, operandFilters, hone]
      exact decodes_not (by omega) (tlv_isTlv (by omega)) (reads t List.mem_cons_self)
  | .item op name value, h => by
    rw [FilterTree.Writable, FilterTree.text, List.length_append, List.length_append] at h
    obtain ⟨-, -, hlen⟩ := h
    have hmax : ldapMaxAttrValueSize = 8192 := rfl
    have hname := tlv_length_le 0x04 name
    have hvalue := tlv_length_le 0x04 value
    have htag : (op.tag, op.make) ∈ comparisons := by
      cases op <;> simp [comparisons, Comparison.tag, Comparison.make]
    rw [FilterTree.octets, FilterTree.read, FilterTree.filter]
    refine decodes_comparison htag (tlv_isTlv (by omega)) (tlv_isTlv (by omega)) (by omega)
      (by omega) (tlv_isTlv ?_)
    rw [List.length_append]
    omega
  | .present name, h => by
    rw [FilterTree.Writable, FilterTree.text, List.length_append] at h
    have hmax : ldapMaxAttrValueSize = 8192 := rfl
    rw [FilterTree.octets, FilterTree.read, FilterTree.filter]
    exact decodes_present (by omega) (tlv_isTlv (by omega))

theorem operands_decode : ∀ {ts : List FilterTree}, OperandsWritable ts →
    ∀ t ∈ ts, Decodes t.octets t.filter
  | [], _, t, ht => absurd ht List.not_mem_nil
  | t :: ts, h, t', ht' => by
    rw [OperandsWritable] at h
    rcases List.mem_cons.1 ht' with heq | ht'
    · have hread := FilterTree.decodes h.2.1
      rw [FilterTree.read_short h.2.1 h.1] at hread
      rwa [heq]
    · exact operands_decode h.2.2 t' ht'

end

/-! ## The text of a tree -/

theorem IsName.noNul {s : List UInt8} (h : IsName s) : 0 ∉ s := fun hzero =>
  absurd (h.chars 0 hzero) (by decide)

theorem IsValue.noNul {s : List UInt8} (h : IsValue s) : 0 ∉ s := fun hzero =>
  h.chars 0 hzero List.mem_cons_self

mutual

theorem filterText_filter : ∀ {t : FilterTree}, t.Writable →
    filterText t.filter = ascii "(" ++ t.text ++ ascii ")"
  | .compound op operands, h => by
    rw [FilterTree.Writable] at h
    have hmembers := membersText_filters h.2.2
    rw [FilterTree.filter, FilterTree.text]
    cases op with
    | and =>
      rw [Connective.make, filterText, hmembers]
      rfl
    | or =>
      rw [Connective.make, filterText, hmembers]
      rfl
    | not =>
      obtain ⟨t, rfl⟩ := List.length_eq_one_iff.1 h.1
      rw [operandFilters, operandFilters, membersText, membersText, List.append_nil] at hmembers
      rw [operandFilters, Connective.make, List.headD_cons, filterText, hmembers]
      rfl
  | .item op name value, _ => by
    rw [FilterTree.filter, FilterTree.text]
    cases op <;> simp only [Comparison.make, Comparison.text, filterText, List.append_assoc]
  | .present name, _ => by
    have hend : ascii "=*)" = ascii "=*" ++ ascii ")" := by decide
    rw [FilterTree.filter, FilterTree.text, filterText, hend, ← List.append_assoc,
      ← List.append_assoc]

theorem membersText_filters : ∀ {ts : List FilterTree}, OperandsWritable ts →
    membersText (operandFilters ts) = operandsText ts
  | [], _ => by rw [operandFilters, operandsText, membersText]
  | t :: ts, h => by
    rw [OperandsWritable] at h
    have hclose : ascii ")" ++ operandsText ts = 0x29 :: operandsText ts := rfl
    rw [operandFilters, operandsText, membersText, filterText_filter h.2.1,
      membersText_filters h.2.2, List.append_assoc, List.append_assoc, hclose]
    rfl

end

/-! ## Printing -/

section

variable {stray : Except Fault Unit} {garbage : Nat → UInt8}

theorem item_immediate (op : Comparison) {name value : List UInt8} (hn : 0 ∉ name)
    (hv : 0 ∉ value) : Immediate (op.make name value) := by
  have hname := beforeNul_eq_self.2 hn
  have hvalue := beforeNul_eq_self.2 hv
  have hopen : 0 ∉ ascii "(" := by decide
  have hop : 0 ∉ op.text := by cases op <;> decide
  have hclose : 0 ∉ ascii ")" := by decide
  have htext : filterText (op.make name value) =
      ascii "(" ++ name ++ op.text ++ value ++ ascii ")" := by
    cases op <;> rw [Comparison.make, filterText, Comparison.text]
  refine ⟨fun stray garbage b => ?_, ?_⟩
  · cases op <;> rw [Comparison.make, ldapFilterToString, filterText, comparisonText, hname, hvalue]
  · rw [htext]
    exact noNul_append (noNul_append (noNul_append (noNul_append hopen hn) hop) hv) hclose

theorem present_immediate {name : List UInt8} (hn : 0 ∉ name) : Immediate (.present name) := by
  have hopen : 0 ∉ ascii "(" := by decide
  have hclose : 0 ∉ ascii "=*)" := by decide
  refine ⟨fun stray garbage b => ?_, ?_⟩
  · rw [ldapFilterToString, beforeNul_eq_self.2 hn, filterText]
  · rw [filterText]
    exact noNul_append (noNul_append hopen hn) hclose

theorem and_prints {members : List SearchFilter}
    (h : AppendsText (printOperands stray garbage members) (membersText members)) :
    Prints stray garbage (.and members) := by
  have hset := set_appends "(&" (by decide) h
  refine AppendsText.prints ?_ (by rw [filterText])
  simpa only [ldapFilterToString] using hset

theorem or_prints {members : List SearchFilter}
    (h : AppendsText (printOperands stray garbage members) (membersText members)) :
    Prints stray garbage (.or members) := by
  have hset := set_appends "(|" (by decide) h
  refine AppendsText.prints ?_ (by rw [filterText])
  simpa only [ldapFilterToString] using hset

theorem not_prints {member : SearchFilter} (h : Prints stray garbage member)
    (room : (filterText member).length < 256) : Prints stray garbage (.not member) := by
  obtain ⟨a, ha, atext⟩ := h _ (emptyString_text (by decide) garbage) room
  have hopen : 0 ∉ ascii "(!" := by decide
  have hclose : 0 ∉ ascii ")" := by decide
  intro b hb hroom
  rw [filterText] at hroom ⊢
  obtain ⟨b', hok, htext, -⟩ := sprintf_ok (noNul_append (noNul_append hopen atext.noNul) hclose)
    hroom
  refine ⟨b', ?_, htext⟩
  simp only [ldapFilterToString, ha, ok_bind, atext.cstr, hok]

/-- An operand, and those behind it. -/
theorem cons_appends {member : SearchFilter} {members : List SearchFilter}
    (h : Prints stray garbage member) (room : (filterText member).length < 256)
    (hrest : AppendsText (printOperands stray garbage members) (membersText members)) :
    AppendsText (printOperands stray garbage (member :: members))
      (membersText (member :: members)) := by
  obtain ⟨a, ha, atext⟩ := h _ (emptyString_text (by decide) garbage) room
  have heq : printOperands stray garbage (member :: members) = fun b =>
      strcat b (filterText member) >>= printOperands stray garbage members := by
    funext b
    simp only [printOperands, ha, ok_bind, atext.cstr]
  rw [heq, membersText]
  exact (strcat_appends atext.noNul).then hrest

/-- An operand has room in the array that it is printed to. -/
theorem operand_room {t : FilterTree} (h : t.Writable) (hlen : t.text.length ≤ 127) :
    (filterText t.filter).length < 256 := by
  rw [filterText_filter h, List.length_append, List.length_append]
  have hopen : (ascii "(").length = 1 := rfl
  have hclose : (ascii ")").length = 1 := rfl
  omega

mutual

theorem FilterTree.prints : ∀ {t : FilterTree}, t.Writable → Prints stray garbage t.filter
  | .compound op operands, h => by
    rw [FilterTree.Writable] at h
    rw [FilterTree.filter]
    cases op with
    | and => exact and_prints (operands_print h.2.2)
    | or => exact or_prints (operands_print h.2.2)
    | not =>
      obtain ⟨t, rfl⟩ := List.length_eq_one_iff.1 h.1
      have hoperand := h.2.2
      rw [OperandsWritable] at hoperand
      rw [operandFilters]
      exact not_prints (FilterTree.prints hoperand.2.1) (operand_room hoperand.2.1 hoperand.1)
  | .item op name value, h => by
    rw [FilterTree.Writable] at h
    rw [FilterTree.filter]
    exact (item_immediate op h.1.noNul h.2.1.noNul).prints
  | .present name, h => by
    rw [FilterTree.Writable] at h
    rw [FilterTree.filter]
    exact (present_immediate h.1.noNul).prints

theorem operands_print : ∀ {ts : List FilterTree}, OperandsWritable ts →
    AppendsText (printOperands stray garbage (operandFilters ts)) (membersText (operandFilters ts))
  | [], _ => by
    have heq : printOperands stray garbage [] = pure := funext fun b => by rw [printOperands]
    rw [operandFilters, heq, membersText]
    exact pure_appends
  | t :: ts, h => by
    rw [OperandsWritable] at h
    rw [operandFilters]
    exact cons_appends (FilterTree.prints h.2.1) (operand_room h.2.1 h.1) (operands_print h.2.2)

end

end

/-! ## A search -/

/-- What LDAP_gen_search_request is called with, besides the stack. -/
structure SearchCall where
  dn : List UInt8
  scope : String
  filter : FilterTree
  names : List (List UInt8)
  deref : UInt8

namespace SearchCall

/-- LDAP_gen_search_request, its object being the text of the filter in parentheses. -/
def generate (tid : Int) (ber : Option BER) (q : SearchCall) : Except Fault (Int × BER) := do
  let filt ← processObject (0x28 :: (q.filter.text ++ [0x29]))
  ldapGenSearchRequest true tid ber q.dn q.scope filt (valsOctets q.names) q.deref []

structure Valid (q : SearchCall) : Prop where
  filter : q.filter.Writable
  names : ∀ s ∈ q.names, s.length < ldapMaxAttrValueSize

/-- The message of the search, its filter being `f`. -/
def message (tid : Int) (q : SearchCall) (f : SearchFilter) : LdapMessage where
  choice := .searchRequest
  messageId := UInt32.ofNat tid.toNat
  alt := .searchRequest ⟨sent q.dn, schar (scopeOctet q.scope), schar q.deref, 0, 0, 0, some f,
    q.names⟩
  controls := []

end SearchCall

/-- The octets of a search with this filter. -/
theorem SearchCall.berval {tid : Int} (h0 : 0 ≤ tid) (hmax : tid < 0x7fffffff) {ber : Option BER}
    {q : SearchCall} (valid : q.Valid) {b : BER}
    (hgen : q.generate tid ber = .ok (tidIncrement tid, b)) :
    ∃ tag content, q.filter.octets = tlv tag content ∧ (tag &&& 0x1f).toNat ≤ 9 ∧
      (messageContent (tidIncrement tid) (tlv 0x63 ((Controlled.sentSearch q.dn q.scope tag content
        q.names q.deref).octets (createDn 0x04 q.dn))) []).length < 2 ^ 24 ∧
      b.berval = tlv 0x30 (messageContent (tidIncrement tid) (tlv 0x63 ((Controlled.sentSearch q.dn
        q.scope tag content q.names q.deref).octets (createDn 0x04 q.dn))) []) := by
  obtain ⟨tag, content, hoctets, hten⟩ := q.filter.octets_eq
  have hobject : processObject (0x28 :: (q.filter.text ++ [0x29])) = .ok q.filter.octets := by
    rw [processObject_eq valid.filter]
    exact processFilterIn_eq valid.filter (Nat.lt_succ_self _)
      (FilterTree.octets_length_le valid.filter)
  rw [generate, hobject, ok_bind, hoctets] at hgen
  obtain ⟨hlen, hbytes⟩ := (sentSearch_generated h0 hmax ber [] q.dn q.scope tag content q.names
    q.deref).ok hgen
  exact ⟨tag, content, hoctets, hten, hlen, hbytes⟩

/-- `(& (a=b) … (a=b) (c=*))` with 32 comparisons is read without its last operand. -/
example : (FilterTree.compound .and (List.replicate 32 (.item .equal [0x61] [0x62]) ++
      [.present [0x63]])).read =
    .compound .and (List.replicate 32 (.item .equal [0x61] [0x62])) := by
  rw [FilterTree.read, readOperands, if_pos (by decide +kernel), List.dropLast_concat]

end CassandraApi.Ldap
