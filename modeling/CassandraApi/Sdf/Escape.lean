/-
# `Sdf.Escape` — the entities of sdfxml.c

SDF_xml_encode_data writes `<`, `>`, `'` and `"` as entities, and `&` too unless
an entity starts with it already.  SDF_xml_decode_data reads the entities back:

    a < b &amp; c & d    →    a &lt; b &amp; c &amp; d    →    a < b & c & d

A text is read entity by entity and character by character (`entity_induction`);
what is written for a character is again one entity or one character, and never
joins with what follows it.
-/
import CassandraApi.Sdf.Xml

namespace CassandraApi.Sdf

open C

/-! ## SDF_xml_decode_data -/

/-- The strings of _DECODE_CONST_STR and what they stand for. -/
def entities : List (List UInt8 × UInt8) :=
  [(ascii "&lt;", 0x3c), (ascii "&gt;", 0x3e), (ascii "&amp;", 0x26), (ascii "&apos;", 0x27),
    (ascii "&quot;", 0x22)]

/-- The entity that memory starts with. -/
def entityAt (memory : List UInt8) : Option (List UInt8 × UInt8) :=
  entities.find? fun e => e.1.isPrefixOf memory

/-- `while (len > 0)`, with `behind` in memory behind the data.  An entity may reach over the
end. -/
def decodeLoop (behind : List UInt8) : Nat → List UInt8 → List UInt8
  | 0, _ => []
  | _, [] => []
  | turns + 1, c :: s =>
      match if c = 0x26 then entityAt (c :: s ++ behind) else none with
      | some (str, b) => b :: decodeLoop behind turns ((c :: s).drop str.length)
      | none => c :: decodeLoop behind turns s

/-- SDF_xml_decode_data: what it writes before the NUL. -/
def sdfXmlDecodeData (behind s : List UInt8) : List UInt8 := decodeLoop behind s.length s

/-- What SDF_xml_encode_data returns: `(int)(t-tt)`. -/
def sdfXmlEncodeReturn (behind s : List UInt8) : Int :=
  int32 (sdfXmlEncodeData behind s).length

/-! ## Entities -/

theorem encodedStrings_eq : encodedStrings = entities.map Prod.fst := rfl

theorem entity_shape : ∀ e ∈ entities, ∃ name, e.1 = 0x26 :: name ∧
    ∀ c ∈ name, c ≠ 0 ∧ c ≠ 0x26 ∧ c ≠ 0x3c ∧ c ≠ 0x3e ∧ c ≠ 0x27 ∧ c ≠ 0x22 := by
  simp [entities, ascii]

/-- No entity is the beginning of another one. -/
theorem entity_eq_of_begins : ∀ e ∈ entities, ∀ e' ∈ entities, e.1 <+: e'.1 → e = e' := by
  simp [entities, ascii]

/-- An entity ends before a byte that is in none. -/
theorem entity_prefix_iff {e : List UInt8 × UInt8} {c : UInt8} (hc : c ∉ e.1)
    (s more : List UInt8) : e.1 <+: s ++ c :: more ↔ e.1 <+: s := by
  refine ⟨fun h => ?_, fun h => h.trans (List.prefix_append ..)⟩
  rcases List.prefix_or_prefix_of_prefix h (List.prefix_append s _) with hshort | ⟨t, ht⟩
  · exact hshort
  · rw [← ht, List.prefix_append_right_inj] at h
    cases t with
    | nil => exact ⟨[], by rw [List.append_nil, ← ht, List.append_nil]⟩
    | cons d t =>
      obtain rfl := (List.cons_prefix_cons.1 h).1
      exact absurd (ht ▸ List.mem_append_right s List.mem_cons_self) hc

theorem entities_no_nul : ∀ e ∈ entities, (0 : UInt8) ∉ e.1 := by
  simp [entities, ascii]

theorem entityAt_append {c : UInt8} (hc : ∀ e ∈ entities, c ∉ e.1) (s more : List UInt8) :
    entityAt (s ++ c :: more) = entityAt s := by
  refine List.find?_congr fun e he => ?_
  rw [Bool.eq_iff_iff, List.isPrefixOf_iff_prefix, List.isPrefixOf_iff_prefix,
    entity_prefix_iff (hc e he)]

theorem entityAt_behind (s more : List UInt8) : entityAt (s ++ 0 :: more) = entityAt s :=
  entityAt_append entities_no_nul s more

theorem entityAt_begins {s : List UInt8} {e : List UInt8 × UInt8} (h : entityAt s = some e) :
    e.1 <+: s := by
  rw [entityAt] at h
  have hbool := List.find?_some h
  exact List.isPrefixOf_iff_prefix.1 hbool

theorem entityAt_entity {e : List UInt8 × UInt8} (he : e ∈ entities) (s : List UInt8) :
    entityAt (e.1 ++ s) = some e := by
  cases h : entityAt (e.1 ++ s) with
  | none =>
    have hnone := List.find?_eq_none.1 h e he
    rw [List.isPrefixOf_iff_prefix] at hnone
    exact absurd (List.prefix_append ..) hnone
  | some e' =>
    have he' : e' ∈ entities := List.mem_of_find?_eq_some h
    have hpre : e'.1 <+: e.1 ++ s := entityAt_begins h
    rcases List.prefix_or_prefix_of_prefix hpre (List.prefix_append e.1 s) with hlt | hlt
    · rw [entity_eq_of_begins e' he' e he hlt]
    · rw [entity_eq_of_begins e he e' he' hlt]

theorem entityAt_eq_some {s : List UInt8} {e : List UInt8 × UInt8} (h : entityAt s = some e) :
    e ∈ entities ∧ ∃ rest, s = e.1 ++ rest := by
  obtain ⟨rest, hrest⟩ := entityAt_begins h
  exact ⟨List.mem_of_find?_eq_some h, rest, hrest.symm⟩

/-- A text is read entity by entity, and character by character where there is none. -/
theorem entity_induction {P : List UInt8 → Prop} (nil : P [])
    (entity : ∀ e ∈ entities, ∀ s, P s → P (e.1 ++ s))
    (char : ∀ c s, entityAt (c :: s) = none → P s → P (c :: s)) : ∀ s, P s := by
  intro s
  induction hn : s.length using Nat.strong_induction_on generalizing s with
  | _ n ih =>
    subst hn
    cases h : entityAt s with
    | some e =>
      obtain ⟨he, rest, rfl⟩ := entityAt_eq_some h
      obtain ⟨name, hname, -⟩ := entity_shape e he
      refine entity e he rest (ih rest.length ?_ rest rfl)
      rw [List.length_append, hname, List.length_cons]
      omega
    | none =>
      cases s with
      | nil => exact nil
      | cons c s => exact char c s h (ih s.length (Nat.lt_succ_self _) s rfl)

/-! ## Decoding -/

theorem decodeLoop_turns {behind s : List UInt8} {turns turns' : Nat} (h : s.length ≤ turns)
    (h' : s.length ≤ turns') : decodeLoop behind turns s = decodeLoop behind turns' s := by
  induction turns generalizing s turns' with
  | zero =>
    obtain rfl := List.eq_nil_of_length_eq_zero (Nat.le_zero.1 h)
    cases turns' <;> rfl
  | succ turns ih =>
    cases s with
    | nil => cases turns' <;> rfl
    | cons c s =>
      obtain ⟨turns', rfl⟩ := Nat.exists_eq_succ_of_ne_zero (Nat.ne_zero_of_lt h')
      rw [decodeLoop, decodeLoop]
      split
      · next str b hfind =>
        have hdrop : ((c :: s).drop str.length).length ≤ s.length := by
          split at hfind
          · obtain ⟨name, hname, -⟩ := entity_shape _ (List.mem_of_find?_eq_some hfind)
            change str = _ at hname
            rw [List.length_drop, hname, List.length_cons, List.length_cons]
            omega
          · cases hfind
        rw [ih (hdrop.trans (Nat.le_of_succ_le_succ h)) (hdrop.trans (Nat.le_of_succ_le_succ h'))]
      · rw [ih (Nat.le_of_succ_le_succ h) (Nat.le_of_succ_le_succ h')]

section

variable (more : List UInt8)

@[simp] theorem decode_nil (behind : List UInt8) : sdfXmlDecodeData behind [] = [] := rfl

/-- An entity is decoded. -/
theorem decode_entity {e : List UInt8 × UInt8} (he : e ∈ entities) (s : List UInt8) :
    sdfXmlDecodeData (0 :: more) (e.1 ++ s) = e.2 :: sdfXmlDecodeData (0 :: more) s := by
  obtain ⟨name, hname, -⟩ := entity_shape e he
  have hat := entityAt_entity he s
  rw [← entityAt_behind _ more, hname, List.cons_append] at hat
  have hdrop : (0x26 :: (name ++ s)).drop e.1.length = s := by
    rw [← List.cons_append, ← hname, List.drop_left]
  rw [hname, List.cons_append, sdfXmlDecodeData, List.length_cons, decodeLoop, if_pos rfl, hat]
  simp only [hdrop]
  rw [decodeLoop_turns (by rw [List.length_append]; omega) le_rfl]
  rfl

/-- What is not an entity is copied. -/
theorem decode_char {c : UInt8} {s : List UInt8} (h : c = 0x26 → entityAt (c :: s) = none) :
    sdfXmlDecodeData (0 :: more) (c :: s) = c :: sdfXmlDecodeData (0 :: more) s := by
  have hnone : (if c = 0x26 then entityAt (c :: s ++ 0 :: more) else none) = none := by
    split_ifs with hc
    · rw [entityAt_behind, h hc]
    · rfl
  rw [sdfXmlDecodeData, List.length_cons, decodeLoop, hnone]
  rfl

/-! ## Encoding -/

theorem entityAt_eq_none {memory : List UInt8} :
    entityAt memory = none ↔ encodedStrings.any (·.isPrefixOf memory) = false := by
  rw [encodedStrings_eq, List.any_map, List.any_eq_false, entityAt, List.find?_eq_none]
  rfl

theorem encodeByte_amp (rest : List UInt8) : encodeByte 0x26 rest =
    if encodedStrings.any (·.isPrefixOf rest) then [0x26] else ascii "&amp;" := rfl

theorem encodeByte_entity {e : List UInt8 × UInt8} (he : e ∈ entities) {rest : List UInt8}
    (h : e.2 = 0x26 → entityAt rest = none) : encodeByte e.2 rest = e.1 := by
  simp only [entities, List.mem_cons, List.not_mem_nil, or_false] at he
  rcases he with rfl | rfl | rfl | rfl | rfl
  · rfl
  · rfl
  · rw [encodeByte_amp, entityAt_eq_none.1 (h rfl)]
    rfl
  · rfl
  · rfl

theorem encodeByte_plain {c : UInt8} (h : ∀ e ∈ entities, c ≠ e.2) (rest : List UInt8) :
    encodeByte c rest = [c] := by
  simp only [entities, List.forall_mem_cons, List.not_mem_nil, false_implies, implies_true,
    and_true] at h
  obtain ⟨hlt, hgt, hamp, hapos, hquot⟩ := h
  simp only [encodeByte, if_neg hlt, if_neg hgt, if_neg hamp, if_neg hapos, if_neg hquot]

theorem encode_name {name : List UInt8} (h : ∀ c ∈ name, ∀ e ∈ entities, c ≠ e.2)
    (s : List UInt8) : sdfXmlEncodeData (0 :: more) (name ++ s) =
      name ++ sdfXmlEncodeData (0 :: more) s := by
  induction name with
  | nil => rfl
  | cons c name ih =>
    obtain ⟨hc, hname⟩ := List.forall_mem_cons.1 h
    rw [List.cons_append, sdfXmlEncodeData, encodeByte_plain hc, ih hname]
    rfl

/-- An entity is left alone. -/
theorem encode_entity {e : List UInt8 × UInt8} (he : e ∈ entities) (s : List UInt8) :
    sdfXmlEncodeData (0 :: more) (e.1 ++ s) = e.1 ++ sdfXmlEncodeData (0 :: more) s := by
  obtain ⟨name, hname, hbytes⟩ := entity_shape e he
  have hplain : ∀ c ∈ name, ∀ e ∈ entities, c ≠ e.2 := by
    intro c hc
    obtain ⟨-, hamp, hlt, hgt, hapos, hquot⟩ := hbytes c hc
    simp only [entities, List.forall_mem_cons, List.not_mem_nil, false_implies, implies_true,
      and_true]
    exact ⟨hlt, hgt, hamp, hapos, hquot⟩
  have hthere : encodedStrings.any (·.isPrefixOf (0x26 :: (name ++ s) ++ 0 :: more)) = true := by
    have hat := entityAt_entity he s
    rw [hname, List.cons_append, ← entityAt_behind _ more] at hat
    by_contra hnot
    rw [entityAt_eq_none.2 (Bool.eq_false_iff.2 hnot)] at hat
    cases hat
  have hbyte : encodeByte 0x26 (0x26 :: (name ++ s) ++ 0 :: more) = [0x26] := by
    rw [encodeByte_amp, if_pos hthere]
  rw [hname, List.cons_append, sdfXmlEncodeData, hbyte, encode_name more hplain]
  rfl

/-- Every `&` begins one of the five entities. -/
def AmpEntities (t : List UInt8) : Prop :=
  ∀ front rest, t = front ++ 0x26 :: rest → ∃ str ∈ encodedStrings, str <+: 0x26 :: rest

theorem AmpEntities.nil : AmpEntities [] := by
  intro front rest h
  cases front <;> cases h

theorem AmpEntities.cons {c : UInt8} {t : List UInt8} (h : AmpEntities t)
    (hc : c = 0x26 → ∃ str ∈ encodedStrings, str <+: 0x26 :: t) : AmpEntities (c :: t) := by
  intro front rest he
  cases front with
  | nil =>
    cases he
    exact hc rfl
  | cons d front =>
    cases he
    exact h front rest rfl

theorem AmpEntities.name {name t : List UInt8} (h : AmpEntities t) (hname : ∀ c ∈ name, c ≠ 0x26) :
    AmpEntities (name ++ t) := by
  induction name with
  | nil => exact h
  | cons c name ih =>
    obtain ⟨hc, hname⟩ := List.forall_mem_cons.1 hname
    exact (ih hname).cons fun h => absurd h hc

theorem AmpEntities.entity {e : List UInt8 × UInt8} (he : e ∈ entities) {t : List UInt8}
    (h : AmpEntities t) : AmpEntities (e.1 ++ t) := by
  obtain ⟨name, hname, hbytes⟩ := entity_shape e he
  have hmem : e.1 ∈ encodedStrings := encodedStrings_eq ▸ List.mem_map_of_mem he
  have hpre : e.1 <+: 0x26 :: (name ++ t) := by
    rw [hname, ← List.cons_append]
    exact List.prefix_append ..
  rw [hname, List.cons_append]
  exact (h.name fun c hc => (hbytes c hc).2.1).cons fun _ => ⟨e.1, hmem, hpre⟩

/-- A text and what is written for it. -/
inductive Escaped : List UInt8 → List UInt8 → Prop
  | nil : Escaped [] []
  | entity {e : List UInt8 × UInt8} {s t : List UInt8} : e ∈ entities → Escaped s t →
      Escaped (e.1 ++ s) (e.1 ++ t)
  | special {e : List UInt8 × UInt8} {s t : List UInt8} : e ∈ entities →
      entityAt (e.2 :: s) = none → Escaped s t → Escaped (e.2 :: s) (e.1 ++ t)
  | plain {c : UInt8} {s t : List UInt8} : (∀ e ∈ entities, c ≠ e.2) → Escaped s t →
      Escaped (c :: s) (c :: t)

theorem encode_escaped (s : List UInt8) : Escaped s (sdfXmlEncodeData (0 :: more) s) := by
  induction s using entity_induction with
  | nil => exact .nil
  | entity e he s ih =>
    rw [encode_entity more he]
    exact .entity he ih
  | char c s hnone ih =>
    rw [sdfXmlEncodeData]
    by_cases hc : ∀ e ∈ entities, c ≠ e.2
    · rw [encodeByte_plain hc]
      exact .plain hc ih
    · push Not at hc
      obtain ⟨e, he, rfl⟩ := hc
      rw [encodeByte_entity he fun _ => (entityAt_behind _ more).trans hnone]
      exact .special he hnone ih

end

namespace Escaped

variable {s t : List UInt8}

/-- What is written is left alone. -/
theorem again (h : Escaped s t) (more : List UInt8) : sdfXmlEncodeData (0 :: more) t = t := by
  induction h with
  | nil => rfl
  | entity he _ ih => rw [encode_entity more he, ih]
  | special he _ _ ih => rw [encode_entity more he, ih]
  | plain hc _ ih =>
    rw [sdfXmlEncodeData, encodeByte_plain hc, ih]
    rfl

/-- What is written is decoded to what the text is decoded to. -/
theorem decode (h : Escaped s t) (more more' : List UInt8) :
    sdfXmlDecodeData (0 :: more') t = sdfXmlDecodeData (0 :: more) s := by
  induction h with
  | nil => rfl
  | entity he _ ih => rw [decode_entity more' he, decode_entity more he, ih]
  | special he hnone _ ih => rw [decode_entity more' he, decode_char more fun _ => hnone, ih]
  | @plain c s t hc _ ih =>
    have hamp : c ≠ 0x26 := hc (ascii "&amp;", 0x26) (by simp [entities])
    rw [decode_char more' fun h => absurd h hamp, decode_char more fun h => absurd h hamp, ih]

theorem amp (h : Escaped s t) : AmpEntities t := by
  induction h with
  | nil => exact .nil
  | entity he _ ih => exact ih.entity he
  | special he _ _ ih => exact ih.entity he
  | @plain c s t hc _ ih =>
    have hamp : c ≠ 0x26 := hc (ascii "&amp;", 0x26) (by simp [entities])
    exact ih.cons fun h => absurd h hamp

theorem not_mem_nul (h : Escaped s t) (h0 : 0 ∉ s) : 0 ∉ t := by
  have hentity : ∀ e ∈ entities, (0 : UInt8) ∉ e.1 := by simp [entities, ascii]
  induction h with
  | nil => exact h0
  | entity he _ ih =>
    rw [List.mem_append, not_or] at h0 ⊢
    exact ⟨h0.1, ih h0.2⟩
  | special he _ _ ih =>
    rw [List.mem_cons, not_or] at h0
    rw [List.mem_append, not_or]
    exact ⟨hentity _ he, ih h0.2⟩
  | plain _ _ ih =>
    rw [List.mem_cons, not_or] at h0 ⊢
    exact ⟨h0.1, ih h0.2⟩

end Escaped

/-! ## Lengths -/

/-- The length of a text once it is escaped. -/
def escapedLength : List UInt8 → Nat
  | [] => 0
  | c :: s =>
      (if c = 0x3c ∨ c = 0x3e then 4
        else if c = 0x27 ∨ c = 0x22 then 6
        else if c = 0x26 ∧ entityAt (c :: s) = none then 5
        else 1) + escapedLength s

theorem encode_length (more s : List UInt8) :
    (sdfXmlEncodeData (0 :: more) s).length = escapedLength s := by
  induction s with
  | nil => rfl
  | cons c s ih =>
    rw [sdfXmlEncodeData, escapedLength, List.length_append, ih]
    congr 1
    by_cases hlt : c = 0x3c
    · subst hlt
      rfl
    by_cases hgt : c = 0x3e
    · subst hgt
      rfl
    by_cases hapos : c = 0x27
    · subst hapos
      rfl
    by_cases hquot : c = 0x22
    · subst hquot
      rfl
    by_cases hamp : c = 0x26
    · subst hamp
      have hat := entityAt_behind (0x26 :: s) more
      by_cases hnone : entityAt (0x26 :: s) = none
      · have hany := entityAt_eq_none.1 (hat.trans hnone)
        rw [encodeByte_amp, hany]
        simp [hnone, ascii]
      · have hany := entityAt_eq_none.not.1 (hat ▸ hnone)
        rw [Bool.not_eq_false] at hany
        rw [encodeByte_amp, hany]
        simp [hnone]
    · simp [encodeByte, hlt, hgt, hapos, hquot, hamp]

/-- What comes behind the end of the data does not matter if it starts with a byte that is in no
entity. -/
theorem decode_behind {c c' : UInt8} (hc : ∀ e ∈ entities, c ∉ e.1) (hc' : ∀ e ∈ entities, c' ∉ e.1)
    (more more' s : List UInt8) :
    sdfXmlDecodeData (c :: more) s = sdfXmlDecodeData (c' :: more') s := by
  have hloop : ∀ (turns : Nat) (s : List UInt8),
      decodeLoop (c :: more) turns s = decodeLoop (c' :: more') turns s := by
    intro turns
    induction turns with
    | zero => exact fun s => rfl
    | succ turns ih =>
      intro s
      cases s with
      | nil => rfl
      | cons d s =>
        simp only [decodeLoop, entityAt_append hc, entityAt_append hc', ih]
  exact hloop s.length s

theorem decode_length_le (behind s : List UInt8) :
    (sdfXmlDecodeData behind s).length ≤ s.length := by
  have hloop : ∀ (turns : Nat) (s : List UInt8), (decodeLoop behind turns s).length ≤ turns := by
    intro turns
    induction turns with
    | zero => exact fun s => le_rfl
    | succ turns ih =>
      intro s
      cases s with
      | nil => exact Nat.zero_le _
      | cons c s =>
        rw [decodeLoop]
        split
        · exact Nat.succ_le_succ (ih _)
        · exact Nat.succ_le_succ (ih _)
  exact hloop s.length s

/-- A text without entities is decoded to itself. -/
theorem decode_plain {s : List UInt8} (h : ∀ str ∈ encodedStrings, ¬ str <:+: s)
    (more : List UInt8) : sdfXmlDecodeData (0 :: more) s = s := by
  induction s with
  | nil => rfl
  | cons c s ih =>
    have hs : ∀ str ∈ encodedStrings, ¬ str <:+: s := fun str hmem hin =>
      h str hmem (hin.trans (List.suffix_cons c s).isInfix)
    have hnone : entityAt (c :: s) = none := by
      by_contra hsome
      obtain ⟨e, he⟩ := Option.ne_none_iff_exists'.1 hsome
      have hmem : e.1 ∈ encodedStrings :=
        encodedStrings_eq ▸ List.mem_map_of_mem (entityAt_eq_some he).1
      exact h e.1 hmem (entityAt_begins he).isInfix
    rw [decode_char more fun _ => hnone, ih hs]

/-! ## The escaping -/

/-- What should hold of a text, of what SDF_xml_encode_data writes before a NUL and returns for it,
and of what both are decoded to; `more` is what lies behind the NUL of the text. -/
structure Escapes (more s : List UInt8) : Prop where
  nul : 0 ∉ sdfXmlEncodeData (0 :: more) s
  plain : ∀ c ∈ ascii "<>'\"", c ∉ sdfXmlEncodeData (0 :: more) s
  amp : AmpEntities (sdfXmlEncodeData (0 :: more) s)
  length : sdfXmlEncodeReturn (0 :: more) s = (sdfXmlEncodeData (0 :: more) s).length
  again : ∀ more', sdfXmlEncodeData (0 :: more') (sdfXmlEncodeData (0 :: more) s) =
    sdfXmlEncodeData (0 :: more) s
  decode : ∀ more', sdfXmlDecodeData (0 :: more') (sdfXmlEncodeData (0 :: more) s) =
    sdfXmlDecodeData (0 :: more) s
  same : (∀ str ∈ encodedStrings, ¬ str <:+: s) → ∀ more',
    sdfXmlDecodeData (0 :: more') (sdfXmlEncodeData (0 :: more) s) = s
  room : (sdfXmlDecodeData (0 :: more) s ++ [0]).length ≤ s.length + 1

/-- Escaping is right if and only if an int can hold the length of what is written. -/
theorem escapes_iff {s : List UInt8} (h0 : 0 ∉ s) (more : List UInt8) :
    Escapes more s ↔ escapedLength s < 2 ^ 31 := by
  have h := encode_escaped more s
  constructor
  · intro hall
    have hret := hall.length
    rw [sdfXmlEncodeReturn, encode_length] at hret
    have := (int32_range (escapedLength s)).2
    omega
  · intro hlt
    refine ⟨h.not_mem_nul h0, fun c hc => not_mem_sdfXmlEncodeData hc _ _, h.amp, ?_, h.again,
      h.decode more, ?_, ?_⟩
    · rw [sdfXmlEncodeReturn, encode_length, int32_natCast hlt]
    · exact fun hplain more' => (h.decode more more').trans (decode_plain hplain more)
    · rw [List.length_append]
      exact Nat.succ_le_succ (decode_length_le _ s)

/-- `a<b&amp;c&`: an entity is there, and `<` and a bare `&`. -/
theorem escapes_mixed : Escapes [] (ascii "a<b&amp;c&") :=
  (escapes_iff (by decide) []).2 (by decide)

theorem escapedLength_quotes (n : Nat) : escapedLength (List.replicate n 0x22) = 6 * n := by
  induction n with
  | zero => rfl
  | succ n ih =>
    rw [List.replicate_succ, escapedLength, ih]
    change 6 + 6 * n = _
    omega

/-- 357913942 quotes take 2147483652 bytes. -/
theorem quotes_overflow : ¬ ∀ s more : List UInt8, 0 ∉ s → s.length < 2 ^ 31 → Escapes more s := by
  intro h
  have hquotes : ∀ n, 2 ^ 31 ≤ 6 * n → ¬ Escapes [] (List.replicate n 0x22) := by
    intro n hn hall
    have hret := hall.length
    rw [sdfXmlEncodeReturn, encode_length, escapedLength_quotes] at hret
    have := (int32_range (6 * n : Nat)).2
    omega
  refine hquotes 357913942 (by norm_num) (h _ [] ?_ ?_)
  · rw [List.mem_replicate]
    exact fun h => absurd h.2 (by decide)
  · rw [List.length_replicate]
    norm_num

end CassandraApi.Sdf
