/-
# `Ldap.Substrings` — items with stars

    name=p0*p1*…*pk

create_ber_filter counts the stars.  Without one the item is a comparison; with
one it is written out case by case; with more, any_substring takes the value apart
and makes the part with the number of the last star the final one.  The length of
the whole is guessed from the text first, and corrected by the length of the
array that is written to, which is the right one only where the filter starts at
the front of that array.
-/
import CassandraApi.Ldap.MatchingRule

namespace CassandraApi.Ldap

open C Ber

/-! ## Items -/

/-- `name=first*…`, with the pieces behind the stars. -/
structure StarItem where
  name : List UInt8
  first : List UInt8
  rest : List (List UInt8)

namespace StarItem

def value (item : StarItem) : List UInt8 := [0x2a].intercalate (item.first :: item.rest)

def text (item : StarItem) : List UInt8 := item.name ++ 0x3d :: item.value

/-- A piece of a value, when it is not empty. -/
def piece (choice : SubstringChoice) (s : List UInt8) : List (SubstringChoice × List UInt8) :=
  if s = [] then [] else [(choice, s)]

def parts (item : StarItem) : List (SubstringChoice × List UInt8) :=
  piece .initial item.first ++ item.rest.dropLast.map (fun s => (.any, s)) ++
    piece .final (item.rest.getLastD [])

def filter (item : StarItem) : SearchFilter :=
  if item.rest = [] then .equalityMatch item.name item.first
  else .substrings (some item.name) item.parts

structure Valid (item : StarItem) : Prop where
  name : IsName item.name
  chars : ∀ p ∈ item.first :: item.rest, ∀ c ∈ p, c ∉ 0 :: ascii "()*<>~:="
  some : item.rest ≠ [] → ∃ p ∈ item.first :: item.rest, p ≠ []
  apart : ∀ p ∈ item.rest.dropLast, p ≠ []
  short : item.text.length ≤ 100

/-- The bytes of the parts, each with a tag and a length. -/
def partsLength (item : StarItem) : Nat := (item.parts.map fun x => x.2.length + 2).sum

/-- What is to be behind the length of the filter. -/
def contentLength (item : StarItem) : Nat :=
  item.name.length + 4 + if item.rest = [] then item.first.length else item.partsLength

/-- The length that is written first when there are two stars or more. -/
def guess (item : StarItem) : Nat := item.text.length + item.rest.length * 2 + 2 - 1

/-- The condition for the item to be encoded rightly at the index `start`. -/
def Encodable (item : StarItem) (start : Nat) : Prop :=
  (item.rest = [] → item.first ≠ []) ∧
    (2 ≤ item.rest.length → item.first = [] ∧ item.partsLength < 128 ∧
      start % 256 = if item.guess < 128 then 0 else 255) ∧
    start + item.contentLength + (if 2 ≤ item.rest.length ∧ 128 ≤ item.guess then 3 else 2) ≤ 1024

end StarItem

/-! ## Encodings -/

theorem isFilter_equality_iff {name value out : List UInt8} :
    IsFilter (.equalityMatch name value) out ↔
      ∃ n v, Tlv 0x04 name n ∧ Tlv 0x04 value v ∧ Tlv 0xa3 (n ++ v) out := by
  constructor
  · intro h
    generalize hf : SearchFilter.equalityMatch name value = f at h
    cases h with
    | set htag =>
      simp only [filterSets, List.mem_cons, Prod.mk.injEq, List.not_mem_nil, or_false] at htag
      rcases htag with ⟨-, rfl⟩ | ⟨-, rfl⟩ <;> cases hf
    | not => cases hf
    | comparison htag hname hvalue _ _ hout =>
      simp only [comparisons, List.mem_cons, Prod.mk.injEq, List.not_mem_nil, or_false] at htag
      rcases htag with ⟨rfl, rfl⟩ | ⟨-, rfl⟩ | ⟨-, rfl⟩ | ⟨-, rfl⟩ <;> cases hf
      exact ⟨_, _, hname, hvalue, hout⟩
    | substrings => cases hf
    | present => cases hf
    | extensible => cases hf
  · rintro ⟨n, v, hname, hvalue, hout⟩
    exact .comparison (by simp [comparisons]) hname hvalue trivial trivial hout

/-- Parts and their bytes, one by one. -/
theorem parts_tlvs {parts : List ((SubstringChoice × List UInt8) × List UInt8)}
    (h : ∀ x ∈ parts, Tlv x.1.1.tag x.1.2 x.2) :
    Tlvs ((parts.map Prod.fst).map fun x => (x.1.tag, x.2)) (parts.flatMap Prod.snd) := by
  induction parts with
  | nil => exact .nil
  | cons x parts ih =>
    exact .cons (h x List.mem_cons_self) (ih fun y hy => h y (List.mem_cons_of_mem x hy))

theorem tlvs_parts {parts : List (SubstringChoice × List UInt8)} {s : List UInt8}
    (h : Tlvs (parts.map fun x => (x.1.tag, x.2)) s) :
    ∃ xs : List ((SubstringChoice × List UInt8) × List UInt8), xs.map Prod.fst = parts ∧
      xs.flatMap Prod.snd = s ∧ ∀ x ∈ xs, Tlv x.1.1.tag x.1.2 x.2 := by
  induction parts generalizing s with
  | nil =>
    cases h
    exact ⟨[], rfl, rfl, fun x hx => absurd hx List.not_mem_nil⟩
  | cons x parts ih =>
    cases h with
    | cons head tail =>
      obtain ⟨xs, hfst, hsnd, hall⟩ := ih tail
      refine ⟨(x, _) :: xs, by rw [List.map_cons, hfst], by rw [List.flatMap_cons, hsnd], ?_⟩
      intro y hy
      rcases List.mem_cons.1 hy with rfl | hmem
      · exact head
      · exact hall y hmem

theorem isFilter_substrings_iff {name out : List UInt8}
    {parts : List (SubstringChoice × List UInt8)} :
    IsFilter (.substrings (some name) parts) out ↔ ∃ s t l,
      Tlvs (parts.map fun x => (x.1.tag, x.2)) s ∧ Tlv 0x04 name t ∧ Tlv 0x30 s l ∧
        Tlv 0xa4 (t ++ l) out := by
  constructor
  · intro h
    generalize hf : SearchFilter.substrings (some name) parts = f at h
    cases h with
    | set htag =>
      simp only [filterSets, List.mem_cons, Prod.mk.injEq, List.not_mem_nil, or_false] at htag
      rcases htag with ⟨-, rfl⟩ | ⟨-, rfl⟩ <;> cases hf
    | not => cases hf
    | comparison htag =>
      simp only [comparisons, List.mem_cons, Prod.mk.injEq, List.not_mem_nil, or_false] at htag
      rcases htag with ⟨-, rfl⟩ | ⟨-, rfl⟩ | ⟨-, rfl⟩ | ⟨-, rfl⟩ <;> cases hf
    | substrings htype _ hparts _ hlist hout _ =>
      cases hf
      exact ⟨_, _, _, parts_tlvs hparts, htype, hlist, hout⟩
    | present => cases hf
    | extensible => cases hf
  · rintro ⟨s, t, l, hs, htype, hlist, hout⟩
    obtain ⟨xs, rfl, rfl, hxs⟩ := tlvs_parts hs
    exact .substrings htype trivial hxs (fun _ _ => trivial) hlist hout fun _ _ => trivial

/-! ## Values -/

section

variable {item : StarItem}

theorem StarItem.Valid.no_star (h : item.Valid) : ∀ p ∈ item.first :: item.rest, 0x2a ∉ p :=
  fun p hp hmem => h.chars p hp _ hmem (by decide)

theorem count_intercalate {first : List UInt8} {rest : List (List UInt8)}
    (h : ∀ p ∈ first :: rest, 0x2a ∉ p) :
    ([0x2a].intercalate (first :: rest)).count 0x2a = rest.length := by
  induction rest generalizing first with
  | nil =>
    rw [List.intercalate_singleton, List.count_eq_zero.2 (h first List.mem_cons_self)]
    rfl
  | cons p rest ih =>
    rw [List.intercalate_cons_cons, List.count_append, List.count_append,
      ih fun q hq => h q (List.mem_cons_of_mem first hq),
      List.count_eq_zero.2 (h first List.mem_cons_self), List.count_singleton_self,
      List.length_cons]
    omega

theorem length_intercalate (first : List UInt8) (rest : List (List UInt8)) :
    ([0x2a].intercalate (first :: rest)).length =
      first.length + (rest.map fun p => p.length + 1).sum := by
  induction rest generalizing first with
  | nil => rw [List.intercalate_singleton]; rfl
  | cons p rest ih =>
    rw [List.intercalate_cons_cons, List.length_append, List.length_append, ih, List.map_cons,
      List.sum_cons, List.length_singleton]
    omega

/-- The characters of a text are those of the pieces, and the stars. -/
theorem mem_intercalate {c : UInt8} {first : List UInt8} {rest : List (List UInt8)}
    (h : c ∈ [0x2a].intercalate (first :: rest)) : c = 0x2a ∨ ∃ p ∈ first :: rest, c ∈ p := by
  induction rest generalizing first with
  | nil =>
    rw [List.intercalate_singleton] at h
    exact .inr ⟨first, List.mem_cons_self, h⟩
  | cons p rest ih =>
    rw [List.intercalate_cons_cons] at h
    rcases List.mem_append.1 h with hleft | hright
    · rcases List.mem_append.1 hleft with hfirst | hstar
      · exact .inr ⟨first, List.mem_cons_self, hfirst⟩
      · exact .inl (List.mem_singleton.1 hstar)
    · exact (ih hright).imp_right fun ⟨q, hq, hc⟩ => ⟨q, List.mem_cons_of_mem first hq, hc⟩

theorem StarItem.Valid.not_mem_text (h : item.Valid) {c : UInt8} (hc : c ∈ ascii "()<>~:") :
    c ∉ item.text := by
  have hin : c ∈ ascii "()*<>~:=&|!" ∧ c ≠ 0x3d ∧ c ≠ 0x2a ∧ c ∈ 0 :: ascii "()*<>~:=" := by
    revert c
    decide +kernel
  intro hmem
  rcases List.mem_append.1 hmem with hname | hrest
  · exact h.name.not_mem hin.1 hname
  rcases List.mem_cons.1 hrest with heq | hvalue
  · exact hin.2.1 heq
  rcases mem_intercalate hvalue with hstar | ⟨p, hp, hmem⟩
  · exact hin.2.2.1 hstar
  · exact h.chars p hp c hmem hin.2.2.2

/-- An item with stars is no comparison with `<`, `>` or `~`, and no extensible match. -/
theorem createBerFilter_star (h : item.Valid) (bFilt : List UInt8) :
    createBerFilter item.text bFilt = equalityFilter bFilt item.text := by
  have hsome : item.text ≠ [] := List.append_ne_nil_of_left_ne_nil h.name.some _
  rw [createBerFilter_eq (h.not_mem_text (by decide)),
    checkOperation_absent (h.not_mem_text (by decide)) hsome, ok_bind]
  simp only [checkOperation_absent (h.not_mem_text (show 0x3e ∈ ascii "()<>~:" by decide)) hsome,
    checkOperation_absent (h.not_mem_text (show 0x7e ∈ ascii "()<>~:" by decide)) hsome, ok_bind]

end

/-! ## What is written -/

/-- Two pieces put one after the other. -/
theorem putFilter_append {α : Type} (bFilt xs ys : List UInt8)
    (next : List UInt8 → Except Fault α) :
    (do
      let b ← putFilter bFilt xs
      let b ← putFilter b ys
      next b) = (do
      let b ← putFilter bFilt (xs ++ ys)
      next b) := by
  unfold putFilter
  by_cases hall : (bFilt ++ (xs ++ ys)).length ≤ 1024
  · have hfirst : (bFilt ++ xs).length ≤ 1024 := by
      simp only [List.length_append] at hall ⊢
      omega
    rw [if_pos hfirst, if_pos hall, ok_bind, ok_bind, List.append_assoc, if_pos hall, ok_bind]
  · rw [if_neg hall]
    by_cases hfirst : (bFilt ++ xs).length ≤ 1024
    · rw [if_pos hfirst, ok_bind, List.append_assoc, if_neg hall]
    · rw [if_neg hfirst]
      rfl

theorem putFilter_last (bFilt xs ys : List UInt8) :
    (do
      let b ← putFilter bFilt xs
      putFilter b ys) = putFilter bFilt (xs ++ ys) := by
  have happend := putFilter_append bFilt xs ys pure
  simpa only [bind_pure] using happend

theorem putFilter_ok_iff {bFilt xs r : List UInt8} :
    putFilter bFilt xs = .ok r ↔ bFilt.length + xs.length ≤ 1024 ∧ r = bFilt ++ xs := by
  rw [← List.length_append]
  constructor
  · intro h
    unfold putFilter at h
    split at h
    · rename_i hle
      cases h
      exact ⟨hle, rfl⟩
    · cases h
  · rintro ⟨hle, rfl⟩
    exact putFilter_eq hle

/-- An item is cut at its `=`. -/
structure CutAt (name value : List UInt8) : Prop where
  end_ : scanPast 0x3d (name ++ 0x3d :: value) = name.length + 1
  before : (name ++ 0x3d :: value).take (name.length + 1 - 1) = name
  behind : (name ++ 0x3d :: value).drop (name.length + 1) = value
  length : (name ++ 0x3d :: value).length = name.length + 1 + value.length

theorem cutAt {name value : List UInt8} (hn : IsName name) : CutAt name value where
  end_ := by
    have hequal : 0x3d ∉ name := hn.not_mem (by decide)
    cases value with
    | cons v vs => exact scanPast_found v vs hequal
    | nil =>
      clear hn
      induction name with
      | nil => rfl
      | cons x xs ih =>
        rw [List.mem_cons, not_or] at hequal
        obtain ⟨z, zs, hzs⟩ : ∃ z zs, xs ++ [0x3d] = z :: zs :=
          List.exists_cons_of_ne_nil (List.append_ne_nil_of_right_ne_nil _ (List.cons_ne_nil _ _))
        rw [List.cons_append, hzs, scanPast, if_neg (Ne.symm hequal.1), ← hzs, ih hequal.2,
          List.length_cons]
  before := by simp
  behind := by simp [List.drop_append]
  length := by
    simp only [List.length_append, List.length_cons]
    omega

theorem charAt_value (name vs : List UInt8) (v : UInt8) :
    charAt (name ++ 0x3d :: v :: vs) (name.length + 1) = .ok v := by
  have hat := charAt_append (name ++ [0x3d]) vs v
  rwa [List.append_assoc, List.length_append] at hat

theorem shortField_of_length {tag : UInt8} {n : Nat} {bytes : List UInt8} (hn : n = bytes.length)
    (hlen : n < 128) : tag :: lengthOctets n ++ bytes = shortField tag bytes := by
  subst hn
  rw [lengthOctets, if_pos hlen]
  rfl

@[simp] theorem shortField_length (tag : UInt8) (bytes : List UInt8) :
    (shortField tag bytes).length = bytes.length + 2 := by
  rw [shortField, List.length_cons, List.length_cons]

theorem insertLength_small {n : Nat} (h : n < 2 ^ 24) :
    insertLength n = .ok (lengthOctets n) := by
  rw [insertLength_eq_ite, if_pos h]

section

variable {bFilt name value : List UInt8}

/-- An item without a value is taken for one without a `=`. -/
theorem equalityFilter_empty (hn : IsName name) (hlen : name.length < 2 ^ 20) :
    equalityFilter bFilt (name ++ [0x3d]) =
      putFilter bFilt (0xa3 :: lengthOctets ((ascii "objectClass").length + (name.length + 1) + 4) ++
        shortField 0x04 (ascii "objectClass") ++ shortField 0x04 (name ++ [0x3d])) := by
  have hcut : CutAt name [] := cutAt hn
  have hlength : (name ++ [0x3d]).length = name.length + 1 := hcut.length
  have hchar : charAt (name ++ [0x3d]) (name.length + 1) = .ok 0 := by
    rw [← hlength]
    exact charAt_end _
  have hclass : (ascii "objectClass").length = 11 := by decide
  unfold equalityFilter
  simp only [hcut.end_, hchar, ok_bind]
  rw [if_neg (by simp), hlength, if_pos rfl, insertLength_small (by omega), ok_bind]

/-- The scans of an item with a value that is not `*` alone. -/
theorem equalityFilter_value (hn : IsName name) (hsome : value ≠ []) (hstar : value ≠ [0x2a]) :
    equalityFilter bFilt (name ++ 0x3d :: value) =
      (if value.count 0x2a = 0 then do
        let L ← insertLength (name.length + 1 + value.length + 3)
        putFilter bFilt (0xa3 :: L ++ (shortField 0x04 name ++ shortField 0x04 value))
      else if value.count 0x2a = 1 then do
        let ends := value.getLast? = some 0x2a ∨ value.head? = some 0x2a
        let L ← insertLength (name.length + 1 + value.length + if ends then 4 else 6)
        putFilter bFilt (0xa4 :: L ++ (shortField 0x04 name ++ oneStar value))
      else do
        let L ← insertLength (name.length + 1 + value.length + value.count 0x2a * 2 + 2 - 1)
        let bFilt ← putFilter bFilt (0xa4 :: L)
        let editLen := bFilt.length - 1
        let bFilt ← putFilter bFilt (shortField 0x04 name ++ [0x30])
        anySubstring value bFilt (value.count 0x2a) editLen) := by
  obtain ⟨v, vs, rfl⟩ := List.exists_cons_of_ne_nil hsome
  have hcut : CutAt name (v :: vs) := cutAt hn
  have hfirst : ¬ (v = 0x2a ∧ name.length + 1 = name.length + 1 + (v :: vs).length - 1) := by
    rintro ⟨rfl, hlen⟩
    refine hstar ?_
    rw [List.length_cons] at hlen
    rw [List.length_eq_zero_iff.1 (show vs.length = 0 by omega)]
  have hend : ¬ name.length + 1 = name.length + 1 + (v :: vs).length := by
    rw [List.length_cons]
    omega
  unfold equalityFilter
  simp only [hcut.end_, charAt_value, hcut.length, hcut.before, hcut.behind, ok_bind]
  rw [if_neg hfirst, if_neg hend]
  simp only [putFilter_append, putFilter_last]

end

/-- The parts, one after another. -/
def partsOctets (parts : List (SubstringChoice × List UInt8)) : List UInt8 :=
  parts.flatMap fun x => shortField x.1.tag x.2

theorem partsOctets_length (parts : List (SubstringChoice × List UInt8)) :
    (partsOctets parts).length = (parts.map fun x => x.2.length + 2).sum := by
  induction parts with
  | nil => rfl
  | cons x parts ih =>
    rw [partsOctets, List.flatMap_cons, List.length_append, List.map_cons, List.sum_cons, ← ih]
    rfl

theorem partsOctets_tlvs {parts : List (SubstringChoice × List UInt8)}
    (h : ∀ x ∈ parts, x.2.length < 128) :
    Tlvs (parts.map fun x => (x.1.tag, x.2)) (partsOctets parts) := by
  induction parts with
  | nil => exact .nil
  | cons x parts ih =>
    exact .cons (shortField_isTlv (h x List.mem_cons_self))
      (ih fun y hy => h y (List.mem_cons_of_mem x hy))

/-- A filter with its type and its parts in fields with short lengths. -/
theorem isFilter_written {name : List UInt8} {parts : List (SubstringChoice × List UInt8)}
    {out : List UInt8} (hname : name.length < 128) (hparts : (partsOctets parts).length < 128)
    (hout : Tlv 0xa4 (shortField 0x04 name ++ shortField 0x30 (partsOctets parts)) out) :
    IsFilter (.substrings (some name) parts) out := by
  refine isFilter_substrings_iff.2 ⟨_, _, _, partsOctets_tlvs fun x hx => ?_,
    shortField_isTlv hname, shortField_isTlv hparts, hout⟩
  have hmem : x.2.length + 2 ∈ parts.map fun x => x.2.length + 2 := List.mem_map_of_mem hx
  have hle := List.single_le_sum (fun _ _ => Nat.zero_le _) _ hmem
  rw [← partsOctets_length] at hle
  omega

/-! ## One star -/

section

variable {item : StarItem} {bFilt : List UInt8}

/-- The value of an item with one star, that is not `*` alone. -/
theorem oneStar_eq {first last : List UInt8} (hfirst : 0x2a ∉ first) (hlast : 0x2a ∉ last)
    (hsome : first ≠ [] ∨ last ≠ []) :
    oneStar (first ++ 0x2a :: last) =
      shortField 0x30 (partsOctets (StarItem.piece .initial first ++ StarItem.piece .final last)) ∧
    (if (first ++ 0x2a :: last).getLast? = some 0x2a ∨
        (first ++ 0x2a :: last).head? = some 0x2a then 4 else 6) + (first ++ 0x2a :: last).length =
      (partsOctets (StarItem.piece .initial first ++ StarItem.piece .final last)).length + 3 := by
  cases first with
  | nil =>
    have hne : last ≠ [] := hsome.resolve_left (fun h => h rfl)
    constructor
    · simp [oneStar, StarItem.piece, hne, partsOctets, shortField, SubstringChoice.tag]
    · simp [StarItem.piece, hne, partsOctets, shortField]
      omega
  | cons c f =>
    have hc : c ≠ 0x2a := by
      rintro rfl
      exact hfirst List.mem_cons_self
    have hhead : ∀ xs, (c :: f ++ 0x2a :: xs).head? ≠ some 0x2a := by
      intro xs h
      exact hc (Option.some.inj h)
    cases last with
    | nil =>
      have hend : (c :: f ++ [0x2a]).getLast? = some 0x2a := List.getLast?_concat
      constructor
      · rw [oneStar, if_neg (hhead []), if_pos hend, List.dropLast_concat]
        simp [StarItem.piece, partsOctets, shortField, SubstringChoice.tag]
      · rw [if_pos (.inl hend)]
        simp [StarItem.piece, partsOctets, shortField]
        omega
    | cons l ls =>
      have hend : (c :: f ++ 0x2a :: l :: ls).getLast? ≠ some 0x2a := by
        intro hlastStar
        have hmem : 0x2a ∈ l :: ls := by
          refine List.mem_of_getLast? ?_
          rw [← hlastStar, List.getLast?_append, List.getLast?_cons_cons,
            List.getLast?_eq_some_getLast (List.cons_ne_nil l ls), Option.some_or]
        exact hlast hmem
      have hscan : scanPast 0x2a (c :: f ++ 0x2a :: l :: ls) = (c :: f).length + 1 :=
        scanPast_found l ls hfirst
      have htake : (c :: f ++ 0x2a :: l :: ls).take ((c :: f).length + 1 - 1) = c :: f := by simp
      have hdrop : (c :: f ++ 0x2a :: l :: ls).drop ((c :: f).length + 1) = l :: ls := by
        simp [List.drop_append]
      constructor
      · rw [oneStar, if_neg (hhead _), if_neg hend]
        simp only [hscan, htake, hdrop]
        simp [StarItem.piece, partsOctets, shortField, SubstringChoice.tag, List.length_append]
        grind
      · rw [if_neg (not_or.2 ⟨hend, hhead _⟩)]
        simp [StarItem.piece, partsOctets, shortField]
        omega

end

/-! ## Up to one star -/

/-- The item is encoded at the end of the array, and nothing else is changed. -/
def StarItem.IsEncoded (item : StarItem) (bFilt : List UInt8) : Prop :=
  ∃ out, createBerFilter item.text bFilt = .ok (bFilt ++ out) ∧ IsFilter item.filter out

section

variable {item : StarItem} {bFilt out : List UInt8}

theorem isEncoded_of_put (hput : createBerFilter item.text bFilt = putFilter bFilt out)
    (hout : IsFilter item.filter out) :
    item.IsEncoded bFilt ↔ bFilt.length + out.length ≤ 1024 := by
  constructor
  · rintro ⟨out', hcreate, -⟩
    rw [hput] at hcreate
    exact (putFilter_ok_iff.1 hcreate).1
  · intro hroom
    exact ⟨out, hput.trans (putFilter_ok_iff.2 ⟨hroom, rfl⟩), hout⟩

theorem not_isEncoded_of_put (hput : createBerFilter item.text bFilt = putFilter bFilt out)
    (hout : ¬ IsFilter item.filter out) : ¬ item.IsEncoded bFilt := by
  rintro ⟨out', hcreate, hfilter⟩
  rw [hput] at hcreate
  have heq := (putFilter_ok_iff.1 hcreate).2
  rw [List.append_cancel_left heq] at hfilter
  exact hout hfilter

theorem StarItem.Valid.lengths (h : item.Valid) :
    1 ≤ item.name.length ∧ item.name.length + 1 + item.value.length ≤ 100 := by
  have hcut : CutAt item.name item.value := cutAt h.name
  have hshort := h.short
  rw [StarItem.text, hcut.length] at hshort
  exact ⟨List.length_pos_iff.2 h.name.some, hshort⟩

/-- Without a star. -/
theorem isEncoded_plain (h : item.Valid) (hrest : item.rest = []) :
    item.IsEncoded bFilt ↔ item.Encodable bFilt.length := by
  have hlen := h.lengths
  have hvalue : item.value = item.first := by rw [StarItem.value, hrest, List.intercalate_singleton]
  have hfilter : item.filter = .equalityMatch item.name item.first := by
    rw [StarItem.filter, if_pos hrest]
  have hcond : item.Encodable bFilt.length ↔
      item.first ≠ [] ∧ bFilt.length + (item.name.length + 4 + item.first.length) + 2 ≤ 1024 := by
    simp [StarItem.Encodable, StarItem.contentLength, hrest]
  rw [hcond]
  rw [hvalue] at hlen
  by_cases hsome : item.first = []
  · -- the item is taken for a value of objectClass
    have htext : item.text = item.name ++ [0x3d] := by rw [StarItem.text, hvalue, hsome]
    have hput := (createBerFilter_star h bFilt).trans
      (htext ▸ equalityFilter_empty h.name (by omega))
    refine iff_of_false (not_isEncoded_of_put hput ?_) fun hno => hno.1 hsome
    have hclass : (ascii "objectClass").length = 11 := by decide
    have hsize : item.text.length = item.name.length + 1 := by
      rw [htext, List.length_append]
      rfl
    rw [List.append_assoc, shortField_of_length (by simp [hclass]; omega) (by omega), hfilter,
      isFilter_equality_iff]
    rintro ⟨n, v, hname, hv, hout⟩
    have hcontent := hout.inj (shortField_isTlv (by simp [hclass]; omega))
    obtain ⟨-, rfl⟩ := hname.append_inj (shortField_isTlv (by omega)) hcontent
    have hempty := hv.inj (shortField_isTlv (by omega))
    rw [hsome] at hempty
    rw [← hempty] at hsize
    cases hsize
  · have hstar : 0x2a ∉ item.first := h.no_star _ List.mem_cons_self
    have hput : createBerFilter item.text bFilt = putFilter bFilt
        (shortField 0xa3 (shortField 0x04 item.name ++ shortField 0x04 item.first)) := by
      rw [createBerFilter_star h, StarItem.text, hvalue,
        equalityFilter_value h.name hsome (by rintro heq; exact hstar (by rw [heq]; decide)),
        if_pos (List.count_eq_zero.2 hstar), insertLength_small (by omega), ok_bind,
        shortField_of_length (by simp; omega) (by omega)]
    rw [isEncoded_of_put hput]
    · simp only [shortField_length, List.length_append]
      constructor
      · intro hroom
        exact ⟨hsome, by omega⟩
      · rintro ⟨-, hroom⟩
        omega
    · rw [hfilter]
      exact isFilter_equality_iff.2 ⟨_, _, shortField_isTlv (by omega), shortField_isTlv (by omega),
        shortField_isTlv (by simp; omega)⟩

/-- With one star. -/
theorem isEncoded_oneStar (h : item.Valid) {last : List UInt8} (hrest : item.rest = [last]) :
    item.IsEncoded bFilt ↔ item.Encodable bFilt.length := by
  have hlen := h.lengths
  have hvalue : item.value = item.first ++ 0x2a :: last := by
    rw [StarItem.value, hrest, List.intercalate_cons_cons, List.intercalate_singleton,
      List.append_assoc]
    rfl
  have hparts : item.parts =
      StarItem.piece .initial item.first ++ StarItem.piece .final last := by
    simp [StarItem.parts, hrest]
  have hfilter : item.filter = .substrings (some item.name) item.parts := by
    rw [StarItem.filter, if_neg (by simp [hrest])]
  have hfirst : 0x2a ∉ item.first := h.no_star _ List.mem_cons_self
  have hlast : 0x2a ∉ last := h.no_star _ (by simp [hrest])
  have hsome : item.first ≠ [] ∨ last ≠ [] := by
    obtain ⟨p, hp, hne⟩ := h.some (by simp [hrest])
    simp only [hrest, List.mem_cons, List.not_mem_nil, or_false] at hp
    rcases hp with rfl | rfl
    · exact .inl hne
    · exact .inr hne
  have hcount : item.value.count 0x2a = 1 := by
    rw [StarItem.value, count_intercalate h.no_star, hrest]
    rfl
  obtain ⟨hwritten, hends⟩ := oneStar_eq hfirst hlast hsome
  rw [← hparts, ← hvalue] at hwritten hends
  have hroom : (partsOctets item.parts).length ≤ item.value.length + 3 := by
    split at hends <;> omega
  have hput : createBerFilter item.text bFilt = putFilter bFilt (shortField 0xa4
      (shortField 0x04 item.name ++ shortField 0x30 (partsOctets item.parts))) := by
    have hsize : item.name.length + 1 + item.value.length +
        (if item.value.getLast? = some 0x2a ∨ item.value.head? = some 0x2a then 4 else 6) =
          (shortField 0x04 item.name ++ shortField 0x30 (partsOctets item.parts)).length := by
      rw [List.length_append, shortField_length, shortField_length]
      omega
    have hnotStar : item.value ≠ [0x2a] := by
      intro heq
      rw [hvalue] at heq
      have hone := congrArg List.length heq
      rw [List.length_append, List.length_cons, List.length_singleton] at hone
      rcases hsome with hne | hne
      · have := List.length_pos_iff.2 hne
        omega
      · have := List.length_pos_iff.2 hne
        omega
    rw [createBerFilter_star h, StarItem.text, equalityFilter_value h.name (by simp [hvalue]) hnotStar,
      if_neg (by rw [hcount]; decide), if_pos hcount]
    simp only
    rw [hwritten, hsize, insertLength_small (by simp; omega), ok_bind,
      shortField_of_length rfl (by simp; omega)]
  rw [isEncoded_of_put hput]
  · simp only [StarItem.Encodable, StarItem.contentLength, StarItem.partsLength,
      ← partsOctets_length, hrest, shortField_length, List.length_append]
    simp
    omega
  · rw [hfilter]
    exact isFilter_written (by omega) (by omega) (shortField_isTlv (by simp; omega))

end

/-! ## Several stars -/

/-- The tags that any_substring gives to the pieces. -/
def starTags (countSub : Nat) : Nat → List (List UInt8) → List (UInt8 × List UInt8)
  | _, [] => []
  | index, s :: parts =>
      (if index = countSub - 1 then 0x82 else 0x81, s) :: starTags countSub (index + 1) parts

section

variable {countSub index : Nat} {xs ys : List (List UInt8)}

theorem substringOctets_eq : substringOctets countSub index xs =
    (starTags countSub index xs).flatMap fun x => shortField x.1 x.2 := by
  induction xs generalizing index with
  | nil => rfl
  | cons s xs ih =>
    rw [substringOctets, starTags, List.flatMap_cons, ih]

theorem substringOctets_length :
    (substringOctets countSub index xs).length = (xs.map fun s => s.length + 2).sum := by
  induction xs generalizing index with
  | nil => rfl
  | cons s xs ih =>
    rw [substringOctets, List.length_append, ih, shortField_length, List.map_cons, List.sum_cons]

/-- No part is an initial one. -/
theorem starTags_tag : ∀ x ∈ starTags countSub index xs, x.1 = 0x81 ∨ x.1 = 0x82 := by
  induction xs generalizing index with
  | nil =>
    intro x hx
    cases hx
  | cons s xs ih =>
    intro x hx
    rcases List.mem_cons.1 hx with rfl | hmem
    · by_cases hlast : index = countSub - 1
      · exact .inr (if_pos hlast)
      · exact .inl (if_neg hlast)
    · exact ih x hmem

theorem substringOctets_head :
    ∀ c ∈ (substringOctets countSub index xs).head?, 128 < c.toNat := by
  cases xs with
  | nil =>
    intro c hc
    cases hc
  | cons s xs =>
    intro c hc
    cases hc
    split <;> decide

theorem substringOctets_tlvs (h : ∀ s ∈ xs, s.length < 128) :
    Tlvs (starTags countSub index xs) (substringOctets countSub index xs) := by
  induction xs generalizing index with
  | nil => exact .nil
  | cons s xs ih =>
    exact .cons (shortField_isTlv (h s List.mem_cons_self))
      (ih fun y hy => h y (List.mem_cons_of_mem s hy))

/-- The pieces before the number of the last star are inner ones. -/
theorem starTags_append (h : index + xs.length < countSub) :
    starTags countSub index (xs ++ ys) =
      xs.map (fun s => (0x81, s)) ++ starTags countSub (index + xs.length) ys := by
  induction xs generalizing index with
  | nil => rfl
  | cons s xs ih =>
    rw [List.length_cons] at h
    rw [List.cons_append, starTags, if_neg (by omega), ih (by omega), List.map_cons,
      List.cons_append, List.length_cons, Nat.add_assoc, Nat.add_comm 1]

end

/-- The pieces of an item with stars. -/
theorem StarItem.Valid.pieces {item : StarItem} (h : item.Valid) (hstar : item.rest ≠ []) :
    strtok 0x2a item.value = (if item.first = [] then [] else [item.first]) ++
      item.rest.dropLast ++ (if item.rest.getLastD [] = [] then [] else [item.rest.getLastD []]) := by
  have hsplit : item.value.splitOn 0x2a = item.first :: item.rest :=
    List.splitOn_intercalate 0x2a h.no_star (List.cons_ne_nil _ _)
  obtain ⟨mids, last, hrest⟩ := List.eq_nil_or_concat item.rest |>.resolve_left hstar
  have hmids : mids.filter (· ≠ []) = mids := by
    refine List.filter_eq_self.2 fun p hp => ?_
    have hne := h.apart p (by rw [hrest, List.concat_eq_append, List.dropLast_concat]; exact hp)
    simpa using hne
  rw [strtok, hsplit, hrest, List.concat_eq_append, List.dropLast_concat, List.getLastD_concat,
    ← List.cons_append, List.filter_append, List.filter_cons, hmids]
  by_cases hfirst : item.first = []
  · by_cases hlast : last = [] <;> simp [hfirst, hlast]
  · by_cases hlast : last = [] <;> simp [hfirst, hlast]

/-- The tags are those of the parts when the value starts with a star. -/
theorem starTags_parts {item : StarItem} (hfirst : item.first = []) (hstar : item.rest ≠ []) :
    starTags item.rest.length 0 (item.rest.dropLast ++
      if item.rest.getLastD [] = [] then [] else [item.rest.getLastD []]) =
        item.parts.map fun x => (x.1.tag, x.2) := by
  have hpos := List.length_pos_iff.2 hstar
  have hmids : item.rest.dropLast.length = item.rest.length - 1 := List.length_dropLast
  rw [starTags_append (by omega), StarItem.parts, hfirst, List.map_append, List.map_append,
    List.map_map, Nat.zero_add, hmids]
  congr 1
  by_cases hlast : item.rest.getLastD [] = []
  · rw [if_pos hlast, StarItem.piece, if_pos hlast]
    rfl
  · rw [if_neg hlast, StarItem.piece, if_neg hlast, starTags, if_pos rfl]
    rfl

/-- And only then. -/
theorem first_of_starTags {item : StarItem} {countSub : Nat} {xs : List (List UInt8)}
    (h : item.parts.map (fun x => (x.1.tag, x.2)) = starTags countSub 0 xs) : item.first = [] := by
  by_contra hfirst
  have hmem : (0x80, item.first) ∈ item.parts.map fun x => (x.1.tag, x.2) := by
    simp [StarItem.parts, StarItem.piece, hfirst, SubstringChoice.tag]
  rw [h] at hmem
  rcases starTags_tag _ hmem with h81 | h82
  · cases h81
  · cases h82

theorem pieces_length {item : StarItem} (h : item.Valid) (hstar : item.rest ≠ [])
    (countSub index : Nat) :
    (substringOctets countSub index (strtok 0x2a item.value)).length = item.partsLength := by
  rw [substringOctets_length, h.pieces hstar, StarItem.partsLength, StarItem.parts]
  simp only [List.map_append, List.sum_append, List.map_map]
  congr 1
  · congr 1
    by_cases hfirst : item.first = []
    · rw [if_pos hfirst, StarItem.piece, if_pos hfirst]
      rfl
    · rw [if_neg hfirst, StarItem.piece, if_neg hfirst]
      rfl
  · by_cases hlast : item.rest.getLastD [] = []
    · rw [if_pos hlast, StarItem.piece, if_pos hlast]
      rfl
    · rw [if_neg hlast, StarItem.piece, if_neg hlast]
      rfl

theorem sum_add_two (xs : List (List UInt8)) :
    (xs.map fun p => p.length + 2).sum = (xs.map fun p => p.length + 1).sum + xs.length := by
  induction xs with
  | nil => rfl
  | cons x xs ih =>
    simp only [List.map_cons, List.sum_cons, List.length_cons]
    omega

theorem two_mul_length_le {xs : List (List UInt8)} (h : ∀ p ∈ xs, p ≠ []) :
    2 * xs.length ≤ (xs.map fun p => p.length + 1).sum := by
  induction xs with
  | nil => exact Nat.zero_le _
  | cons x xs ih =>
    have hx := List.length_pos_iff.2 (h x List.mem_cons_self)
    have hxs := ih fun p hp => h p (List.mem_cons_of_mem x hp)
    simp only [List.map_cons, List.sum_cons, List.length_cons]
    omega

/-- How long the value and the parts of an item are. -/
theorem StarItem.Valid.sizes {item : StarItem} (h : item.Valid) (hstar : item.rest ≠ []) :
    2 * item.rest.length ≤ item.value.length + 1 ∧
      item.partsLength + (if item.first = [] then 2 else 0) ≤
        item.value.length + item.rest.length + 2 := by
  obtain ⟨mids, last, hrest⟩ := List.eq_nil_or_concat item.rest |>.resolve_left hstar
  rw [List.concat_eq_append] at hrest
  have hvalue := length_intercalate item.first item.rest
  have hmids := @two_mul_length_le mids fun p hp =>
    h.apart p (by rw [hrest, List.dropLast_concat]; exact hp)
  have hsum := sum_add_two mids
  have hparts : item.partsLength = (if item.first = [] then 0 else item.first.length + 2) +
      (mids.map fun p => p.length + 2).sum + if last = [] then 0 else last.length + 2 := by
    rw [StarItem.partsLength, StarItem.parts, hrest, List.dropLast_concat, List.getLastD_concat]
    simp only [List.map_append, List.sum_append, List.map_map]
    congr 1
    · congr 1
      by_cases hfirst : item.first = [] <;> simp [StarItem.piece, hfirst]
    · by_cases hlast : last = [] <;> simp [StarItem.piece, hlast]
  change item.value.length = _ at hvalue
  rw [hrest, List.map_append, List.sum_append, List.map_singleton, List.sum_singleton] at hvalue
  rw [hparts, hrest, List.length_append, List.length_singleton]
  constructor
  · omega
  · split <;> split <;> omega

section

variable {item : StarItem} {bFilt r : List UInt8}

/-- The filter behind its length. -/
def StarItem.starBody (item : StarItem) : List UInt8 :=
  shortField 0x04 item.name ++
    shortField 0x30 (substringOctets item.rest.length 0 (strtok 0x2a item.value))

theorem starBody_length (h : item.Valid) (hstar : item.rest ≠ []) :
    item.starBody.length = item.contentLength := by
  rw [StarItem.starBody, List.length_append, shortField_length, shortField_length,
    pieces_length h hstar, StarItem.contentLength, if_neg hstar]
  omega

/-- With several stars the length is written, and its last octet written again. -/
theorem createBerFilter_stars (h : item.Valid) (hstars : 2 ≤ item.rest.length) :
    createBerFilter item.text bFilt = .ok r ↔
      bFilt.length + (0xa4 :: lengthOctets item.guess ++ item.starBody).length ≤ 1024 ∧
        r = (bFilt ++ (0xa4 :: lengthOctets item.guess ++ item.starBody)).set
          (bFilt.length + (lengthOctets item.guess).length)
          (UInt8.ofNat (bFilt.length +
            (0xa4 :: lengthOctets item.guess ++ item.starBody).length - 2)) := by
  have hstar : item.rest ≠ [] := List.ne_nil_of_length_pos (by omega)
  have hlen := h.lengths
  have hsizes := h.sizes hstar
  have hcount : item.value.count 0x2a = item.rest.length := count_intercalate h.no_star
  have hguess : item.name.length + 1 + item.value.length + item.rest.length * 2 + 2 - 1 =
      item.guess := by
    have hcut : CutAt item.name item.value := cutAt h.name
    rw [StarItem.guess, StarItem.text, hcut.length]
  have hsmall : (substringOctets item.rest.length 0 (strtok 0x2a item.value)).length < 255 := by
    rw [pieces_length h hstar]
    omega
  have hpieces : strtok 0x2a item.value ≠ [] := by
    have hmids : item.rest.dropLast ≠ [] := List.ne_nil_of_length_pos (by
      rw [List.length_dropLast]
      omega)
    rw [h.pieces hstar]
    simp [hmids]
  rw [createBerFilter_star h, StarItem.text, equalityFilter_value h.name, if_neg, if_neg, hcount,
    hguess, insertLength_small (by omega), ok_bind]
  · -- the pieces one after another are the whole
    generalize lengthOctets item.guess = L
    have hwhole : bFilt ++ (0xa4 :: L) ++ (shortField 0x04 item.name ++ [0x30]) ++
        (UInt8.ofNat (substringOctets item.rest.length 0 (strtok 0x2a item.value)).length ::
          substringOctets item.rest.length 0 (strtok 0x2a item.value)) =
        bFilt ++ (0xa4 :: L ++ item.starBody) := by
      simp [StarItem.starBody, shortField]
    have hedit : (bFilt ++ (0xa4 :: L)).length - 1 = bFilt.length + L.length := by
      simp
    constructor
    · intro hrun
      obtain ⟨b₁, hb₁, hrun⟩ := bind_eq_ok.1 hrun
      obtain ⟨b₂, hb₂, hrun⟩ := bind_eq_ok.1 hrun
      obtain ⟨-, rfl⟩ := putFilter_ok_iff.1 hb₁
      obtain ⟨-, rfl⟩ := putFilter_ok_iff.1 hb₂
      simp only [anySubstring] at hrun
      rw [if_neg (by omega), if_neg (by omega)] at hrun
      obtain ⟨b₃, hb₃, hrun⟩ := bind_eq_ok.1 hrun
      obtain ⟨hroom, rfl⟩ := putFilter_ok_iff.1 hb₃
      rw [if_neg hpieces, hwhole, hedit] at hrun
      rw [← List.length_append, hwhole] at hroom
      cases hrun
      rw [← List.length_append]
      exact ⟨hroom, rfl⟩
    · rintro ⟨hroom, rfl⟩
      rw [← List.length_append, ← hwhole] at hroom
      have hroom₂ := (List.sublist_append_left _ _).length_le.trans hroom
      have hroom₁ := (List.sublist_append_left _ _).length_le.trans hroom₂
      rw [putFilter_eq hroom₁, ok_bind]
      simp only
      rw [putFilter_eq hroom₂, ok_bind]
      simp only [anySubstring]
      rw [if_neg (by omega), if_neg (by omega), putFilter_eq hroom, ok_bind, if_neg hpieces, hwhole,
        hedit, @List.length_append _ bFilt]
      rfl
  · rw [hcount]
    omega
  · rw [hcount]
    omega
  · intro hnil
    rw [hnil] at hsizes
    simp at hsizes
    omega
  · intro hone
    rw [hone] at hsizes
    simp at hsizes
    omega

/-- Behind a length of one octet comes the name, which cannot be a longer length. -/
theorem content_of_one {tag x : UInt8} {content body : List UInt8}
    (h : Tlv tag content (tag :: x :: (0x04 :: body))) (hcontent : 4 < content.length)
    (hbody : body.length < 1000) : content = 0x04 :: body ∧ x.toNat = body.length + 1 := by
  generalize hout : tag :: x :: (0x04 :: body) = out at h
  cases h with
  | mk len =>
    obtain ⟨-, hrest⟩ := List.cons.inj hout
    rcases len.forms with ⟨hshort, rfl⟩ | ⟨os, hpos, hfour, hval, rfl⟩
    · obtain ⟨rfl, rfl⟩ := List.cons.inj hrest
      rw [List.length_cons] at hshort
      rw [UInt8.toNat_ofNat', List.length_cons]
      exact ⟨rfl, Nat.mod_eq_of_lt (by omega)⟩
    · obtain ⟨-, hbytes⟩ := List.cons.inj hrest
      replace hbytes : 0x04 :: body = os ++ content := hbytes
      obtain ⟨o, os, rfl⟩ := List.exists_cons_of_ne_nil (List.ne_nil_of_length_pos hpos)
      obtain ⟨rfl, hbody'⟩ := List.cons.inj hbytes
      replace hbody' : body = os ++ content := hbody'
      have hsize := congrArg List.length hbody'
      rw [List.length_append] at hsize
      cases os with
      | nil =>
        have hfour : beVal [0x04] = 4 := by decide
        omega
      | cons o os =>
        have hpow : 256 ^ 1 ≤ 256 ^ (o :: os).length :=
          Nat.pow_le_pow_right (by decide) (Nat.succ_pos _)
        have hge : 4 * 256 ^ (o :: os).length ≤ beVal (0x04 :: o :: os) := Nat.le_add_right _ _
        omega

theorem content_of_two {tag x : UInt8} {content body : List UInt8}
    (h : Tlv tag content (tag :: 0x81 :: x :: body)) :
    content = body ∧ x.toNat = body.length := by
  generalize hout : tag :: 0x81 :: x :: body = out at h
  cases h with
  | mk len =>
    obtain ⟨-, hrest⟩ := List.cons.inj hout
    rcases len.forms with ⟨hshort, rfl⟩ | ⟨os, hpos, hfour, hval, rfl⟩
    · have hnat := congrArg UInt8.toNat (List.cons.inj hrest).1
      rw [UInt8.toNat_ofNat'] at hnat
      have h81 : (0x81 : UInt8).toNat = 129 := rfl
      omega
    · obtain ⟨hoctet, hbytes⟩ := List.cons.inj hrest
      have hnat := congrArg UInt8.toNat hoctet
      rw [UInt8.toNat_ofNat'] at hnat
      have h81 : (0x81 : UInt8).toNat = 129 := rfl
      obtain ⟨o, rfl⟩ := List.length_eq_one_iff.1 (show os.length = 1 by omega)
      obtain ⟨rfl, rfl⟩ := List.cons.inj hbytes
      simp only [beVal, List.length_nil, pow_zero, mul_one, Nat.add_zero] at hval
      exact ⟨rfl, hval.symm⟩

/-- The octets between the tag and the last octet of the length. -/
def StarItem.longForm (item : StarItem) : List UInt8 := if item.guess < 128 then [] else [0x81]

theorem guess_lt (h : item.Valid) (hstars : 2 ≤ item.rest.length) : item.guess < 256 := by
  have hlen := h.short
  have hsizes := h.sizes (List.ne_nil_of_length_pos (by omega))
  have hvalue := h.lengths
  rw [StarItem.guess]
  omega

/-- What is written for several stars. -/
theorem createBerFilter_stars_iff (h : item.Valid) (hstars : 2 ≤ item.rest.length) :
    createBerFilter item.text bFilt = .ok r ↔
      bFilt.length + item.contentLength + item.longForm.length + 2 ≤ 1024 ∧
        r = bFilt ++ (0xa4 :: (item.longForm ++
          UInt8.ofNat (bFilt.length + item.contentLength + item.longForm.length) ::
            item.starBody)) := by
  have hbody := starBody_length h (List.ne_nil_of_length_pos (by omega))
  have hguess := guess_lt h hstars
  rw [createBerFilter_stars h hstars]
  by_cases hshort : item.guess < 128
  · have hL : lengthOctets item.guess = [UInt8.ofNat item.guess] := if_pos hshort
    have hoctet : bFilt.length + (item.contentLength + 1 + 1) - 2 =
        bFilt.length + item.contentLength + 0 := by omega
    rw [StarItem.longForm, if_pos hshort, hL, List.set_append_right _ _ (Nat.le_add_right _ _)]
    simp only [List.cons_append, List.nil_append, List.length_cons, List.length_nil, hbody,
      Nat.add_sub_cancel_left, List.set_cons_succ, List.set_cons_zero, hoctet, zero_add]
    refine and_congr_left fun _ => ?_
    omega
  · have hL : lengthOctets item.guess = [0x81, UInt8.ofNat item.guess] := by
      rw [lengthOctets, if_neg hshort, if_pos hguess]
    have hoctet : bFilt.length + (item.contentLength + 1 + 1 + 1) - 2 =
        bFilt.length + item.contentLength + 1 := by omega
    rw [StarItem.longForm, if_neg hshort, hL, List.set_append_right _ _ (Nat.le_add_right _ _)]
    simp only [List.cons_append, List.nil_append, List.length_cons, List.length_nil, hbody,
      Nat.add_sub_cancel_left, List.set_cons_succ, List.set_cons_zero, hoctet, zero_add]
    refine and_congr_left fun _ => ?_
    omega

/-- Behind either form of the length, what is written is a filter only when the length is right. -/
theorem isFilter_stars_iff (h : item.Valid) (hstars : 2 ≤ item.rest.length) (x : UInt8) :
    IsFilter item.filter (0xa4 :: (item.longForm ++ x :: item.starBody)) ↔
      item.first = [] ∧ item.partsLength < 128 ∧ x.toNat = item.contentLength := by
  have hstar : item.rest ≠ [] := List.ne_nil_of_length_pos (by omega)
  have hlen := h.lengths
  have hsizes := h.sizes hstar
  have hbody := starBody_length h hstar
  have hpieces := pieces_length h hstar item.rest.length 0
  have hcontent : item.contentLength = item.name.length + 4 + item.partsLength := by
    rw [StarItem.contentLength, if_neg hstar]
  have hguess : item.guess =
      item.name.length + 1 + item.value.length + item.rest.length * 2 + 2 - 1 := by
    have hcut : CutAt item.name item.value := cutAt h.name
    rw [StarItem.guess, StarItem.text, hcut.length]
  rw [StarItem.filter, if_neg hstar]
  constructor
  · intro hfilter
    obtain ⟨s, t, l, hs, ht, hl, hout⟩ := isFilter_substrings_iff.1 hfilter
    have hbehind : t ++ l = item.starBody ∧ x.toNat = item.starBody.length := by
      by_cases hshort : item.guess < 128
      · rw [StarItem.longForm, if_pos hshort, List.nil_append] at hout
        have hlong := ht.length_lt
        have htwo := hl.two_le
        refine content_of_one hout ?_ ?_
        · rw [List.length_append]
          omega
        · have hbig : item.starBody.length < 1000 := by omega
          exact (Nat.lt_succ_self _).trans hbig
      · rw [StarItem.longForm, if_neg hshort] at hout
        exact content_of_two hout
    obtain ⟨hequal, hx⟩ := hbehind
    obtain ⟨-, rfl⟩ := ht.append_inj (shortField_isTlv (by omega)) hequal
    obtain ⟨hsmall, rfl⟩ := shortField_content hl (by omega) substringOctets_head
    have htags := hs.inj (substringOctets_tlvs fun p hp => ?_)
    · exact ⟨first_of_starTags htags, by omega, by omega⟩
    · have hmem : p.length + 2 ∈ (strtok 0x2a item.value).map fun p => p.length + 2 :=
        List.mem_map_of_mem hp
      have hle := List.single_le_sum (fun _ _ => Nat.zero_le _) _ hmem
      rw [substringOctets_length] at hsmall
      omega
  · rintro ⟨hfirst, hparts, hx⟩
    rw [if_pos hfirst] at hsizes
    have hsame : substringOctets item.rest.length 0 (strtok 0x2a item.value) =
        partsOctets item.parts := by
      rw [substringOctets_eq, h.pieces hstar, if_pos hfirst, List.nil_append,
        starTags_parts hfirst hstar, List.flatMap_map]
      rfl
    have hwhole : item.starBody =
        shortField 0x04 item.name ++ shortField 0x30 (partsOctets item.parts) := by
      rw [StarItem.starBody, hsame]
    refine isFilter_written (by omega) (by rw [← hsame]; omega) ?_
    rw [← hwhole]
    by_cases hshort : item.guess < 128
    · have hx' : x = UInt8.ofNat item.starBody.length := by rw [hbody, ← hx, UInt8.ofNat_toNat]
      rw [StarItem.longForm, if_pos hshort, hx']
      exact .mk (.short (by omega))
    · rw [StarItem.longForm, if_neg hshort]
      have hval : item.starBody.length = beVal [x] := by
        simp only [beVal, List.length_nil, pow_zero, mul_one, Nat.add_zero]
        omega
      refine .mk (L := [0x81, x]) ?_
      rw [hval]
      exact .long [x] (le_refl 1) (by simp)

/-- With several stars. -/
theorem isEncoded_stars (h : item.Valid) (hstars : 2 ≤ item.rest.length) :
    item.IsEncoded bFilt ↔ item.Encodable bFilt.length := by
  have hstar : item.rest ≠ [] := List.ne_nil_of_length_pos (by omega)
  have hlen := h.lengths
  have hsizes := h.sizes hstar
  have hcontent : item.contentLength = item.name.length + 4 + item.partsLength := by
    rw [StarItem.contentLength, if_neg hstar]
  have hiff : item.IsEncoded bFilt ↔
      bFilt.length + item.contentLength + item.longForm.length + 2 ≤ 1024 ∧
        item.first = [] ∧ item.partsLength < 128 ∧
          (UInt8.ofNat (bFilt.length + item.contentLength + item.longForm.length)).toNat =
            item.contentLength := by
    rw [← isFilter_stars_iff h hstars]
    constructor
    · rintro ⟨out, hcreate, hfilter⟩
      obtain ⟨hroom, hout⟩ := (createBerFilter_stars_iff h hstars).1 hcreate
      rw [List.append_cancel_left hout] at hfilter
      exact ⟨hroom, hfilter⟩
    · rintro ⟨hroom, hfilter⟩
      exact ⟨_, (createBerFilter_stars_iff h hstars).2 ⟨hroom, rfl⟩, hfilter⟩
  rw [hiff, StarItem.Encodable, StarItem.longForm, UInt8.toNat_ofNat']
  by_cases hshort : item.guess < 128
  · rw [if_pos hshort, if_pos hshort, if_neg (by omega), List.length_nil]
    constructor
    · rintro ⟨hroom, hfirst, hparts, hx⟩
      exact ⟨fun hnone => absurd hnone hstar, fun _ => ⟨hfirst, hparts, by omega⟩, by omega⟩
    · rintro ⟨-, hseveral, hroom⟩
      obtain ⟨hfirst, hparts, hstart⟩ := hseveral hstars
      exact ⟨by omega, hfirst, hparts, by omega⟩
  · rw [if_neg hshort, if_neg hshort, if_pos (by omega), List.length_singleton]
    constructor
    · rintro ⟨hroom, hfirst, hparts, hx⟩
      exact ⟨fun hnone => absurd hnone hstar, fun _ => ⟨hfirst, hparts, by omega⟩, by omega⟩
    · rintro ⟨-, hseveral, hroom⟩
      obtain ⟨hfirst, hparts, hstart⟩ := hseveral hstars
      exact ⟨by omega, hfirst, hparts, by omega⟩

end

/-! ## All items -/

/-- An item is encoded exactly when it has a value, begins with a star if it has several, and then
starts at an index that makes up for the length that is written. -/
theorem star_item_encoded_iff {item : StarItem} (valid : item.Valid) (bFilt : List UInt8) :
    item.IsEncoded bFilt ↔ item.Encodable bFilt.length := by
  match hrest : item.rest with
  | [] => exact isEncoded_plain valid hrest
  | [_] => exact isEncoded_oneStar valid hrest
  | _ :: _ :: _ => exact isEncoded_stars valid (by rw [hrest]; simp)

/-- `sn=*b*c` -/
def innerFinal : StarItem := ⟨ascii "sn", [], [ascii "b", ascii "c"]⟩

theorem innerFinal_valid : innerFinal.Valid :=
  ⟨⟨by decide, by decide +kernel⟩, by decide +kernel, by decide +kernel, by decide +kernel,
    by decide +kernel⟩

theorem star_item_encoded_iff_inner :
    innerFinal.IsEncoded [] ↔ innerFinal.Encodable ([] : List UInt8).length :=
  star_item_encoded_iff innerFinal_valid []

/-- `sn=` -/
def noValue : StarItem := ⟨ascii "sn", [], []⟩

/-- `sn=a*b*c` -/
def initialInner : StarItem := ⟨ascii "sn", ascii "a", [ascii "b", ascii "c"]⟩

/-- An empty value, an initial part before several stars, and several stars behind another filter. -/
theorem star_items_not_encoded :
    (noValue.Valid ∧ ¬ noValue.IsEncoded []) ∧
      (initialInner.Valid ∧ ¬ initialInner.IsEncoded []) ∧
      (innerFinal.Valid ∧ ¬ innerFinal.IsEncoded (tlv 0x87 (ascii "cn"))) := by
  have hempty : noValue.Valid :=
    ⟨⟨by decide, by decide +kernel⟩, by decide +kernel, by decide +kernel, by decide +kernel,
      by decide +kernel⟩
  have hinitial : initialInner.Valid :=
    ⟨⟨by decide, by decide +kernel⟩, by decide +kernel, by decide +kernel, by decide +kernel,
      by decide +kernel⟩
  refine ⟨⟨hempty, ?_⟩, ⟨hinitial, ?_⟩, innerFinal_valid, ?_⟩
  · rw [isEncoded_plain hempty rfl]
    exact fun h => h.1 rfl rfl
  · rw [isEncoded_stars hinitial (by decide)]
    exact fun h => absurd (h.2.1 (by decide)).1 (by decide)
  · rw [isEncoded_stars innerFinal_valid (by decide)]
    exact fun h => absurd (h.2.1 (by decide)).2.2 (by decide +kernel)

end CassandraApi.Ldap
