/-
# `Ldap.JsonResults` — search results as JSON

What ber_attr_to_string should write in JSON: an object with a member for each
object class, the array of its entries.  As the strings are written as they are,
and an entry under one class only, it does so for entries of one class without
`"` and `\` (`renders_json`): the text of other entries is too short.
-/
import CassandraApi.Ldap.ResultGroups

namespace CassandraApi.Ldap

open C Ber Lib Lib.Json

/-! ## Entries as JSON -/

/-- A value or an array of values; the empty string where there is none. -/
def Attr.json (a : Attr) : Value :=
  match a.vals with
  | [] => str []
  | [v] => str v
  | vals => arr (vals.map str)

def SearchEntry.json (e : SearchEntry) : Value :=
  obj ((ascii "dn", str e.dn) :: e.attrs.map fun a => (a.name, a.json))

/-- Each object class with the entries that have it. -/
structure ByClass (es : List SearchEntry) (groups : List (List UInt8 × List SearchEntry)) :
    Prop where
  nodup : (groups.map Prod.fst).Nodup
  mem_iff : ∀ c gs, (c, gs) ∈ groups ↔
    (∃ e ∈ es, c ∈ e.classes) ∧ gs = es.filter (c ∈ ·.classes)

/-- ber_attr_to_string leaves the entries in lc->bstring as JSON. -/
def RendersJson (rber bstring : Option BER) (es : List SearchEntry) : Prop :=
  ∃ b groups, berAttrToString true .json rber bstring = .ok (⟨.ok, none⟩, some b) ∧
    ByClass es groups ∧ b.berval ∈ obj (groups.map fun g => (g.1, arr (g.2.map SearchEntry.json)))

/-- `b` is printable. -/
def PrintChar (b : UInt8) : Prop := 0x20 ≤ b ∧ b ≠ 0x7f

instance (b : UInt8) : Decidable (PrintChar b) := inferInstanceAs (Decidable (_ ∧ _))

/-- `b` is a letter, a digit or '-'. -/
def NameChar (b : UInt8) : Prop :=
  (0x41 ≤ b ∧ b ≤ 0x5a) ∨ (0x61 ≤ b ∧ b ≤ 0x7a) ∨ (0x30 ≤ b ∧ b ≤ 0x39) ∨ b = 0x2d

instance (b : UInt8) : Decidable (NameChar b) := inferInstanceAs (Decidable (_ ∨ _))

structure SearchEntry.Printable (e : SearchEntry) : Prop where
  dn : ∀ b ∈ e.dn, PrintChar b
  name : ∀ a ∈ e.attrs, ∀ b ∈ a.name, NameChar b
  value : ∀ a ∈ e.attrs, ∀ v ∈ a.vals, ∀ b ∈ v, PrintChar b

/-- A character which JSON strings have to escape, among the printable ones. -/
def Quoting (b : UInt8) : Prop := b = 0x22 ∨ b = 0x5c

instance (b : UInt8) : Decidable (Quoting b) := inferInstanceAs (Decidable (_ ∨ _))

/-- The entry has one class, and nothing in it has to be escaped. -/
structure SearchEntry.Clean (e : SearchEntry) : Prop where
  one : ∀ c ∈ e.classes, c = e.objectClass
  dn : ∀ b ∈ e.dn, ¬ Quoting b
  value : ∀ a ∈ e.attrs, ∀ v ∈ a.vals, ∀ b ∈ v, ¬ Quoting b

theorem literal_iff {b : UInt8} (h : PrintChar b) : Literal b ↔ ¬ Quoting b := by
  simp only [Literal, Quoting, h.1, true_and, not_or]

theorem NameChar.literal {b : UInt8} (h : NameChar b) : Literal b := by
  refine ⟨?_, ?_, ?_⟩
  · simp only [NameChar, UInt8.le_iff_toNat_le, UInt8.ext_iff] at h ⊢
    change 32 ≤ b.toNat
    change (65 ≤ _ ∧ _ ≤ 90) ∨ (97 ≤ _ ∧ _ ≤ 122) ∨ (48 ≤ _ ∧ _ ≤ 57) ∨ _ = 45 at h
    omega
  · rintro rfl
    exact absurd h (by decide)
  · rintro rfl
    exact absurd h (by decide)

theorem Literal.not_quoting {b : UInt8} (h : Literal b) : ¬ Quoting b := by
  rintro (rfl | rfl)
  · exact h.2.1 rfl
  · exact h.2.2 rfl

theorem ascii_dn_literal : ∀ b ∈ ascii "dn", Literal b := by
  intro b hb
  have hcases : b = 0x64 ∨ b = 0x6e := by simpa [ascii] using hb
  obtain rfl | rfl := hcases
  · decide
  · decide

/-! ## What is clean is a text of its value -/

theorem Attr.valueText_mem : ∀ {a : Attr}, (∀ v ∈ a.vals, ∀ b ∈ v, Literal b) → a.valueText ∈ a.json
  | ⟨_, []⟩, _ => quoted_mem fun _ hb => absurd hb List.not_mem_nil
  | ⟨_, [v]⟩, h => quoted_mem (h v List.mem_cons_self)
  | ⟨_, v :: v' :: vals⟩, h => by
    have hitems : List.Forall₂ (· ∈ ·) ((v :: v' :: vals).map quoted) ((v :: v' :: vals).map str) := by
      rw [List.forall₂_map_left_iff, List.forall₂_map_right_iff, List.forall₂_same]
      exact fun w hw => quoted_mem (h w hw)
    exact enclosed_mem hitems

theorem SearchEntry.text_mem {e : SearchEntry} (dn : ∀ b ∈ e.dn, Literal b)
    (name : ∀ a ∈ e.attrs, ∀ b ∈ a.name, Literal b)
    (value : ∀ a ∈ e.attrs, ∀ v ∈ a.vals, ∀ b ∈ v, Literal b) : e.text ∈ e.json := by
  refine enclosed_mem (.cons (memberText_mem ascii_dn_literal (quoted_mem dn)) ?_)
  rw [List.map_map, List.forall₂_map_left_iff, List.forall₂_map_right_iff, List.forall₂_same]
  exact fun a ha => memberText_mem (name a ha) (Attr.valueText_mem (value a ha))

/-! ## What is not clean is too short -/

/-- The characters of an attribute that would have to be escaped. -/
def Attr.quotings (a : Attr) : Nat := (a.vals.map special).sum

def SearchEntry.quotings (e : SearchEntry) : Nat :=
  special e.dn + (e.attrs.map Attr.quotings).sum

theorem Attr.json_atLeast : ∀ a : Attr, AtLeast a.json (a.valueText.length + a.quotings)
  | ⟨_, []⟩ => str_atLeast []
  | ⟨_, [v]⟩ => by
    have := str_atLeast v
    rwa [← quoted_length] at this
  | ⟨n, v :: v' :: vals⟩ => by
    generalize hvals : v :: v' :: vals = vs
    have hitems : List.Forall₂ AtLeast (vs.map str)
        (vs.map fun v => (quoted v).length + special v) := by
      rw [List.forall₂_map_left_iff, List.forall₂_map_right_iff, List.forall₂_same]
      intro v _
      rw [quoted_length]
      exact str_atLeast v
    have hleast := listOf_atLeast (l := 0x5b) (r := 0x5d) hitems
    have hjson : Attr.json ⟨n, vs⟩ = arr (vs.map str) := by rw [← hvals]; rfl
    have htext : Attr.valueText ⟨n, vs⟩ = enclosed 0x5b 0x5d (vs.map quoted) := by rw [← hvals]; rfl
    rw [hjson, htext, Attr.quotings, enclosed_length, List.map_map, List.length_map]
    rw [List.sum_map_add, List.length_map] at hleast
    refine fun t ht => (Eq.le ?_).trans (hleast t ht)
    simp only [Function.comp_def]
    omega

theorem SearchEntry.json_atLeast (e : SearchEntry) :
    AtLeast e.json (e.text.length + e.quotings) := by
  have hitems : List.Forall₂ AtLeast
      (((ascii "dn", str e.dn) :: e.attrs.map fun a => (a.name, a.json)).map member)
      (((memberText (ascii "dn") (quoted e.dn)).length + special e.dn) ::
        e.attrs.map fun a => a.text.length + a.quotings) := by
    refine .cons (fun t ht => ?_) ?_
    · have := member_atLeast (str_atLeast e.dn) t ht
      rw [memberText_length, quoted_length]
      omega
    · rw [List.map_map, List.forall₂_map_left_iff, List.forall₂_map_right_iff, List.forall₂_same]
      intro a _ t ht
      have := member_atLeast a.json_atLeast t ht
      rw [Attr.text, memberText_length]
      omega
  have := listOf_atLeast (l := 0x7b) (r := 0x7d) hitems
  rw [List.sum_cons, List.sum_map_add, List.length_cons, List.length_map] at this
  refine fun t ht => (Eq.le ?_).trans (this t ht)
  rw [SearchEntry.text, enclosed_length, SearchEntry.members, SearchEntry.quotings, List.map_cons,
    List.sum_cons, List.map_map, List.length_cons, List.length_map]
  simp only [Function.comp_def]
  omega

theorem special_eq_zero {s : List UInt8} : special s = 0 ↔ ∀ b ∈ s, Literal b := by
  rw [special, List.countP_eq_zero]
  simp

theorem SearchEntry.literal_of_quotings {e : SearchEntry} (h : e.quotings = 0) :
    (∀ b ∈ e.dn, Literal b) ∧ ∀ a ∈ e.attrs, ∀ v ∈ a.vals, ∀ b ∈ v, Literal b := by
  rw [quotings, Nat.add_eq_zero_iff, special_eq_zero, List.sum_eq_zero_iff_forall_eq_nat] at h
  refine ⟨h.1, fun a ha v hv => special_eq_zero.1 ?_⟩
  have hattr := h.2 _ (List.mem_map_of_mem ha)
  rw [Attr.quotings, List.sum_eq_zero_iff_forall_eq_nat] at hattr
  exact hattr _ (List.mem_map_of_mem hv)

/-! ## Sums -/

section

variable {α : Type} {f g : α → Nat} {l l' : List α}

theorem sum_map_le_of_sublist (h : l.Sublist l') : (l.map f).sum ≤ (l'.map f).sum := by
  induction h with
  | slnil => exact Nat.le_refl _
  | cons x _ ih => simpa using ih.trans (Nat.le_add_left _ _)
  | cons_cons x _ ih => simpa using ih

/-- Nothing is missing from a list that is worth as much. -/
theorem eq_of_sum_le (h : l.Sublist l') (hpos : ∀ x ∈ l', 0 < f x)
    (hle : (l'.map f).sum ≤ (l.map f).sum) : l = l' := by
  induction h with
  | slnil => rfl
  | cons x h ih =>
    obtain ⟨hx, -⟩ := List.forall_mem_cons.1 hpos
    have := sum_map_le_of_sublist (f := f) h
    rw [List.map_cons, List.sum_cons] at hle
    omega
  | cons_cons x h ih =>
    simp only [List.map_cons, List.sum_cons, Nat.add_le_add_iff_left] at hle
    rw [ih (List.forall_mem_cons.1 hpos).2 hle]

theorem le_of_sum_le (h : ∀ x ∈ l, f x ≤ g x) (hle : (l.map g).sum ≤ (l.map f).sum) :
    ∀ x ∈ l, g x ≤ f x := by
  induction l with
  | nil => exact fun x hx => absurd hx List.not_mem_nil
  | cons y l ih =>
    obtain ⟨hy, hl⟩ := List.forall_mem_cons.1 h
    have hsum : (l.map f).sum ≤ (l.map g).sum := List.sum_le_sum hl
    simp only [List.map_cons, List.sum_cons] at hle
    exact List.forall_mem_cons.2 ⟨by omega, ih hl (by omega)⟩

end

theorem eraseDups_nodup {α : Type} [BEq α] [LawfulBEq α] (xs : List α) : xs.eraseDups.Nodup := by
  classical
  induction xs using List.reverseRecOn with
  | nil => exact List.nodup_nil
  | append_singleton xs x ih =>
    rw [eraseDups_snoc]
    split
    · exact ih
    · rename_i hmem
      rw [List.nodup_append]
      refine ⟨ih, List.nodup_singleton x, ?_⟩
      rintro y hy z hz rfl
      exact hmem (List.mem_eraseDups.1 (List.mem_singleton.1 hz ▸ hy))

/-! ## The groups -/

/-- The entries that have a class. -/
def having (es : List SearchEntry) (c : List UInt8) : List SearchEntry :=
  es.filter (c ∈ ·.classes)

theorem mem_having {es : List SearchEntry} {c : List UInt8} {e : SearchEntry} :
    e ∈ having es c ↔ e ∈ es ∧ c ∈ e.classes := by
  rw [having, List.mem_filter, decide_eq_true_iff]

theorem SearchEntry.objectClass_mem {e : SearchEntry} (h : e.objectClass ≠ []) :
    e.objectClass ∈ e.classes := by
  unfold SearchEntry.objectClass at h ⊢
  cases hc : e.classes with
  | nil => exact absurd (by rw [hc]; rfl) h
  | cons c cs => exact List.mem_cons_self

theorem classNames_nodup (es : List SearchEntry) : (classNames es).Nodup := eraseDups_nodup _

section

variable {es : List SearchEntry} {groups : List (List UInt8 × List SearchEntry)}

theorem ByClass.mem_keys (h : ByClass es groups) {c : List UInt8} :
    c ∈ groups.map Prod.fst ↔ ∃ e ∈ es, c ∈ e.classes := by
  constructor
  · rintro hc
    obtain ⟨⟨c', gs⟩, hg, rfl⟩ := List.mem_map.1 hc
    exact ((h.mem_iff c' gs).1 hg).1
  · intro hc
    exact List.mem_map_of_mem ((h.mem_iff c (having es c)).2 ⟨hc, rfl⟩)

/-- The keys say all. -/
theorem ByClass.eq_map (h : ByClass es groups) :
    groups = (groups.map Prod.fst).map fun c => (c, having es c) := by
  rw [List.map_map]
  refine ((List.map_congr_left fun g hg => ?_).trans (List.map_id groups)).symm
  exact Prod.ext rfl ((h.mem_iff g.1 g.2).1 hg).2.symm

/-- Entries of one class each. -/
theorem byClass_classNames (named : ∀ e ∈ es, e.objectClass ≠ [])
    (one : ∀ e ∈ es, ∀ c ∈ e.classes, c = e.objectClass) :
    ByClass es ((classNames es).map fun c => (c, ofClass es c)) := by
  have hkeys : ∀ c, c ∈ classNames es ↔ ∃ e ∈ es, c ∈ e.classes := by
    intro c
    rw [mem_classNames]
    constructor
    · rintro ⟨e, he, rfl⟩
      exact ⟨e, he, SearchEntry.objectClass_mem (named e he)⟩
    · rintro ⟨e, he, hc⟩
      exact ⟨e, he, (one e he c hc).symm⟩
  have hgroup : ∀ c, ofClass es c = having es c := by
    intro c
    refine List.filter_congr fun e he => decide_eq_decide.2 ?_
    constructor
    · rintro rfl
      exact SearchEntry.objectClass_mem (named e he)
    · exact fun hc => (one e he c hc).symm
  constructor
  · rw [List.map_map]
    exact (List.map_id (classNames es)).symm ▸ classNames_nodup es
  · intro c gs
    rw [List.mem_map, ← hkeys]
    constructor
    · rintro ⟨c', hc', hpair⟩
      cases hpair
      exact ⟨hc', hgroup _⟩
    · rintro ⟨hc, rfl⟩
      exact ⟨c, hc, Prod.ext rfl (hgroup c)⟩

/-- What a text of the entries with a class, behind its name, has at least. -/
def weight (es : List SearchEntry) (c : List UInt8) : Nat :=
  c.length + ((((having es c).map fun e => e.text.length + e.quotings).sum +
    ((having es c).length - 1)) + 2) + 3 + special c

theorem obj_atLeast (keys : List (List UInt8)) :
    AtLeast (obj (keys.map fun c => (c, arr ((having es c).map SearchEntry.json))))
      ((keys.map (weight es)).sum + (keys.length - 1) + 2) := by
  have hitems : List.Forall₂ AtLeast
      ((keys.map fun c => (c, arr ((having es c).map SearchEntry.json))).map member)
      (keys.map (weight es)) := by
    rw [List.map_map, List.forall₂_map_left_iff, List.forall₂_map_right_iff, List.forall₂_same]
    intro c _
    have hjson : List.Forall₂ AtLeast ((having es c).map SearchEntry.json)
        ((having es c).map fun e => e.text.length + e.quotings) := by
      rw [List.forall₂_map_left_iff, List.forall₂_map_right_iff, List.forall₂_same]
      exact fun e _ => e.json_atLeast
    have hlist := listOf_atLeast (l := 0x5b) (r := 0x5d) hjson
    rw [List.length_map] at hlist
    exact member_atLeast hlist
  have := listOf_atLeast (l := 0x7b) (r := 0x7d) hitems
  rwa [List.length_map] at this

theorem groupText_length (c : List UInt8) (gs : List SearchEntry) :
    (groupText c gs).length =
      c.length + ((gs.map fun e => e.text.length).sum + (gs.length - 1) + 2) + 3 := by
  rw [groupText, memberText_length, enclosed_length, List.map_map, List.length_map]
  rfl

theorem text_pos (e : SearchEntry) : 0 < e.text.length := by
  simp [SearchEntry.text, enclosed]

/-- Of a group that may be as short as the text written for it nothing is left out, and nothing
in it has to be escaped. -/
theorem clean_of_weight_le {c : List UInt8} (hsub : (ofClass es c).Sublist (having es c))
    (hle : weight es c ≤ (groupText c (ofClass es c)).length) :
    ofClass es c = having es c ∧ ∀ e ∈ having es c, e.quotings = 0 := by
  have htext := sum_map_le_of_sublist (f := fun e : SearchEntry => e.text.length) hsub
  have hlength := hsub.length_le
  rw [weight, groupText_length, List.sum_map_add] at hle
  constructor
  · exact eq_of_sum_le hsub (fun e _ => text_pos e) (by omega)
  · have hzero : ((having es c).map SearchEntry.quotings).sum = 0 := by
      omega
    rw [List.sum_eq_zero_iff_forall_eq_nat] at hzero
    exact fun e he => hzero _ (List.mem_map_of_mem he)

/-- What was written is a text of the entries only if they are clean. -/
theorem clean_of_resultText_mem (named : ∀ e ∈ es, e.objectClass ≠ []) (h : ByClass es groups)
    (htext : resultText es ∈ obj (groups.map fun g => (g.1, arr (g.2.map SearchEntry.json)))) :
    ∀ e ∈ es, e.Clean := by
  have hkeys := fun c => h.mem_keys (c := c)
  rw [h.eq_map, List.map_map] at htext
  generalize hK : groups.map Prod.fst = keys at hkeys htext
  have hleast := obj_atLeast keys _ htext
  have hsubset : classNames es ⊆ keys := by
    intro c hc
    obtain ⟨e, he, rfl⟩ := mem_classNames.1 hc
    exact (hkeys _).2 ⟨e, he, SearchEntry.objectClass_mem (named e he)⟩
  obtain ⟨names, hperm, hnames⟩ := List.subperm_of_subset (classNames_nodup es) hsubset
  have hsub : ∀ c ∈ classNames es, (ofClass es c).Sublist (having es c) := by
    intro c hc
    obtain ⟨e, he, rfl⟩ := mem_classNames.1 hc
    refine List.monotone_filter_right es fun e' he' => decide_eq_true ?_
    have hclass := of_decide_eq_true he'
    rw [← hclass]
    exact SearchEntry.objectClass_mem (hclass ▸ named e he)
  have hraw : ∀ c ∈ classNames es, (groupText c (ofClass es c)).length ≤ weight es c := by
    intro c hc
    have htexts := sum_map_le_of_sublist (f := fun e : SearchEntry => e.text.length) (hsub c hc)
    have hlength := (hsub c hc).length_le
    rw [weight, groupText_length, List.sum_map_add]
    omega
  have hsum := List.sum_le_sum hraw
  have hnamesum : (names.map (weight es)).sum = ((classNames es).map (weight es)).sum :=
    (hperm.map _).sum_eq
  have hkeysum := sum_map_le_of_sublist (f := weight es) hnames
  have hcount := hnames.length_le
  rw [hperm.length_eq] at hcount
  have htotal : (resultText es).length =
      ((classNames es).map fun c => (groupText c (ofClass es c)).length).sum +
        ((classNames es).length - 1) + 2 := by
    rw [resultText, enclosed_length, groupTexts, List.map_map, List.length_map]
    rfl
  rw [htotal] at hleast
  have hall : names = keys :=
    eq_of_sum_le (f := weight es) hnames (fun c _ => by rw [weight]; omega) (by omega)
  have hclean := fun c hc =>
    clean_of_weight_le (hsub c hc) (le_of_sum_le hraw (by omega) c hc)
  intro e he
  have hown := mem_classNames.2 ⟨e, he, rfl⟩
  have hliteral := SearchEntry.literal_of_quotings ((hclean _ hown).2 e
    (mem_having.2 ⟨he, SearchEntry.objectClass_mem (named e he)⟩))
  refine ⟨fun c hc => ?_, fun b hb => Literal.not_quoting (hliteral.1 b hb),
    fun a ha v hv b hb => Literal.not_quoting (hliteral.2 a ha v hv b hb)⟩
  have hin : c ∈ classNames es := by
    rw [← hperm.mem_iff, hall]
    exact (hkeys c).2 ⟨e, he, hc⟩
  have hmem : e ∈ ofClass es c := by
    rw [(hclean c hin).1]
    exact mem_having.2 ⟨he, hc⟩
  exact (mem_ofClass.1 hmem).2.symm

end

/-! ## What ber_attr_to_string does -/

theorem SearchEntry.Clean.literal {e : SearchEntry} (clean : e.Clean) (valid : e.Printable) :
    (∀ b ∈ e.dn, Literal b) ∧ ∀ a ∈ e.attrs, ∀ v ∈ a.vals, ∀ b ∈ v, Literal b :=
  ⟨fun b hb => (literal_iff (valid.dn b hb)).2 (clean.dn b hb),
    fun a ha v hv b hb => (literal_iff (valid.value a ha v hv b hb)).2 (clean.value a ha v hv b hb)⟩

theorem SearchEntry.mem_values {e : SearchEntry} {c : List UInt8} (h : c ∈ e.classes) :
    ∃ a ∈ e.attrs, c ∈ a.vals := by
  obtain ⟨a, ha, hc⟩ := List.mem_flatMap.1 h
  exact ⟨a, (List.mem_filter.1 ha).1, hc⟩

theorem resultText_mem {es : List SearchEntry} (named : ∀ e ∈ es, e.objectClass ≠ [])
    (valid : ∀ e ∈ es, e.Printable) (clean : ∀ e ∈ es, e.Clean) :
    resultText es ∈ obj (((classNames es).map fun c => (c, ofClass es c)).map fun g =>
      (g.1, arr (g.2.map SearchEntry.json))) := by
  refine enclosed_mem ?_
  rw [groupTexts, List.map_map, List.map_map, List.forall₂_map_left_iff, List.forall₂_map_right_iff,
    List.forall₂_same]
  intro c hc
  have hliteral : ∀ b ∈ c, Literal b := by
    obtain ⟨e, he, rfl⟩ := mem_classNames.1 hc
    obtain ⟨a, ha, hv⟩ := SearchEntry.mem_values (SearchEntry.objectClass_mem (named e he))
    exact ((clean e he).literal (valid e he)).2 a ha _ hv
  refine memberText_mem hliteral (enclosed_mem ?_)
  rw [List.forall₂_map_left_iff, List.forall₂_map_right_iff, List.forall₂_same]
  intro e he
  have he := (mem_ofClass.1 he).1
  obtain ⟨hdn, hvalue⟩ := (clean e he).literal (valid e he)
  exact SearchEntry.text_mem hdn (fun a ha b hb => ((valid e he).name a ha b hb).literal) hvalue

/-- Entries that are written are written as JSON exactly when they are clean. -/
theorem rendersJson_iff {xs : List Collected} (hne : xs ≠ [])
    (valid : ∀ x ∈ xs, x.entry.Printable) {rber : BER}
    (hrber : rber.berval = xs.flatMap Collected.octets) (hlen : rber.berval.length < 2 ^ 31)
    {bstring : Option BER} (hxs : Rendered bstring xs) :
    RendersJson (some rber) bstring (xs.map Collected.entry) ↔ ∀ x ∈ xs, x.entry.Clean := by
  obtain ⟨b, hrun, htext⟩ := berAttrToString_eq hne hxs hrber hlen
  have named : ∀ e ∈ xs.map Collected.entry, e.objectClass ≠ [] :=
    List.forall_mem_map.2 fun x hx => (hxs.entry x hx).named
  rw [← List.forall_mem_map (P := SearchEntry.Clean)]
  constructor
  · rintro ⟨b', groups, hrun', hgroups, hjson⟩
    rw [hrun] at hrun'
    cases hrun'
    rw [htext] at hjson
    exact clean_of_resultText_mem named hgroups hjson
  · intro clean
    refine ⟨b, _, hrun, byClass_classNames named fun e he => (clean e he).one, ?_⟩
    rw [htext]
    exact resultText_mem named (List.forall_mem_map.2 valid) clean

/-- Clean entries that can be written are written as JSON, and other entries that can be written
are not.  `rber->len` is an `int`. -/
theorem renders_json {xs : List Collected} (hne : xs ≠ [])
    (valid : ∀ x ∈ xs, x.entry.Printable) {rber : BER}
    (hrber : rber.berval = xs.flatMap Collected.octets) (hlen : rber.berval.length < 2 ^ 31)
    (bstring : Option BER) :
    (Rendered bstring xs ∧ (∀ x ∈ xs, x.entry.Clean) →
      RendersJson (some rber) bstring (xs.map Collected.entry)) ∧
    (Rendered bstring xs → RendersJson (some rber) bstring (xs.map Collected.entry) →
      ∀ x ∈ xs, x.entry.Clean) :=
  ⟨fun h => (rendersJson_iff hne valid hrber hlen h.1).2 h.2,
    fun h => (rendersJson_iff hne valid hrber hlen h).1⟩

/-- An entry in the octets of LDAP_gen_search_entry. -/
def SearchEntry.collected (e : SearchEntry) (h : e.octets.length < 2 ^ 24) : Collected where
  entry := e
  name := tlv 0x04 e.dn
  items := itemOctets Attr.octets e.attrs
  seq := tlv 0x30 (itemOctets Attr.octets e.attrs)
  octets := e.octets
  name_wire := tlv_isTlv (parts_lt h).1
  items_wire := itemOctets_wire (parts_lt h).2.1
  seq_wire := tlv_isTlv (parts_lt h).2.1
  wire := tlv_isTlv (parts_lt h).2.2

/-- A person with a description of one character. -/
def described (b : UInt8) : SearchEntry :=
  ⟨ascii "cn=a", [⟨objectClassName, [ascii "person"]⟩, ⟨ascii "description", [[b]]⟩]⟩

/-- The bytes of its strings. -/
theorem described_eq (b : UInt8) : described b =
    ⟨[0x63, 0x6e, 0x3d, 0x61],
      [⟨[0x6f, 0x62, 0x6a, 0x65, 0x63, 0x74, 0x43, 0x6c, 0x61, 0x73, 0x73],
        [[0x70, 0x65, 0x72, 0x73, 0x6f, 0x6e]]⟩,
      ⟨[0x64, 0x65, 0x73, 0x63, 0x72, 0x69, 0x70, 0x74, 0x69, 0x6f, 0x6e], [[b]]⟩]⟩ := by
  simp [described, objectClassName, ascii]

theorem person_eq : ascii "person" = [0x70, 0x65, 0x72, 0x73, 0x6f, 0x6e] := by simp [ascii]

/-- A fresh bstring has room for twice BER_BUFFER. -/
theorem textRoom_none : textRoom none = 262144 := by decide +kernel

section

variable (b : UInt8)

theorem described_octets : (described b).octets.length = 55 := by
  rw [described_eq]
  simp [SearchEntry.octets, itemOctets, Attr.octets, attrOctets, valsOctets, tlv, lengthOctets]

theorem described_lt : (described b).octets.length < 2 ^ 24 := by
  rw [described_octets]
  decide

theorem described_classes : (described b).classes = [ascii "person"] := by
  rw [described_eq, person_eq]
  simp [SearchEntry.classes, objectClassName, ascii]

theorem described_objectClass : (described b).objectClass = ascii "person" := by
  rw [SearchEntry.objectClass, described_classes]
  rfl

theorem described_names : classNames [described b] = [ascii "person"] := by
  rw [classNames, List.map_singleton, described_objectClass, person_eq]
  rfl

theorem described_text : (described b).text.length = 54 := by
  rw [described_eq]
  simp [SearchEntry.text, SearchEntry.members, Attr.text, Attr.valueText, enclosed, memberText,
    quoted, commaSep, ascii]

theorem described_group {c : List UInt8} (hc : c ∈ classNames [described b]) :
    (groupText c (ofClass [described b] c)).length = 65 := by
  rw [described_names] at hc
  obtain rfl := List.mem_singleton.1 hc
  simp [groupText, ofClass, described_objectClass, memberText, enclosed, quoted, commaSep,
    described_text, person_eq]

theorem described_seen :
    ClassSeen (ascii "person") ((described b).collected (described_lt b)).reach
      ((described b).collected (described_lt b)).seq := by
  refine ⟨[0x30, 0x2d, 0x30, 0x17, 0x04], 0x08, 0x04,
    0x30 :: 0x12 :: (tlv 0x04 (ascii "description") ++ [0x31, 0x03, 0x04, 0x01, b]), ?_, ?_, ?_⟩
  · change tlv 0x30 (itemOctets Attr.octets (described b).attrs) = _
    rw [described_eq, person_eq]
    simp [itemOctets, Attr.octets, attrOctets, valsOctets, tlv, lengthOctets, scanKey,
      objectClassName, ascii]
  · change ((5 : Nat) : Int) < ((tlv 0x04 (described b).dn ++
      tlv 0x30 (itemOctets Attr.octets (described b).attrs)).length : Int) -
        (described b).dn.length - 20
    rw [described_eq]
    simp [itemOctets, Attr.octets, attrOctets, valsOctets, tlv, lengthOctets]
  · rw [person_eq]
    decide

end

section

variable {b : UInt8}

theorem described_renders (hb : b ≠ 0) :
    ((described b).collected (described_lt b)).Renders where
  dn := by
    change Piece 9 (ascii "cn=a")
    decide
  attrs := by
    have hpieces : ∀ a ∈ (described b).attrs, Piece 3 a.name ∧ ∀ v ∈ a.vals, Piece 3 v := by
      rw [described_eq]
      simpa [Piece, ldapMaxStringSize] using hb.symm
    exact fun a ha => ⟨(hpieces a ha).1, (hpieces a ha).2⟩
  named := by
    change (described b).objectClass ≠ []
    rw [described_objectClass, person_eq]
    exact List.cons_ne_nil _ _
  seen := by
    change ClassSeen (described b).objectClass _ _
    rw [described_objectClass]
    exact described_seen b

theorem described_rendered (hb : b ≠ 0) :
    Rendered none [(described b).collected (described_lt b)] where
  entry := List.forall_mem_singleton.2 (described_renders hb)
  group := by
    intro c hc
    change (groupText c (ofClass [described b] c)).length < ldapReadBuffer
    rw [described_group b hc]
    decide
  total := by
    rw [textRoom_none]
    change (resultText [described b]).length < 262144
    have hgroup := described_group b (described_names b ▸ List.mem_singleton_self _)
    simp [resultText, groupTexts, enclosed, commaSep, described_names, hgroup]

theorem described_printable (hb : PrintChar b) : (described b).Printable := by
  rw [described_eq]
  refine ⟨?_, ?_, ?_⟩
  · simp [PrintChar]
  · simp [NameChar]
  · simpa [PrintChar] using hb

end

theorem described_clean : (described 0x78).Clean := by
  refine ⟨?_, ?_, ?_⟩
  · simp [described_classes, described_objectClass]
  · rw [described_eq]
    simp [Quoting]
  · rw [described_eq]
    simp [Quoting]

theorem renders_json_described :
    RendersJson (some ⟨55, (described 0x78).octets⟩) none [described 0x78] := by
  have hlen : (described 0x78).octets.length < 2 ^ 31 :=
    Nat.lt_of_lt_of_le (described_lt _) (by decide)
  exact (renders_json (List.cons_ne_nil ((described 0x78).collected (described_lt _)) [])
    (List.forall_mem_singleton.2 (described_printable (by decide)))
    (List.append_nil _).symm hlen none).1
      ⟨described_rendered (by decide), List.forall_mem_singleton.2 described_clean⟩

/-- A quote is not escaped. -/
theorem quote_not_json :
    ¬ ∀ xs : List Collected, xs ≠ [] → (∀ x ∈ xs, x.entry.Printable) →
      ∀ (rber : BER) (bstring : Option BER), rber.berval = xs.flatMap Collected.octets →
        rber.berval.length < 2 ^ 31 →
          RendersJson (some rber) bstring (xs.map Collected.entry) := by
  intro h
  have hne : [(described 0x22).collected (described_lt 0x22)] ≠ [] := List.cons_ne_nil _ _
  have valid : ∀ x ∈ [(described 0x22).collected (described_lt 0x22)], x.entry.Printable :=
    List.forall_mem_singleton.2 (described_printable (by decide))
  have hlen : (described 0x22).octets.length < 2 ^ 31 :=
    Nat.lt_of_lt_of_le (described_lt _) (by decide)
  have hjson := h _ hne valid ⟨55, (described 0x22).octets⟩ none (List.append_nil _).symm hlen
  have clean := (rendersJson_iff hne valid (List.append_nil _).symm hlen
    (described_rendered (by decide))).1 hjson _ List.mem_cons_self
  exact clean.value _ (List.mem_cons_of_mem _ List.mem_cons_self) _ List.mem_cons_self 0x22
    List.mem_cons_self (.inl rfl)

end CassandraApi.Ldap
