/-
# `Ldap.MatchingRule` — extensible matches

    [type][:dn][:rule]:=value

matching_rule splits such a text at its colons and takes each piece for what it
looks like.  What is behind the last colon is `=value`, and it is stored with the
`=`, so a filter for the value itself is never written, whatever the text.
-/
import CassandraApi.Ldap.FilterOctets
import CassandraApi.Ldap.FilterText

namespace CassandraApi.Ldap

open C Ber

/-! ## Items -/

/-- An extensible match. -/
structure ExtensibleItem where
  type : Option (List UInt8) := none
  dn : Bool := false
  rule : Option (List UInt8) := none
  value : List UInt8

def ExtensibleItem.text (e : ExtensibleItem) : List UInt8 :=
  e.type.getD [] ++ (if e.dn then ascii ":dn" else []) ++
    (e.rule.map fun r => 0x3a :: r).getD [] ++ ascii ":=" ++ e.value

def ExtensibleItem.filter (e : ExtensibleItem) : SearchFilter :=
  .extensibleMatch e.rule e.type (some e.value) e.dn

/-- Numbers with dots between them. -/
def IsOid (s : List UInt8) : Prop :=
  0x2e ∈ s ∧ ∀ n ∈ s.splitOn 0x2e, n ≠ [] ∧ ∀ c ∈ n, isDigit c = true

structure ExtensibleItem.Valid (e : ExtensibleItem) : Prop where
  type : ∀ t ∈ e.type, IsName t ∧ t.length ≤ 9
  rule : ∀ r ∈ e.rule, IsOid r ∧ r.length ≤ 99
  present : e.type ≠ none ∨ e.rule ≠ none
  value : e.value ≠ [] ∧ e.value.length ≤ 100
  chars : ∀ c ∈ e.value, c ∉ [0, 0x3a, 0x3d]

/-- The bytes are an encoding of the filter. -/
def IsFilter : SearchFilter → List UInt8 → Prop :=
  FilterOctets (fun _ _ => True) fun _ _ => True

theorem FlagOctets.fields {flag : Bool} {out : List UInt8} (h : FlagOctets flag out) :
    ∃ fields, Tlvs fields out := by
  cases h with
  | absent => exact ⟨[], .nil⟩
  | here hout => exact ⟨_, .single hout⟩

/-- The strings in an extensible match. -/
theorem IsFilter.extensible {rule type value : Option (List UInt8)} {flag : Bool}
    {out : List UInt8} (h : IsFilter (.extensibleMatch rule type value flag) out) :
    ∃ fields content, Tlv 0xa9 content out ∧ Tlvs fields content ∧
      ∀ v ∈ value, (0x83, v) ∈ fields := by
  have hopt : ∀ {tag : UInt8} {s : Option (List UInt8)} {o : List UInt8},
      OptionalOctets (fun _ _ => True) tag s o → ∃ fields, Tlvs fields o := by
    intro tag s o ho
    cases ho with
    | absent => exact ⟨[], .nil⟩
    | here _ hout => exact ⟨_, .single hout⟩
  generalize hf : SearchFilter.extensibleMatch rule type value flag = f at h
  cases h with
  | set htag =>
    simp only [filterSets, List.mem_cons, Prod.mk.injEq, List.not_mem_nil, or_false] at htag
    rcases htag with ⟨-, rfl⟩ | ⟨-, rfl⟩ <;> cases hf
  | not => cases hf
  | comparison htag =>
    simp only [comparisons, List.mem_cons, Prod.mk.injEq, List.not_mem_nil, or_false] at htag
    rcases htag with ⟨-, rfl⟩ | ⟨-, rfl⟩ | ⟨-, rfl⟩ | ⟨-, rfl⟩ <;> cases hf
  | substrings => cases hf
  | present => cases hf
  | extensible hrule htype hvalue _ hflag hout =>
    cases hf
    obtain ⟨fields₁, h₁⟩ := hopt hrule
    obtain ⟨fields₂, h₂⟩ := hopt htype
    obtain ⟨fields₃, h₃⟩ := FlagOctets.fields hflag
    refine ⟨_, _, hout, ((h₁.append h₂).append (.single hvalue)).append h₃, ?_⟩
    rintro v ⟨⟩
    simp

/-! ## What is written -/

/-- A length that is written as one octet is right only when it is short: a long one would be read
as the number of the octets behind it. -/
theorem shortField_content {tag : UInt8} {content bytes : List UInt8}
    (h : Tlv tag content (shortField tag bytes)) (hlen : bytes.length < 256)
    (hhead : ∀ c ∈ bytes.head?, 128 < c.toNat) : bytes.length < 128 ∧ content = bytes := by
  generalize hout : shortField tag bytes = out at h
  cases h with
  | mk len =>
    obtain ⟨-, hrest⟩ := List.cons.inj hout
    rcases len.forms with ⟨hshort, rfl⟩ | ⟨os, hpos, hfour, hval, rfl⟩
    · obtain ⟨hoctet, rfl⟩ := List.cons.inj hrest
      exact ⟨hshort, rfl⟩
    · obtain ⟨hoctet, hbytes⟩ := List.cons.inj hrest
      replace hbytes : bytes = os ++ content := hbytes
      have hnat := congrArg UInt8.toNat hoctet
      rw [UInt8.toNat_ofNat', UInt8.toNat_ofNat'] at hnat
      obtain ⟨o, os, rfl⟩ := List.exists_cons_of_ne_nil (List.ne_nil_of_length_pos hpos)
      -- the first of them alone is more than what is there
      have hbig := hhead o (by rw [hbytes]; rfl)
      have hge : o.toNat ≤ beVal (o :: os) :=
        le_trans (Nat.le_mul_of_pos_right _ (Nat.pow_pos (by decide))) (Nat.le_add_right _ _)
      have hsize := congrArg List.length hbytes
      rw [List.length_append] at hsize
      omega

/-- The value that is stored starts with the `=`. -/
structure MatchData.Kept (m : MatchData) : Prop where
  value : ∀ c ∈ m.matchValue.head?, c = 0x3d
  dn : m.dnAttr = [] ∨ m.dnAttr = ascii "dn"

theorem copyMatchField_eq {cap : Nat} {field s r : List UInt8}
    (h : copyMatchField cap field s = .ok r) : r = s ++ field.drop s.length := by
  unfold copyMatchField at h
  split at h
  · cases h
    rfl
  · cases h

theorem MatchData.Kept.token {m m' : MatchData} {token : List UInt8} (h : m.Kept)
    (htoken : matchToken m token = .ok m') : m'.Kept := by
  unfold matchToken at htoken
  split at htoken
  · obtain ⟨r, -, hpure⟩ := bind_eq_ok.1 htoken
    cases hpure
    exact ⟨h.value, h.dn⟩
  · split at htoken
    · rename_i hdn
      subst hdn
      obtain ⟨r, hcopy, hpure⟩ := bind_eq_ok.1 htoken
      cases hpure
      refine ⟨h.value, .inr ?_⟩
      rw [copyMatchField_eq hcopy]
      rcases h.dn with hnone | hdn
      · rw [hnone]
        rfl
      · rw [hdn]
        rfl
    · split at htoken
      · obtain ⟨r, -, hpure⟩ := bind_eq_ok.1 htoken
        cases hpure
        exact ⟨h.value, h.dn⟩
      · rename_i hsome
        obtain ⟨r, hcopy, hpure⟩ := bind_eq_ok.1 htoken
        cases hpure
        refine ⟨fun c hc => ?_, h.dn⟩
        obtain ⟨v, vs, hv⟩ := List.exists_cons_of_ne_nil hsome
        have hstop := List.head_dropWhile_not (fun c : UInt8 => decide (c ≠ 0x3d)) hsome
        rw [copyMatchField_eq hcopy, hv] at hc
        cases hc
        simp only [hv, List.head_cons, decide_eq_false_iff_not, not_not] at hstop
        exact hstop

theorem MatchData.Kept.tokens {tokens : List (List UInt8)} {m m' : MatchData} (h : m.Kept)
    (hfold : tokens.foldlM matchToken m = .ok m') : m'.Kept := by
  induction tokens generalizing m with
  | nil =>
    cases hfold
    exact h
  | cons token tokens ih =>
    obtain ⟨m₁, htoken, hrest⟩ := bind_eq_ok.1 hfold
    exact ih (h.token htoken) hrest

/-- A string of MATCHDATA with its tag, unless it is empty. -/
def matchFields (tag : UInt8) (field : List UInt8) : List (UInt8 × List UInt8) :=
  if field = [] then [] else [(tag, field)]

theorem shortField_isTlv {tag : UInt8} {bytes : List UInt8} (h : bytes.length < 128) :
    Tlv tag bytes (shortField tag bytes) := by
  rw [shortField_eq h]
  exact tlv_isTlv (h.trans (by decide))

/-- A string is written behind its tag, which is above 128. -/
theorem matchField_written {tag : UInt8} {cap : Nat} {field out : List UInt8}
    (htag : 128 < tag.toNat) (h : matchField tag cap field = .ok out) :
    (∀ c ∈ out.head?, 128 < c.toNat) ∧
      (out.length < 128 → Tlvs (matchFields tag field) out) := by
  unfold matchField at h
  split at h
  · rename_i hnone
    cases h
    refine ⟨fun c hc => (by cases hc), fun _ => ?_⟩
    rw [matchFields, if_pos hnone]
    exact .nil
  · rename_i hsome
    split at h
    · cases h
      refine ⟨fun c hc => ?_, fun hlen => ?_⟩
      · cases hc
        exact htag
      · rw [matchFields, if_neg hsome]
        refine .single (shortField_isTlv ?_)
        rw [shortField, List.length_cons, List.length_cons] at hlen
        omega
    · cases h

theorem head_append {xs ys : List UInt8} (hxs : ∀ c ∈ xs.head?, 128 < c.toNat)
    (hys : ∀ c ∈ ys.head?, 128 < c.toNat) : ∀ c ∈ (xs ++ ys).head?, 128 < c.toNat := by
  cases xs with
  | nil => exact hys
  | cons x xs => exact hxs

/-- Whatever the text, a value that is written starts with `=`. -/
theorem matchingRule_value {data bFilt r : List UInt8} (h : matchingRule data bFilt = .ok r) :
    ∃ temp, r = bFilt ++ shortField 0xa9 temp ∧ temp.length < 256 ∧
      (∀ c ∈ temp.head?, 128 < c.toNat) ∧
      (temp.length < 128 → ∃ fields, Tlvs fields temp ∧
        ∀ v, (0x83, v) ∈ fields → v.head? = some 0x3d) := by
  obtain ⟨m, hfold, h⟩ := bind_eq_ok.1 h
  obtain ⟨rule, hrule, h⟩ := bind_eq_ok.1 h
  obtain ⟨type, htype, h⟩ := bind_eq_ok.1 h
  obtain ⟨value, hvalue, h⟩ := bind_eq_ok.1 h
  have hkept : m.Kept := MatchData.Kept.tokens ⟨fun c hc => (by cases hc), .inl rfl⟩ hfold
  obtain ⟨hhead₁, hfields₁⟩ := matchField_written (by decide) hrule
  obtain ⟨hhead₂, hfields₂⟩ := matchField_written (by decide) htype
  obtain ⟨hhead₃, hfields₃⟩ := matchField_written (by decide) hvalue
  -- the flag
  generalize hdn : (if m.dnAttr = [] then [] else [0x84, UInt8.ofNat (m.dnAttr.length - 1), 0xff] :
    List UInt8) = dn at h
  have hflag : (∀ c ∈ dn.head?, 128 < c.toNat) ∧
      ∃ fields, Tlvs fields dn ∧ ∀ v, (0x83, v) ∉ fields := by
    rcases hkept.dn with hnone | hset
    · rw [if_pos hnone] at hdn
      subst hdn
      exact ⟨fun c hc => (by cases hc), [], .nil, fun v hv => by cases hv⟩
    · rw [hset, if_neg (by decide)] at hdn
      subst hdn
      refine ⟨fun c hc => (by cases hc; decide), [(0x84, [0xff])], .single (.mk (.short (by decide))),
        fun v hv => ?_⟩
      cases List.mem_singleton.1 hv
  obtain ⟨hhead₄, fields, hfields₄, hnot⟩ := hflag
  simp only at h
  split at h
  · cases h
  · rename_i hle
    split at h
    · cases h
    · rename_i hne
      unfold putFilter at h
      split at h
      · cases h
        refine ⟨_, rfl, by omega, head_append (head_append (head_append hhead₁ hhead₂) hhead₃)
          hhead₄, fun hlen => ?_⟩
        simp only [List.length_append] at hlen
        refine ⟨_, (((hfields₁ (by omega)).append (hfields₂ (by omega))).append
          (hfields₃ (by omega))).append hfields₄, fun v hv => ?_⟩
        simp only [List.mem_append, matchFields] at hv
        rcases hv with ((hv | hv) | hv) | hv
        · split at hv <;> simp at hv
        · split at hv <;> simp at hv
        · split at hv
          · cases hv
          · rename_i hsome
            cases List.mem_singleton.1 hv
            obtain ⟨c, cs, hcs⟩ := List.exists_cons_of_ne_nil hsome
            have hc := hkept.value c (by rw [hcs]; rfl)
            rw [hcs, hc]
            rfl
        · exact absurd hv (hnot v)
      · cases h

/-! ## The items -/

theorem strstr_found (pre needle post : List UInt8) :
    (strstr (pre ++ needle ++ post) needle).isSome = true := by
  induction pre with
  | nil =>
    rw [List.nil_append]
    cases hs : needle ++ post with
    | nil =>
      rw [strstr, if_pos (List.append_eq_nil_iff.1 hs).1]
      rfl
    | cons c cs =>
      rw [strstr, if_pos ⟨post, hs⟩]
      rfl
  | cons c pre ih =>
    rw [List.cons_append, List.cons_append, strstr]
    split
    · rfl
    · rw [Option.isSome_map]
      exact ih

/-- A value without `=` is not what is written. -/
theorem value_not_encoded {text value bFilt out : List UInt8} {rule type : Option (List UInt8)}
    {flag : Bool} (hrule : (strstr text (ascii ":=")).isSome = true) (hplain : 0x3d ∉ value)
    (hcreate : createBerFilter text bFilt = .ok (bFilt ++ out)) :
    ¬ IsFilter (.extensibleMatch rule type (some value) flag) out := by
  intro hfilter
  rw [createBerFilter, if_pos hrule] at hcreate
  obtain ⟨temp, hout, hlen, hhead, hwritten⟩ := matchingRule_value hcreate
  obtain rfl := List.append_cancel_left hout
  obtain ⟨fields, content, htlv, hfields, hvalue⟩ := hfilter.extensible
  obtain ⟨hshort, rfl⟩ := shortField_content htlv hlen hhead
  obtain ⟨fields', hfields', hstart⟩ := hwritten hshort
  obtain rfl := hfields.inj hfields'
  exact hplain (List.mem_of_mem_head? (hstart value (hvalue value rfl)))

theorem ExtensibleItem.has_mark (e : ExtensibleItem) :
    (strstr e.text (ascii ":=")).isSome = true :=
  strstr_found _ _ e.value

/-- No extensible match is encoded with its value. -/
theorem extensible_never_encoded {e : ExtensibleItem} (valid : e.Valid) (bFilt : List UInt8) :
    ¬ ∃ out, createBerFilter e.text bFilt = .ok (bFilt ++ out) ∧ IsFilter e.filter out := by
  rintro ⟨out, hcreate, hfilter⟩
  have hplain : 0x3d ∉ e.value := fun hmem => valid.chars _ hmem (by decide)
  exact value_not_encoded e.has_mark hplain hcreate hfilter

/-- `cn:=x` -/
def smallExtensible : ExtensibleItem := { type := some (ascii "cn"), value := ascii "x" }

theorem smallExtensible_valid : smallExtensible.Valid := by
  refine ⟨?_, ?_, ?_, ?_, ?_⟩
  · rintro t ⟨⟩
    exact ⟨⟨by decide, by decide +kernel⟩, by decide⟩
  · rintro r ⟨⟩
  · exact .inl (by decide)
  · decide
  · decide +kernel

theorem extensible_never_encoded_small : ¬ ∃ out,
    createBerFilter smallExtensible.text [] = .ok ([] ++ out) ∧
      IsFilter smallExtensible.filter out :=
  extensible_never_encoded smallExtensible_valid []

theorem ok_of_toOption {α : Type} {x : Except Fault α} {a : α} (h : x.toOption = some a) :
    x = .ok a := by
  cases x with
  | error f => cases h
  | ok b =>
    cases h
    rfl

/-- What is written for it has the value `=x`. -/
theorem equals_sign_stored : smallExtensible.Valid ∧
    createBerFilter smallExtensible.text [] =
      .ok (tlv 0xa9 (tlv 0x82 (ascii "cn") ++ tlv 0x83 (ascii "=x"))) ∧
    ¬ IsFilter smallExtensible.filter (tlv 0xa9 (tlv 0x82 (ascii "cn") ++ tlv 0x83 (ascii "=x"))) := by
  have hwritten : createBerFilter smallExtensible.text [] =
      .ok (tlv 0xa9 (tlv 0x82 (ascii "cn") ++ tlv 0x83 (ascii "=x"))) := by
    refine ok_of_toOption ?_
    decide +kernel
  exact ⟨smallExtensible_valid, hwritten,
    @value_not_encoded _ _ [] _ _ _ _ smallExtensible.has_mark (by decide) hwritten⟩

end CassandraApi.Ldap
