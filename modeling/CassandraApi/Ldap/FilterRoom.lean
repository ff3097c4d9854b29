/-
# `Ldap.FilterRoom` — the filters that LDAP_string_to_filter can read

A filter is decoded into arrays on the stack: 256 bytes for a name, 8192 for a
value and 512 for a filter inside another.  Nothing compares a length with them,
so a filter that they have no room for stops the decoder, and one that it reads
to the end had room (`FilterOctets.fits_of_ok`): every member that a loop comes
to is copied, and those it leaves out are shorter than the header.
-/
import CassandraApi.Ldap.FilterOctets

namespace CassandraApi.Ldap

open C Ber

/-! ## Filters that are read had room -/

/-- No bound on anything. -/
abbrev AnyFilter : SearchFilter → List UInt8 → Prop :=
  FilterOctets (fun _ _ => True) fun _ _ => True

theorem OptionalOctets.small {tag : UInt8} {s : Option (List UInt8)} {out : List UInt8}
    (h : OptionalOctets (fun _ _ => True) tag s out) (hlen : out.length < 256) :
    OptionalOctets (· < ·) tag s out := by
  cases h with
  | absent => exact .absent
  | @here s out _ hout =>
    have hs := hout.length_lt
    have hmax : 256 < ldapMaxAttrValueSize := by decide
    exact .here (by omega) hout

/-- A filter of a few bytes fits everywhere. -/
theorem FilterOctets.small {t : SearchFilter} {out : List UInt8} (h : AnyFilter t out)
    (hlen : out.length < 256) : FilterFits t out := by
  have hmax : 256 < ldapMaxAttrValueSize := by decide
  induction h with
  | @set tag make members out htag filters _ hout _ ih =>
    have hall := hout.length_lt
    have hmem : ∀ x ∈ members, x.2.length < 256 := fun x hx => by
      have hx' := length_le_of_mem hx
      omega
    exact .set htag (fun x hx => ih x hx (hmem x hx))
      (fun x hx => (hmem x hx).trans (by norm_num)) hout fun _ _ => trivial
  | not _ _ hout ih =>
    have hall := hout.length_lt
    exact .not (ih (by omega)) (by omega) hout
  | comparison htag hname hvalue _ _ hout =>
    have hall := hout.length_lt
    have hn := hname.length_lt
    have hv := hvalue.length_lt
    rw [List.length_append] at hall
    exact .comparison htag hname hvalue (by omega) (by omega) hout
  | substrings htype _ hparts _ hlist hout _ =>
    have hall := hout.length_lt
    have ht := htype.length_lt
    have hl := hlist.length_lt
    rw [List.length_append] at hall
    refine .substrings htype (by omega) hparts (fun x hx => ?_) hlist hout fun _ _ => trivial
    have hx' := length_le_of_mem hx
    have hpart := (hparts x hx).length_lt
    omega
  | present _ hout =>
    have hall := hout.length_lt
    exact .present (by omega) hout
  | extensible hrule htype hvalue _ hflag hout =>
    have hall := hout.length_lt
    have hv := hvalue.length_lt
    simp only [List.length_append] at hall
    exact .extensible (hrule.small (by omega)) (htype.small (by omega)) hvalue (by omega) hflag hout

section

variable {buf temp : Block} {i h turns : Nat} {last : Int} {tag : UInt8} {s out : List UInt8}

theorem taggedString_fits {cap : Nat} {r : List UInt8 × Int} (ht : Tlv tag s out)
    (hlen : s.length < 2 ^ 31) (held : Holds buf i out)
    (hok : taggedString cap buf i = .ok r) : s.length < cap := by
  obtain ⟨j, -, hlength, hbytes, -⟩ := ht.read hlen held
  by_contra hcap
  have hroom : ¬ (s.length : Int) < cap := by exact_mod_cast hcap
  simp only [taggedString, hlength, ok_bind, copyString, hbytes.load, if_neg hroom,
    throw_eq_error, error_bind] at hok
  cases hok

theorem copyToTemp_fits {m : List UInt8} {temp' : Block} (hsize : temp.size = 512)
    (held : Holds buf i m) (hok : copyToTemp temp buf i m.length = .ok temp') : m.length < 512 := by
  simp only [copyToTemp, held.load, ok_bind] at hok
  obtain ⟨b, hb, hok⟩ := bind_eq_ok.1 hok
  have hinside := (Holds.written hok).1.inside
  have hb' := (Holds.written hb).2
  have hsize' := (Holds.written hok).2
  rw [Int.toNat_natCast, List.length_singleton] at hinside
  omega

/-- The members that the loop came to had room and were read; the others are shorter than the
header. -/
theorem filterMembers_ok {decode : Block → Except Fault SearchFilter}
    {members : List (SearchFilter × List UInt8)} {fs : List SearchFilter}
    (shape : ∀ x ∈ members, ∃ tag content, Tlv tag content x.2) (hsize : temp.size = 512)
    (hlen : (members.flatMap Prod.snd).length < 2 ^ 31)
    (hend : (i + (members.flatMap Prod.snd).length : Int) = last + h)
    (held : Holds buf i (members.flatMap Prod.snd))
    (hok : filterMembers decode buf last turns temp i = .ok fs) :
    ∀ x ∈ members, x.2.length < h ∨
      x.2.length < 512 ∧ ∃ b m, Holds b 0 (x.2 ++ [0]) ∧ decode b = .ok m := by
  induction members generalizing turns i temp fs with
  | nil =>
    intro x hx
    cases hx
  | cons x xs ih =>
    cases turns with
    | zero => cases hok
    | succ turns =>
      have hall := flatMap_length (x :: xs)
      rw [filterMembers] at hok
      split at hok
      · obtain ⟨tag, content, hx⟩ := shape x List.mem_cons_self
        have hshort := hx.length_lt
        rw [List.flatMap_cons] at held hend hlen
        rw [List.length_append] at hlen
        obtain ⟨j, -, hlength, -, hj, -, -⟩ := hx.read (by omega) held.left
        have hwhole : (content.length : Int) + ((j : Int) - ((i : Int) + 1 + 1)) + 2 =
            x.2.length := by omega
        have hnext : (j : Int) + content.length = ((i + x.2.length : Nat) : Int) := by omega
        simp only [findLen, hlength, ok_bind, pure_eq_ok, hwhole, hnext] at hok
        obtain ⟨temp', hcopy, hok⟩ := bind_eq_ok.1 hok
        obtain ⟨m, hm, hok⟩ := bind_eq_ok.1 hok
        obtain ⟨ms, hms, -⟩ := bind_eq_ok.1 hok
        have hfits := copyToTemp_fits hsize held.left hcopy
        obtain ⟨temp'', hcopy', htemp, hsize'⟩ := copyToTemp_eq hsize hfits held.left
        rw [hcopy'] at hcopy
        cases hcopy
        have hrest := ih (fun y hy => shape y (List.mem_cons_of_mem _ hy)) hsize' (by omega)
          (by rw [List.length_append] at hend; push_cast at hend ⊢; omega) held.right hms
        intro y hy
        rcases List.mem_cons.1 hy with rfl | hy
        · exact .inr ⟨hfits, _, m, htemp, hm⟩
        · exact hrest y hy
      · rename_i hstop
        intro y hy
        have hle := length_le_of_mem hy
        exact .inl (by omega)

theorem substringParts_ok {parts : List ((SubstringChoice × List UInt8) × List UInt8)}
    {ps : List (SubstringChoice × List UInt8)} (shape : ∀ x ∈ parts, Tlv x.1.1.tag x.1.2 x.2)
    (hlen : (parts.flatMap Prod.snd).length < 2 ^ 31)
    (hend : (i + (parts.flatMap Prod.snd).length : Int) = last + h)
    (held : Holds buf i (parts.flatMap Prod.snd))
    (hok : substringParts buf last turns i = .ok ps) :
    ∀ x ∈ parts, x.2.length < h ∨ x.1.2.length < ldapMaxAttrValueSize := by
  induction parts generalizing turns i ps with
  | nil =>
    intro x hx
    cases hx
  | cons x xs ih =>
    cases turns with
    | zero => cases hok
    | succ turns =>
      rw [substringParts] at hok
      split at hok
      · have hx := shape x List.mem_cons_self
        have hshort := hx.length_lt
        rw [List.flatMap_cons] at held hend hlen
        rw [List.length_append] at hlen
        obtain ⟨j, htag, -⟩ := hx.read (by omega) held.left
        have hchoice : substringChoice x.1.1.tag = some x.1.1 := by
          cases x.1.1 <;> rfl
        simp only [htag, ok_bind, hchoice] at hok
        obtain ⟨r, hr, hok⟩ := bind_eq_ok.1 hok
        have hfits := taggedString_fits hx (by omega) held.left hr
        rw [taggedString_eq hx (by omega) hfits held.left] at hr
        cases hr
        obtain ⟨rest, hrest, -⟩ := bind_eq_ok.1 hok
        have hbehind := ih (fun y hy => shape y (List.mem_cons_of_mem _ hy)) (by omega)
          (by rw [List.length_append] at hend; push_cast at hend ⊢; omega) held.right hrest
        intro y hy
        rcases List.mem_cons.1 hy with rfl | hy
        · exact .inr hfits
        · exact hbehind y hy
      · rename_i hstop
        intro y hy
        have hle := length_le_of_mem hy
        exact .inl (by omega)

theorem OptionalOctets.fits_of_ok {s : Option (List UInt8)} {c : UInt8} {rest : List UInt8}
    {r : Option (List UInt8) × Int} (ho : OptionalOctets (fun _ _ => True) tag s out)
    (hlen : out.length < 2 ^ 31) (held : Holds buf i (out ++ c :: rest))
    (hok : optionalString tag buf i = .ok r) : OptionalOctets (· < ·) tag s out := by
  cases ho with
  | absent => exact .absent
  | @here s out _ hout =>
    have hshort := hout.length_lt
    obtain ⟨_, htag, -⟩ := hout.read (by omega) held.left
    simp only [optionalString, htag, ok_bind, if_true] at hok
    obtain ⟨r', hr, -⟩ := bind_eq_ok.1 hok
    exact .here (taggedString_fits hout (by omega) held.left hr) hout

/-- Bytes that are read as a filter, wherever they lie, are those of a tree that the decoder had
room for. -/
def FitsIfRead (out : List UInt8) (t : SearchFilter) : Prop :=
  ∀ (garbage : Nat → UInt8) (depth : Nat) (buf : Block) (i : Nat) (c : UInt8) (f : SearchFilter),
    out.length < 2 ^ 31 → Holds buf i (out ++ [c]) →
      ldapStringToFilter garbage depth buf i = .ok f → FilterFits t out

/-- A filter is read inside a call. -/
theorem depth_of_ok {garbage : Nat → UInt8} {depth : Nat} {f : SearchFilter} {p : Int}
    (hok : ldapStringToFilter garbage depth buf p = .ok f) : ∃ d, depth = d + 1 := by
  cases depth with
  | zero => cases hok
  | succ d => exact ⟨d, rfl⟩

/-- A filter that is read runs the loop over its members, from the first to behind the last. -/
theorem members_of_ok {make : List SearchFilter → SearchFilter} {content : List UInt8} {c : UInt8}
    {garbage : Nat → UInt8} {depth : Nat} {f : SearchFilter} (htag : (tag, make) ∈ filterSets)
    (hout : Tlv tag content out) (hlen : content.length < 2 ^ 31) (held : Holds buf i (out ++ [c]))
    (hok : ldapStringToFilter garbage (depth + 1) buf i = .ok f) :
    ∃ (j : Nat) (fs : List SearchFilter), Holds buf j content ∧
      j + content.length = i + out.length ∧
      filterMembers (fun b => ldapStringToFilter garbage depth b 0) buf (i + content.length)
        (content.length + 2) (filterTemp garbage) j = .ok fs := by
  obtain ⟨j, hrd, hlength, hbytes, hj, -⟩ := hout.read hlen held.left
  rw [ldapStringToFilter] at hok
  simp only [filterSets, List.mem_cons, Prod.mk.injEq, List.not_mem_nil, or_false] at htag
  rcases htag with ⟨rfl, rfl⟩ | ⟨rfl, rfl⟩
  · have hcase : ((0xa0 : UInt8) &&& 0x1f).toNat = 0 := by decide
    simp only [hrd, ok_bind, hcase, hlength, Int.toNat_natCast] at hok
    obtain ⟨fs, hfs, -⟩ := bind_eq_ok.1 hok
    exact ⟨j, fs, hbytes, hj, hfs⟩
  · have hcase : ((0xa1 : UInt8) &&& 0x1f).toNat = 1 := by decide
    simp only [hrd, ok_bind, hcase, findLen, hlength, Int.toNat_natCast, pure_eq_ok] at hok
    obtain ⟨fs, hfs, -⟩ := bind_eq_ok.1 hok
    exact ⟨j, fs, hbytes, hj, hfs⟩

theorem fitsIfRead_set {make : List SearchFilter → SearchFilter}
    {members : List (SearchFilter × List UInt8)} (htag : (tag, make) ∈ filterSets)
    (filters : ∀ x ∈ members, AnyFilter x.1 x.2) (hout : Tlv tag (members.flatMap Prod.snd) out)
    (h : ∀ x ∈ members, FitsIfRead x.2 x.1) : FitsIfRead out (make (members.map Prod.fst)) := by
  intro garbage depth buf i c f hlen held hok
  obtain ⟨depth, rfl⟩ := depth_of_ok hok
  have hshort := hout.length_lt
  have hheader := hout.header_le
  have shape : ∀ x ∈ members, ∃ tag content, Tlv tag content x.2 := fun x hx => by
    obtain ⟨tag, content, hvalue, -⟩ := (filters x hx).shape
    exact ⟨tag, content, hvalue⟩
  obtain ⟨j, fs, hbytes, hj, hfs⟩ := members_of_ok htag hout (by omega) held hok
  have hall := filterMembers_ok (h := out.length - (members.flatMap Prod.snd).length) shape rfl
    (by omega) (by omega) hbytes hfs
  refine .set htag (fun x hx => ?_) (fun x hx => ?_) hout fun _ _ => trivial
  · rcases hall x hx with hsmall | ⟨hfits, b, m, hb, hm⟩
    · exact (filters x hx).small (by omega)
    · exact h x hx garbage depth b 0 0 m (by omega) hb hm
  · rcases hall x hx with hsmall | ⟨hfits, -⟩
    · omega
    · exact hfits

theorem fitsIfRead_not {t : SearchFilter} {m : List UInt8} (hout : Tlv 0xa2 m out)
    (h : FitsIfRead m t) : FitsIfRead out (.not t) := by
  intro garbage depth buf i c f hlen held hok
  obtain ⟨depth, rfl⟩ := depth_of_ok hok
  have hshort := hout.length_lt
  obtain ⟨j, hrd, hlength, hbytes, -⟩ := hout.read (by omega) held.left
  have hcase : ((0xa2 : UInt8) &&& 0x1f).toNat = 2 := by decide
  rw [ldapStringToFilter] at hok
  simp only [hrd, ok_bind, hcase, hlength] at hok
  obtain ⟨temp, hcopy, hok⟩ := bind_eq_ok.1 hok
  obtain ⟨f', hf, -⟩ := bind_eq_ok.1 hok
  have hsize : (filterTemp garbage).size = 512 := rfl
  have hfits := copyToTemp_fits hsize hbytes hcopy
  obtain ⟨temp', hcopy', htemp, -⟩ := copyToTemp_eq hsize hfits hbytes
  rw [hcopy'] at hcopy
  cases hcopy
  exact .not (h garbage depth temp 0 0 f' (by omega) htemp hf) hfits hout

/-- A comparison that is read is an assertion. -/
theorem assertion_of_ok {make : List UInt8 → List UInt8 → SearchFilter} {garbage : Nat → UInt8}
    {depth : Nat} {f : SearchFilter} (htag : (tag, make) ∈ comparisons) (hrd : buf.rd i = .ok tag)
    (hok : ldapStringToFilter garbage (depth + 1) buf i = .ok f) :
    ∃ make', assertion make' buf ((i : Int) + 1) = .ok f := by
  rw [ldapStringToFilter] at hok
  simp only [comparisons, List.mem_cons, Prod.mk.injEq, List.not_mem_nil, or_false] at htag
  rcases htag with ⟨rfl, rfl⟩ | ⟨rfl, rfl⟩ | ⟨rfl, rfl⟩ | ⟨rfl, rfl⟩
  · have hcase : ((0xa3 : UInt8) &&& 0x1f).toNat = 3 := by decide
    simp only [hrd, ok_bind, hcase] at hok
    exact ⟨_, hok⟩
  · have hcase : ((0xa5 : UInt8) &&& 0x1f).toNat = 5 := by decide
    simp only [hrd, ok_bind, hcase] at hok
    exact ⟨_, hok⟩
  · have hcase : ((0xa6 : UInt8) &&& 0x1f).toNat = 6 := by decide
    simp only [hrd, ok_bind, hcase] at hok
    exact ⟨_, hok⟩
  · have hcase : ((0xa8 : UInt8) &&& 0x1f).toNat = 8 := by decide
    simp only [hrd, ok_bind, hcase] at hok
    exact ⟨_, hok⟩

theorem fitsIfRead_comparison {make : List UInt8 → List UInt8 → SearchFilter}
    {name value n v : List UInt8} (htag : (tag, make) ∈ comparisons) (hname : Tlv 0x04 name n)
    (hvalue : Tlv 0x04 value v) (hout : Tlv tag (n ++ v) out) :
    FitsIfRead out (make name value) := by
  intro garbage depth buf i c f hlen held hok
  obtain ⟨depth, rfl⟩ := depth_of_ok hok
  have hmax : ldapMaxAttrValueSize < 2 ^ 31 := by decide
  have hshort := hout.length_lt
  rw [List.length_append] at hshort
  have hn := hname.length_lt
  have hv := hvalue.length_lt
  obtain ⟨j, hrd, hlength, hbytes, -⟩ := hout.read (by rw [List.length_append]; omega) held.left
  obtain ⟨make', hassert⟩ := assertion_of_ok htag hrd hok
  simp only [assertion, hlength, ok_bind] at hassert
  obtain ⟨r, hr, hassert⟩ := bind_eq_ok.1 hassert
  have fitsName := taggedString_fits hname (by omega) hbytes.left hr
  rw [taggedString_eq hname (by omega) fitsName hbytes.left] at hr
  cases hr
  obtain ⟨r', hr', -⟩ := bind_eq_ok.1 hassert
  exact .comparison htag hname hvalue fitsName
    (taggedString_fits hvalue (by omega) hbytes.right hr') hout

theorem fitsIfRead_substrings {type t l : List UInt8}
    {parts : List ((SubstringChoice × List UInt8) × List UInt8)} (htype : Tlv 0x04 type t)
    (hparts : ∀ x ∈ parts, Tlv x.1.1.tag x.1.2 x.2) (hlist : Tlv 0x30 (parts.flatMap Prod.snd) l)
    (hout : Tlv 0xa4 (t ++ l) out) : FitsIfRead out (.substrings type (parts.map Prod.fst)) := by
  intro garbage depth buf i c f hlen held hok
  obtain ⟨depth, rfl⟩ := depth_of_ok hok
  have hmax : ldapMaxAttrValueSize < 2 ^ 31 := by decide
  have hshort := hout.length_lt
  have hheader := hout.header_le
  have ht := htype.length_lt
  have hl := hlist.length_lt
  rw [List.length_append] at hshort hheader
  obtain ⟨j, hrd, hlength, hbytes, hj, hlow, -⟩ :=
    hout.read (by rw [List.length_append]; omega) held.left
  obtain ⟨_, htypetag, -⟩ := htype.read (by omega) hbytes.left
  obtain ⟨k, hlisttag, hlength', hbytes', hk, -, -⟩ := hlist.read (by omega) hbytes.right
  have hcase : ((0xa4 : UInt8) &&& 0x1f).toNat = 4 := by decide
  rw [ldapStringToFilter] at hok
  simp only [hrd, ok_bind, hcase, hlength, optionalString, htypetag, if_true] at hok
  obtain ⟨r, hr, hok⟩ := bind_eq_ok.1 hok
  obtain ⟨r', hr', hr⟩ := bind_eq_ok.1 hr
  have fitsType := taggedString_fits htype (by omega) hbytes.left hr'
  rw [taggedString_eq htype (by omega) fitsType hbytes.left] at hr'
  cases hr'
  cases hr
  simp only [hlisttag, ok_bind, if_true, hlength', Int.toNat_natCast] at hok
  obtain ⟨ps, hps, -⟩ := bind_eq_ok.1 hok
  rw [List.length_append] at hj
  have hall := substringParts_ok (h := out.length - (t ++ l).length) hparts (by omega) (by
    rw [List.length_append]
    omega) hbytes' hps
  refine .substrings htype fitsType hparts (fun x hx => ?_) hlist hout fun _ _ => trivial
  rcases hall x hx with hsmall | hfits
  · have hpart := (hparts x hx).length_lt
    have hmin : 256 < ldapMaxAttrValueSize := by decide
    rw [List.length_append] at hsmall
    omega
  · exact hfits

theorem fitsIfRead_present {type : List UInt8} (hout : Tlv 0x87 type out) :
    FitsIfRead out (.present type) := by
  intro garbage depth buf i c f hlen held hok
  obtain ⟨depth, rfl⟩ := depth_of_ok hok
  have hshort := hout.length_lt
  obtain ⟨_, hrd, -⟩ := hout.read (by omega) held.left
  have hcase : ((0x87 : UInt8) &&& 0x1f).toNat = 7 := by decide
  rw [ldapStringToFilter] at hok
  simp only [hrd, ok_bind, hcase] at hok
  obtain ⟨r, hr, -⟩ := bind_eq_ok.1 hok
  exact .present (taggedString_fits hout (by omega) held.left hr) hout

theorem fitsIfRead_extensible {rule type : Option (List UInt8)} {value r t v g : List UInt8}
    {flag : Bool} (hrule : OptionalOctets (fun _ _ => True) 0x81 rule r)
    (htype : OptionalOctets (fun _ _ => True) 0x82 type t) (hvalue : Tlv 0x83 value v)
    (hflag : FlagOctets flag g) (hout : Tlv 0xa9 (r ++ t ++ v ++ g) out) :
    FitsIfRead out (.extensibleMatch rule type (some value) flag) := by
  intro garbage depth buf i c f hlen held hok
  obtain ⟨depth, rfl⟩ := depth_of_ok hok
  have hshort := hout.length_lt
  have hv := hvalue.length_lt
  simp only [List.length_append] at hshort
  obtain ⟨j, hrd, hlength, hbytes, -⟩ :=
    hout.read (by simp only [List.length_append]; omega) held.left
  have hall : Holds buf j (r ++ (t ++ (v ++ g))) := by
    simpa only [List.append_assoc] using hbytes
  obtain ⟨v', rfl⟩ : ∃ v', v = 0x83 :: v' := by
    cases hvalue with
    | mk hL => exact ⟨_, rfl⟩
  obtain ⟨d, rest, hd, hdtag⟩ :=
    @OptionalOctets.head 0x82 t (fun _ _ => True) type 0x83 (v' ++ g) htype
  have hcase : ((0xa9 : UInt8) &&& 0x1f).toNat = 9 := by decide
  rw [ldapStringToFilter] at hok
  simp only [hrd, ok_bind, hcase, hlength] at hok
  obtain ⟨x, hx, hok⟩ := bind_eq_ok.1 hok
  have hfirst : Holds buf j (r ++ d :: rest) := by
    rw [← hd]
    exact hall
  have fitsRule := hrule.fits_of_ok (by omega) hfirst hx
  have hne : d ≠ 0x81 := by
    rcases hdtag with rfl | rfl <;> decide
  rw [optionalString_eq fitsRule hne hfirst] at hx
  cases hx
  obtain ⟨y, hy, hok⟩ := bind_eq_ok.1 hok
  have hsecond : Holds buf (j + r.length) (t ++ 0x83 :: (v' ++ g)) := hall.right
  have fitsType := htype.fits_of_ok (by omega) hsecond hy
  rw [optionalString_eq fitsType (by decide) hsecond] at hy
  cases hy
  obtain ⟨z, hz, -⟩ := bind_eq_ok.1 hok
  have hthird := hall.right.right.left
  obtain ⟨_, htag, -⟩ := hvalue.read (by omega) hthird
  simp only [optionalString, htag, ok_bind, if_true] at hz
  obtain ⟨w, hw, -⟩ := bind_eq_ok.1 hz
  exact .extensible fitsRule fitsType hvalue (taggedString_fits hvalue (by omega) hthird hw)
    hflag hout

end

/-- A filter that is read to the end had room. -/
theorem FilterOctets.fits_of_ok {t : SearchFilter} {out : List UInt8} (h : AnyFilter t out)
    {garbage : Nat → UInt8} {depth : Nat} {buf : Block} {i : Nat} {c : UInt8} {f : SearchFilter}
    (hlen : out.length < 2 ^ 31) (held : Holds buf i (out ++ [c]))
    (hok : ldapStringToFilter garbage depth buf i = .ok f) : FilterFits t out := by
  have hread : FitsIfRead out t := by
    clear hlen held hok
    induction h with
    | set htag filters _ hout _ ih => exact fitsIfRead_set htag filters hout ih
    | not _ _ hout ih => exact fitsIfRead_not hout ih
    | comparison htag hname hvalue _ _ hout => exact fitsIfRead_comparison htag hname hvalue hout
    | substrings htype _ hparts _ hlist hout _ =>
      exact fitsIfRead_substrings htype hparts hlist hout
    | present _ hout => exact fitsIfRead_present hout
    | extensible hrule htype hvalue _ hflag hout =>
      exact fitsIfRead_extensible hrule htype hvalue hflag hout
  exact hread garbage depth buf i c f hlen held hok

end CassandraApi.Ldap
