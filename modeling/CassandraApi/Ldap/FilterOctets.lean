/-
# `Ldap.FilterOctets` — the filters of a search on the wire

    a0 L members              a1 L members              a2 L member
    a3 L  04 n name  04 m value             (a5, a6 and a8 likewise)
    a4 L  04 n type  30 m parts             87 n type
    a9 L  [81 n rule]  [82 n type]  83 n value  [84 n ff]

with any definite lengths.  LDAP_string_to_filter copies a member to an array of
512 bytes, a name to one of 256, and the other strings to fields of 8192.  Its
loops over members and parts compare an index that counts from the tag of the
filter with the length of what is behind that tag's header.  They leave out an
item at the end that is shorter than the header (`reached`), and find the tree
that was encoded when no such item is there (`decodes_iff_kept`).
-/
import CassandraApi.Ber.Tlv
import CassandraApi.Ldap.Filter

namespace CassandraApi.Ldap

open C Ber

/-! ## The last items of a list -/

section

variable {α : Type} {size : α → Nat} {h : Nat} {x : α} {xs : List α}

/-- The items with at least `h` bytes from their start to the end of the list. -/
def reached (size : α → Nat) (h : Nat) : List α → List α
  | [] => []
  | x :: xs => if h ≤ ((x :: xs).map size).sum then x :: reached size h xs else []

/-- The last item has a size that is `kept`. -/
def LastKept (size : α → Nat) (kept : Nat → Prop) (xs : List α) : Prop :=
  ∀ x ∈ xs.getLast?, kept (size x)

theorem LastKept.tail {kept : Nat → Prop} (hlast : LastKept size kept (x :: xs)) :
    LastKept size kept xs := by
  intro y hy
  refine hlast y ?_
  cases xs with
  | nil => cases hy
  | cons z zs => rwa [List.getLast?_cons_cons]

/-- Everything is reached when the last item is as long as the header. -/
theorem reached_eq_self (hlast : LastKept size (h ≤ ·) xs) : reached size h xs = xs := by
  induction xs with
  | nil => rfl
  | cons x xs ih =>
    have hle : h ≤ ((x :: xs).map size).sum := by
      have hmem : (x :: xs).getLast (List.cons_ne_nil x xs) ∈ x :: xs := List.getLast_mem _
      have hend := hlast _ (List.getLast?_eq_some_getLast (List.cons_ne_nil x xs))
      exact hend.trans (List.single_le_sum (fun _ _ => Nat.zero_le _) _
        (List.mem_map_of_mem hmem))
    rw [reached, if_pos hle, ih hlast.tail]

/-- And only then. -/
theorem lastKept_of_reached (hall : (reached size h xs).length = xs.length) :
    LastKept size (h ≤ ·) xs := by
  induction xs with
  | nil =>
    intro y hy
    cases hy
  | cons x xs ih =>
    rw [reached] at hall
    split at hall
    · rename_i hle
      intro y hy
      cases xs with
      | nil =>
        cases hy
        simpa using hle
      | cons z zs =>
        rw [List.getLast?_cons_cons] at hy
        exact ih (Nat.succ.inj hall) y hy
    · cases hall

end

/-! ## Filters on the wire -/

/-- A string behind `tag`, or nothing. -/
inductive OptionalOctets (room : Nat → Nat → Prop) (tag : UInt8) :
    Option (List UInt8) → List UInt8 → Prop where
  | absent : OptionalOctets room tag none []
  | here {s out : List UInt8} (fits : room s.length ldapMaxAttrValueSize) (hout : Tlv tag s out) :
      OptionalOctets room tag (some s) out

/-- The flag of an extensible match, which is there when it is set. -/
inductive FlagOctets : Bool → List UInt8 → Prop where
  | absent : FlagOctets false []
  | here {out : List UInt8} (hout : Tlv 0x84 [0xff] out) : FlagOctets true out

/-- The sets of filters, by their tags. -/
def filterSets : List (UInt8 × (List SearchFilter → SearchFilter)) := [(0xa0, .and), (0xa1, .or)]

/-- The comparisons, by their tags. -/
def comparisons : List (UInt8 × (List UInt8 → List UInt8 → SearchFilter)) :=
  [(0xa3, .equalityMatch), (0xa5, .greaterOrEqual), (0xa6, .lessOrEqual), (0xa8, .approxMatch)]

def SubstringChoice.tag : SubstringChoice → UInt8
  | .initial => 0x80
  | .any => 0x81
  | .final => 0x82

/-- The bytes `out` are a filter.  Each string and each member has `room` in the array of that size
which it is copied to, and the last item of a list is `kept` behind a header of the given size. -/
inductive FilterOctets (room kept : Nat → Nat → Prop) : SearchFilter → List UInt8 → Prop where
  | set {tag : UInt8} {make : List SearchFilter → SearchFilter}
      {members : List (SearchFilter × List UInt8)} {out : List UInt8}
      (htag : (tag, make) ∈ filterSets) (filters : ∀ x ∈ members, FilterOctets room kept x.1 x.2)
      (fits : ∀ x ∈ members, room x.2.length 512)
      (hout : Tlv tag (members.flatMap Prod.snd) out)
      (hlast : LastKept (fun x => x.2.length)
        (kept (out.length - (members.flatMap Prod.snd).length)) members) :
      FilterOctets room kept (make (members.map Prod.fst)) out
  | not {t : SearchFilter} {m out : List UInt8} (filter : FilterOctets room kept t m)
      (fits : room m.length 512) (hout : Tlv 0xa2 m out) : FilterOctets room kept (.not t) out
  | comparison {tag : UInt8} {make : List UInt8 → List UInt8 → SearchFilter}
      {name value n v out : List UInt8} (htag : (tag, make) ∈ comparisons)
      (hname : Tlv 0x04 name n) (hvalue : Tlv 0x04 value v) (fitsName : room name.length 256)
      (fitsValue : room value.length ldapMaxAttrValueSize) (hout : Tlv tag (n ++ v) out) :
      FilterOctets room kept (make name value) out
  | substrings {type t l out : List UInt8} {parts : List ((SubstringChoice × List UInt8) × List UInt8)}
      (htype : Tlv 0x04 type t) (fitsType : room type.length ldapMaxAttrValueSize)
      (hparts : ∀ x ∈ parts, Tlv x.1.1.tag x.1.2 x.2)
      (fits : ∀ x ∈ parts, room x.1.2.length ldapMaxAttrValueSize)
      (hlist : Tlv 0x30 (parts.flatMap Prod.snd) l) (hout : Tlv 0xa4 (t ++ l) out)
      (hlast : LastKept (fun x => x.2.length) (kept (out.length - (t ++ l).length)) parts) :
      FilterOctets room kept (.substrings (some type) (parts.map Prod.fst)) out
  | present {type out : List UInt8} (fits : room type.length ldapMaxAttrValueSize)
      (hout : Tlv 0x87 type out) : FilterOctets room kept (.present type) out
  | extensible {rule type : Option (List UInt8)} {value r t v f out : List UInt8} {flag : Bool}
      (hrule : OptionalOctets room 0x81 rule r) (htype : OptionalOctets room 0x82 type t)
      (hvalue : Tlv 0x83 value v) (fits : room value.length ldapMaxAttrValueSize)
      (hflag : FlagOctets flag f) (hout : Tlv 0xa9 (r ++ t ++ v ++ f) out) :
      FilterOctets room kept (.extensibleMatch rule type (some value) flag) out

/-- A filter whose strings and members the decoder has room for. -/
def FilterFits : SearchFilter → List UInt8 → Prop := FilterOctets (· < ·) fun _ _ => True

/-- And in which no list ends with an item that is shorter than the header of its filter. -/
def Kept : SearchFilter → List UInt8 → Prop := FilterOctets (· < ·) (· ≤ ·)

theorem FilterOctets.mono {room room' kept kept' : Nat → Nat → Prop} {t : SearchFilter}
    {out : List UInt8} (hroom : ∀ n cap, room n cap → room' n cap)
    (hkept : ∀ h n, kept h n → kept' h n) (h : FilterOctets room kept t out) :
    FilterOctets room' kept' t out := by
  have hopt : ∀ {tag : UInt8} {s : Option (List UInt8)} {o : List UInt8},
      OptionalOctets room tag s o → OptionalOctets room' tag s o := by
    intro tag s o ho
    cases ho with
    | absent => exact .absent
    | here fits hout => exact .here (hroom _ _ fits) hout
  induction h with
  | set htag _ fits hout hlast ih =>
    exact .set htag ih (fun x hx => hroom _ _ (fits x hx)) hout fun x hx => hkept _ _ (hlast x hx)
  | not _ fits hout ih => exact .not ih (hroom _ _ fits) hout
  | comparison htag hname hvalue fitsName fitsValue hout =>
    exact .comparison htag hname hvalue (hroom _ _ fitsName) (hroom _ _ fitsValue) hout
  | substrings htype fitsType hparts fits hlist hout hlast =>
    exact .substrings htype (hroom _ _ fitsType) hparts (fun x hx => hroom _ _ (fits x hx)) hlist
      hout fun x hx => hkept _ _ (hlast x hx)
  | present fits hout => exact .present (hroom _ _ fits) hout
  | extensible hrule htype hvalue fits hflag hout =>
    exact .extensible (hopt hrule) (hopt htype) hvalue (hroom _ _ fits) hflag hout

/-- A filter is one value, with one of ten tags. -/
theorem FilterOctets.shape {room kept : Nat → Nat → Prop} {t : SearchFilter} {out : List UInt8}
    (h : FilterOctets room kept t out) :
    ∃ tag content, Tlv tag content out ∧ (tag &&& 0x1f).toNat ≤ 9 := by
  cases h with
  | set htag _ _ hout _ =>
    simp only [filterSets, List.mem_cons, Prod.mk.injEq, List.not_mem_nil, or_false] at htag
    rcases htag with ⟨rfl, -⟩ | ⟨rfl, -⟩ <;> exact ⟨_, _, hout, by decide⟩
  | not _ _ hout => exact ⟨_, _, hout, by decide⟩
  | comparison htag _ _ _ _ hout =>
    simp only [comparisons, List.mem_cons, Prod.mk.injEq, List.not_mem_nil, or_false] at htag
    rcases htag with ⟨rfl, -⟩ | ⟨rfl, -⟩ | ⟨rfl, -⟩ | ⟨rfl, -⟩ <;> exact ⟨_, _, hout, by decide⟩
  | substrings _ _ _ _ _ hout _ => exact ⟨_, _, hout, by decide⟩
  | present _ hout => exact ⟨_, _, hout, by decide⟩
  | extensible _ _ _ _ _ hout => exact ⟨_, _, hout, by decide⟩

/-! ## Reading strings -/

section

variable {buf temp : Block} {i : Nat} {tag : UInt8} {s out : List UInt8}

theorem taggedString_eq {cap : Nat} (ht : Tlv tag s out) (hlen : s.length < 2 ^ 31)
    (hcap : s.length < cap) (h : Holds buf i out) :
    taggedString cap buf i = .ok (s, ((i + out.length : Nat) : Int)) := by
  obtain ⟨j, -, hlength, hbytes, hj, -, -⟩ := ht.read hlen h
  have hroom : (s.length : Int) < cap := by exact_mod_cast hcap
  simp only [taggedString, hlength, ok_bind, copyString, hbytes.load, if_pos hroom, pure_eq_ok]
  rw [← Nat.cast_add, hj]

theorem optionalString_here (hout : Tlv tag s out) (fits : s.length < ldapMaxAttrValueSize)
    (h : Holds buf i out) :
    optionalString tag buf i = .ok (some s, ((i + out.length : Nat) : Int)) := by
  have hmax : ldapMaxAttrValueSize < 2 ^ 31 := by decide
  obtain ⟨_, htag, -⟩ := hout.read (fits.trans hmax) h
  simp only [optionalString, htag, ok_bind, if_true, taggedString_eq hout (fits.trans hmax) fits h,
    pure_eq_ok]

/-- An optional string, when what is behind it does not have its tag. -/
theorem optionalString_eq {s : Option (List UInt8)} {c : UInt8} {rest : List UInt8}
    (ho : OptionalOctets (· < ·) tag s out) (hc : c ≠ tag) (h : Holds buf i (out ++ c :: rest)) :
    optionalString tag buf i = .ok (s, ((i + out.length : Nat) : Int)) := by
  cases ho with
  | absent =>
    simp only [optionalString, h.rd, ok_bind, if_neg hc, List.length_nil, Nat.add_zero, pure_eq_ok]
  | here fits hout => exact optionalString_here hout fits h.left

/-- What is behind an optional string starts with its tag or with the next one. -/
theorem OptionalOctets.head {room : Nat → Nat → Prop} {s : Option (List UInt8)} {c : UInt8}
    {rest : List UInt8} (ho : OptionalOctets room tag s out) :
    ∃ d rest', out ++ c :: rest = d :: rest' ∧ (d = tag ∨ d = c) := by
  cases ho with
  | absent => exact ⟨c, rest, rfl, .inr rfl⟩
  | here _ hout =>
    cases hout with
    | mk hL => exact ⟨tag, _, rfl, .inl rfl⟩

/-- A comparison from behind its tag on. -/
theorem assertion_eq (make : List UInt8 → List UInt8 → SearchFilter)
    {name value n v : List UInt8} (hname : Tlv 0x04 name n) (hvalue : Tlv 0x04 value v)
    (fitsName : name.length < 256) (fitsValue : value.length < ldapMaxAttrValueSize)
    (hout : Tlv tag (n ++ v) out) (hlen : out.length < 2 ^ 31) (h : Holds buf i out) :
    assertion make buf ((i : Int) + 1) = .ok (make name value) := by
  have hmax : ldapMaxAttrValueSize < 2 ^ 31 := by decide
  have hshort := hout.length_lt
  obtain ⟨j, -, hlength, hbytes, -⟩ := hout.read (by omega) h
  simp only [assertion, hlength, ok_bind,
    taggedString_eq hname (by omega) fitsName hbytes.left,
    taggedString_eq hvalue (fitsValue.trans hmax) fitsValue hbytes.right, pure_eq_ok]

/-! ## The loops -/

theorem copyToTemp_eq {m : List UInt8} (hsize : temp.size = 512) (hm : m.length < 512)
    (h : Holds buf i m) :
    ∃ temp', copyToTemp temp buf i m.length = .ok temp' ∧ Holds temp' 0 (m ++ [0]) ∧
      temp'.size = 512 := by
  obtain ⟨b, hb⟩ : ∃ b, temp.write 0 m = .ok b := by
    unfold Block.write
    rw [if_pos (by omega)]
    exact ⟨_, rfl⟩
  obtain ⟨hheld, hbsize⟩ := Holds.written hb
  obtain ⟨b', hb'⟩ : ∃ b', b.write m.length [0] = .ok b' := by
    unfold Block.write
    rw [if_pos (by simp only [List.length_singleton]; omega)]
    exact ⟨_, rfl⟩
  obtain ⟨hend, hbsize'⟩ := Holds.written hb'
  have hkept := Holds.write_frame hb' hheld (.inl (by simp))
  refine ⟨b', ?_, Holds.append_iff.2 ⟨hkept, ?_⟩, by omega⟩
  · simp only [copyToTemp, h.load, ok_bind, hb, hb']
  · simpa using hend

end

/-- What the decoder makes of the bytes `out`, wherever they lie, given the stack for as many calls
as there are filters inside one another, and unless the byte behind is taken for a flag. -/
def Decodes (out : List UInt8) (t : SearchFilter) : Prop :=
  ∀ (garbage : Nat → UInt8) (depth : Nat) (buf : Block) (i : Nat) (c : UInt8),
    out.length < 2 ^ 31 → out.length < 2 * depth ∨ 256 < depth → c ≠ 0x84 →
      Holds buf i (out ++ [c]) → ldapStringToFilter garbage depth buf i = .ok t

/-- The bytes of the items behind the first. -/
theorem flatMap_length {α : Type} (xs : List (α × List UInt8)) :
    (xs.flatMap Prod.snd).length = (xs.map fun x => x.2.length).sum :=
  List.length_flatMap

section

variable {buf : Block} {i h turns : Nat} {last : Int}

/-- The loop over the members goes as far as they are reached, `h` being the size of the header. -/
theorem filterMembers_eq {decode : Block → Except Fault SearchFilter} {temp : Block}
    {members : List (SearchFilter × List UInt8)} {read : SearchFilter × List UInt8 → SearchFilter}
    (shape : ∀ x ∈ members, ∃ tag content, Tlv tag content x.2)
    (fits : ∀ x ∈ members, x.2.length < 512)
    (reads : ∀ x ∈ members, ∀ b, Holds b 0 (x.2 ++ [0]) → decode b = .ok (read x))
    (hsize : temp.size = 512) (hturns : members.length < turns) (hpos : 0 < h)
    (hend : (i + (members.flatMap Prod.snd).length : Int) = last + h)
    (held : Holds buf i (members.flatMap Prod.snd)) :
    filterMembers decode buf last turns temp i =
      .ok ((reached (fun x => x.2.length) h members).map read) := by
  induction members generalizing turns i temp with
  | nil =>
    obtain ⟨turns, rfl⟩ := Nat.exists_eq_succ_of_ne_zero (by omega : turns ≠ 0)
    rw [List.flatMap_nil, List.length_nil] at hend
    rw [filterMembers, if_neg (by omega)]
    rfl
  | cons x xs ih =>
    obtain ⟨turns, rfl⟩ := Nat.exists_eq_succ_of_ne_zero (by omega : turns ≠ 0)
    have hall : ((x :: xs).flatMap Prod.snd).length =
        ((x :: xs).map fun x => x.2.length).sum := flatMap_length (x :: xs)
    rw [filterMembers, reached, ← hall]
    split
    · rename_i hle
      rw [if_pos (by omega)]
      rw [List.flatMap_cons] at held hend
      rw [List.length_append, Nat.cast_add, ← Int.add_assoc] at hend
      obtain ⟨tag, content, hx⟩ := shape x List.mem_cons_self
      have hfits := fits x List.mem_cons_self
      have hshort := hx.length_lt
      obtain ⟨j, -, hlength, -, hj, -, -⟩ := hx.read (by omega) held.left
      obtain ⟨temp', hcopy, htemp, hsize'⟩ := copyToTemp_eq hsize hfits held.left
      have hwhole : (content.length : Int) + ((j : Int) - ((i : Int) + 1 + 1)) + 2 = x.2.length := by
        omega
      have hnext : (j : Int) + content.length = ((i + x.2.length : Nat) : Int) := by
        omega
      rw [List.length_cons] at hturns
      have hrest := ih (fun y hy => shape y (List.mem_cons_of_mem _ hy))
        (fun y hy => fits y (List.mem_cons_of_mem _ hy))
        (fun y hy => reads y (List.mem_cons_of_mem _ hy)) hsize'
        (show xs.length < turns by omega) (by push_cast; exact hend) held.right
      simp only [findLen, hlength, ok_bind, pure_eq_ok, hwhole, hcopy,
        reads x List.mem_cons_self temp' htemp, hnext, hrest, List.map_cons]
    · rw [if_neg (by omega)]
      rfl

/-- And so does the loop over the parts of a substrings filter. -/
theorem substringParts_eq {parts : List ((SubstringChoice × List UInt8) × List UInt8)}
    (shape : ∀ x ∈ parts, Tlv x.1.1.tag x.1.2 x.2)
    (fits : ∀ x ∈ parts, x.1.2.length < ldapMaxAttrValueSize)
    (hturns : parts.length < turns) (hpos : 0 < h)
    (hend : (i + (parts.flatMap Prod.snd).length : Int) = last + h)
    (held : Holds buf i (parts.flatMap Prod.snd)) :
    substringParts buf last turns i =
      .ok ((reached (fun x => x.2.length) h parts).map Prod.fst) := by
  induction parts generalizing turns i with
  | nil =>
    obtain ⟨turns, rfl⟩ := Nat.exists_eq_succ_of_ne_zero (by omega : turns ≠ 0)
    rw [List.flatMap_nil, List.length_nil] at hend
    rw [substringParts, if_neg (by omega)]
    rfl
  | cons x xs ih =>
    obtain ⟨turns, rfl⟩ := Nat.exists_eq_succ_of_ne_zero (by omega : turns ≠ 0)
    have hall : ((x :: xs).flatMap Prod.snd).length =
        ((x :: xs).map fun x => x.2.length).sum := flatMap_length (x :: xs)
    rw [substringParts, reached, ← hall]
    split
    · rename_i hle
      rw [if_pos (by omega)]
      rw [List.flatMap_cons] at held hend
      rw [List.length_append, Nat.cast_add, ← Int.add_assoc] at hend
      have hmax : ldapMaxAttrValueSize < 2 ^ 31 := by decide
      have hx := shape x List.mem_cons_self
      have hfits := fits x List.mem_cons_self
      obtain ⟨j, htag, -⟩ := hx.read (hfits.trans hmax) held.left
      have hchoice : substringChoice x.1.1.tag = some x.1.1 := by
        cases x.1.1 <;> rfl
      rw [List.length_cons] at hturns
      have hrest := ih (fun y hy => shape y (List.mem_cons_of_mem _ hy))
        (fun y hy => fits y (List.mem_cons_of_mem _ hy)) (show xs.length < turns by omega)
        (by push_cast; exact hend) held.right
      simp only [htag, ok_bind, hchoice, taggedString_eq hx (hfits.trans hmax) hfits held.left,
        hrest, pure_eq_ok, List.map_cons]
    · rw [if_neg (by omega)]
      rfl

end

/-! ## Filters -/

instance : Inhabited SearchFilter := ⟨.zeroed⟩

theorem length_le_flatMap {α : Type} {xs : List (α × List UInt8)}
    (h : ∀ x ∈ xs, 2 ≤ x.2.length) : xs.length ≤ (xs.flatMap Prod.snd).length := by
  induction xs with
  | nil => exact Nat.zero_le _
  | cons x xs ih =>
    have hx := h x List.mem_cons_self
    have hxs := ih fun y hy => h y (List.mem_cons_of_mem _ hy)
    rw [List.flatMap_cons, List.length_append, List.length_cons]
    omega

theorem length_le_of_mem {α : Type} {x : α × List UInt8} {xs : List (α × List UInt8)} (h : x ∈ xs) :
    x.2.length ≤ (xs.flatMap Prod.snd).length := by
  rw [flatMap_length]
  exact List.single_le_sum (fun _ _ => Nat.zero_le _) _ (List.mem_map_of_mem h)

theorem filterSets_inj {tag : UInt8} {make : List SearchFilter → SearchFilter}
    {xs ys : List SearchFilter} (htag : (tag, make) ∈ filterSets) (h : make xs = make ys) :
    xs = ys := by
  simp only [filterSets, List.mem_cons, Prod.mk.injEq, List.not_mem_nil, or_false] at htag
  rcases htag with ⟨-, rfl⟩ | ⟨-, rfl⟩
  · exact SearchFilter.and.inj h
  · exact SearchFilter.or.inj h

/-- A filter that contains `m` leaves a call less for it. -/
theorem depth_inside {m out : List UInt8} {depth : Nat} (hm : m.length < 512)
    (hout : m.length + 2 ≤ out.length) (h : out.length < 2 * (depth + 1) ∨ 256 < depth + 1) :
    m.length < 2 * depth ∨ 256 < depth := by
  rcases h with h | h
  · exact .inl (by omega)
  · exact .inl (by omega)

section

variable {room kept : Nat → Nat → Prop} {tag : UInt8} {out : List UInt8} {t : SearchFilter}

/-- A set of filters is read as those of them that are reached. -/
theorem decodes_set {make : List SearchFilter → SearchFilter}
    {members : List (SearchFilter × List UInt8)} {read : SearchFilter × List UInt8 → SearchFilter}
    (htag : (tag, make) ∈ filterSets) (shape : ∀ x ∈ members, ∃ tag content, Tlv tag content x.2)
    (fits : ∀ x ∈ members, x.2.length < 512) (hout : Tlv tag (members.flatMap Prod.snd) out)
    (reads : ∀ x ∈ members, Decodes x.2 (read x)) :
    Decodes out (make ((reached (fun x => x.2.length)
      (out.length - (members.flatMap Prod.snd).length) members).map read)) := by
  intro garbage depth buf i c hlen hdepth hc held
  obtain ⟨depth, rfl⟩ := Nat.exists_eq_succ_of_ne_zero (by omega : depth ≠ 0)
  have hshort := hout.length_lt
  obtain ⟨j, hrd, hlength, hbytes, hj, hlow, -⟩ := hout.read (by omega) held.left
  have hcount : members.length ≤ (members.flatMap Prod.snd).length := by
    refine length_le_flatMap fun x hx => ?_
    obtain ⟨_, _, hvalue⟩ := shape x hx
    exact hvalue.two_le
  have hreads : ∀ x ∈ members, ∀ b, Holds b 0 (x.2 ++ [0]) →
      ldapStringToFilter garbage depth b 0 = .ok (read x) := by
    intro x hx b hb
    have hmem := length_le_of_mem hx
    have hfits := fits x hx
    exact reads x hx garbage depth b 0 0 (by omega)
      (depth_inside hfits (show x.2.length + 2 ≤ out.length by omega) hdepth) (by decide) hb
  have hloop : filterMembers (fun b => ldapStringToFilter garbage depth b 0) buf
      (i + (members.flatMap Prod.snd).length) ((members.flatMap Prod.snd).length + 2)
      (filterTemp garbage) j =
        .ok ((reached (fun x => x.2.length) (out.length - (members.flatMap Prod.snd).length)
          members).map read) :=
    filterMembers_eq shape fits hreads rfl (by omega) (by omega) (by omega) hbytes
  simp only [filterSets, List.mem_cons, Prod.mk.injEq, List.not_mem_nil, or_false] at htag
  rcases htag with ⟨rfl, rfl⟩ | ⟨rfl, rfl⟩
  · have hcase : ((0xa0 : UInt8) &&& 0x1f).toNat = 0 := by decide
    rw [ldapStringToFilter]
    simp only [hrd, ok_bind, hcase, hlength, Int.toNat_natCast, hloop, pure_eq_ok]
  · have hcase : ((0xa1 : UInt8) &&& 0x1f).toNat = 1 := by decide
    rw [ldapStringToFilter]
    simp only [hrd, ok_bind, hcase, findLen, hlength, Int.toNat_natCast, hloop, pure_eq_ok]

theorem decodes_not {m : List UInt8} (fits : m.length < 512) (hout : Tlv 0xa2 m out)
    (h : Decodes m t) : Decodes out (.not t) := by
  intro garbage depth buf i c hlen hdepth hc held
  obtain ⟨depth, rfl⟩ := Nat.exists_eq_succ_of_ne_zero (by omega : depth ≠ 0)
  have hshort := hout.length_lt
  obtain ⟨j, hrd, hlength, hbytes, -⟩ := hout.read (by omega) held.left
  obtain ⟨temp, hcopy, htemp, -⟩ := copyToTemp_eq
    (show (filterTemp garbage).size = 512 from rfl) fits hbytes
  have hmember := h garbage depth temp 0 0 (by omega) (depth_inside fits hshort hdepth) (by decide)
    htemp
  have hcase : ((0xa2 : UInt8) &&& 0x1f).toNat = 2 := by decide
  rw [Nat.cast_zero] at hmember
  rw [ldapStringToFilter]
  simp only [hrd, ok_bind, hcase, hlength, hcopy, hmember, pure_eq_ok]

theorem decodes_comparison {make : List UInt8 → List UInt8 → SearchFilter}
    {name value n v : List UInt8} (htag : (tag, make) ∈ comparisons) (hname : Tlv 0x04 name n)
    (hvalue : Tlv 0x04 value v) (fitsName : name.length < 256)
    (fitsValue : value.length < ldapMaxAttrValueSize) (hout : Tlv tag (n ++ v) out) :
    Decodes out (make name value) := by
  intro garbage depth buf i c hlen hdepth hc held
  obtain ⟨depth, rfl⟩ := Nat.exists_eq_succ_of_ne_zero (by omega : depth ≠ 0)
  have hshort := hout.length_lt
  obtain ⟨j, hrd, -⟩ := hout.read (by omega) held.left
  have hassert := assertion_eq make hname hvalue fitsName fitsValue hout hlen held.left
  simp only [comparisons, List.mem_cons, Prod.mk.injEq, List.not_mem_nil, or_false] at htag
  rw [ldapStringToFilter]
  rcases htag with ⟨rfl, rfl⟩ | ⟨rfl, rfl⟩ | ⟨rfl, rfl⟩ | ⟨rfl, rfl⟩
  · have hcase : ((0xa3 : UInt8) &&& 0x1f).toNat = 3 := by decide
    simp only [hrd, ok_bind, hcase, hassert]
  · have hcase : ((0xa5 : UInt8) &&& 0x1f).toNat = 5 := by decide
    simp only [hrd, ok_bind, hcase, hassert]
  · have hcase : ((0xa6 : UInt8) &&& 0x1f).toNat = 6 := by decide
    simp only [hrd, ok_bind, hcase, hassert]
  · have hcase : ((0xa8 : UInt8) &&& 0x1f).toNat = 8 := by decide
    simp only [hrd, ok_bind, hcase, hassert]

/-- A substrings filter is read as those of its parts that are reached. -/
theorem decodes_substrings {type t l : List UInt8}
    {parts : List ((SubstringChoice × List UInt8) × List UInt8)} (htype : Tlv 0x04 type t)
    (fitsType : type.length < ldapMaxAttrValueSize) (hparts : ∀ x ∈ parts, Tlv x.1.1.tag x.1.2 x.2)
    (fits : ∀ x ∈ parts, x.1.2.length < ldapMaxAttrValueSize)
    (hlist : Tlv 0x30 (parts.flatMap Prod.snd) l) (hout : Tlv 0xa4 (t ++ l) out) :
    Decodes out (.substrings (some type) ((reached (fun x => x.2.length)
      (out.length - (t ++ l).length) parts).map Prod.fst)) := by
  intro garbage depth buf i c hlen hdepth hc held
  obtain ⟨depth, rfl⟩ := Nat.exists_eq_succ_of_ne_zero (by omega : depth ≠ 0)
  have hmax : ldapMaxAttrValueSize < 2 ^ 31 := by decide
  have hshort := hout.length_lt
  have hinner := hlist.length_lt
  obtain ⟨j, hrd, hlength, hbytes, hj, hlow, -⟩ := hout.read (by omega) held.left
  obtain ⟨_, htypetag, -⟩ := htype.read (fitsType.trans hmax) hbytes.left
  have hname := taggedString_eq htype (fitsType.trans hmax) fitsType hbytes.left
  rw [List.length_append] at hshort hj
  obtain ⟨k, hlisttag, hlength', hbytes', hk, -, -⟩ := hlist.read (by omega) hbytes.right
  have hcount : parts.length ≤ (parts.flatMap Prod.snd).length :=
    length_le_flatMap fun x hx => (hparts x hx).two_le
  have hloop : substringParts buf (i + (t ++ l).length) ((t ++ l).length + 2) k =
      .ok ((reached (fun x => x.2.length) (out.length - (t ++ l).length) parts).map Prod.fst) := by
    rw [List.length_append]
    exact substringParts_eq hparts fits (by omega) (by omega) (by omega) hbytes'
  have hcase : ((0xa4 : UInt8) &&& 0x1f).toNat = 4 := by decide
  rw [ldapStringToFilter]
  simp only [hrd, ok_bind, hcase, hlength, optionalString, htypetag, if_true, hname, hlisttag,
    hlength', Int.toNat_natCast, hloop, pure_eq_ok]

theorem decodes_present {type : List UInt8} (fits : type.length < ldapMaxAttrValueSize)
    (hout : Tlv 0x87 type out) : Decodes out (.present type) := by
  intro garbage depth buf i c hlen hdepth hc held
  obtain ⟨depth, rfl⟩ := Nat.exists_eq_succ_of_ne_zero (by omega : depth ≠ 0)
  have hmax : ldapMaxAttrValueSize < 2 ^ 31 := by decide
  obtain ⟨_, hrd, -⟩ := hout.read (fits.trans hmax) held.left
  have hcase : ((0x87 : UInt8) &&& 0x1f).toNat = 7 := by decide
  rw [ldapStringToFilter]
  simp only [hrd, ok_bind, hcase, taggedString_eq hout (fits.trans hmax) fits held.left, pure_eq_ok]

theorem decodes_extensible {rule type : Option (List UInt8)} {value r t v f : List UInt8}
    {flag : Bool} (hrule : OptionalOctets (· < ·) 0x81 rule r)
    (htype : OptionalOctets (· < ·) 0x82 type t) (hvalue : Tlv 0x83 value v)
    (fits : value.length < ldapMaxAttrValueSize) (hflag : FlagOctets flag f)
    (hout : Tlv 0xa9 (r ++ t ++ v ++ f) out) :
    Decodes out (.extensibleMatch rule type (some value) flag) := by
  intro garbage depth buf i c hlen hdepth hc held
  obtain ⟨depth, rfl⟩ := Nat.exists_eq_succ_of_ne_zero (by omega : depth ≠ 0)
  have hshort := hout.length_lt
  obtain ⟨j, hrd, hlength, hbytes, hj, -, -⟩ := hout.read (by omega) held.left
  have hbehind := held.right
  rw [← hj] at hbehind
  have hall : Holds buf j (r ++ (t ++ (v ++ (f ++ [c])))) := by
    have := Holds.append_iff.2 ⟨hbytes, hbehind⟩
    simpa only [List.append_assoc] using this
  obtain ⟨v', rfl⟩ : ∃ v', v = 0x83 :: v' := by
    cases hvalue with
    | mk hL => exact ⟨_, rfl⟩
  obtain ⟨d, rest, hd, hdtag⟩ := @OptionalOctets.head 0x82 t (· < ·) type 0x83 (v' ++ (f ++ [c])) htype
  have hfirst := optionalString_eq hrule (show d ≠ 0x81 by rcases hdtag with rfl | rfl <;> decide)
    (show Holds buf j (r ++ d :: rest) by rw [← hd]; exact hall)
  have hsecond := optionalString_eq htype (show (0x83 : UInt8) ≠ 0x82 by decide)
    (show Holds buf (j + r.length) (t ++ 0x83 :: (v' ++ (f ++ [c]))) from hall.right)
  have hthird := optionalString_here hvalue fits hall.right.right.left
  have hfourth := hall.right.right.right
  have hcase : ((0xa9 : UInt8) &&& 0x1f).toNat = 9 := by decide
  rw [ldapStringToFilter]
  simp only [hrd, ok_bind, hcase, hlength, hfirst, hsecond, hthird]
  cases hflag with
  | absent => simp only [hfourth.rd, ok_bind, if_neg hc, pure_eq_ok]
  | here hf =>
    obtain ⟨_, htag, hflaglength, -⟩ := hf.read (by decide) hfourth.left
    simp only [htag, ok_bind, if_true, hflaglength, pure_eq_ok]

end

/-- Every filter that the decoder has room for is read, as the tree that was encoded when and only
when nothing is left out. -/
theorem FilterOctets.decodes {kept : Nat → Nat → Prop} {t : SearchFilter} {out : List UInt8}
    (h : FilterOctets (· < ·) kept t out) :
    ∃ t', Decodes out t' ∧ ((∀ h n, kept h n → h ≤ n) → t' = t) ∧ (t' = t → Kept t out) := by
  induction h with
  | @set tag make members out htag filters fits hout hlast ih =>
    choose! read hread using ih
    refine ⟨_, decodes_set htag (fun x hx => ?_) fits hout (fun x hx => (hread x hx).1), ?_, ?_⟩
    · obtain ⟨tag, content, hvalue, -⟩ := (filters x hx).shape
      exact ⟨tag, content, hvalue⟩
    · intro hle
      rw [reached_eq_self fun x hx => hle _ _ (hlast x hx)]
      exact congrArg make (List.map_congr_left fun x hx => (hread x hx).2.1 hle)
    · intro heq
      have hmaps := filterSets_inj htag heq
      have hcount := congrArg List.length hmaps
      rw [List.length_map, List.length_map] at hcount
      have hkept := lastKept_of_reached hcount
      rw [reached_eq_self hkept, List.map_inj_left] at hmaps
      exact .set htag (fun x hx => (hread x hx).2.2 (hmaps x hx)) fits hout hkept
  | not _ fits hout ih =>
    obtain ⟨t', hdecodes, hsame, hkept⟩ := ih
    exact ⟨.not t', decodes_not fits hout hdecodes, fun hle => congrArg _ (hsame hle),
      fun heq => .not (hkept (SearchFilter.not.inj heq)) fits hout⟩
  | comparison htag hname hvalue fitsName fitsValue hout =>
    exact ⟨_, decodes_comparison htag hname hvalue fitsName fitsValue hout, fun _ => rfl,
      fun _ => .comparison htag hname hvalue fitsName fitsValue hout⟩
  | @substrings type t l out parts htype fitsType hparts fits hlist hout hlast =>
    refine ⟨_, decodes_substrings htype fitsType hparts fits hlist hout, fun hle => ?_, fun heq => ?_⟩
    · rw [reached_eq_self fun x hx => hle _ _ (hlast x hx)]
    · have hcount := congrArg List.length (SearchFilter.substrings.inj heq).2
      rw [List.length_map, List.length_map] at hcount
      exact .substrings htype fitsType hparts fits hlist hout (lastKept_of_reached hcount)
  | present fits hout =>
    exact ⟨_, decodes_present fits hout, fun _ => rfl, fun _ => .present fits hout⟩
  | extensible hrule htype hvalue fits hflag hout =>
    exact ⟨_, decodes_extensible hrule htype hvalue fits hflag hout, fun _ => rfl,
      fun _ => .extensible hrule htype hvalue fits hflag hout⟩

/-- A filter that the decoder has room for is read as the tree that was encoded if and only if no
list in it ends with an item shorter than the header of its filter. -/
theorem decodes_iff_kept {t : SearchFilter} {out : List UInt8} (h : FilterFits t out)
    (hlen : out.length < 2 ^ 31) {garbage : Nat → UInt8} {depth : Nat} {buf : Block} {i : Nat}
    {c : UInt8} (hdepth : 256 < depth) (hc : c ≠ 0x84) (held : Holds buf i (out ++ [c])) :
    ldapStringToFilter garbage depth buf i = .ok t ↔ Kept t out := by
  constructor
  · intro hread
    obtain ⟨t', hdecodes, -, hkept⟩ := h.decodes
    have hread' := hdecodes garbage depth buf i c hlen (.inr hdepth) hc held
    exact hkept (Except.ok.inj (hread'.symm.trans hread))
  · intro hkept
    obtain ⟨t', hdecodes, hsame, -⟩ := hkept.decodes
    rw [hdecodes garbage depth buf i c hlen (.inr hdepth) hc held, hsame fun _ _ hle => hle]

/-- `(&(a=*))`, and the octets of its length. -/
def andPresent (L : List UInt8) : List UInt8 := 0xa0 :: (L ++ [0x87, 1, 0x61])

theorem andPresent_fits {L : List UInt8} (hL : DefLen 3 L) :
    FilterFits (.and [.present [0x61]]) (andPresent L) := by
  have hmember : FilterFits (.present [0x61]) [0x87, 1, 0x61] :=
    .present (by decide) (.mk (L := [1]) (.short (by decide)))
  have hall : ∀ x ∈ [(SearchFilter.present [0x61], [0x87, 1, (0x61 : UInt8)])],
      FilterFits x.1 x.2 ∧ x.2.length < 512 := by
    intro x hx
    obtain rfl := List.mem_singleton.1 hx
    exact ⟨hmember, by decide⟩
  have hset : ((0xa0 : UInt8), SearchFilter.and) ∈ filterSets := List.mem_cons_self
  exact .set hset (fun x hx => (hall x hx).1) (fun x hx => (hall x hx).2) (.mk hL)
    fun _ _ => trivial

theorem decodes_iff_kept_short :
    ldapStringToFilter (fun _ => 0) 257 (.ofList (andPresent [3] ++ [0])) 0 =
        .ok (.and [.present [0x61]]) ↔
      Kept (.and [.present [0x61]]) (andPresent [3]) :=
  decodes_iff_kept (andPresent_fits (.short (by decide))) (by decide) (by decide)
    (show (0 : UInt8) ≠ 0x84 by decide) (Block.ofList_holds _)

/-- The same filter with its length in three octets loses its only member. -/
theorem short_member_lost :
    FilterFits (.and [.present [0x61]]) (andPresent [0x82, 0, 3]) ∧
      ldapStringToFilter (fun _ => 0) 257 (.ofList (andPresent [0x82, 0, 3] ++ [0])) 0 ≠
        .ok (.and [.present [0x61]]) := by
  refine ⟨andPresent_fits (.long [0, 3] (by decide) (by decide)), fun hread => ?_⟩
  have hlost : ldapStringToFilter (fun _ => 0) 257 (.ofList (andPresent [0x82, 0, 3] ++ [0])) 0 =
      .ok (.and []) := rfl
  rw [hread] at hlost
  cases hlost

end CassandraApi.Ldap
