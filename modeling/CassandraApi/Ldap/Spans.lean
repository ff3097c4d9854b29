/-
# `Ldap.Spans` — what the decoding of a request walks over

ldap_decode_request walks over a frame by the lengths it finds there, and compares
none of them with the end of the frame.  Two of its loops, over the attributes of a
search and over the parts of a substring filter, stay where they are when they meet
a tag that they do not know; the loop over the members of an AND or OR goes on by
what it copies, which may be nothing.  And the byte behind the operation is always
looked at, which is the first byte behind the frame when it has no controls.

`RequestEnds` says what the bytes have to be like for the call to come to its end.
It is put together from spans as the decoder is put together from readers, and holds
in every longer block (`RequestEnds.front`).
-/
import CassandraApi.C.Span
import CassandraApi.Ldap.DecodeRequest

namespace CassandraApi.Ldap

open C Ber

/-! ## Lengths and strings -/

/-- The octets of a length. -/
def lengthSpan : Span := fun b i j => ∃ len, findLength b i = .ok (len, j)

/-- A string of `len` bytes that fits a field of `cap` bytes; a length below 1 is none. -/
def stringSpan (cap : Nat) (len : Int) : Span := fun b i j =>
  if 0 < len then len < cap ∧ 0 ≤ i ∧ i + len ≤ b.size ∧ j = i + len else j = i

/-- A length and as many bytes. -/
def lengthStringSpan (cap : Nat) : Span := fun b i j =>
  ∃ len k, findLength b i = .ok (len, k) ∧ stringSpan cap len b k j

/-- The loops over changes, attributes, values and controls: with `left` bytes left, a byte that is
not the tag is stepped over, and an item that has it is walked over. -/
inductive ItemsSpan (tag : UInt8) (used : Int → Int → Int) (item : Int → Span) (b : Block) :
    Int → Int → Int → Prop where
  | done {left i : Int} (none : left ≤ 0) : ItemsSpan tag used item b left i i
  | other {left i j : Int} (more : 0 < left) (c : UInt8) (byte : b.rd i = .ok c) (ne : c ≠ tag)
      (rest : ItemsSpan tag used item b left (i + 1) j) : ItemsSpan tag used item b left i j
  | item {left i j : Int} (more : 0 < left) (byte : b.rd i = .ok tag) (len k m : Int)
      (length : findLength b (i + 1) = .ok (len, k)) (this : item len b k m)
      (rest : ItemsSpan tag used item b (int32 (left - used (k - (i + 1)) len)) m j) :
      ItemsSpan tag used item b left i j

/-- A length, and items of that many bytes. -/
def itemsSpan (tag : UInt8) (used : Int → Int → Int) (item : Int → Span) : Span := fun b i j =>
  ∃ len k, findLength b i = .ok (len, k) ∧ ItemsSpan tag used item b len k j

/-! ## The pieces of a request -/

def valuesSpan : Span := itemsSpan 0x04 wholeItem (stringSpan ldapMaxAttrValueSize)

def attrSpan : Span :=
  ((lengthStringSpan ldapMaxAttrNameSize).optional 0x04).then (valuesSpan.optional 0x31)

def changeSpan : Span :=
  ((lengthSpan.then .one).optional 0x0a).then ((lengthSpan.then attrSpan).optional 0x30)

def controlSpan : Span :=
  ((lengthStringSpan ldapMaxOidSize).then
    ((lengthStringSpan ldapMaxAttrValueSize).optional 0x04)).optional 0x04

/-- The attributes of a search: every one that is looked for has the tag 04. -/
inductive AttributesSpan (b : Block) : Int → Int → Int → Prop where
  | done {left i : Int} (none : left ≤ 0) : AttributesSpan b left i i
  | attr {left i j : Int} (more : 0 < left) (byte : b.rd i = .ok 0x04) (len k : Int)
      (length : findLength b (i + 1) = .ok (len, k))
      (fits : 0 ≤ len ∧ len < ldapMaxAttrValueSize ∧ k + len ≤ b.size)
      (rest : AttributesSpan b (int32 (left - len - (k - (i + 1 + 1)) - 2)) (k + len) j) :
      AttributesSpan b left i j

/-! ## Filters -/

/-- A tag, a length and a string of that many bytes. -/
def taggedStringSpan (cap : Nat) : Span := fun b i j =>
  ∃ len k, findLength b (i + 1) = .ok (len, k) ∧ 0 ≤ len ∧ len < cap ∧ k + len ≤ b.size ∧
    j = k + len

/-- A string with the tag, or nothing where another byte is. -/
def optionalStringSpan (tag : UInt8) : Span := fun b i j => ∃ c, b.rd i = .ok c ∧
  if c = tag then taggedStringSpan ldapMaxAttrValueSize b i j else j = i

/-- The parts of a substring filter: every one that is looked for has one of their three tags. -/
inductive PartsSpan (b : Block) (last : Int) : Int → Prop where
  | done {i : Int} (none : last < i) : PartsSpan b last i
  | part {i : Int} (more : i ≤ last) (c : UInt8) (byte : b.rd i = .ok c)
      (known : (substringChoice c).isSome = true) (j : Int)
      (this : taggedStringSpan ldapMaxAttrValueSize b i j) (rest : PartsSpan b last j) :
      PartsSpan b last i

/-- The members of an AND or OR: every one is copied to the array, has a byte at least, and ends
itself there. -/
inductive MembersEnd (ends : Block → Prop) (b : Block) (last : Int) : Block → Int → Prop where
  | done {temp : Block} {i : Int} (none : last < i) : MembersEnd ends b last temp i
  | member {temp : Block} {i : Int} (more : i ≤ last) (len k : Int) (temp' : Block)
      (length : findLength b (i + 1) = .ok (len, k)) (some : i < k + len)
      (copied : copyToTemp temp b i (k + len - i) = .ok temp') (this : ends temp')
      (rest : MembersEnd ends b last temp' (k + len)) : MembersEnd ends b last temp i

/-- LDAP_string_to_filter returns, with this many calls on the stack at most. -/
def FilterEnds (garbage : Nat → UInt8) : Nat → Block → Int → Prop
  | 0, _, _ => False
  | depth + 1, b, start => ∃ tag, b.rd start = .ok tag ∧
      match (tag &&& 0x1f).toNat with
      | 0 | 1 => ∃ len k, findLength b (start + 1) = .ok (len, k) ∧
          MembersEnd (fun t => FilterEnds garbage depth t 0) b (start + len) (filterTemp garbage) k
      | 2 => ∃ len k t, findLength b (start + 1) = .ok (len, k) ∧
          copyToTemp (filterTemp garbage) b k len = .ok t ∧ FilterEnds garbage depth t 0
      | 3 | 5 | 6 | 8 => ∃ j, (lengthSpan.then ((taggedStringSpan 256).then
          (taggedStringSpan ldapMaxAttrValueSize))) b (start + 1) j
      | 4 => ∃ len k m, findLength b (start + 1) = .ok (len, k) ∧ optionalStringSpan 0x04 b k m ∧
          (b.rd k = .ok 0x04 → ∃ c, b.rd m = .ok c ∧
            (c = 0x30 → ∃ i, lengthSpan b (m + 1) i ∧ PartsSpan b (start + len) i))
      | 7 => ∃ j, taggedStringSpan ldapMaxAttrValueSize b start j
      | 9 => ∃ j, (lengthSpan.then ((optionalStringSpan 0x81).then ((optionalStringSpan 0x82).then
          ((optionalStringSpan 0x83).then ((lengthSpan).optional 0x84))))) b (start + 1) j
      | _ => True

/-! ## Requests -/

/-- What a part of the decoder comes to: it goes on at another index, or the call ends with an
error or an unbind. -/
structure Course where
  go : Span
  refuse : Block → Int → Prop

/-- A part that ends no call. -/
def Course.plain (R : Span) : Course := ⟨R, fun _ _ => False⟩

/-- Nothing more. -/
def Course.here : Course := .plain fun _ i j => j = i

/-- A field that has to have the tag. -/
def Course.need (tag : UInt8) (R : Span) : Course :=
  ⟨R.tagged tag, fun b i => ∃ c, b.rd i = .ok c ∧ c ≠ tag⟩

/-- A part behind the tag, or one other byte. -/
def Course.optional (tag : UInt8) (R : Course) : Course :=
  ⟨R.go.optional tag, fun b i => b.rd i = .ok tag ∧ R.refuse b (i + 1)⟩

/-- One part behind another. -/
def Course.then (R S : Course) : Course :=
  ⟨R.go.then S.go, fun b i => R.refuse b i ∨ ∃ k, R.go b i k ∧ S.refuse b k⟩

/-- The two bytes behind the tag of a small field. -/
def smallSpan : Span := fun b i j => (∃ c, b.rd (i + 1) = .ok c) ∧ j = i + 2

/-- The filter of a search, when its tag is one of the ten; behind it by its own length. -/
def filterSpan (garbage : Nat → UInt8) (depth : Nat) : Span := fun b i j =>
  ∃ tag, b.rd i = .ok tag ∧ if (tag &&& 0x1f).toNat ≤ 9 then
    ∃ len k, findLength b (i + 1) = .ok (len, k) ∧ FilterEnds garbage depth b i ∧ j = k + len
  else j = i

def attributesSpan : Span := fun b i j =>
  ∃ len k, findLength b i = .ok (len, k) ∧ AttributesSpan b len k j

def searchCourse (garbage : Nat → UInt8) (depth : Nat) : Course :=
  (Course.plain lengthSpan).then <| (Course.need 0x04 (lengthStringSpan ldapMaxDnSize)).then <|
    (Course.need 0x0a smallSpan).then <| (Course.need 0x0a smallSpan).then <|
    (Course.need 0x02 smallSpan).then <| (Course.need 0x02 smallSpan).then <|
    (Course.need 0x01 smallSpan).then <| (Course.plain (filterSpan garbage depth)).then <|
    Course.need 0x30 attributesSpan

/-- A modify or an add request. -/
def entryCourse (item : Span) : Course :=
  (Course.plain lengthSpan).then <| (Course.need 0x04 (lengthStringSpan ldapMaxOidSize)).then <|
    Course.plain ((itemsSpan 0x30 wholeItem fun _ => item).optional 0x30)

def modDnCourse : Course :=
  (Course.plain lengthSpan).then <| (Course.need 0x04 (lengthStringSpan ldapMaxOidSize)).then <|
    (Course.need 0x04 (lengthStringSpan ldapMaxDnSize)).then <|
    (Course.need 0x01 smallSpan).then Course.here

/-- The name of an extended request, which is ended by a NUL even when it is empty. -/
def requestNameSpan : Span := fun b i j =>
  ∃ len k, findLength b i = .ok (len, k) ∧ 0 ≤ len ∧ stringSpan ldapMaxOidSize len b k j

/-- The value of an extended request, for which memory is asked. -/
def requestValueSpan (alloc : Bool) : Span := fun b i j => ∃ len k, findLength b i = .ok (len, k) ∧
  if 0 < len then alloc = true ∧ k + len ≤ b.size ∧ j = k + len else j = k

def extendedCourse (alloc : Bool) : Course :=
  (Course.plain lengthSpan).then <| Course.optional 0x80 <| (Course.plain requestNameSpan).then <|
    Course.optional 0x81 <| Course.plain (requestValueSpan alloc)

/-- The operation, by its tag. -/
def opCourse (env : DecodeEnv) (op : UInt8) : Course :=
  match op with
  | 0x42 => ⟨fun _ _ _ => False, fun _ _ => True⟩
  | 0x77 => extendedCourse env.value
  | 0x63 => searchCourse env.garbage env.depth
  | 0x66 => entryCourse changeSpan
  | 0x68 => entryCourse attrSpan
  | 0x6c => modDnCourse
  | 0x4a => .plain (lengthStringSpan ldapMaxOidSize)
  | _ => .here

/-- The controls, if the byte at `i` is their tag. -/
def ControlsEnd (b : Block) (i : Int) : Prop :=
  ∃ j, (itemsSpan 0x30 controlUsed fun _ => controlSpan).optional 0xa0 b i j

/-- The octets of a message id are there. -/
def IdThere (b : Block) (i : Int) (n : Nat) : Prop := ∀ k < n, ∃ c, b.rd (i + (k : Nat)) = .ok c

/-- The operation at `i`, and the byte behind it with what follows. -/
def OperationEnds (env : DecodeEnv) (b : Block) (i : Int) : Prop :=
  ∃ op, b.rd i = .ok op ∧ ((opCourse env op).refuse b (i + 1) ∨
    ∃ j, (opCourse env op).go b (i + 1) j ∧ ControlsEnd b j)

/-- ldap_decode_request returns: every byte that it walks over is in the block, and every loop comes
to its end. -/
def RequestEnds (env : DecodeEnv) (limit : Int) (b : Block) (start : Int) : Prop :=
  ∃ c, b.rd start = .ok c ∧ (c = 0x30 → ∃ len i, findLength b (start + 1) = .ok (len, i) ∧
    (len ≤ limit → env.message = true ∧ ∃ c, b.rd i = .ok c ∧
      (c ≠ 0x02 → ControlsEnd b (i + 1)) ∧
      (c = 0x02 → ∃ n, b.rd (i + 1) = .ok n ∧ IdThere b (i + 2) (schar n).toNat ∧
        OperationEnds env b (i + 2 + schar n))))

/-! ## Longer blocks -/

section Longer

variable {b b' : Block} {i j len : Int}

theorem accLength_front (hfront : b.FrontOf b') {n : Nat} {pp r : Int}
    (h : accLength b n i pp = .ok r) : accLength b' n i pp = .ok r := by
  induction n generalizing i pp with
  | zero => exact h
  | succ n ih =>
    obtain ⟨c, hc, h⟩ := bind_eq_ok.1 h
    exact bind_eq_ok.2 ⟨c, hfront.rd hc, ih h⟩

theorem findLength_front (hfront : b.FrontOf b') (h : findLength b i = .ok (len, j)) :
    findLength b' i = .ok (len, j) := by
  obtain ⟨c, hc, h⟩ := bind_eq_ok.1 h
  refine bind_eq_ok.2 ⟨c, hfront.rd hc, ?_⟩
  split at h
  · rename_i hlong
    obtain ⟨pp, hpp, h⟩ := bind_eq_ok.1 h
    rw [if_pos hlong]
    exact bind_eq_ok.2 ⟨pp, accLength_front hfront hpp, h⟩
  · rename_i hshort
    rw [if_neg hshort]
    exact h

theorem copyToTemp_front (hfront : b.FrontOf b') {temp t : Block} {n : Int}
    (h : copyToTemp temp b i n = .ok t) : copyToTemp temp b' i n = .ok t := by
  obtain ⟨bytes, hload, h⟩ := bind_eq_ok.1 h
  exact bind_eq_ok.2 ⟨bytes, hfront.load hload, h⟩

theorem lengthSpan_local : lengthSpan.Local := by
  rintro b b' i j hfront ⟨len, hlen⟩
  exact ⟨len, findLength_front hfront hlen⟩

theorem length_local {S : Int → Span} (hS : ∀ len, (S len).Local) :
    Span.Local fun b i j => ∃ len k, findLength b i = .ok (len, k) ∧ S len b k j := by
  rintro b b' i j hfront ⟨len, k, hlen, hkj⟩
  exact ⟨len, k, findLength_front hfront hlen, hS len hfront hkj⟩

theorem stringSpan_local (cap : Nat) (len : Int) : (stringSpan cap len).Local := by
  intro b b' i j hfront h
  have hsize := hfront.size
  unfold stringSpan at h ⊢
  split at h
  · rename_i hpos
    obtain ⟨hcap, h0, hle, hj⟩ := h
    rw [if_pos hpos]
    exact ⟨hcap, h0, by omega, hj⟩
  · rename_i hnone
    rw [if_neg hnone]
    exact h

theorem lengthStringSpan_local (cap : Nat) : (lengthStringSpan cap).Local :=
  length_local (stringSpan_local cap)

theorem ItemsSpan.front {tag : UInt8} {used : Int → Int → Int} {span : Int → Span}
    (hlocal : ∀ len, (span len).Local) (hfront : b.FrontOf b') {left : Int}
    (h : ItemsSpan tag used span b left i j) : ItemsSpan tag used span b' left i j := by
  induction h with
  | done hnone => exact .done hnone
  | other hmore c hc hne _ ih => exact .other hmore c (hfront.rd hc) hne ih
  | item hmore hc len k m hlen hthis _ ih =>
    exact .item hmore (hfront.rd hc) len k m (findLength_front hfront hlen)
      (hlocal len hfront hthis) ih

theorem itemsSpan_local {tag : UInt8} {used : Int → Int → Int} {span : Int → Span}
    (hlocal : ∀ len, (span len).Local) : (itemsSpan tag used span).Local :=
  length_local fun _ _ _ _ _ hfront h => h.front hlocal hfront

theorem attrSpan_local : attrSpan.Local :=
  (lengthStringSpan_local _).optional.then (itemsSpan_local (stringSpan_local _)).optional

theorem changeSpan_local : changeSpan.Local :=
  (lengthSpan_local.then Span.one_local).optional.then
    (lengthSpan_local.then attrSpan_local).optional

theorem controlSpan_local : controlSpan.Local :=
  ((lengthStringSpan_local _).then (lengthStringSpan_local _).optional).optional

theorem AttributesSpan.front (hfront : b.FrontOf b') {left : Int} (h : AttributesSpan b left i j) :
    AttributesSpan b' left i j := by
  have hsize := hfront.size
  induction h with
  | done hnone => exact .done hnone
  | attr hmore hc len k hlen hfits _ ih =>
    exact .attr hmore (hfront.rd hc) len k (findLength_front hfront hlen)
      ⟨hfits.1, hfits.2.1, by omega⟩ ih

theorem attributesSpan_local : attributesSpan.Local :=
  length_local fun _ _ _ _ _ hfront h => h.front hfront

theorem taggedStringSpan_local (cap : Nat) : (taggedStringSpan cap).Local := by
  rintro b b' i j hfront ⟨len, k, hlen, hpos, hcap, hle, rfl⟩
  have hsize := hfront.size
  exact ⟨len, k, findLength_front hfront hlen, hpos, hcap, by omega, rfl⟩

theorem optionalStringSpan_local (tag : UInt8) : (optionalStringSpan tag).Local := by
  rintro b b' i j hfront ⟨c, hc, h⟩
  refine ⟨c, hfront.rd hc, ?_⟩
  split at h
  · rename_i htag
    rw [if_pos htag]
    exact taggedStringSpan_local _ hfront h
  · rename_i htag
    rw [if_neg htag]
    exact h

theorem PartsSpan.front (hfront : b.FrontOf b') {last : Int} (h : PartsSpan b last i) :
    PartsSpan b' last i := by
  induction h with
  | done hnone => exact .done hnone
  | part hmore c hc hknown j hthis _ ih =>
    exact .part hmore c (hfront.rd hc) hknown j (taggedStringSpan_local _ hfront hthis) ih

theorem MembersEnd.front (hfront : b.FrontOf b') {ends : Block → Prop} {last : Int} {temp : Block}
    (h : MembersEnd ends b last temp i) : MembersEnd ends b' last temp i := by
  induction h with
  | done hnone => exact .done hnone
  | member hmore len k temp' hlen hsome hcopy hthis _ ih =>
    exact .member hmore len k temp' (findLength_front hfront hlen) hsome
      (copyToTemp_front hfront hcopy) hthis ih

/-- The arrays that members are copied to are the same, so only the outermost filter matters. -/
theorem FilterEnds.front {garbage : Nat → UInt8} (hfront : b.FrontOf b') {depth : Nat}
    (h : FilterEnds garbage depth b i) : FilterEnds garbage depth b' i := by
  cases depth with
  | zero => exact h
  | succ depth =>
    obtain ⟨tag, htag, h⟩ := h
    refine ⟨tag, hfront.rd htag, ?_⟩
    have hmembers : (∃ len k, findLength b (i + 1) = .ok (len, k) ∧
        MembersEnd (fun t => FilterEnds garbage depth t 0) b (i + len) (filterTemp garbage) k) →
        ∃ len k, findLength b' (i + 1) = .ok (len, k) ∧
          MembersEnd (fun t => FilterEnds garbage depth t 0) b' (i + len) (filterTemp garbage) k :=
      fun ⟨len, k, hlen, h⟩ => ⟨len, k, findLength_front hfront hlen, h.front hfront⟩
    have hassertion : (∃ j, (lengthSpan.then ((taggedStringSpan 256).then
        (taggedStringSpan ldapMaxAttrValueSize))) b (i + 1) j) →
        ∃ j, (lengthSpan.then ((taggedStringSpan 256).then
          (taggedStringSpan ldapMaxAttrValueSize))) b' (i + 1) j :=
      fun ⟨j, h⟩ => ⟨j, (lengthSpan_local.then ((taggedStringSpan_local _).then
        (taggedStringSpan_local _))) hfront h⟩
    generalize (tag &&& 0x1f).toNat = n at h ⊢
    match n with
    | 0 => exact hmembers h
    | 1 => exact hmembers h
    | 2 =>
      obtain ⟨len, k, t, hlen, hcopy, h⟩ := h
      exact ⟨len, k, t, findLength_front hfront hlen, copyToTemp_front hfront hcopy, h⟩
    | 3 => exact hassertion h
    | 4 =>
      obtain ⟨len, k, m, hlen, htype, h⟩ := h
      refine ⟨len, k, m, findLength_front hfront hlen, optionalStringSpan_local _ hfront htype,
        fun htag' => ?_⟩
      obtain ⟨c, hc, -⟩ := htype
      obtain rfl : c = 0x04 := Except.ok.inj ((hfront.rd hc).symm.trans htag')
      obtain ⟨c', hc', hparts⟩ := h hc
      refine ⟨c', hfront.rd hc', fun hseq => ?_⟩
      obtain ⟨k', hk', hparts⟩ := hparts hseq
      exact ⟨k', lengthSpan_local hfront hk', hparts.front hfront⟩
    | 5 => exact hassertion h
    | 6 => exact hassertion h
    | 7 =>
      obtain ⟨j, h⟩ := h
      exact ⟨j, taggedStringSpan_local _ hfront h⟩
    | 8 => exact hassertion h
    | 9 =>
      obtain ⟨j, h⟩ := h
      exact ⟨j, (lengthSpan_local.then ((optionalStringSpan_local _).then
        ((optionalStringSpan_local _).then ((optionalStringSpan_local _).then
          lengthSpan_local.optional)))) hfront h⟩
    | n + 10 => trivial

/-- A course is the same in a longer block. -/
structure Course.Local (R : Course) : Prop where
  go : R.go.Local
  refuse : ∀ ⦃b b' : Block⦄ ⦃i : Int⦄, b.FrontOf b' → R.refuse b i → R.refuse b' i

theorem Course.Local.plain {R : Span} (h : R.Local) : (Course.plain R).Local :=
  ⟨h, fun _ _ _ _ h => h⟩

theorem Course.here_local : Course.here.Local :=
  .plain fun _ _ _ _ _ h => h

theorem Course.Local.need {tag : UInt8} {R : Span} (h : R.Local) : (Course.need tag R).Local :=
  ⟨h.tagged, fun _ _ _ hfront ⟨c, hc, hne⟩ => ⟨c, hfront.rd hc, hne⟩⟩

theorem Course.Local.then {R S : Course} (hR : R.Local) (hS : S.Local) : (R.then S).Local := by
  refine ⟨hR.go.then hS.go, ?_⟩
  rintro b b' i hfront (h | ⟨k, hik, h⟩)
  · exact .inl (hR.refuse hfront h)
  · exact .inr ⟨k, hR.go hfront hik, hS.refuse hfront h⟩

theorem Course.Local.optional {tag : UInt8} {R : Course} (h : R.Local) :
    (R.optional tag).Local :=
  ⟨h.go.optional, fun _ _ _ hfront ⟨hc, hrefuse⟩ => ⟨hfront.rd hc, h.refuse hfront hrefuse⟩⟩

theorem smallSpan_local : smallSpan.Local := by
  rintro b b' i j hfront ⟨⟨c, hc⟩, rfl⟩
  exact ⟨⟨c, hfront.rd hc⟩, rfl⟩

theorem filterSpan_local (garbage : Nat → UInt8) (depth : Nat) :
    (filterSpan garbage depth).Local := by
  rintro b b' i j hfront ⟨tag, htag, h⟩
  refine ⟨tag, hfront.rd htag, ?_⟩
  split at h
  · rename_i hten
    obtain ⟨len, k, hlen, hends, rfl⟩ := h
    rw [if_pos hten]
    exact ⟨len, k, findLength_front hfront hlen, hends.front hfront, rfl⟩
  · rename_i hten
    rw [if_neg hten]
    exact h

theorem requestNameSpan_local : requestNameSpan.Local := by
  rintro b b' i j hfront ⟨len, k, hlen, hpos, h⟩
  exact ⟨len, k, findLength_front hfront hlen, hpos, stringSpan_local _ _ hfront h⟩

theorem requestValueSpan_local (alloc : Bool) : (requestValueSpan alloc).Local := by
  rintro b b' i j hfront ⟨len, k, hlen, h⟩
  have hsize := hfront.size
  refine ⟨len, k, findLength_front hfront hlen, ?_⟩
  split at h
  · rename_i hpos
    rw [if_pos hpos]
    exact ⟨h.1, by omega, h.2.2⟩
  · rename_i hnone
    rw [if_neg hnone]
    exact h

theorem entryCourse_local {item : Span} (h : item.Local) : (entryCourse item).Local :=
  (Course.Local.plain lengthSpan_local).then <|
    (Course.Local.need (lengthStringSpan_local _)).then <|
    Course.Local.plain (itemsSpan_local fun _ => h).optional

theorem searchCourse_local (garbage : Nat → UInt8) (depth : Nat) :
    (searchCourse garbage depth).Local :=
  (Course.Local.plain lengthSpan_local).then <|
    (Course.Local.need (lengthStringSpan_local _)).then <|
    (Course.Local.need smallSpan_local).then <| (Course.Local.need smallSpan_local).then <|
    (Course.Local.need smallSpan_local).then <| (Course.Local.need smallSpan_local).then <|
    (Course.Local.need smallSpan_local).then <|
    (Course.Local.plain (filterSpan_local garbage depth)).then <|
    Course.Local.need attributesSpan_local

theorem modDnCourse_local : modDnCourse.Local :=
  (Course.Local.plain lengthSpan_local).then <|
    (Course.Local.need (lengthStringSpan_local _)).then <|
    (Course.Local.need (lengthStringSpan_local _)).then <|
    (Course.Local.need smallSpan_local).then Course.here_local

theorem extendedCourse_local (alloc : Bool) : (extendedCourse alloc).Local :=
  (Course.Local.plain lengthSpan_local).then <| Course.Local.optional <|
    (Course.Local.plain requestNameSpan_local).then <| Course.Local.optional <|
    Course.Local.plain (requestValueSpan_local alloc)

theorem opCourse_local (env : DecodeEnv) (op : UInt8) : (opCourse env op).Local := by
  unfold opCourse
  split
  · exact ⟨fun _ _ _ _ _ h => h, fun _ _ _ _ h => h⟩
  · exact extendedCourse_local env.value
  · exact searchCourse_local env.garbage env.depth
  · exact entryCourse_local changeSpan_local
  · exact entryCourse_local attrSpan_local
  · exact modDnCourse_local
  · exact .plain (lengthStringSpan_local _)
  · exact Course.here_local

theorem ControlsEnd.front (hfront : b.FrontOf b') (h : ControlsEnd b i) : ControlsEnd b' i := by
  obtain ⟨j, h⟩ := h
  exact ⟨j, (itemsSpan_local fun _ => controlSpan_local).optional hfront h⟩

theorem OperationEnds.front (hfront : b.FrontOf b') {env : DecodeEnv} (h : OperationEnds env b i) :
    OperationEnds env b' i := by
  obtain ⟨op, hop, h⟩ := h
  refine ⟨op, hfront.rd hop, ?_⟩
  rcases h with h | ⟨j, hgo, hcontrols⟩
  · exact .inl ((opCourse_local env op).refuse hfront h)
  · exact .inr ⟨j, (opCourse_local env op).go hfront hgo, hcontrols.front hfront⟩

/-- What returns in a block returns in every longer one. -/
theorem RequestEnds.front (hfront : b.FrontOf b') {env : DecodeEnv} {limit : Int}
    (h : RequestEnds env limit b i) : RequestEnds env limit b' i := by
  obtain ⟨c, hc, h⟩ := h
  refine ⟨c, hfront.rd hc, fun hseq => ?_⟩
  obtain ⟨len, k, hlen, h⟩ := h hseq
  refine ⟨len, k, findLength_front hfront hlen, fun hlimit => ?_⟩
  obtain ⟨hmemory, c', hc', hno, hid⟩ := h hlimit
  refine ⟨hmemory, c', hfront.rd hc', fun hne => (hno hne).front hfront, fun heq => ?_⟩
  obtain ⟨n, hn, hthere, hop⟩ := hid heq
  refine ⟨n, hfront.rd hn, fun m hm => ?_, hop.front hfront⟩
  obtain ⟨c, hc⟩ := hthere m hm
  exact ⟨c, hfront.rd hc⟩

end Longer

end CassandraApi.Ldap
