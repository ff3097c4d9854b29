/-
# `Ldap.ResultText` — what ber_attr_to_string writes

The JSON text of an entry whose class is found, and of the objects it is put
into: a string that fits is written as it is, between quotes.  Where the pieces
end with commas and the last comma is taken away again, the text has its commas
between the pieces.
-/
import CassandraApi.Ldap.AttrString
import CassandraApi.Lib.Json

namespace CassandraApi.Ldap

open C Ber Lib Lib.Json

theorem lift_ok {α : Type} (a : α) :
    (liftM (Except.ok a : Except Fault α) : Returning α) = pure a := rfl

theorem lift_bind {α β : Type} (x : Except Fault α) (f : α → Except Fault β) :
    (liftM (x >>= f) : Returning β) = liftM x >>= fun a => liftM (f a) := by
  cases x with
  | error => rfl
  | ok => rfl

/-! ## The text of an entry -/

/-- One value by itself, or an array of them; `""` where there is none. -/
def Attr.valueText (a : Attr) : List UInt8 :=
  match a.vals with
  | [] => quoted []
  | [v] => quoted v
  | vals => enclosed 0x5b 0x5d (vals.map quoted)

def Attr.text (a : Attr) : List UInt8 := memberText a.name a.valueText

def SearchEntry.members (e : SearchEntry) : List (List UInt8) :=
  memberText (ascii "dn") (quoted e.dn) :: e.attrs.map Attr.text

def SearchEntry.text (e : SearchEntry) : List UInt8 := enclosed 0x7b 0x7d e.members

/-- A string that is written in one piece with `n` characters around it: what is kept free for a
piece is LDAP_MAX_STRING_SIZE, with the NUL. -/
def Piece (n : Nat) (s : List UInt8) : Prop := s.length + n < ldapMaxStringSize ∧ 0 ∉ s

instance (n : Nat) (s : List UInt8) : Decidable (Piece n s) := inferInstanceAs (Decidable (_ ∧ _))

/-- The strings of an attribute fit. -/
structure Attr.Pieces (a : Attr) : Prop where
  name : Piece 3 a.name
  value : ∀ v ∈ a.vals, Piece 3 v

theorem Piece.cut {n : Nat} {s : List UInt8} (h : Piece n s) : beforeNul s = s :=
  beforeNul_eq_self.2 h.2

theorem Piece.copy {n i : Nat} {s : List UInt8} {data : Block} (h : Piece n s)
    (hs : Holds data i s) : copyString ldapMaxStringSize data i s.length = .ok s := by
  rw [copyString_eq hs, if_pos (Nat.lt_of_le_of_lt (Nat.le_add_right _ n) h.1)]

/-! ## Adding to the string of an object -/

namespace TextState

/-- `s` was added to the string of the object. -/
structure Adds (st : TextState) (s : List UInt8) (st' : TextState) : Prop where
  bstring : st'.bstring = st.bstring
  name : st'.ol.name = st.ol.name
  string : st'.ol.string = st.ol.string ++ s

theorem Adds.nil (st : TextState) : st.Adds [] st := ⟨rfl, rfl, (List.append_nil _).symm⟩

theorem Adds.trans {st st' st'' : TextState} {s t : List UInt8} (h : st.Adds s st')
    (h' : st'.Adds t st'') : st.Adds (s ++ t) st'' where
  bstring := h'.bstring.trans h.bstring
  name := h'.name.trans h.name
  string := by rw [h'.string, h.string, List.append_assoc]

end TextState

theorem OList.grow_room (ol : OList) :
    ∃ ol' : OList, ol.grow true = pure ol' ∧ ol'.name = ol.name ∧ ol'.string = ol.string ∧
      ol.string.length + ldapMaxStringSize ≤ ol'.size := by
  rw [OList.grow]
  by_cases hsmall : ol.string.length + ldapMaxStringSize > ol.size
  · rw [if_pos hsmall, if_pos rfl]
    refine ⟨{ ol with size := adjustSize (ol.string.length + ldapMaxStringSize) ldapMaxStringSize },
      rfl, rfl, rfl, ?_⟩
    dsimp only
    exact le_adjustSize (ol.string.length + ldapMaxStringSize) ldapMaxStringSize
  · rw [if_neg hsmall]
    exact ⟨ol, rfl, rfl, rfl, not_lt.1 hsmall⟩

/-- A piece of text that is short enough is added. -/
theorem TextState.appendString_adds {s : List UInt8} (hs : s.length < ldapMaxStringSize)
    (st : TextState) : ∃ st', st.appendString true s = pure st' ∧ st.Adds s st' := by
  obtain ⟨ol, hgrow, hname, hstring, hroom⟩ := st.ol.grow_room
  have hread : s.length < ldapReadBuffer := hs.trans (by decide)
  have hfits : ol.string.length + s.length < ol.size := by
    rw [hstring]
    omega
  refine ⟨{ st with ol := { ol with string := ol.string ++ s } }, ?_, rfl, hname, ?_⟩
  · rw [TextState.appendString, fieldString, if_pos hread]
    simp only [OList.copy, pure_eq_ok, lift_ok, pure_bind, hgrow, hfits, if_true]
  · rw [← hstring]

/-- The last character is taken away. -/
theorem TextState.Adds.dropLast {st st' : TextState} {s : List UInt8} (h : st.Adds s st')
    (hne : s ≠ []) : ∃ st'', st'.dropLast = .ok st'' ∧ st.Adds s.dropLast st'' := by
  have hstring : st'.ol.string ≠ [] := by
    rw [h.string]
    exact List.append_ne_nil_of_right_ne_nil _ hne
  refine ⟨{ st' with ol := { st'.ol with string := st'.ol.string.dropLast } }, ?_, h.bstring,
    h.name, ?_⟩
  · rw [TextState.dropLast, OList.dropLast, if_neg hstring]
    rfl
  · change st'.ol.string.dropLast = _
    rw [h.string, List.dropLast_append_of_ne_nil hne]

/-! ## The attributes -/

section

variable {data : Block} {i : Nat}

/-- The bracket before the second of several values comes before the first, too. -/
theorem valueString_adds {v : List UInt8} (hv : Piece 3 v) (attr : List UInt8) (valLen : Int)
    (array : Bool) (st : TextState) :
    ∃ st', valueString true .json attr v valLen array st = pure (array || 0 < valLen, st') ∧
      st.Adds ((if 0 < valLen ∧ array = false then [0x5b] else []) ++ (quoted v ++ [0x2c])) st' := by
  have hshort : (ascii "\"" ++ v ++ ascii "\",").length < ldapMaxStringSize := by
    have := hv.1
    simp only [List.length_append, ascii, List.length_map]
    change 1 + v.length + 2 < _
    omega
  have htext : ascii "\"" ++ v ++ ascii "\"," = quoted v ++ [0x2c] := by
    simp [quoted, ascii]
  rw [valueString]
  by_cases hopen : 0 < valLen ∧ array = false
  · obtain ⟨st₁, hopens, hadds₁⟩ := st.appendString_adds (s := ascii "[") (by decide)
    obtain ⟨st₂, happend, hadds₂⟩ := st₁.appendString_adds hshort
    refine ⟨st₂, ?_, ?_⟩
    · simp only [if_pos hopen, hopens, pure_bind, happend]
    · rw [if_pos hopen, ← htext]
      exact hadds₁.trans hadds₂
  · obtain ⟨st₁, happend, hadds⟩ := st.appendString_adds hshort
    refine ⟨st₁, ?_, ?_⟩
    · simp only [if_neg hopen, pure_bind, happend]
    · rw [if_neg hopen, ← htext]
      exact hadds

theorem tlvs_length_pos {items : List (UInt8 × List UInt8)} {out : List UInt8}
    (wire : Tlvs items out) : 0 < out.length ↔ items ≠ [] := by
  cases wire with
  | nil => simp
  | cons head tail =>
    have htwo := head.length_lt
    rw [List.length_append]
    exact ⟨fun _ => List.cons_ne_nil _ _, fun _ => by omega⟩

/-- The loop over the values of a set. -/
theorem valueStrings_adds {vals : List (List UInt8)} {out : List UInt8}
    (wire : Tlvs (vals.map fun v => (0x04, v)) out) (hlen : out.length < 2 ^ 31)
    (hvals : ∀ v ∈ vals, Piece 3 v) (attr : List UInt8) {turns : Nat} (hturns : vals.length < turns)
    (array : Bool) (st : TextState) (h : Holds data i out) :
    ∃ st', valueStrings true .json data attr turns out.length i array st =
        pure (((i + out.length : Nat) : Int), array || 1 < vals.length, st') ∧
      st.Adds ((if 1 < vals.length ∧ array = false then [0x5b] else []) ++
        commaEnds (vals.map quoted)) st' := by
  induction vals generalizing out turns i array st with
  | nil =>
    obtain ⟨turns, rfl⟩ := Nat.exists_eq_succ_of_ne_zero (by omega : turns ≠ 0)
    cases wire
    refine ⟨st, ?_, ?_⟩
    · simp [valueStrings]
    · simpa [commaEnds] using TextState.Adds.nil st
  | cons v vals ih =>
    obtain ⟨turns, rfl⟩ := Nat.exists_eq_succ_of_ne_zero (by omega : turns ≠ 0)
    obtain ⟨hv, hvals⟩ := List.forall_mem_cons.1 hvals
    rw [List.map_cons] at wire
    cases wire with
    | cons head tail =>
      rename_i t rest
      have htwo := head.length_lt
      rw [List.length_append] at hlen
      rw [List.length_cons] at hturns
      obtain ⟨j, htag, hlength, hbytes, hend, -, -⟩ := head.read (by omega) h.left
      have hpos : 0 < ((t ++ rest).length : Int) := by
        rw [List.length_append]
        omega
      have hleft : int32 (((t ++ rest).length : Int) - ((v.length : Int) + j - i)) =
          (rest.length : Int) := by
        rw [List.length_append, int32_of_range (by omega) (by omega)]
        omega
      have hj : (j : Int) + v.length = ((i + t.length : Nat) : Int) := by omega
      have hmore : 0 < (rest.length : Int) ↔ 1 < (v :: vals).length := by
        have := tlvs_length_pos tail
        rw [ne_eq, List.map_eq_nil_iff, ← ne_eq, ← List.length_pos_iff] at this
        rw [List.length_cons]
        omega
      obtain ⟨st₁, hvalue, hadds⟩ := valueString_adds hv attr rest.length array st
      obtain ⟨st₂, hloop, hadds'⟩ := ih tail (by omega) hvals (show vals.length < turns by omega)
        (array || 0 < (rest.length : Int)) st₁ h.right
      refine ⟨st₂, ?_, ?_⟩
      · rw [valueStrings, if_pos hpos]
        simp only [htag, lift_ok, pure_bind, if_true, hlength, hleft, hv.copy hbytes, hv.cut,
          hvalue, hj, hloop]
        refine congrArg pure (Prod.ext ?_ (Prod.ext ?_ rfl))
        · simp only [List.length_append]
          omega
        · rw [Bool.or_assoc, ← Bool.decide_or]
          refine congrArg (array || ·) (decide_eq_decide.2 ?_)
          rw [hmore, List.length_cons]
          omega
      · have hnone : ¬ (1 < vals.length ∧ (array || decide (0 < (rest.length : Int))) = false) := by
          rintro ⟨hmany, harray⟩
          simp only [Bool.or_eq_false_iff, decide_eq_false_iff_not, hmore, List.length_cons] at harray
          omega
        rw [if_neg hnone, List.nil_append] at hadds'
        have := hadds.trans hadds'
        simp only [hmore] at this
        rw [List.map_cons, commaEnds_cons]
        simpa only [List.append_assoc, List.singleton_append] using this

/-- What closes the values completes the text of the value. -/
theorem closeValues_adds {a : Attr} {st st' : TextState}
    (h : st.Adds ((if 1 < a.vals.length then [0x5b] else []) ++ commaEnds (a.vals.map quoted)) st')
    (exist : Bool) (hexist : exist = true ↔ a.vals ≠ []) :
    ∃ st'', closeValues true .json a.name exist (1 < a.vals.length) st' = pure st'' ∧
      st.Adds (a.valueText ++ [0x2c]) st'' := by
  unfold Attr.valueText
  cases hvals : a.vals with
  | nil =>
    obtain rfl : exist = false := by simpa [hvals] using hexist
    obtain ⟨st'', happend, hadds⟩ := st'.appendString_adds (s := ascii "\"\",") (by decide)
    rw [hvals] at h
    exact ⟨st'', happend, h.trans hadds⟩
  | cons v vals =>
    obtain rfl : exist = true := hexist.2 (by simp [hvals])
    rw [hvals] at h
    cases vals with
    | nil =>
      refine ⟨st', rfl, ?_⟩
      simpa [commaEnds] using h
    | cons v' vals =>
      have hmany : 1 < (v :: v' :: vals).length := by simp
      rw [if_pos hmany] at h
      obtain ⟨st₁, hdrop, hadds₁⟩ := h.dropLast (List.append_ne_nil_of_left_ne_nil (by simp) _)
      obtain ⟨st₂, happend, hadds₂⟩ := st₁.appendString_adds (s := ascii "],") (by decide)
      refine ⟨st₂, ?_, ?_⟩
      · simp only [closeValues, hmany, decide_true, if_true, hdrop, lift_ok, pure_bind, happend]
      · have hne : commaEnds ((v :: v' :: vals).map quoted) ≠ [] := by
          simp [commaEnds, quoted]
        have := hadds₁.trans hadds₂
        rw [List.dropLast_append_of_ne_nil hne, commaEnds_dropLast] at this
        simpa [enclosed, ascii] using this

/-- The name of an attribute and its set. -/
theorem setString_adds {a : Attr} {out set : List UInt8} (ha : a.Pieces)
    (wire : Tlvs (a.vals.map fun v => (0x04, v)) out) (hset : Tlv 0x31 out set)
    (hlen : set.length < 2 ^ 31) (st : TextState) (h : Holds data i set) :
    ∃ st', setString true .json data a.name set.length i st =
        pure (0, ((i + set.length : Nat) : Int), st') ∧ st.Adds (a.text ++ [0x2c]) st' := by
  have hcontent := hset.length_lt
  obtain ⟨j, htag, hlength, hbytes, hend, -, -⟩ := hset.read (by omega) h
  have hturns : a.vals.length < data.size + 1 := by
    have hle := wire.length_le
    have hin := hbytes.inside
    rw [List.length_map] at hle
    omega
  have hleft : int32 ((set.length : Int) - ((out.length : Int) + j - i)) = 0 := by
    rw [int32_of_range (by omega) (by omega)]
    omega
  have hname : (ascii "\"" ++ a.name ++ ascii "\":").length < ldapMaxStringSize := by
    have := ha.name.1
    simp only [List.length_append, ascii, List.length_map]
    change 1 + a.name.length + 2 < _
    omega
  obtain ⟨st₁, happend, hadds₁⟩ := st.appendString_adds hname
  obtain ⟨st₂, hloop, hadds₂⟩ := valueStrings_adds wire (show out.length < 2 ^ 31 by omega)
    ha.value a.name hturns false st₁ hbytes
  have hexist : decide (0 < (out.length : Int)) = true ↔ a.vals ≠ [] := by
    have := tlvs_length_pos wire
    rw [ne_eq, List.map_eq_nil_iff, ← ne_eq] at this
    rw [decide_eq_true_iff, ← this, Nat.cast_pos]
  simp only [and_true] at hadds₂
  obtain ⟨st₃, hclose, hadds₃⟩ := closeValues_adds hadds₂ _ hexist
  refine ⟨st₃, ?_, ?_⟩
  · simp only [setString, happend, pure_bind, htag, lift_ok, if_true, hlength, hloop, Bool.false_or,
      hclose, hleft, hend]
  · have := hadds₁.trans hadds₃
    simpa [Attr.text, memberText, quoted, ascii] using this

/-- The parts of an attribute. -/
theorem partStrings_adds {a : Attr} {content : List UInt8} (ha : a.Pieces)
    (wire : AttrWire a content) (hlen : content.length < 2 ^ 31) (turns : Nat) (st : TextState)
    (h : Holds data i content) :
    ∃ st', partStrings true .json data (turns + 2) content.length i st =
        pure (((i + content.length : Nat) : Int), st') ∧ st.Adds (a.text ++ [0x2c]) st' := by
  obtain ⟨name, vals, set, hname, hvals, hset, rfl⟩ := wire
  have htwo := hname.length_lt
  rw [List.length_append] at hlen ⊢
  obtain ⟨j, htag, hlength, hbytes, hend, -, -⟩ := hname.read (by omega) h.left
  have hleft : int32 (((name.length + set.length : Nat) : Int) -
      ((a.name.length : Int) + j - i)) = (set.length : Nat) := by
    rw [int32_of_range (by omega) (by omega)]
    omega
  have hj : (j : Int) + a.name.length = ((i + name.length : Nat) : Int) := by omega
  have hpos : 0 < ((name.length + set.length : Nat) : Int) := by omega
  obtain ⟨st', hsetString, hadds⟩ :=
    setString_adds ha hvals hset (show set.length < 2 ^ 31 by omega) st h.right
  have hcopy : copyString ldapMaxAttrValueSize data j a.name.length = .ok a.name :=
    ha.name.copy hbytes
  refine ⟨st', ?_, hadds⟩
  rw [partStrings, if_pos hpos]
  simp only [htag, lift_ok, pure_bind, if_true, hlength, hleft, hcopy, ha.name.cut, hj, hsetString]
  rw [partStrings, if_neg (lt_irrefl 0), Nat.add_assoc]

/-- The loop over the attributes. -/
theorem attrStrings_adds {attrs : List Attr} {out : List UInt8} (wire : AttrsWire attrs out)
    (hattrs : ∀ a ∈ attrs, a.Pieces) (hlen : out.length < 2 ^ 31) {turns : Nat}
    (hturns : attrs.length < turns) (st : TextState) (h : Holds data i out) :
    ∃ st', attrStrings true .json data turns out.length i st =
        pure (((i + out.length : Nat) : Int), st') ∧
      st.Adds (commaEnds (attrs.map Attr.text)) st' := by
  induction wire generalizing turns i st with
  | nil =>
    obtain ⟨turns, rfl⟩ := Nat.exists_eq_succ_of_ne_zero (by omega : turns ≠ 0)
    exact ⟨st, rfl, TextState.Adds.nil st⟩
  | @cons a attrs content item rest head seq tail ih =>
    obtain ⟨turns, rfl⟩ := Nat.exists_eq_succ_of_ne_zero (by omega : turns ≠ 0)
    obtain ⟨ha, hattrs⟩ := List.forall_mem_cons.1 hattrs
    rw [List.length_append] at hlen ⊢
    rw [List.length_cons] at hturns
    have htwo := seq.length_lt
    obtain ⟨j, htag, hlength, hbytes, hend, hj, -⟩ := seq.read (by omega) h.left
    have hin := hbytes.inside
    obtain ⟨size, hsize⟩ : ∃ size, data.size + 1 = size + 2 := ⟨data.size - 1, by omega⟩
    have hpos : 0 < ((item.length + rest.length : Nat) : Int) := by omega
    have hleft : int32 (((item.length + rest.length : Nat) : Int) -
        ((content.length : Int) + j - i)) = (rest.length : Nat) := by
      rw [int32_of_range (by omega) (by omega)]
      omega
    obtain ⟨st₁, hparts, hadds₁⟩ :=
      partStrings_adds ha head (show content.length < 2 ^ 31 by omega) size st hbytes
    obtain ⟨st₂, hloop, hadds₂⟩ :=
      ih hattrs (by omega) (show attrs.length < turns by omega) st₁ h.right
    refine ⟨st₂, ?_, ?_⟩
    · rw [attrStrings, if_pos hpos]
      simp only [htag, lift_ok, pure_bind, if_true, hlength, hsize, hparts, hleft, hend, hloop,
        Nat.add_assoc]
    · rw [List.map_cons, commaEnds_cons]
      simpa only [List.append_assoc, List.singleton_append] using hadds₁.trans hadds₂

theorem attrSequence_adds {attrs : List Attr} {items seq : List UInt8}
    (wire : AttrsWire attrs items) (hseq : Tlv 0x30 items seq) (hattrs : ∀ a ∈ attrs, a.Pieces)
    (hlen : seq.length < 2 ^ 31) (st : TextState) (h : Holds data i seq) :
    ∃ st', attrSequence true .json data i st = pure (((i + seq.length : Nat) : Int), st') ∧
      st.Adds (commaEnds (attrs.map Attr.text)) st' := by
  have htwo := hseq.length_lt
  obtain ⟨j, htag, hlength, hbytes, hend, -, -⟩ := hseq.read (by omega) h
  have hturns : attrs.length < data.size + 1 := by
    have hle := wire.length_le
    have hin := hbytes.inside
    omega
  obtain ⟨st', hloop, hadds⟩ :=
    attrStrings_adds wire hattrs (show items.length < 2 ^ 31 by omega) hturns st hbytes
  refine ⟨st', ?_, hadds⟩
  simp only [attrSequence, htag, lift_ok, pure_bind, if_true, hlength, hloop, hend]

end

/-! ## Finding the object class -/

/-- `c` is what a scan of `range` octets takes for the object class: the first place that looks
like one is within reach, and three octets behind it there is a `c` of this length. -/
def ClassSeen (c : List UInt8) (range : Int) (octets : List UInt8) : Prop :=
  ∃ front l tag back,
    octets = front ++ (scanKey ++ l :: tag :: UInt8.ofNat c.length :: (c ++ back)) ∧
    (front.length : Int) < range ∧
    (∀ k < front.length, ¬ scanKey <+: (front ++ scanKey).drop k) ∧
    c.length < objectNameSize ∧ 0 ∉ c

section

variable {data : Block}

theorem memchr_eq {c : UInt8} {front rest : List UInt8} (hfront : c ∉ front) {n i : Nat}
    (hn : front.length < n) (h : Holds data i (front ++ c :: rest)) :
    memchr data c n i = .ok (some ((i + front.length : Nat) : Int)) := by
  induction front generalizing i n with
  | nil =>
    obtain ⟨n, rfl⟩ := Nat.exists_eq_succ_of_ne_zero (by omega : n ≠ 0)
    have hrd : data.rd i = .ok c := Holds.rd h
    rw [memchr, hrd]
    exact if_pos rfl
  | cons b front ih =>
    obtain ⟨n, rfl⟩ := Nat.exists_eq_succ_of_ne_zero (by omega : n ≠ 0)
    rw [List.length_cons] at hn ⊢
    have hrd : data.rd i = .ok b := Holds.rd h
    have hb : b ≠ c := fun hbc => hfront (hbc ▸ List.mem_cons_self)
    have hrest := ih (i := i + 1) (n := n) (fun hc => hfront (List.mem_cons_of_mem b hc))
      (by omega) h.tail
    rw [memchr, hrd]
    simp only [ok_bind, if_neg hb]
    rw [show (i : Int) + 1 = ((i + 1 : Nat) : Int) by omega, hrest,
      show i + 1 + front.length = i + (front.length + 1) by omega]

theorem sizeT_eq {n : Int} (h0 : 0 ≤ n) (h : n < 2 ^ 64) : sizeT n = n.toNat := by
  rw [sizeT, Int.emod_eq_of_lt h0 h]

/-- Where the octets are those of a class, its name is taken. -/
theorem scanObjectClass_here {c front back : List UInt8} {l tag : UInt8}
    (hc : c.length < objectNameSize) (hnul : 0 ∉ c) (hfront : 0x0b ∉ front) {i : Nat}
    {scanLen : Int} (hreach : front.length < scanLen) (hscan : scanLen < 2 ^ 31) (turns : Nat)
    (h : Holds data i (front ++ (scanKey ++ l :: tag :: UInt8.ofNat c.length :: (c ++ back)))) :
    scanObjectClass data (turns + 1) i scanLen = .ok c := by
  have hsmall : c.length < 128 := hc.trans (by decide)
  have hkey := h.right
  have hload : data.load (i + front.length : Nat) scanKey.length = .ok scanKey := hkey.left.load
  have hlen : scanKey.length = 13 := by decide
  have hbehind := hkey.right.tail.tail
  rw [hlen] at hbehind
  have hrd : data.rd ((i + front.length : Nat) + 15) = .ok (UInt8.ofNat c.length) := hbehind.rd
  have hcopy : copyString objectNameSize data ((i + front.length : Nat) + 15 + 1) c.length =
      .ok c := (copyString_eq hbehind.tail.left).trans (if_pos hc)
  rw [scanObjectClass, sizeT_eq (by omega) (by omega),
    memchr_eq hfront (by omega) (show Holds data i (front ++ 0x0b :: _) from h)]
  simp only [ok_bind, hload, if_true, hrd, schar_ofNat hsmall, hcopy, pure_eq_ok]
  rw [Whole.beforeNul ⟨hc, hnul⟩]

/-- An octet 0b that is something else does not stop the scan; it makes it longer. -/
theorem scanObjectClass_past {x y rest : List UInt8} (hx : 0x0b ∉ x)
    (hno : ¬ scanKey <+: 0x0b :: y) (hlong : scanKey.length ≤ y.length) {i : Nat} {scanLen : Int}
    (hreach : x.length < scanLen) (hscan : scanLen + x.length < 2 ^ 31) (turns : Nat)
    (h : Holds data i (x ++ 0x0b :: (y ++ rest))) :
    scanObjectClass data (turns + 1) i scanLen =
      scanObjectClass data turns ((i + x.length + 1 : Nat) : Int) (scanLen + x.length) := by
  have hsplit := List.take_append_drop scanKey.length (0x0b :: y)
  have htake : ((0x0b :: y).take scanKey.length).length = scanKey.length := by
    rw [List.length_take, List.length_cons]
    omega
  have hload : data.load (i + x.length : Nat) scanKey.length =
      .ok ((0x0b :: y).take scanKey.length) := by
    have hat : Holds data (i + x.length) ((0x0b :: y) ++ rest) := h.right
    rw [← hsplit] at hat
    have := hat.left.left.load
    rwa [htake] at this
  have hne : (0x0b :: y).take scanKey.length ≠ scanKey := fun heq =>
    hno (heq ▸ List.take_prefix scanKey.length (0x0b :: y))
  have hlonger : int32 (scanLen - ((i : Int) - ((i + x.length : Nat) : Int))) =
      scanLen + x.length := by
    rw [int32_of_range (by omega) (by omega)]
    omega
  rw [scanObjectClass, sizeT_eq (by omega) (by omega), memchr_eq hx (by omega) h]
  simp only [ok_bind, hload, if_neg hne, hlonger]
  rfl

/-- A class that is seen is found. -/
theorem scanObjectClass_eq {c front back : List UInt8} {l tag : UInt8}
    (hc : c.length < objectNameSize) (hnul : 0 ∉ c)
    (hfirst : ∀ k < front.length, ¬ scanKey <+: (front ++ scanKey).drop k) {i : Nat} {scanLen : Int}
    (hreach : front.length < scanLen) (hscan : scanLen + front.length < 2 ^ 31) {turns : Nat}
    (hturns : front.length < turns)
    (h : Holds data i (front ++ (scanKey ++ l :: tag :: UInt8.ofNat c.length :: (c ++ back)))) :
    scanObjectClass data turns i scanLen = .ok c := by
  induction hn : front.length using Nat.strong_induction_on generalizing front i scanLen turns with
  | _ n ih =>
    subst hn
    obtain ⟨turns, rfl⟩ := Nat.exists_eq_succ_of_ne_zero (by omega : turns ≠ 0)
    by_cases hmem : (0x0b : UInt8) ∈ front
    · obtain ⟨x, y, rfl, hx⟩ := List.eq_append_cons_of_mem hmem
      have hdrop : ∀ k, (x ++ 0x0b :: y ++ scanKey).drop (x.length + k) =
          (0x0b :: (y ++ scanKey)).drop k := fun k => by
        rw [List.append_assoc, List.drop_length_add_append]
        rfl
      rw [List.length_append, List.length_cons] at hreach hscan hturns hfirst
      have hno : ¬ scanKey <+: 0x0b :: (y ++ scanKey) := by
        have := hfirst (x.length + 0) (by omega)
        rwa [hdrop] at this
      have hlater : ∀ k < y.length, ¬ scanKey <+: (y ++ scanKey).drop k := fun k hk => by
        have := hfirst (x.length + (k + 1)) (by omega)
        rwa [hdrop] at this
      have hhere : Holds data i (x ++ 0x0b :: ((y ++ scanKey) ++
          l :: tag :: UInt8.ofNat c.length :: (c ++ back))) := by
        simpa only [List.append_assoc, List.cons_append] using h
      rw [scanObjectClass_past hx hno (by simp) (by omega) (by omega) turns hhere]
      refine ih y.length (by rw [List.length_append, List.length_cons]; omega) hlater (by omega)
        (by omega) (by omega) ?_ rfl
      have := hhere.right.tail
      rwa [List.append_assoc] at this
    · exact scanObjectClass_here hc hnul hmem hreach (by omega) turns h

end

end CassandraApi.Ldap
