/-
# `Ldap.ResultGroups` — entries put together by object class

The JSON text of collected search entries, when their strings fit and the class of
each is found: an object for each class with an array of its entries, in the order
in which they came.
-/
import CassandraApi.Ldap.ResultText

namespace CassandraApi.Ldap

open C Ber Lib Lib.Json

/-! ## The objects -/

/-- The class under which an entry is listed. -/
def SearchEntry.objectClass (e : SearchEntry) : List UInt8 := e.classes.headD []

/-- The objects for the entries `es`: one for each class, with the texts of its entries. -/
structure Grouped (olist : List OList) (es : List SearchEntry) : Prop where
  names : olist.map OList.name = (es.map SearchEntry.objectClass).eraseDups
  nodup : (olist.map OList.name).Nodup
  string : ∀ ol ∈ olist, ol.string =
    commaEnds ((es.filter (·.objectClass = ol.name)).map SearchEntry.text)

theorem Grouped.nil : Grouped [] [] := ⟨rfl, List.nodup_nil, fun _ h => absurd h List.not_mem_nil⟩

/-- The object of the name `name` in `olist`, or a new one at the end. -/
inductive Chosen (name : List UInt8) : List OList → List OList → OList → List OList → Prop where
  | old {before after : List OList} {ol : OList} (name_eq : ol.name = name) :
      Chosen name (before ++ ol :: after) before ol after
  | new {olist : List OList} (fresh : name ∉ olist.map OList.name) :
      Chosen name olist olist { name := name } []

theorem findOList_chosen (name : List UInt8) (olist : List OList) :
    ∃ before ol after, findOList name olist = (before.length, before ++ ol :: after) ∧
      Chosen name olist before ol after := by
  rw [findOList]
  by_cases hmem : name ∈ olist.map OList.name
  · obtain ⟨names, names', hsplit, hnot⟩ := List.eq_append_cons_of_mem hmem
    obtain ⟨before, rest, rfl, rfl, hrest⟩ := List.map_eq_append_iff.1 hsplit
    obtain ⟨ol, after, rfl, hname, rfl⟩ := List.map_eq_cons_iff.1 hrest
    refine ⟨before, ol, after, ?_, .old hname⟩
    have hnone : before.findIdx? (·.name = name) = none := by
      refine List.findIdx?_eq_none_iff.2 fun o ho => decide_eq_false fun h => hnot ?_
      exact h ▸ List.mem_map_of_mem ho
    simp [List.findIdx?_append, hnone, List.findIdx?_cons, hname]
  · have hnone : olist.findIdx? (·.name = name) = none := by
      refine List.findIdx?_eq_none_iff.2 fun o ho => decide_eq_false fun h => hmem ?_
      exact h ▸ List.mem_map_of_mem ho
    refine ⟨olist, { name := name }, [], ?_, .new hmem⟩
    rw [hnone]

section

variable {name : List UInt8} {olist before after : List OList} {ol : OList}

theorem Chosen.name_eq (h : Chosen name olist before ol after) : ol.name = name := by
  cases h with
  | old name_eq => exact name_eq
  | new => rfl

theorem Chosen.names (h : Chosen name olist before ol after) :
    (before ++ ol :: after).map OList.name =
      if name ∈ olist.map OList.name then olist.map OList.name
      else olist.map OList.name ++ [name] := by
  cases h with
  | old name_eq =>
    rw [if_pos]
    rw [← name_eq]
    exact List.mem_map_of_mem (by simp)
  | new fresh =>
    rw [if_neg fresh, List.map_append]
    rfl

theorem Chosen.nodup (h : Chosen name olist before ol after)
    (hnodup : (olist.map OList.name).Nodup) : ((before ++ ol :: after).map OList.name).Nodup := by
  rw [h.names]
  split
  · exact hnodup
  · rename_i hmem
    rw [List.nodup_append]
    refine ⟨hnodup, List.nodup_singleton name, ?_⟩
    rintro n hn m hm rfl
    exact hmem (List.mem_singleton.1 hm ▸ hn)

/-- The other objects are those of other names. -/
theorem Chosen.other (h : Chosen name olist before ol after)
    (hnodup : (olist.map OList.name).Nodup) {o : OList} (ho : o ∈ before ++ after) :
    o ∈ olist ∧ o.name ≠ name := by
  constructor
  · cases h with
    | old =>
      simp only [List.mem_append, List.mem_cons] at ho ⊢
      tauto
    | new => simpa using ho
  · rintro hname
    have hperm : (before ++ ol :: after).Perm (ol :: (before ++ after)) := List.perm_middle
    have hfirst := (hperm.map OList.name).nodup_iff.1 (h.nodup hnodup)
    rw [List.map_cons, List.nodup_cons, h.name_eq, ← hname] at hfirst
    exact hfirst.1 (List.mem_map_of_mem ho)

end

theorem eraseDups_snoc {α : Type} [BEq α] [LawfulBEq α] [DecidableEq α] (xs : List α) (x : α) :
    (xs ++ [x]).eraseDups = if x ∈ xs then xs.eraseDups else xs.eraseDups ++ [x] := by
  rw [List.eraseDups_append]
  split
  · rename_i hmem
    simp [List.removeAll, hmem]
  · rename_i hmem
    simp [List.removeAll, hmem, List.eraseDups_cons]

section

variable {olist before after : List OList} {ol : OList} {es : List SearchEntry} {e : SearchEntry}

/-- What the chosen object has is the texts of its class. -/
theorem Grouped.chosen (grouped : Grouped olist es)
    (h : Chosen e.objectClass olist before ol after) :
    ol.string = commaEnds ((es.filter (·.objectClass = e.objectClass)).map SearchEntry.text) := by
  cases h with
  | old name_eq => rw [grouped.string ol (by simp), name_eq]
  | new fresh =>
    have hnone : es.filter (·.objectClass = e.objectClass) = [] := by
      refine List.filter_eq_nil_iff.2 fun e' he' h => fresh ?_
      rw [grouped.names, List.mem_eraseDups, ← of_decide_eq_true h]
      exact List.mem_map_of_mem he'
    rw [hnone]
    rfl

/-- The text of an entry goes to the object of its class. -/
theorem Grouped.add (grouped : Grouped olist es) (h : Chosen e.objectClass olist before ol after)
    {ol' : OList} (hname : ol'.name = ol.name)
    (hstring : ol'.string = ol.string ++ (e.text ++ [0x2c])) :
    Grouped (before ++ ol' :: after) (es ++ [e]) := by
  have hnames : (before ++ ol' :: after).map OList.name =
      (before ++ ol :: after).map OList.name := by
    simp only [List.map_append, List.map_cons, hname]
  refine ⟨?_, ?_, ?_⟩
  · rw [hnames, h.names, List.map_append, List.map_singleton, eraseDups_snoc]
    simp only [grouped.names, List.mem_eraseDups]
  · rw [hnames]
    exact h.nodup grouped.nodup
  · intro o ho
    rw [List.filter_append, List.map_append, commaEnds_append]
    have hcases : o = ol' ∨ o ∈ before ++ after := by
      simp only [List.mem_append, List.mem_cons] at ho ⊢
      tauto
    obtain rfl | ho := hcases
    · rw [hstring, grouped.chosen h, hname, h.name_eq]
      simp [commaEnds]
    · obtain ⟨hin, hne⟩ := h.other grouped.nodup ho
      rw [grouped.string o hin]
      simp [commaEnds, Ne.symm hne]

end

/-! ## Entries as they were collected -/

/-- A search entry and the octets in which it came. -/
structure Collected where
  entry : SearchEntry
  name : List UInt8
  items : List UInt8
  seq : List UInt8
  octets : List UInt8
  name_wire : Tlv 0x04 entry.dn name
  items_wire : AttrsWire entry.attrs items
  seq_wire : Tlv 0x30 items seq
  wire : Tlv 0x64 (name ++ seq) octets

namespace Collected

/-- How far the class of an entry is looked for: 20 octets less than what is left of the entry,
the octets of the length of its name included. -/
def reach (x : Collected) : Int :=
  ((x.name ++ x.seq).length : Int) - x.entry.dn.length - 20

/-- The strings of the entry fit, and its class is found. -/
structure Renders (x : Collected) : Prop where
  dn : Piece 9 x.entry.dn
  attrs : ∀ a ∈ x.entry.attrs, a.Pieces
  named : x.entry.objectClass ≠ []
  seen : ClassSeen x.entry.objectClass x.reach x.seq

end Collected

theorem tlvs_length_le {tag : UInt8} {vals : List (List UInt8)} {out : List UInt8}
    (wire : Tlvs (vals.map fun v => (tag, v)) out) :
    out.length ≤ (vals.map fun v => v.length + 6).sum := by
  induction vals generalizing out with
  | nil =>
    cases wire
    exact Nat.le_refl 0
  | cons v vals ih =>
    rw [List.map_cons] at wire
    cases wire with
    | cons head tail =>
      have h1 := head.header_le
      have h2 := ih tail
      rw [List.length_append, List.map_cons, List.sum_cons]
      omega

theorem sum_le_valueText (a : Attr) :
    (a.vals.map fun v => v.length + 2).sum ≤ a.valueText.length := by
  have hlen : List.length ∘ quoted = fun v => v.length + 2 := funext quoted_length
  rw [Attr.valueText]
  split
  · rename_i hvals
    simp [hvals]
  · rename_i v hvals
    simp [hvals, quoted_length]
  · rw [enclosed_length, List.map_map, hlen]
    omega

theorem AttrWire.length_le {a : Attr} {content item : List UInt8} (wire : AttrWire a content)
    (seq : Tlv 0x30 content item) : item.length ≤ 6 * a.text.length := by
  obtain ⟨name, vals, set, hname, hvals, hset, rfl⟩ := wire
  have h1 := seq.header_le
  have h2 := hname.header_le
  have h3 := hset.header_le
  have h4 := tlvs_length_le hvals
  have h5 := sum_le_valueText a
  have h6 : (a.vals.map fun v => v.length + 6).sum ≤ 6 * (a.vals.map fun v => v.length + 2).sum := by
    rw [← List.sum_map_mul_left]
    exact List.sum_le_sum fun v _ => by omega
  rw [List.length_append] at h1
  rw [Attr.text, memberText_length]
  omega

theorem AttrsWire.length_le_texts {attrs : List Attr} {out : List UInt8}
    (wire : AttrsWire attrs out) :
    out.length ≤ 6 * ((attrs.map Attr.text).map List.length).sum := by
  induction wire with
  | nil => exact Nat.le_refl 0
  | cons head seq tail ih =>
    have h1 := head.length_le seq
    simp only [List.length_append, List.map_cons, List.sum_cons]
    omega

/-- An entry is at most six times as long as its text. -/
theorem Collected.length_le (x : Collected) :
    (x.name ++ x.seq).length ≤ 6 * x.entry.text.length := by
  have h1 := x.name_wire.header_le
  have h2 := x.seq_wire.header_le
  have h3 := x.items_wire.length_le_texts
  rw [SearchEntry.text, enclosed_length, SearchEntry.members, List.map_cons, List.sum_cons,
    memberText_length, quoted_length, List.length_append]
  omega

/-! ## One entry -/

section

variable {data : Block} {i : Nat}

/-- The text of an entry is added to the object of its class. -/
theorem entryString_grouped {x : Collected} (hx : x.Renders) (hlen : x.octets.length < 2 ^ 30)
    {olist : List OList} {es : List SearchEntry} (grouped : Grouped olist es) (bstring : BER)
    (h : Holds data i (x.name ++ x.seq)) :
    ∃ olist', entryString true .json data (x.name ++ x.seq).length ((i : Int) + 1) bstring olist =
        pure (((i + (x.name ++ x.seq).length : Nat) : Int), bstring, olist') ∧
      Grouped olist' (es ++ [x.entry]) := by
  obtain ⟨front, l, tag, back, hseq, hreach, hfirst, hcap, hnul⟩ := hx.seen
  have hshort := x.wire.length_lt
  have hname := x.name_wire.length_lt
  have hseqlen := x.seq_wire.length_lt
  rw [List.length_append] at hshort
  rw [Collected.reach, List.length_append] at hreach
  have hfront : front.length < x.seq.length := by
    rw [hseq]
    simp [scanKey]
  obtain ⟨k, -, hlength, hbytes, hk, -, -⟩ := x.name_wire.read (by omega) h.left
  have hnext : (k : Int) + x.entry.dn.length = ((i + x.name.length : Nat) : Int) := by omega
  have hright := h.right
  have hscan : scanObjectClass data (data.size + 1) ((i + x.name.length : Nat) : Int)
      (int32 (((x.name ++ x.seq).length : Int) - x.entry.dn.length - 20)) =
        .ok x.entry.objectClass := by
    have hin := hright.inside
    rw [List.length_append, int32_of_range (by omega) (by omega)]
    rw [hseq] at hright
    exact scanObjectClass_eq hcap hnul hfirst (by omega) (by omega) (by omega) hright
  obtain ⟨before, ol, after, hfind, hchosen⟩ := findOList_chosen x.entry.objectClass olist
  have hget : (before ++ ol :: after).getD before.length { name := [] } = ol := by
    simp [List.getD]
  obtain ⟨ol₀, hgrow, hgname, hgstring, -⟩ := ol.grow_room
  have hopen : openObject x.entry.objectClass x.entry.dn =
      0x7b :: (memberText (ascii "dn") (quoted x.entry.dn) ++ [0x2c]) := by
    rw [openObject, if_pos hx.named]
    simp [memberText, quoted, ascii]
  have hopenlen : (openObject x.entry.objectClass x.entry.dn).length < ldapMaxStringSize := by
    have hdn := hx.dn.1
    rw [hopen, List.length_cons, List.length_append, memberText_length, quoted_length]
    change 2 + (x.entry.dn.length + 2) + 3 + 1 + 1 < _
    omega
  obtain ⟨st₁, happend₁, hadds₁⟩ := TextState.appendString_adds hopenlen ⟨bstring, ol₀⟩
  obtain ⟨st₂, hattrs, hadds₂⟩ := attrSequence_adds x.items_wire x.seq_wire hx.attrs
    (show x.seq.length < 2 ^ 31 by omega) st₁ hright
  have hmembers : openObject x.entry.objectClass x.entry.dn ++
      commaEnds (x.entry.attrs.map Attr.text) = 0x7b :: commaEnds x.entry.members := by
    rw [hopen, SearchEntry.members, commaEnds_cons]
    simp
  have hadds := hadds₁.trans hadds₂
  rw [hmembers] at hadds
  obtain ⟨st₃, hdrop, hadds₃⟩ := hadds.dropLast (List.cons_ne_nil _ _)
  obtain ⟨st₄, happend₄, hadds₄⟩ := st₃.appendString_adds (s := ascii "\x7d,") (by decide)
  have htotal := hadds₃.trans hadds₄
  have hne : commaEnds x.entry.members ≠ [] := by
    simp [SearchEntry.members, commaEnds]
  have htext : (0x7b :: commaEnds x.entry.members).dropLast ++ ascii "\x7d," =
      x.entry.text ++ [0x2c] := by
    rw [List.dropLast_cons_of_ne_nil hne, commaEnds_dropLast]
    simp [SearchEntry.text, enclosed, ascii]
  rw [htext] at htotal
  refine ⟨before ++ st₄.ol :: after, ?_, grouped.add hchosen (htotal.name.trans hgname)
    (htotal.string.trans (by rw [hgstring]))⟩
  have hm : ((i + x.name.length + x.seq.length : Nat) : Int) =
      ((i + (x.name ++ x.seq).length : Nat) : Int) := by
    rw [List.length_append, Nat.add_assoc]
  simp only [entryString, hlength, lift_ok, pure_bind, hx.dn.copy hbytes, hnext, hscan, hfind, hget,
    hgrow, hx.dn.cut, happend₁, hattrs, hdrop, happend₄, hm]
  rw [htotal.bstring]
  simp

end

/-! ## All entries -/

theorem berAllocBuffer_roomy {b : BER} {len : Nat} (h : b.berval.length + len ≤ b.size) :
    berAllocBuffer true (some b) len = some b :=
  if_neg fun hfull => not_lt.2 h hfull.1

theorem berAllocBuffer_some (b : BER) (len : Nat) :
    ∃ size, berAllocBuffer true (some b) len = some { b with size := size } ∧
      b.berval.length + len ≤ size := by
  by_cases hfull : b.berval.length + len > b.size
  · exact ⟨_, if_pos ⟨hfull, rfl⟩, le_adjustSize _ _⟩
  · exact ⟨b.size, if_neg fun h => hfull h.1, not_lt.1 hfull⟩

/-- `ber_alloc_buffer(&(lc->bstring), BER_BUFFER)` -/
def BER.enlarged (b : BER) : BER := (berAllocBuffer true (some b) berBuffer).getD b

theorem BER.enlarged_berval (b : BER) : b.enlarged.berval = b.berval := by
  obtain ⟨size, hsize, -⟩ := berAllocBuffer_some b berBuffer
  rw [BER.enlarged, hsize]
  rfl

theorem BER.enlarged_enlarged (b : BER) : b.enlarged.enlarged = b.enlarged := by
  obtain ⟨size, hsize, hroom⟩ := berAllocBuffer_some b berBuffer
  have hone : b.enlarged = { b with size := size } := by
    rw [BER.enlarged, hsize]
    rfl
  rw [hone, BER.enlarged, berAllocBuffer_roomy hroom]
  rfl

section

variable {data : Block}

/-- The loop over the entries. -/
theorem entryStrings_grouped {xs : List Collected} (hxs : ∀ x ∈ xs, x.Renders)
    (hsmall : ∀ x ∈ xs, x.octets.length < 2 ^ 30)
    (hlen : (xs.flatMap Collected.octets).length < 2 ^ 31) {turns i : Nat}
    (hturns : xs.length < turns) {olist : List OList} {es : List SearchEntry}
    (grouped : Grouped olist es) (bstring : BER) (h : Holds data i (xs.flatMap Collected.octets)) :
    ∃ bstring' olist', entryStrings true .json data turns (xs.flatMap Collected.octets).length i
        bstring olist = pure (bstring', olist') ∧
      (xs ≠ [] → bstring' = bstring.enlarged) ∧
      Grouped olist' (es ++ xs.map Collected.entry) := by
  induction xs generalizing turns i olist es bstring with
  | nil =>
    obtain ⟨turns, rfl⟩ := Nat.exists_eq_succ_of_ne_zero (by omega : turns ≠ 0)
    refine ⟨bstring, olist, rfl, fun hne => absurd rfl hne, ?_⟩
    rwa [List.map_nil, List.append_nil]
  | cons x xs ih =>
    obtain ⟨turns, rfl⟩ := Nat.exists_eq_succ_of_ne_zero (by omega : turns ≠ 0)
    obtain ⟨hx, hxs⟩ := List.forall_mem_cons.1 hxs
    obtain ⟨hone, hsmall⟩ := List.forall_mem_cons.1 hsmall
    rw [List.flatMap_cons] at h hlen ⊢
    rw [List.length_append] at hlen ⊢
    rw [List.length_cons] at hturns
    have htwo := x.wire.length_lt
    have hname := x.name_wire.length_lt
    obtain ⟨j, htag, hlength, hbytes, hend, -, -⟩ := x.wire.read (by omega) h.left
    have hpos : 0 < ((x.octets.length + (xs.flatMap Collected.octets).length : Nat) : Int) := by
      omega
    have hleft : int32 (((x.octets.length + (xs.flatMap Collected.octets).length : Nat) : Int) -
        (((x.name ++ x.seq).length : Int) + j - i)) =
          ((xs.flatMap Collected.octets).length : Nat) := by
      rw [int32_of_range (by omega) (by omega)]
      omega
    obtain ⟨-, hnametag, -⟩ := x.name_wire.read
      (show x.entry.dn.length < 2 ^ 31 by rw [List.length_append] at htwo; omega) hbytes.left
    obtain ⟨olist₁, hentry, grouped₁⟩ := entryString_grouped hx hone grouped bstring.enlarged hbytes
    obtain ⟨bstring₂, olist₂, hloop, hsize, grouped₂⟩ :=
      ih hxs hsmall (by omega) (show xs.length < turns by omega) grouped₁ bstring.enlarged h.right
    refine ⟨bstring₂, olist₂, ?_, fun _ => ?_, ?_⟩
    · have hstart : data.rd (j : Int) = .ok 0x04 := hnametag
      rw [entryStrings, if_pos hpos]
      simp only [htag, lift_ok, pure_bind, if_true, hlength, hleft, hstart]
      change (entryString true .json data _ _ bstring.enlarged olist >>= _) = _
      rw [hentry, pure_bind, hend]
      exact hloop
    · by_cases hlast : xs = []
      · subst hlast
        cases turns with
        | zero => omega
        | succ turns =>
          cases hloop
          rfl
      · rw [hsize hlast, BER.enlarged_enlarged]
    · rwa [List.map_cons, List.append_cons]

/-! ## The whole text -/

/-- The text of an object of `olist`. -/
def groupText (c : List UInt8) (es : List SearchEntry) : List UInt8 :=
  memberText c (enclosed 0x5b 0x5d (es.map SearchEntry.text))

/-- The classes of entries, in the order in which they come. -/
def classNames (es : List SearchEntry) : List (List UInt8) :=
  (es.map SearchEntry.objectClass).eraseDups

/-- The entries of a class. -/
def ofClass (es : List SearchEntry) (c : List UInt8) : List SearchEntry :=
  es.filter (·.objectClass = c)

def groupTexts (es : List SearchEntry) : List (List UInt8) :=
  (classNames es).map fun c => groupText c (ofClass es c)

def resultText (es : List SearchEntry) : List UInt8 := enclosed 0x7b 0x7d (groupTexts es)

theorem BER.printString_eq {b : BER} {s : List UInt8} (hs : s.length < ldapReadBuffer)
    (hroom : (b.berval ++ s).length ≤ b.size) :
    b.printString s = .ok { b with berval := b.berval ++ s } := by
  rw [List.length_append] at hroom
  rw [BER.printString, fieldString, if_pos hs]
  exact if_pos hroom

theorem BER.dropLast_eq {b : BER} {s : List UInt8} {c : UInt8} (h : b.berval = s ++ [c]) :
    b.dropLast = .ok { b with berval := s } := by
  rw [BER.dropLast, if_neg (by simp [h]), h, List.dropLast_concat]
  rfl

/-- Each object is written behind its name, as an array. -/
theorem objectStrings_eq {olist : List OList} {es : OList → List SearchEntry}
    (hstring : ∀ ol ∈ olist, es ol ≠ [] ∧ ol.string = commaEnds ((es ol).map SearchEntry.text) ∧
      (groupText ol.name (es ol)).length < ldapReadBuffer) (b : BER)
    (hroom : (b.berval ++ commaEnds (olist.map fun ol => groupText ol.name (es ol))).length ≤
      b.size) :
    objectStrings olist b = .ok { b with
      berval := b.berval ++ commaEnds (olist.map fun ol => groupText ol.name (es ol)) } := by
  induction olist generalizing b with
  | nil => simp [objectStrings, commaEnds]
  | cons ol olist ih =>
    obtain ⟨⟨hne, hol, hshort⟩, hstring⟩ := List.forall_mem_cons.1 hstring
    have hmap : (es ol).map SearchEntry.text ≠ [] := by
      rwa [ne_eq, List.map_eq_nil_iff]
    have htext : ascii "\"" ++ ol.name ++ ascii "\":[" ++ ol.string =
        (quoted ol.name ++ 0x3a :: 0x5b :: commaSep ((es ol).map SearchEntry.text)) ++ [0x2c] := by
      rw [hol, commaEnds_eq hmap]
      simp [quoted, ascii]
    have hgroup : groupText ol.name (es ol) ++ [0x2c] =
        (quoted ol.name ++ 0x3a :: 0x5b :: commaSep ((es ol).map SearchEntry.text)) ++
          ascii "]," := by
      simp [groupText, memberText, enclosed, ascii]
    rw [List.map_cons, commaEnds_cons, List.append_cons, ← List.append_assoc, hgroup] at hroom ⊢
    generalize hs : quoted ol.name ++ 0x3a :: 0x5b :: commaSep ((es ol).map SearchEntry.text) = s
      at hroom htext hgroup ⊢
    have hslen : s.length + 1 = (groupText ol.name (es ol)).length := by
      have := congrArg List.length hgroup
      simp only [List.length_append, ascii, List.length_map] at this
      change _ + 1 = s.length + 2 at this
      omega
    have hprint := b.printString_eq (s := s ++ [0x2c])
      (by rw [List.length_append]; exact hslen ▸ hshort)
      (by
        simp only [List.length_append, ascii, List.length_map] at hroom ⊢
        change _ + (s.length + 2) + _ ≤ _ at hroom
        simp only [List.length_cons, List.length_nil]
        omega)
    have hdrop := BER.dropLast_eq (b := { b with berval := b.berval ++ (s ++ [0x2c]) })
      (s := b.berval ++ s) (c := 0x2c) (List.append_assoc ..).symm
    have hclose := BER.printString_eq (b := { b with berval := b.berval ++ s }) (s := ascii "],")
      (by decide) (by
        simp only [List.length_append] at hroom ⊢
        omega)
    rw [objectStrings, htext, hprint]
    simp only [ok_bind, hdrop, hclose]
    rw [ih hstring _ (by simpa only [List.append_assoc] using hroom)]
    simp only [List.append_assoc]

end

/-- How much of lc->bstring there is for the text of at least one entry: it is enlarged before
the first brace, and before an entry. -/
def textRoom (bstring : Option BER) : Nat :=
  match berAllocBuffer true bstring berBuffer with
  | none => 0
  | some b => (BER.enlarged { b with berval := [0x7b] }).size

/-- The entries can be written as JSON. -/
structure Rendered (bstring : Option BER) (xs : List Collected) : Prop where
  entry : ∀ x ∈ xs, x.Renders
  group : ∀ c ∈ classNames (xs.map Collected.entry),
    (groupText c (ofClass (xs.map Collected.entry) c)).length < ldapReadBuffer
  total : (resultText (xs.map Collected.entry)).length < textRoom bstring

theorem mem_classNames {es : List SearchEntry} {c : List UInt8} :
    c ∈ classNames es ↔ ∃ e ∈ es, e.objectClass = c := by
  rw [classNames, List.mem_eraseDups, List.mem_map]

theorem mem_ofClass {es : List SearchEntry} {c : List UInt8} {e : SearchEntry} :
    e ∈ ofClass es c ↔ e ∈ es ∧ e.objectClass = c := by
  rw [ofClass, List.mem_filter, decide_eq_true_iff]

theorem text_length_le {es : List SearchEntry} {e : SearchEntry} (he : e ∈ es)
    (c : List UInt8) : e.text.length ≤ (groupText c es).length := by
  have hle := List.single_le_sum (l := (es.map SearchEntry.text).map List.length)
    (fun n _ => Nat.zero_le n) e.text.length (List.mem_map_of_mem (List.mem_map_of_mem he))
  rw [groupText, memberText_length, enclosed_length]
  omega

/-- What fits is short. -/
theorem Rendered.small {bstring : Option BER} {xs : List Collected} (hxs : Rendered bstring xs) :
    ∀ x ∈ xs, x.octets.length < 2 ^ 30 := by
  intro x hx
  have he : x.entry ∈ xs.map Collected.entry := List.mem_map_of_mem hx
  have h1 := x.wire.header_le
  have h2 := x.length_le
  have h3 := text_length_le (mem_ofClass.2 ⟨he, rfl⟩) x.entry.objectClass
  have h4 := hxs.group _ (mem_classNames.2 ⟨x.entry, he, rfl⟩)
  have h5 : ldapReadBuffer < 2 ^ 20 := by decide
  omega

theorem Grouped.texts {olist : List OList} {es : List SearchEntry} (grouped : Grouped olist es) :
    olist.map (fun ol => groupText ol.name (ofClass es ol.name)) = groupTexts es := by
  rw [groupTexts, classNames, ← grouped.names, List.map_map]
  rfl

theorem groupTexts_ne_nil {es : List SearchEntry} (hne : es ≠ []) : groupTexts es ≠ [] := by
  obtain ⟨e, es, rfl⟩ := List.exists_cons_of_ne_nil hne
  rw [groupTexts, ne_eq, List.map_eq_nil_iff]
  exact List.ne_nil_of_mem (mem_classNames.2 ⟨e, List.mem_cons_self, rfl⟩)

theorem resultText_length {es : List SearchEntry} (hne : es ≠ []) :
    (resultText es).length = (0x7b :: commaEnds (groupTexts es)).length := by
  rw [resultText, commaEnds_eq (groupTexts_ne_nil hne)]
  simp [enclosed]

/-- The objects, and the end of the text. -/
theorem Grouped.closed {olist : List OList} {es : List SearchEntry} (grouped : Grouped olist es)
    (hne : es ≠ []) (hgroup : ∀ c ∈ classNames es, (groupText c (ofClass es c)).length < ldapReadBuffer)
    {b : BER} (hb : b.berval = [0x7b]) (hroom : (resultText es).length < b.size) :
    (do
      let b ← objectStrings olist b
      let b ← b.dropLast
      let b ← b.printString (ascii "\x7d")
      b.terminate) = .ok { b with berval := resultText es } := by
  have hstring : ∀ ol ∈ olist, ofClass es ol.name ≠ [] ∧
      ol.string = commaEnds ((ofClass es ol.name).map SearchEntry.text) ∧
      (groupText ol.name (ofClass es ol.name)).length < ldapReadBuffer := by
    intro ol hol
    have hname : ol.name ∈ classNames es := by
      rw [classNames, ← grouped.names]
      exact List.mem_map_of_mem hol
    obtain ⟨e, he, hclass⟩ := mem_classNames.1 hname
    exact ⟨List.ne_nil_of_mem (mem_ofClass.2 ⟨he, hclass⟩), grouped.string ol hol, hgroup _ hname⟩
  have htexts : groupTexts es ≠ [] := groupTexts_ne_nil hne
  have hlen : (0x7b :: commaEnds (groupTexts es)).length ≤ b.size := by
    rw [← resultText_length hne]
    exact hroom.le
  have hobjects := objectStrings_eq hstring b (by rwa [hb, grouped.texts])
  rw [hb, grouped.texts, commaEnds_eq htexts] at hobjects
  have hdrop := BER.dropLast_eq
    (b := { b with berval := [0x7b] ++ (commaSep (groupTexts es) ++ [0x2c]) })
    (s := 0x7b :: commaSep (groupTexts es)) (c := 0x2c) rfl
  have hclose : { b with berval := 0x7b :: commaSep (groupTexts es) }.printString (ascii "\x7d") =
      .ok { b with berval := resultText es } :=
    BER.printString_eq (by decide) hroom.le
  have hend : BER.terminate { b with berval := resultText es } =
      .ok { b with berval := resultText es } := if_pos hroom
  simp only [hobjects, ok_bind, hdrop, hclose, hend]

/-- Entries that can be written as JSON are. -/
theorem berAttrToString_eq {xs : List Collected} (hne : xs ≠ []) {bstring : Option BER}
    (hxs : Rendered bstring xs) {rber : BER} (hrber : rber.berval = xs.flatMap Collected.octets)
    (hlen : rber.berval.length < 2 ^ 31) :
    ∃ b, berAttrToString true .json (some rber) bstring = .ok (⟨.ok, none⟩, some b) ∧
      b.berval = resultText (xs.map Collected.entry) := by
  obtain ⟨b, halloc, hbsize⟩ := berAllocBuffer_room bstring berBuffer
  have hpos : 1 < b.size := lt_of_lt_of_le (by decide) hbsize
  have htotal := hxs.total
  rw [textRoom, halloc] at htotal
  have hturns : xs.length < (Block.ofList rber.berval).size + 1 := by
    have hle : xs.length ≤ (xs.flatMap Collected.octets).length := by
      rw [List.length_flatMap]
      refine (List.length_le_sum_of_one_le _ ?_).trans' (by rw [List.length_map])
      rintro n hn
      obtain ⟨x, -, rfl⟩ := List.mem_map.1 hn
      have := x.wire.length_lt
      omega
    rw [← hrber] at hle
    exact Nat.lt_succ_of_le hle
  have hholds := Block.ofList_holds rber.berval
  rw [hrber] at hholds hlen hturns
  obtain ⟨bstring', olist, hloop, hsize, grouped⟩ :=
    entryStrings_grouped hxs.entry hxs.small hlen hturns Grouped.nil
      { b with berval := [0x7b] } hholds
  rw [List.nil_append] at grouped
  rw [hsize hne] at hloop
  generalize hes : xs.map Collected.entry = es at *
  have hesne : es ≠ [] := by
    rw [← hes, ne_eq, List.map_eq_nil_iff]
    exact hne
  have hclosed := grouped.closed hesne (by simpa only [hes] using hxs.group)
    (BER.enlarged_berval { b with berval := [0x7b] }) htotal
  have hstart : BER.terminate { b with berval := [] } = .ok { b with berval := [] } :=
    if_pos (show 0 < b.size by omega)
  have hbrace : BER.printString { b with berval := [] } (ascii "\x7b") =
      .ok { b with berval := [0x7b] } := BER.printString_eq (by decide) hpos.le
  generalize BER.enlarged { b with berval := [0x7b] } = big at hloop hclosed
  refine ⟨{ big with berval := resultText es }, ?_, rfl⟩
  have hrun : resultString true .json rber b = pure { big with berval := resultText es } := by
    have hint : int32 ((xs.flatMap Collected.octets).length : Int) =
        ((xs.flatMap Collected.octets).length : Int) := int32_natCast hlen
    rw [resultString, hrber]
    simp only [hstart, lift_ok, pure_bind, hbrace, hint]
    rw [← Nat.cast_zero, hloop]
    simp only [pure_bind, ← lift_bind, hclosed, lift_ok]
  rw [berAttrToString, halloc]
  simp only [hrun]
  rfl

end CassandraApi.Ldap
