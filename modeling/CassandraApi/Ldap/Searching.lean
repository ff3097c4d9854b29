/-
# `Ldap.Searching` — reading a search request

    63 L  04 n dn  0a 1 scope  0a 1 deref  02 1 size  02 1 time  01 1 types
          filter  30 m names

The decoder reads the five small fields three bytes each, whatever lengths they
have, steps over the filter by the length that the filter says it has, and takes
names until the length of their list is used up.
-/
import CassandraApi.Ldap.Lists
import CassandraApi.Ldap.Reading

namespace CassandraApi.Ldap

open C Ber

/-! ## Pieces -/

section Pieces

variable {buf : Block} {i : Nat}

/-- A filter, with one of the ten tags, is stepped over by its length. -/
theorem searchFilter_tlv (garbage : Nat → UInt8) (depth : Nat) {tag : UInt8}
    {contents out : List UInt8} (hout : Tlv tag contents out) (htag : (tag &&& 0x1f).toNat ≤ 9)
    (hlen : contents.length < 2 ^ 31) (h : Holds buf i out) :
    searchFilter garbage depth buf i = (do
      let f ← ldapStringToFilter garbage depth buf i
      pure (some f, ((i + out.length : Nat) : Int))) := by
  obtain ⟨j, hrd, hlength, -, hj, -, -⟩ := hout.read hlen h
  have hend : (j : Int) + contents.length = ((i + out.length : Nat) : Int) := by
    rw [← hj]
    push_cast
    rfl
  simp only [searchFilter, hrd, ok_bind, if_pos htag, findLen, hlength, pure_eq_ok, hend]

/-- The names are taken one after another. -/
theorem searchAttributes_tlvs {names : List (List UInt8)} {turns : Nat} {out : List UInt8}
    (hout : Tlvs (names.map fun s => (0x04, s)) out)
    (hnames : ∀ s ∈ names, s.length < ldapMaxAttrValueSize) (hturns : names.length < turns)
    (hlen : out.length < 2 ^ 31) (h : Holds buf i out) :
    searchAttributes buf turns (out.length : Nat) i =
      .ok (names, ((i + out.length : Nat) : Int)) := by
  induction names generalizing turns i out with
  | nil =>
    cases hout
    obtain ⟨turns, rfl⟩ := Nat.exists_eq_succ_of_ne_zero (by omega : turns ≠ 0)
    simp only [searchAttributes, List.length_nil, Nat.cast_zero, lt_irrefl, if_false, Nat.add_zero,
      pure_eq_ok]
  | cons s names ih =>
    rw [List.map_cons] at hout
    cases hout with
    | @cons _ _ t rest _ head tail =>
      obtain ⟨turns, rfl⟩ := Nat.exists_eq_succ_of_ne_zero (by omega : turns ≠ 0)
      have hs := hnames s List.mem_cons_self
      have hmax : ldapMaxAttrValueSize < 2 ^ 31 := by decide
      have hshort := head.length_lt
      rw [List.length_append] at hlen ⊢
      rw [List.length_cons] at hturns
      obtain ⟨j, htag, hlength, hbytes, hj, -, -⟩ := head.read (hs.trans hmax) h.left
      have hrest := h.right
      rw [← hj] at hrest
      have hrec := ih tail (fun t ht => hnames t (List.mem_cons_of_mem _ ht))
        (show names.length < turns by omega) (by omega) hrest
      have hpos : 0 < ((t.length + rest.length : Nat) : Int) := by omega
      have hleft : int32 (((t.length + rest.length : Nat) : Int) - s.length -
          ((j : Int) - ((i : Int) + 1 + 1)) - 2) = (rest.length : Nat) := by
        rw [int32_of_range (by omega) (by omega)]
        omega
      have hlt : (s.length : Int) < ldapMaxAttrValueSize := by exact_mod_cast hs
      have hnext : (j : Int) + s.length = ((j + s.length : Nat) : Int) := by push_cast; rfl
      rw [searchAttributes, if_pos hpos]
      simp only [htag, ok_bind, ne_eq, not_true_eq_false, if_false, findLen, hlength, pure_eq_ok,
        copyString, hbytes.load, if_pos hlt, hleft, hnext, hrec]
      rw [hj, Nat.add_assoc]

end Pieces

/-! ## The operation -/

/-- A search, its two limits in as many octets as they take. -/
structure Search where
  base : List UInt8
  scope : UInt8
  deref : UInt8
  size : List UInt8
  time : List UInt8
  types : UInt8
  filterTag : UInt8
  filter : List UInt8
  names : List (List UInt8)

namespace Search

/-- What comes before the filter, `base` being written as `dn`. -/
def front (s : Search) (dn : List UInt8) : List UInt8 :=
  dn ++ [0x0a, 1, s.scope] ++ [0x0a, 1, s.deref] ++ tlv 0x02 s.size ++ tlv 0x02 s.time ++
    [0x01, 1, s.types]

def octets (s : Search) (dn : List UInt8) : List UInt8 :=
  s.front dn ++ tlv s.filterTag s.filter ++ tlv 0x30 (valsOctets s.names)

/-- A filter has one of ten tags; the names are ones the decoder has room for. -/
structure Regular (s : Search) : Prop where
  tag : (s.filterTag &&& 0x1f).toNat ≤ 9
  filter : s.filter.length < 2 ^ 24
  names : ∀ t ∈ s.names, t.length < ldapMaxAttrValueSize
  list : (valsOctets s.names).length < 2 ^ 24

end Search

/-- Where both limits take one octet the whole request is read, once its filter is. -/
theorem decodeSearch_eq (garbage : Nat → UInt8) (depth : Nat) {buf : Block} {i n : Nat}
    {s : Search} {dn base : List UInt8} {size time : UInt8} (regular : s.Regular)
    (hsize : s.size = [size]) (htime : s.time = [time]) (hn : n < 2 ^ 24)
    (hbase : ∀ j : Nat, Holds buf j dn → requiredString ldapMaxDnSize "ldapsearch: malformat baseDn"
      buf j = .ok (.ok (base, ((j + dn.length : Nat) : Int))))
    (h : Holds buf i (lengthOctets n ++ s.octets dn)) :
    decodeSearch garbage depth buf i = (do
      let f ← ldapStringToFilter garbage depth buf
        ((i + (lengthOctets n ++ s.front dn).length : Nat) : Int)
      pure (.ok (.searchRequest ⟨base, schar s.scope, schar s.deref, schar size, schar time,
        schar s.types, some f, s.names⟩,
          ((i + (lengthOctets n ++ s.octets dn).length : Nat) : Int)))) := by
  have hlen := findLength_eq (lengthOctets_defLen hn) (by omega) h.left
  rw [← Nat.cast_add] at hlen
  have hbody := h.right
  rw [List.length_append, List.length_append, ← Nat.add_assoc, ← Nat.add_assoc]
  generalize i + (lengthOctets n).length = k at *
  have honeSize : tlv 0x02 s.size = [0x02, 1, size] := by
    rw [hsize]
    rfl
  have honeTime : tlv 0x02 s.time = [0x02, 1, time] := by
    rw [htime]
    rfl
  have hfrontlen : k + (s.front dn).length = k + dn.length + 3 + 3 + 3 + 3 + 3 := by
    simp only [Search.front, honeSize, honeTime, List.length_append, List.length_cons,
      List.length_nil]
    omega
  have hfront : Holds buf k (s.front dn) := hbody.left.left
  unfold Search.front at hfront
  rw [honeSize, honeTime] at hfront
  have hfields : Holds buf (k + dn.length) ([0x0a, 1, s.scope] ++ ([0x0a, 1, s.deref] ++
      ([0x02, 1, size] ++ ([0x02, 1, time] ++ [0x01, 1, s.types])))) := by
    simp only [List.append_assoc] at hfront
    exact hfront.right
  have hdn := hbase k (by simp only [List.append_assoc] at hfront; exact hfront.left)
  generalize k + dn.length = j at *
  have hscope := smallField_eq "ldapsearch: malformat scope" hfields.left
  have hderef := smallField_eq "ldapsearch: malformat deferAliases" hfields.right.left
  have hsizes := smallField_eq "ldapsearch: malformat sizeLimit" hfields.right.right.left
  have htimes := smallField_eq "ldapsearch: malformat timeLimit" hfields.right.right.right.left
  have htypes := smallField_eq "ldapsearch: malformat typeOnly" hfields.right.right.right.right
  simp only [List.length_cons, List.length_nil, Nat.zero_add] at hderef hsizes htimes htypes
  have hfilter : Holds buf (k + (s.front dn).length) (tlv s.filterTag s.filter) := hbody.left.right
  have hlist : Holds buf (k + (s.front dn ++ tlv s.filterTag s.filter).length)
      (tlv 0x30 (valsOctets s.names)) := hbody.right
  rw [List.length_append, ← Nat.add_assoc] at hlist
  obtain ⟨l, htag, hlength, hnames, hl⟩ := tlv_read regular.list hlist
  have hturns : s.names.length < buf.size + 1 := by
    have hle : s.names.length ≤ (valsOctets s.names).length := length_le_items s.names
    have hin := hnames.inside
    omega
  have hshort : ∀ t ∈ s.names, t.length < 2 ^ 24 := fun t ht =>
    (regular.names t ht).trans (by decide)
  have hitems : Tlvs (s.names.map fun t => (0x04, t)) (valsOctets s.names) := Tlvs.of_tlv hshort
  have hattrs := searchAttributes_tlvs hitems regular.names hturns
    (lt_trans regular.list (by norm_num)) hnames
  have hstep := searchFilter_tlv garbage depth (tlv_isTlv regular.filter) regular.tag
    (lt_trans regular.filter (by norm_num)) hfilter
  have hwhole : l + (valsOctets s.names).length = k + (s.octets dn).length := by
    rw [hl, Search.octets, List.length_append, List.length_append]
    omega
  rw [hfrontlen] at *
  rw [hwhole] at hattrs
  simp only [decodeSearch, hlen, ok_bind, hdn, andThen_ok, hscope, hderef, hsizes, htimes, htypes,
    hstep, bind_assoc, htag, if_true, hlength, hattrs, pure_eq_ok]

end CassandraApi.Ldap
