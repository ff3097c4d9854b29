/-
# `Ldap.AnySearch` — which search requests are read

    30 L  02 L id  63 L  04 L base  0a L scope  0a L deref  02 L size  02 L time  01 L types
          filter  30 L names

with any definite lengths, and the limits in as many octets as they take.  The
decoder takes each of the five fields behind the base for three bytes, and the
length of the id for one octet.  What it makes of a longer one is never what was
encoded (`understood_iff`): the bytes that it then takes for the next field are
those of a length, and no field is spelled like that.
-/
import CassandraApi.Ldap.FilterRoom
import CassandraApi.Ldap.Searching
import CassandraApi.Ldap.WriteRequests

namespace CassandraApi.Ldap

open C Ber

/-! ## Search requests -/

/-- A search request, each of its parts as a value and as octets. -/
structure SearchWire where
  id : List UInt8
  base : List UInt8
  scope : UInt8
  deref : UInt8
  size : Nat
  time : Nat
  types : Bool
  filter : SearchFilter
  names : List (List UInt8)
  idOut : List UInt8
  baseOut : List UInt8
  scopeOut : List UInt8
  derefOut : List UInt8
  sizeOut : List UInt8
  timeOut : List UInt8
  typesOut : List UInt8
  filterOut : List UInt8
  namesOut : List UInt8
  listOut : List UInt8
  opOut : List UInt8
  out : List UInt8

namespace SearchWire

/-- The octet of a BOOLEAN. -/
def typesOctet (w : SearchWire) : UInt8 := if w.types then 0xff else 0x00

/-- From the filter on. -/
def tail (w : SearchWire) : List UInt8 := w.filterOut ++ w.listOut

/-- The five fields, each with what is behind it. -/
def fields (w : SearchWire) : List UInt8 :=
  w.scopeOut ++ (w.derefOut ++ (w.sizeOut ++ (w.timeOut ++ (w.typesOut ++ w.tail))))

/-- The octets are a request with these values, in any definite lengths and in limits of as few
octets as possible; base and names are strings that there are arrays for. -/
structure Formed (w : SearchWire) : Prop where
  id : Tlv 0x02 w.id w.idOut
  idSize : 1 ≤ w.id.length ∧ w.id.length ≤ 4
  base : Tlv 0x04 w.base w.baseOut
  baseSize : w.base.length < ldapMaxDnSize
  scope : Tlv 0x0a [w.scope] w.scopeOut
  deref : Tlv 0x0a [w.deref] w.derefOut
  size : Tlv 0x02 (octets w.size (Ber.idSize w.size)) w.sizeOut
  sizeMax : w.size < 2 ^ 31
  time : Tlv 0x02 (octets w.time (Ber.idSize w.time)) w.timeOut
  timeMax : w.time < 2 ^ 31
  types : Tlv 0x01 [w.typesOctet] w.typesOut
  filter : AnyFilter w.filter w.filterOut
  names : Tlvs (w.names.map fun s => (0x04, s)) w.namesOut
  namesSize : ∀ s ∈ w.names, s.length < ldapMaxAttrValueSize
  list : Tlv 0x30 w.namesOut w.listOut
  op : Tlv 0x63 (w.baseOut ++ w.fields) w.opOut
  message : Tlv 0x30 (w.idOut ++ w.opOut) w.out
  outSize : w.out.length < 2 ^ 31

/-- The message that the request is. -/
def IsIn (w : SearchWire) (msg : LdapMessage) : Prop :=
  msg.choice = .searchRequest ∧ ∃ filter, msg.alt = .searchRequest ⟨w.base, schar w.scope,
    schar w.deref, w.size, w.time, schar w.typesOctet, filter, w.names⟩

/-- The request is decoded as it was encoded, wherever its bytes lie, on a stack that is deep enough
and unless the byte behind it is taken for the tag of controls. -/
def Understood (w : SearchWire) : Prop :=
  ∀ (env : DecodeEnv) (buf : Block) (p : Nat) (c : UInt8), env.message = true → 256 < env.depth →
    c ≠ 0xa0 → Holds buf p (w.out ++ [c]) →
      ∃ msg, ldapDecodeRequest env (frameAt buf p w.out.length) =
        .ok (⟨.dataAvailable, none⟩, some msg) ∧ w.IsIn msg

/-- The five fields take three bytes each, and the id a length in one octet. -/
structure Plain (w : SearchWire) : Prop where
  id : w.idOut.length = w.id.length + 2
  scope : w.scopeOut.length = 3
  deref : w.derefOut.length = 3
  size : w.sizeOut.length = 3
  time : w.timeOut.length = 3
  types : w.typesOut.length = 3

end SearchWire

/-! ## Three bytes -/

/-- What the decoder looks at in a field of one octet, when it takes it for three bytes.  The length
in more than one octet leads it to a byte that is 0 or 1. -/
theorem field_three {buf : Block} {k : Nat} {tag v x : UInt8} {out : List UInt8}
    (h : Tlv tag [v] out) (held : Holds buf k out) (hv : buf.rd ((k : Int) + 2) = .ok v)
    (hx : buf.rd ((k : Int) + 3) = .ok x) (hne : x ≠ 0 ∧ x ≠ 1) : out.length = 3 := by
  have rd3 : ∀ {a b c d : UInt8} {r : List UInt8}, Holds buf k (a :: b :: c :: d :: r) →
      v = c ∧ x = d := by
    intro a b c d r hr
    have h2 : buf.rd ((k : Int) + 2) = .ok c := by exact_mod_cast hr.tail.tail.rd
    have h3 : buf.rd ((k : Int) + 3) = .ok d := by exact_mod_cast hr.tail.tail.tail.rd
    exact ⟨Except.ok.inj (hv.symm.trans h2), Except.ok.inj (hx.symm.trans h3)⟩
  rcases h.one with rfl | rfl | rfl | rfl | rfl
  · rfl
  · obtain ⟨hone, rfl⟩ := rd3 held
    exact absurd hone hne.2
  · exact absurd (rd3 held).2 hne.2
  · exact absurd (rd3 held).2 hne.1
  · exact absurd (rd3 held).2 hne.1

/-- A limit that one byte is taken for is below 128. -/
theorem limit_small {n : Nat} {c : UInt8} (h : schar c = n) : n < 128 := by
  unfold schar at h
  have hc := c.toNat_lt
  split at h <;> omega

theorem octets_small {n : Nat} (h : n < 128) : octets n (idSize n) = [UInt8.ofNat n] := by
  have hone : idSize n = 1 := if_pos (by exact_mod_cast h)
  rw [hone]
  simp [octets]

/-- A limit in three bytes. -/
theorem limit_three {n : Nat} {out : List UInt8} (h : Tlv 0x02 (octets n (idSize n)) out)
    (hlen : out.length = 3) : n < 128 ∧ out = [0x02, 1, UInt8.ofNat n] := by
  have hshort := h.length_lt
  rw [octets_length, hlen] at hshort
  have hn : n < 128 := by
    by_contra hlarge
    have htwo : 2 ≤ idSize n := by
      unfold idSize
      split_ifs <;> omega
    omega
  rw [octets_small hn] at h
  exact ⟨hn, h.three hlen⟩

theorem schar_inj {a b : UInt8} (h : schar a = schar b) : a = b := by
  have ha := a.toNat_lt
  have hb := b.toNat_lt
  refine UInt8.toNat_inj.1 ?_
  unfold schar at h
  split at h <;> split at h <;> omega

/-! ## Taking a decoded search apart -/

theorem andThen_eq_ok {α β : Type} {x : Except Fault (Except Outcome α)}
    {f : α → Except Fault (Except Outcome β)} {r : β} :
    andThen x f = .ok (.ok r) ↔ ∃ a, x = .ok (.ok a) ∧ f a = .ok (.ok r) := by
  constructor
  · intro h
    obtain ⟨d, hd, h⟩ := bind_eq_ok.1 h
    cases d with
    | error out => cases h
    | ok a => exact ⟨a, hd, h⟩
  · rintro ⟨a, rfl, h⟩
    exact h

theorem smallField_inv {tag : UInt8} {e : String} {buf : Block} {i j v : Int}
    (h : smallField tag e buf i = .ok (.ok (v, j))) :
    buf.rd i = .ok tag ∧ j = i + 3 ∧ ∃ c, buf.rd (i + 2) = .ok c ∧ v = schar c := by
  obtain ⟨x, hx, h⟩ := bind_eq_ok.1 h
  split at h
  · rename_i htag
    obtain ⟨c, hc, h⟩ := bind_eq_ok.1 h
    cases h
    exact ⟨htag ▸ hx, rfl, c, hc, rfl⟩
  · cases h

/-- What the decoder saw, when it comes to the end of the operation. -/
theorem decodeSearch_inv {garbage : Nat → UInt8} {depth : Nat} {buf : Block} {i j : Int} {alt : Alt}
    (h : decodeSearch garbage depth buf i = .ok (.ok (alt, j))) :
    ∃ n i₀ base i₁ scope deref size time types filter i₇ names,
      findLength buf i = .ok (n, i₀) ∧
      requiredString ldapMaxDnSize "ldapsearch: malformat baseDn" buf i₀ = .ok (.ok (base, i₁)) ∧
      (buf.rd i₁ = .ok 0x0a ∧ buf.rd (i₁ + 2) = .ok scope) ∧
      (buf.rd (i₁ + 3) = .ok 0x0a ∧ buf.rd (i₁ + 3 + 2) = .ok deref) ∧
      (buf.rd (i₁ + 3 + 3) = .ok 0x02 ∧ buf.rd (i₁ + 3 + 3 + 2) = .ok size) ∧
      (buf.rd (i₁ + 3 + 3 + 3) = .ok 0x02 ∧ buf.rd (i₁ + 3 + 3 + 3 + 2) = .ok time) ∧
      (buf.rd (i₁ + 3 + 3 + 3 + 3) = .ok 0x01 ∧ buf.rd (i₁ + 3 + 3 + 3 + 3 + 2) = .ok types) ∧
      searchFilter garbage depth buf (i₁ + 3 + 3 + 3 + 3 + 3) = .ok (filter, i₇) ∧
      buf.rd i₇ = .ok 0x30 ∧
      alt = .searchRequest ⟨base, schar scope, schar deref, schar size, schar time, schar types,
        filter, names⟩ := by
  obtain ⟨⟨n, i₀⟩, hn, h⟩ := bind_eq_ok.1 h
  obtain ⟨⟨base, i₁⟩, hbase, h⟩ := andThen_eq_ok.1 h
  obtain ⟨⟨_, _⟩, hscope, h⟩ := andThen_eq_ok.1 h
  obtain ⟨t1, rfl, c1, hc1, rfl⟩ := smallField_inv hscope
  obtain ⟨⟨_, _⟩, hderef, h⟩ := andThen_eq_ok.1 h
  obtain ⟨t2, rfl, c2, hc2, rfl⟩ := smallField_inv hderef
  obtain ⟨⟨_, _⟩, hsize, h⟩ := andThen_eq_ok.1 h
  obtain ⟨t3, rfl, c3, hc3, rfl⟩ := smallField_inv hsize
  obtain ⟨⟨_, _⟩, htime, h⟩ := andThen_eq_ok.1 h
  obtain ⟨t4, rfl, c4, hc4, rfl⟩ := smallField_inv htime
  obtain ⟨⟨_, _⟩, htypes, h⟩ := andThen_eq_ok.1 h
  obtain ⟨t5, rfl, c5, hc5, rfl⟩ := smallField_inv htypes
  obtain ⟨⟨filter, i₇⟩, hfilter, h⟩ := bind_eq_ok.1 h
  obtain ⟨x, hx, h⟩ := bind_eq_ok.1 h
  split at h
  · rename_i hlist
    subst hlist
    obtain ⟨⟨len, i₈⟩, -, h⟩ := bind_eq_ok.1 h
    obtain ⟨⟨names, i₉⟩, -, h⟩ := bind_eq_ok.1 h
    cases h
    exact ⟨n, i₀, base, i₁, c1, c2, c3, c4, c5, filter, i₇, names, hn, hbase, ⟨t1, hc1⟩, ⟨t2, hc2⟩,
      ⟨t3, hc3⟩, ⟨t4, hc4⟩, ⟨t5, hc5⟩, hfilter, hx, rfl⟩
  · cases h

/-- A filter that is stepped over is read, and has one of ten tags. -/
theorem searchFilter_inv {garbage : Nat → UInt8} {depth : Nat} {buf : Block} {i j : Int} {tag : UInt8}
    {filter : Option SearchFilter} (h : searchFilter garbage depth buf i = .ok (filter, j))
    (htag : buf.rd i = .ok tag) (hten : (tag &&& 0x1f).toNat ≤ 9) :
    ∃ len i' f, findLength buf (i + 1) = .ok (len, i') ∧ j = i' + len ∧
      ldapStringToFilter garbage depth buf i = .ok f := by
  simp only [searchFilter, htag, ok_bind, if_pos hten] at h
  obtain ⟨⟨len, size, i'⟩, hlen, h⟩ := bind_eq_ok.1 h
  obtain ⟨⟨len', i''⟩, hlength, hlen⟩ := bind_eq_ok.1 hlen
  obtain ⟨f, hf, h⟩ := bind_eq_ok.1 h
  cases hlen
  cases h
  exact ⟨len, i', f, hlength, rfl, hf⟩

/-! ## Where the decoder comes to -/

section

variable {w : SearchWire} {buf : Block} {c : UInt8} {env : DecodeEnv} {p k : Nat}

/-- The decoder comes to the id. -/
theorem decode_id (h : w.Formed) (henv : env.message = true) (held : Holds buf p (w.out ++ [c])) :
    ∃ q : Nat, q ≤ p + 6 ∧ Holds buf q (w.idOut ++ (w.opOut ++ [c])) ∧
      ldapDecodeRequest env (frameAt buf p w.out.length) = (do
        let len := schar (← buf.rd ((q : Int) + 1))
        let messageId ← decodeTid buf len.toNat ((q : Int) + 2) 0
        let op ← buf.rd ((q : Int) + 2 + len)
        decodeFrom env buf messageId op ((q : Int) + 2 + len + 1)) := by
  have hsize := h.outSize
  have hshort := h.message.length_lt
  have hidSize := h.idSize
  obtain ⟨q, hrd, hlength, hbytes, hq, -, hle⟩ := h.message.read (by omega) held.left
  obtain ⟨_, htag, -⟩ := h.id.read (by omega) hbytes.left
  have hbehind := held.right
  rw [← hq] at hbehind
  have hnot : ¬ ((w.idOut ++ w.opOut).length : Int) > (w.out.length : Nat) := by omega
  refine ⟨q, hle, ?_, ?_⟩
  · rw [← List.append_assoc]
    exact Holds.append_iff.2 ⟨hbytes, hbehind⟩
  · simp only [ldapDecodeRequest, frameAt, hrd, hlength, ok_bind, ne_eq, not_true_eq_false,
      if_false, hnot, henv, htag]
    rfl

/-- An id with its length in more than one octet leads the decoder in front of the block. -/
theorem id_short (h : w.Formed) (henv : env.message = true) (held : Holds buf 0 (w.out ++ [c]))
    {r : Outcome × Option LdapMessage}
    (hok : ldapDecodeRequest env (frameAt buf 0 w.out.length) = .ok r) :
    w.idOut.length = w.id.length + 2 := by
  obtain ⟨q, hle, hbytes, hdecode⟩ := decode_id h henv held
  rw [hok] at hdecode
  rcases h.id.forms with ⟨-, hout⟩ | ⟨os, pos, four, hout⟩
  · rw [hout]
    rfl
  · rw [hout] at hbytes
    have hbyte : (UInt8.ofNat (128 + os.length)).toNat = 128 + os.length := by
      rw [UInt8.toNat_ofNat']
      omega
    have hneg : schar (UInt8.ofNat (128 + os.length)) = (os.length : Int) - 128 := by
      unfold schar
      rw [hbyte, if_neg (by omega)]
      push_cast
      ring
    have hrd : buf.rd ((q : Int) + 1) = .ok (UInt8.ofNat (128 + os.length)) := by
      exact_mod_cast hbytes.tail.rd
    have hzero : ((os.length : Int) - 128).toNat = 0 := by omega
    have hfront : buf.rd ((q : Int) + 2 + ((os.length : Int) - 128)) = .error .read :=
      if_neg (by omega)
    simp only [hrd, ok_bind, hneg, hzero, decodeTid, hfront, error_bind] at hdecode
    cases hdecode

/-- The decoder comes to the operation. -/
theorem decode_operation (h : w.Formed) (hid : w.idOut.length = w.id.length + 2)
    (henv : env.message = true) (held : Holds buf p (w.out ++ [c])) :
    ∃ (k : Nat) (messageId : UInt32), Holds buf k (w.opOut ++ [c]) ∧
      ldapDecodeRequest env (frameAt buf p w.out.length) =
        decodeFrom env buf messageId 0x63 ((k : Int) + 1) := by
  obtain ⟨q, -, hbytes, hdecode⟩ := decode_id h henv held
  rcases h.id.forms with ⟨hshort, hout⟩ | ⟨os, pos, -, hout⟩
  · have hop := hbytes.right
    rw [hid] at hop
    rw [hout] at hbytes
    obtain ⟨rest, hrest⟩ := h.op.head
    have hrd : buf.rd ((q : Int) + 1) = .ok (UInt8.ofNat w.id.length) := by
      exact_mod_cast hbytes.tail.rd
    have htid : decodeTid buf w.id.length ((q : Int) + 2) 0 =
        .ok (0 + UInt32.ofNat (beVal w.id)) := by
      exact_mod_cast decodeTid_eq 0 hbytes.tail.tail.left
    have hcast : ((q + (w.id.length + 2) : Nat) : Int) = (q : Int) + 2 + w.id.length := by
      push_cast
      ring
    have hoprd : buf.rd ((q : Int) + 2 + w.id.length) = .ok 0x63 := by
      rw [← hcast]
      rw [hrest] at hop
      exact hop.rd
    refine ⟨q + (w.id.length + 2), 0 + UInt32.ofNat (beVal w.id), hop, ?_⟩
    rw [hdecode, hcast]
    simp only [hrd, ok_bind, schar_ofNat hshort, Int.toNat_natCast, htid, hoprd]
  · rw [hout] at hid
    simp only [List.length_cons, List.length_append] at hid
    omega

/-- The decoder comes to the fields behind the base. -/
theorem decode_fields (h : w.Formed) (held : Holds buf k (w.opOut ++ [c])) :
    ∃ (n : Int) (j m : Nat), findLength buf ((k : Int) + 1) = .ok (n, (j : Int)) ∧
      requiredString ldapMaxDnSize "ldapsearch: malformat baseDn" buf j =
        .ok (.ok (w.base, (m : Int))) ∧
      Holds buf m (w.fields ++ [c]) := by
  have hsize := h.outSize
  have hmessage := h.message.length_lt
  have hop := h.op.length_lt
  have hbase := h.base.length_lt
  rw [List.length_append] at hmessage
  have hfields := hop
  rw [List.length_append] at hfields
  obtain ⟨j, -, hlength, hbytes, hj, -⟩ := h.op.read (by omega) held.left
  obtain ⟨m, htag, hbaselength, hbasebytes, hm, -⟩ := h.base.read (by omega) hbytes.left
  have hbehind := held.right
  rw [← hj] at hbehind
  have hall := Holds.append_iff.2 ⟨hbytes, hbehind⟩
  rw [List.append_assoc] at hall
  refine ⟨_, j, j + w.baseOut.length, hlength, ?_, hall.right⟩
  simp only [requiredString, htag, ok_bind, if_true, lengthString, hbaselength,
    takeString_eq h.baseSize hbasebytes, hm, pure_eq_ok]

end

/-! ## Requests that are read -/

section

variable {w : SearchWire} {buf : Block} {c : UInt8} {k : Nat} {depth : Nat}

/-- What is behind the five fields. -/
theorem SearchWire.Formed.tail_lt (h : w.Formed) : w.tail.length < 2 ^ 31 := by
  have hsize := h.outSize
  have hmessage := h.message.length_lt
  have hop := h.op.length_lt
  simp only [SearchWire.fields, List.length_append] at hmessage hop
  omega

/-- The filter, with the tag of the names behind it. -/
theorem filter_held (h : w.Formed) (held : Holds buf k (w.tail ++ [c])) :
    Holds buf k (w.filterOut ++ [0x30]) := by
  obtain ⟨rest, hrest⟩ := h.list.head
  rw [SearchWire.tail, hrest] at held
  simp only [List.append_assoc, List.cons_append] at held
  exact Holds.append_iff.2 ⟨held.left, (Holds.append_iff.1 (show Holds buf (k + w.filterOut.length)
    ([0x30] ++ (rest ++ [c])) from held.right)).1⟩

/-- Fields in three bytes each are read, and a filter that there is room for. -/
theorem decodeSearch_plain (garbage : Nat → UInt8) (h : w.Formed) (plain : w.Plain)
    (fits : FilterFits w.filter w.filterOut) (hdepth : 256 < depth)
    (held : Holds buf k (w.opOut ++ [c])) :
    ∃ (filter : SearchFilter) (j : Nat), decodeSearch garbage depth buf ((k : Int) + 1) =
        .ok (.ok (.searchRequest ⟨w.base, schar w.scope, schar w.deref, w.size, w.time,
          schar w.typesOctet, some filter, w.names⟩, (j : Int))) ∧
      buf.rd j = .ok c := by
  have hlt := h.tail_lt
  obtain ⟨n, i, m, hlength, hbase, hfields⟩ := decode_fields h held
  obtain ⟨hsizeSmall, hsize⟩ := limit_three h.size plain.size
  obtain ⟨htimeSmall, htime⟩ := limit_three h.time plain.time
  rw [SearchWire.fields, h.scope.three plain.scope, h.deref.three plain.deref, hsize, htime,
    h.types.three plain.types] at hfields
  simp only [List.append_assoc] at hfields
  have hscope := smallField_eq "ldapsearch: malformat scope" hfields.left
  have hderef := smallField_eq "ldapsearch: malformat deferAliases" hfields.right.left
  have hsizes := smallField_eq "ldapsearch: malformat sizeLimit" hfields.right.right.left
  have htimes := smallField_eq "ldapsearch: malformat timeLimit" hfields.right.right.right.left
  have htypes := smallField_eq "ldapsearch: malformat typeOnly" hfields.right.right.right.right.left
  have htail := hfields.right.right.right.right.right
  simp only [List.length_cons, List.length_nil, Nat.zero_add] at hderef hsizes htimes htypes htail
  rw [SearchWire.tail, List.length_append] at hlt
  obtain ⟨tag, content, hvalue, hten⟩ := h.filter.shape
  have hshort := hvalue.length_lt
  have hstep := searchFilter_tlv garbage depth hvalue hten (by omega) (filter_held h htail).left
  obtain ⟨filter, hdecodes, -⟩ := FilterOctets.decodes fits
  have hfilter := hdecodes garbage depth buf _ _ (by omega) (.inr hdepth) (by decide)
    (filter_held h htail)
  rw [hfilter, ok_bind, pure_eq_ok] at hstep
  rw [SearchWire.tail, List.append_assoc] at htail
  have hlistShort := h.list.length_lt
  obtain ⟨l, htag, hlistLength, hnames, hl, -⟩ := h.list.read (by omega) htail.right.left
  have hturns : w.names.length < buf.size + 1 := by
    have hcount := h.names.length_le
    have hin := hnames.inside
    rw [List.length_map] at hcount
    omega
  have hattrs := searchAttributes_tlvs h.names h.namesSize hturns (by omega) hnames
  have hbehind := htail.right.right.rd
  rw [← hl] at hbehind
  refine ⟨filter, l + w.namesOut.length, ?_, hbehind⟩
  simp only [decodeSearch, hlength, ok_bind, hbase, andThen_ok, hscope, hderef, hsizes, htimes,
    htypes, hstep, htag, if_true, hlistLength, hattrs, pure_eq_ok, schar_ofNat hsizeSmall,
    schar_ofNat htimeSmall]

theorem understood_of_plain (h : w.Formed) (plain : w.Plain)
    (fits : FilterFits w.filter w.filterOut) : w.Understood := by
  intro env buf p c henv hdepth hc held
  obtain ⟨k, messageId, hop, hdecode⟩ := decode_operation h plain.id henv held
  obtain ⟨filter, j, hsearch, hbehind⟩ :=
    decodeSearch_plain env.garbage h plain fits hdepth hop
  refine ⟨⟨.searchRequest, messageId, _, []⟩, ?_, rfl, some filter, rfl⟩
  rw [hdecode]
  simp only [decodeFrom, decodeOp, hsearch, andThen_ok, decodeControls, hbehind, ok_bind,
    if_neg hc, pure_eq_ok]

end

/-! ## Requests that are not -/

section

variable {w : SearchWire} {buf : Block} {c : UInt8} {env : DecodeEnv} {p k : Nat}
  {garbage : Nat → UInt8} {depth : Nat}

theorem findLength_octet {i : Int} {x : UInt8} (hx : x.toNat < 128) (hr : buf.rd i = .ok x) :
    findLength buf i = .ok ((x.toNat : Int), i + 1) := by
  have hshort : ¬ uint32 (schar x) > 0xffffff00 := by
    rw [uint32_schar_gt]
    omega
  rw [findLength, hr, ok_bind, if_neg hshort, schar_of_lt hx, pure_eq_ok]

/-- The octet of a BOOLEAN is not an octet of a length. -/
theorem typesOctet_cases (w : SearchWire) : w.typesOctet = 0xff ∨ w.typesOctet = 0 := by
  unfold SearchWire.typesOctet
  split
  · exact .inl rfl
  · exact .inr rfl

/-- A time limit with a longer length leads the decoder into a BOOLEAN that is none. -/
theorem time_three {t v : UInt8} {timeOut typesOut : List UInt8} (htime : Tlv 0x02 [t] timeOut)
    (htypes : Tlv 0x01 [v] typesOut) (hbool : v = 0xff ∨ v = 0)
    (held : Holds buf k (timeOut ++ typesOut)) (htag : buf.rd ((k : Int) + 3) = .ok 0x01)
    (hoctet : buf.rd ((k : Int) + 3 + 2) = .ok v) : timeOut.length = 3 := by
  rcases htime.one with rfl | rfl | rfl | rfl | rfl
  · rfl
  · -- the length of the BOOLEAN is taken for its octet
    have hbehind := held.right
    have hlength : ∀ {x y : UInt8} {r : List UInt8}, typesOut = x :: y :: r → v = y := by
      rintro x y r rfl
      have hrd : buf.rd ((k : Int) + 3 + 2) = .ok y := by exact_mod_cast hbehind.tail.rd
      exact Except.ok.inj (hoctet.symm.trans hrd)
    exfalso
    rcases htypes.one with he | he | he | he | he <;> rcases hbool with rfl | rfl <;>
      exact absurd (hlength he) (by decide)
  · -- the tag of the BOOLEAN is taken for its octet
    obtain ⟨rest, rfl⟩ := htypes.head
    have hrd : buf.rd ((k : Int) + 3 + 2) = .ok 0x01 := by exact_mod_cast held.right.rd
    have he := Except.ok.inj (hoctet.symm.trans hrd)
    rcases hbool with rfl | rfl <;> exact absurd he (by decide)
  · have hrd : buf.rd ((k : Int) + 3) = .ok 0 := by exact_mod_cast held.left.tail.tail.tail.rd
    exact absurd (Except.ok.inj (htag.symm.trans hrd)) (by decide)
  · have hrd : buf.rd ((k : Int) + 3) = .ok 0 := by exact_mod_cast held.left.tail.tail.tail.rd
    exact absurd (Except.ok.inj (htag.symm.trans hrd)) (by decide)

/-- A BOOLEAN with a longer length leads the decoder to a filter of one byte or two, which ends in
front of the real one or before. -/
theorem types_three {v d : UInt8} {typesOut rest : List UInt8} {filter : Option SearchFilter} {j : Int}
    (htypes : Tlv 0x01 [v] typesOut) (hbool : v = 0xff ∨ v = 0) (hd : d ≠ 0x30)
    (held : Holds buf k (typesOut ++ d :: rest)) (hoctet : buf.rd ((k : Int) + 2) = .ok v)
    (hfilter : searchFilter garbage depth buf ((k : Int) + 3) = .ok (filter, j))
    (hlist : buf.rd j = .ok 0x30) : typesOut.length = 3 := by
  have hstep : ∀ {tag x : UInt8}, buf.rd ((k : Int) + 3) = .ok tag → (tag &&& 0x1f).toNat ≤ 9 →
      buf.rd ((k : Int) + 3 + 1) = .ok x → x.toNat < 128 → j = (k : Int) + 3 + 1 + 1 + x.toNat := by
    intro tag x htag hten hx hshort
    obtain ⟨len, i', f, hlength, hj, -⟩ := searchFilter_inv hfilter htag hten
    rw [findLength_octet hshort hx] at hlength
    cases hlength
    exact hj
  rcases htypes.one with rfl | rfl | rfl | rfl | rfl
  · rfl
  · have hrd : buf.rd ((k : Int) + 2) = .ok 1 := by exact_mod_cast held.left.tail.tail.rd
    have he := Except.ok.inj (hoctet.symm.trans hrd)
    rcases hbool with rfl | rfl <;> exact absurd he (by decide)
  · have hzero : buf.rd ((k : Int) + 2) = .ok 0 := by exact_mod_cast held.left.tail.tail.rd
    obtain rfl := Except.ok.inj (hoctet.symm.trans hzero)
    have htag : buf.rd ((k : Int) + 3) = .ok 1 := by exact_mod_cast held.left.tail.tail.tail.rd
    have hx : buf.rd ((k : Int) + 3 + 1) = .ok 0 := by
      exact_mod_cast held.left.tail.tail.tail.tail.rd
    have hj := hstep htag (by decide) hx (by decide)
    have hrd : buf.rd j = .ok d := by
      rw [hj]
      exact_mod_cast held.right.rd
    exact absurd (Except.ok.inj (hrd.symm.trans hlist)) hd
  · have hzero : buf.rd ((k : Int) + 2) = .ok 0 := by exact_mod_cast held.left.tail.tail.rd
    obtain rfl := Except.ok.inj (hoctet.symm.trans hzero)
    have htag : buf.rd ((k : Int) + 3) = .ok 0 := by exact_mod_cast held.left.tail.tail.tail.rd
    have hx : buf.rd ((k : Int) + 3 + 1) = .ok 1 := by
      exact_mod_cast held.left.tail.tail.tail.tail.rd
    have hj := hstep htag (by decide) hx (by decide)
    have hrd : buf.rd j = .ok d := by
      rw [hj]
      exact_mod_cast held.right.rd
    exact absurd (Except.ok.inj (hrd.symm.trans hlist)) hd
  · have htag : buf.rd ((k : Int) + 3) = .ok 0 := by exact_mod_cast held.left.tail.tail.tail.rd
    have hx : buf.rd ((k : Int) + 3 + 1) = .ok 0 := by
      exact_mod_cast held.left.tail.tail.tail.tail.rd
    have hj := hstep htag (by decide) hx (by decide)
    have hrd : buf.rd j = .ok 1 := by
      rw [hj]
      exact_mod_cast held.left.tail.tail.tail.tail.tail.rd
    exact absurd (Except.ok.inj (hrd.symm.trans hlist)) (by decide)

/-- Where the operation is read as it was encoded, its fields take three bytes each and there was
room for its filter. -/
theorem plain_of_decodeSearch (h : w.Formed) (hid : w.idOut.length = w.id.length + 2)
    (held : Holds buf k (w.opOut ++ [c])) {filter : Option SearchFilter} {j : Int}
    (hok : decodeSearch garbage depth buf ((k : Int) + 1) =
      .ok (.ok (.searchRequest ⟨w.base, schar w.scope, schar w.deref, w.size, w.time,
        schar w.typesOctet, filter, w.names⟩, j))) :
    w.Plain ∧ FilterFits w.filter w.filterOut := by
  have hlt := h.tail_lt
  rw [SearchWire.tail, List.length_append] at hlt
  obtain ⟨n, i, m, hlength, hbase, hfields⟩ := decode_fields h held
  obtain ⟨n', i', base, m', scope, deref, size, time, types, filter', last, names, hlength', hbase',
    ⟨-, hscope⟩, ⟨hderefTag, hderef⟩, ⟨hsizeTag, hsize⟩, ⟨htimeTag, htime⟩, ⟨htypesTag, htypes⟩,
    hfilter, hlist, halt⟩ := decodeSearch_inv hok
  rw [hlength] at hlength'
  cases hlength'
  rw [hbase] at hbase'
  cases hbase'
  simp only [Alt.searchRequest.injEq, SearchRequest.mk.injEq] at halt
  obtain ⟨-, hscopeEq, hderefEq, hsizeEq, htimeEq, htypesEq, -, -⟩ := halt
  obtain rfl := schar_inj hscopeEq
  obtain rfl := schar_inj hderefEq
  obtain rfl := schar_inj htypesEq
  have hsizeSmall := limit_small hsizeEq.symm
  have htimeSmall := limit_small htimeEq.symm
  rw [← schar_ofNat hsizeSmall] at hsizeEq
  rw [← schar_ofNat htimeSmall] at htimeEq
  obtain rfl := schar_inj hsizeEq
  obtain rfl := schar_inj htimeEq
  have hsizeOut := h.size
  rw [octets_small hsizeSmall] at hsizeOut
  have htimeOut := h.time
  rw [octets_small htimeSmall] at htimeOut
  rw [SearchWire.fields] at hfields
  simp only [List.append_assoc] at hfields
  have scopeThree := field_three h.scope hfields.left hscope hderefTag (by decide)
  have behindScope := hfields.right
  rw [scopeThree] at behindScope
  have derefThree := field_three h.deref behindScope.left (by exact_mod_cast hderef)
    (by exact_mod_cast hsizeTag) (by decide)
  have behindDeref := behindScope.right
  rw [derefThree] at behindDeref
  have sizeThree := field_three hsizeOut behindDeref.left (by exact_mod_cast hsize)
    (by exact_mod_cast htimeTag) (by decide)
  have behindSize := behindDeref.right
  rw [sizeThree] at behindSize
  have hbool := typesOctet_cases w
  have timeThree := time_three htimeOut h.types hbool
    (Holds.append_iff.2 ⟨behindSize.left, behindSize.right.left⟩) (by exact_mod_cast htypesTag)
    (by exact_mod_cast htypes)
  have behindTime := behindSize.right
  rw [timeThree] at behindTime
  obtain ⟨tag, content, hvalue, hten⟩ := h.filter.shape
  obtain ⟨rest, hrest⟩ := hvalue.head
  have hne : tag ≠ 0x30 := by
    rintro rfl
    exact absurd hten (by decide)
  have htypesHeld : Holds buf (m + 3 + 3 + 3 + 3)
      (w.typesOut ++ tag :: (rest ++ (w.listOut ++ [c]))) := by
    rw [SearchWire.tail, hrest] at behindTime
    simpa only [List.append_assoc, List.cons_append] using behindTime
  have typesThree := types_three h.types hbool hne htypesHeld (by exact_mod_cast htypes)
    (by exact_mod_cast hfilter) hlist
  have behindTypes := behindTime.right
  rw [typesThree] at behindTypes
  have hfilterHeld := filter_held h behindTypes
  have hfilterTag : buf.rd ((m + 3 + 3 + 3 + 3 + 3 : Nat) : Int) = .ok tag := by
    rw [hrest] at hfilterHeld
    exact hfilterHeld.rd
  obtain ⟨len, i', f, -, -, hf⟩ := searchFilter_inv hfilter (by exact_mod_cast hfilterTag) hten
  have hfits := h.filter.fits_of_ok (by omega) hfilterHeld (by exact_mod_cast hf)
  exact ⟨⟨hid, scopeThree, derefThree, sizeThree, timeThree, typesThree⟩, hfits⟩

/-- A search that came out of the decoder is what decodeSearch made of it. -/
theorem decodeFrom_search {messageId : UInt32} {i : Int} {msg : LdapMessage} {o : Outcome}
    (h : decodeFrom env buf messageId 0x63 i = .ok (o, some msg)) :
    ∃ j, decodeSearch env.garbage env.depth buf i = .ok (.ok (msg.alt, j)) := by
  obtain ⟨d, hd, h⟩ := bind_eq_ok.1 h
  cases d with
  | error out => cases h
  | ok d =>
    obtain ⟨choice, alt, j⟩ := d
    obtain ⟨⟨alt', j'⟩, hsearch, heq⟩ := andThen_eq_ok.1 hd
    obtain ⟨controls, -, h⟩ := bind_eq_ok.1 h
    cases heq
    cases h
    exact ⟨_, hsearch⟩

end

/-- A request that is read wherever it lies takes three bytes for each field. -/
theorem plain_of_understood {w : SearchWire} (h : w.Formed) (hu : w.Understood) :
    w.Plain ∧ FilterFits w.filter w.filterOut := by
  have held := Block.ofList_holds (w.out ++ [0])
  have henv : DecodeEnv.message { depth := 257 } = true := rfl
  obtain ⟨msg, hok, -, filter, halt⟩ :=
    hu _ (.ofList (w.out ++ [0])) 0 0 henv (by decide) (by decide) held
  have hid := id_short h henv held hok
  obtain ⟨k, messageId, hop, hdecode⟩ := decode_operation h hid henv held
  rw [hdecode] at hok
  obtain ⟨j, hsearch⟩ := decodeFrom_search hok
  rw [halt] at hsearch
  exact plain_of_decodeSearch h hid hop hsearch

/-! ## Which requests are read -/

/-- A search request is read as it was encoded if and only if its five fields take three bytes each,
the length of its id one octet, and the decoder has room for its filter. -/
theorem understood_iff (w : SearchWire) (h : w.Formed) :
    w.Understood ↔ w.Plain ∧ FilterFits w.filter w.filterOut := by
  constructor
  · intro hu
    exact plain_of_understood h hu
  · rintro ⟨plain, fits⟩
    exact understood_of_plain h plain fits

/-- A search below `a` for what has an attribute `a`, of at most `n` entries. -/
def searchFor (n : Nat) : SearchWire :=
  let front := tlv 0x04 [0x61] ++ ([0x0a, 1, 2] ++ ([0x0a, 1, 0] ++
    (tlv 0x02 (octets n (idSize n)) ++ ([0x02, 1, 0] ++ ([0x01, 1, 0] ++
      ([0x87, 1, 0x61] ++ [0x30, 0]))))))
  { id := [1], base := [0x61], scope := 2, deref := 0, size := n, time := 0, types := false,
    filter := .present [0x61], names := [], idOut := tlv 0x02 [1], baseOut := tlv 0x04 [0x61],
    scopeOut := [0x0a, 1, 2], derefOut := [0x0a, 1, 0], sizeOut := tlv 0x02 (octets n (idSize n)),
    timeOut := [0x02, 1, 0], typesOut := [0x01, 1, 0], filterOut := [0x87, 1, 0x61],
    namesOut := [], listOut := [0x30, 0], opOut := tlv 0x63 front,
    out := tlv 0x30 (tlv 0x02 [1] ++ tlv 0x63 front) }

theorem searchFor_formed {n : Nat} (hn : n < 2 ^ 31) : (searchFor n).Formed := by
  have hone : ∀ (tag v : UInt8), Tlv tag [v] [tag, 1, v] := fun tag v =>
    .mk (L := [1]) (.short (by simp))
  have hsize := idSize_range n
  have hocts : (octets n (idSize n)).length = idSize n := octets_length _ _
  have hlimit := tlv_length_le 0x02 (octets n (idSize n))
  have hfront : ((searchFor n).baseOut ++ (searchFor n).fields).length < 2 ^ 7 := by
    have hbase : (tlv 0x04 [0x61]).length = 3 := rfl
    simp only [searchFor, SearchWire.fields, SearchWire.tail, List.length_append, List.length_cons,
      List.length_nil, hbase]
    omega
  have hop := tlv_length_le 0x63 ((searchFor n).baseOut ++ (searchFor n).fields)
  have hid : (tlv 0x02 [1]).length = 3 := rfl
  have hmessage := tlv_length_le 0x30 ((searchFor n).idOut ++ (searchFor n).opOut)
  have hcontent : ((searchFor n).idOut ++ (searchFor n).opOut).length < 2 ^ 8 := by
    rw [List.length_append]
    exact lt_of_le_of_lt (Nat.add_le_add (le_of_eq hid) hop) (by omega)
  have hzero : octets 0 (Ber.idSize ((0 : Nat) : Int)) = [0] := octets_small (by norm_num)
  have hshort : ∀ v : UInt8, [v].length < 2 ^ 24 := fun v => by simp
  exact {
    id := tlv_isTlv (hshort 1)
    idSize := ⟨le_refl 1, show 1 ≤ 4 by norm_num⟩
    base := tlv_isTlv (hshort 0x61)
    baseSize := show 1 < 1024 by norm_num
    scope := hone 0x0a 2
    deref := hone 0x0a 0
    size := tlv_isTlv (show (octets n (Ber.idSize n)).length < 2 ^ 24 by omega)
    sizeMax := hn
    time := hzero ▸ hone 0x02 0
    timeMax := show 0 < 2 ^ 31 by norm_num
    types := hone 0x01 0
    filter := .present trivial (hone 0x87 0x61)
    names := .nil
    namesSize := by
      intro s hs
      cases hs
    list := .mk (L := [0]) (.short (show 0 < 128 by norm_num))
    op := tlv_isTlv (hfront.trans (by norm_num))
    message := tlv_isTlv (hcontent.trans (by norm_num))
    outSize := lt_of_le_of_lt hmessage (by omega) }

theorem understood_iff_searchFor :
    (searchFor 100).Understood ↔
      (searchFor 100).Plain ∧ FilterFits (searchFor 100).filter (searchFor 100).filterOut :=
  understood_iff (searchFor 100) (searchFor_formed (by norm_num))

/-- The first limit that takes two octets: its second is looked at for the tag of the next field. -/
theorem large_limit_rejected :
    (searchFor 128).Formed ∧ ¬ (searchFor 128).Understood ∧
      ldapDecodeRequest { depth := 257 }
          (frameAt (.ofList ((searchFor 128).out ++ [0])) 0 (searchFor 128).out.length) =
        .ok (decodeError "ldapsearch: malformat timeLimit", none) := by
  refine ⟨searchFor_formed (by norm_num), fun hu => ?_, rfl⟩
  have hplain := (plain_of_understood (searchFor_formed (by norm_num)) hu).1
  exact absurd hplain.size (by decide)

end CassandraApi.Ldap
