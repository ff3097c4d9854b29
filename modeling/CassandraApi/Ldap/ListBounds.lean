/-
# `Ldap.ListBounds` — the room that lists of attributes and of modifications need

LDAP_gen_ber_attrlist and LDAP_gen_ber_modlist ask for BER_BUFFER bytes once, before
the first node, and collect the values of each node in an array of BER_BUFFER bytes.
Neither is looked at again: a list that is larger is written over the end, and none is
refused.  So a call keeps inside its buffers just when the list fits (`genBerList_eq_ok`);
an attribute list with a node that has no values is not walked to its end either.
-/
import CassandraApi.Ldap.AttrList

namespace CassandraApi.Ldap

open C Ber

/-! ## Building a list of modifications -/

/-- LBER_modlist_add -/
def lberModlistAdd (modlist : Option (List Mod)) (operation : Int) (name : List UInt8)
    (vallist : List (List UInt8)) : RetCode × Option (List Mod) :=
  match modlist with
  | none => (.errEncode, none)
  | some mods => (.ok, some (mods ++ [⟨operation, name.take (ldapMaxAttrNameSize - 1), vallist⟩]))

/-- The modifications, added one after another to an empty list. -/
def addMods (mods : List Mod) : Option (List Mod) :=
  mods.foldl
    (fun l m => (lberModlistAdd l m.operation m.name ((addValues m.vals).getD [])).2) (some [])

/-- What every node that is added has, the nodes of the list have. -/
theorem foldl_added {ν α : Type} {add : Option (List ν) → α → Option (List ν)} {P : ν → Prop}
    (hadd : ∀ l x, ∃ n, add (some l) x = some (l ++ [n]) ∧ P n) (xs : List α) {l : List ν}
    (hl : ∀ n ∈ l, P n) : ∀ n ∈ (xs.foldl add (some l)).getD [], P n := by
  induction xs generalizing l with
  | nil => exact hl
  | cons x xs ih =>
    obtain ⟨n, hn, hp⟩ := hadd l x
    rw [List.foldl_cons, hn]
    refine ih fun m hm => ?_
    rcases List.mem_append.1 hm with hm | hm
    · exact hl m hm
    · rwa [List.mem_singleton.1 hm]

theorem cut_name (name : List UInt8) :
    (name.take (ldapMaxAttrNameSize - 1)).length < ldapMaxAttrNameSize :=
  lt_of_le_of_lt (List.length_take_le _ _) (by decide)

theorem addAttrs_name (attrs : List Attr) :
    ∀ a ∈ (addAttrs attrs).getD [], a.name.length < ldapMaxAttrNameSize :=
  foldl_added (fun _ a => ⟨_, rfl, cut_name a.name⟩) attrs (by simp)

theorem addMods_name (mods : List Mod) :
    ∀ m ∈ (addMods mods).getD [], m.name.length < ldapMaxAttrNameSize :=
  foldl_added (fun _ m => ⟨_, rfl, cut_name m.name⟩) mods (by simp)

/-! ## What a list needs -/

/-- The room behind what the BER holds, once BER_BUFFER bytes have been asked for. -/
def reserved (alloc : Bool) : Option BER → Nat
  | none => if alloc then berBuffer else 0
  | some b =>
      (if b.berval.length + berBuffer > b.size ∧ alloc then
        adjustSize (b.berval.length + berBuffer) berBuffer
      else b.size) - b.berval.length

/-- The values of each node fit the array for them, and the whole list the BER. -/
structure ListFits {ν : Type} (content : ν → List UInt8) (vals : ν → List (List UInt8))
    (alloc : Bool) (ber : Option BER) (nodes : List ν) : Prop where
  values : ∀ x ∈ nodes, (valsOctets (vals x)).length ≤ berBuffer
  room : (itemOctets content nodes).length ≤ reserved alloc ber

/-- A call that comes back, having written inside its buffers only, and with an error when the list
does not fit. -/
def Bounded {ν : Type} (result : Except Fault (RetCode × Option BER × List ν)) (fits : Prop) :
    Prop :=
  ∃ code ber left, result = .ok (code, ber, left) ∧ (¬ fits → code ≠ .ok)

/-! ## One node -/

theorem encodeVals_stops (vals : List (List UInt8)) {buff : List UInt8} (r : Nat)
    (hbuff : buff.length ≤ berBuffer)
    (h : berBuffer < buff.length + (valsOctets vals).length) :
    ∃ e, encodeVals vals buff r = .error e := by
  induction vals generalizing buff r with
  | nil =>
    simp only [valsOctets, List.flatMap_nil, List.length_nil] at h
    omega
  | cons v vs ih =>
    have hsplit : valsOctets (v :: vs) = tlv 0x04 v ++ valsOctets vs := rfl
    rw [hsplit, List.length_append] at h
    rw [encodeVals, insertLength_eq_ite]
    by_cases hsmall : v.length < 2 ^ 24
    · rw [if_pos hsmall, ok_bind]
      change ∃ e, (if (buff ++ tlv 0x04 v).length ≤ berBuffer then
        encodeVals vs (buff ++ tlv 0x04 v) (scratchAfter v.length r) else _) = _
      by_cases hroom : (buff ++ tlv 0x04 v).length ≤ berBuffer
      · rw [if_pos hroom]
        refine ih _ hroom ?_
        rw [List.length_append]
        omega
      · rw [if_neg hroom]
        exact ⟨.overrun, rfl⟩
    · rw [if_neg hsmall]
      exact ⟨.stuck, rfl⟩

/-- A node whose values do not fit, or of an attribute list that has none. -/
theorem encodeAttr_stops {a : Attr} (hname : a.name.length < ldapMaxAttrNameSize)
    (h : ¬ (a.vals ≠ [] ∧ (valsOctets a.vals).length ≤ berBuffer)) (ber : BER) (r : Nat) :
    ∃ e, encodeAttr a ber r = .error e := by
  simp only [encodeAttr, encodeName_eq hname, ok_bind]
  by_cases hsome : a.vals = []
  · rw [if_pos hsome]
    exact ⟨.null, rfl⟩
  · rw [if_neg hsome]
    obtain ⟨e, he⟩ := encodeVals_stops a.vals (scratchAfter a.name.length r)
      (show ([] : List UInt8).length ≤ berBuffer from Nat.zero_le _) (by
        rw [List.length_nil, Nat.zero_add]
        exact not_le.1 fun hle => h ⟨hsome, hle⟩)
    exact ⟨e, by rw [he]; rfl⟩

theorem encodeMod_stops {m : Mod} (hname : m.name.length < ldapMaxAttrNameSize)
    (h : ¬ (valsOctets m.vals).length ≤ berBuffer) (ber : BER) (r : Nat) :
    ∃ e, encodeMod m ber r = .error e := by
  obtain ⟨e, he⟩ := encodeVals_stops m.vals (scratchAfter m.name.length r)
    (show ([] : List UInt8).length ≤ berBuffer from Nat.zero_le _) (by
      rw [List.length_nil, Nat.zero_add]
      exact not_le.1 h)
  simp only [encodeMod, encodeName_eq hname, ok_bind, he]
  exact ⟨e, rfl⟩

/-! ## All the nodes -/

section Nodes

variable {ν : Type} {turn : ν → BER → Nat → Except Fault (BER × Nat)}
  {content : ν → List UInt8} {good : ν → Prop} {nodes : List ν}

/-- Nodes that come to an append each come to one. -/
theorem encodeNodes_appends (appends : ∀ x ∈ nodes, Appends turn content x) (some : nodes ≠ [])
    (ber : BER) {r : Nat} (hr : r ≤ 1) :
    encodeNodes turn nodes ber r = ber.append (itemOctets content nodes) := by
  induction nodes generalizing ber r with
  | nil => exact absurd rfl some
  | cons x xs ih =>
    obtain ⟨n, hn, hturn⟩ := appends x List.mem_cons_self ber r hr
    have hsplit : itemOctets content (x :: xs) = tlv 0x30 (content x) ++ itemOctets content xs := rfl
    have hrest : ∀ b : BER, encodeNodes turn xs b n =
        if xs = [] then pure b else b.append (itemOctets content xs) := by
      intro b
      split
      · rename_i hnil
        rw [hnil]
        rfl
      · rename_i hsome
        exact ih (fun y hy => appends y (List.mem_cons_of_mem _ hy)) hsome b hn
    rw [encodeNodes, hturn, hsplit]
    by_cases hnil : xs = []
    · subst hnil
      rw [itemOctets, List.flatMap_nil, List.append_nil]
      cases hb : ber.append (tlv 0x30 (content x)) <;> rfl
    · have hpure := BER.append_then ber (tlv 0x30 (content x)) (itemOctets content xs) pure
      have hright : ∀ e : Except Fault BER, e >>= pure = e := fun e => by cases e <;> rfl
      rw [hright] at hpure
      rw [← hpure]
      cases hb : ber.append (tlv 0x30 (content x)) with
      | error e => rfl
      | ok b =>
        simp only [ok_bind, pure_eq_ok, hrest, if_neg hnil]
        exact (hright _).symm

/-- The first node that is not good stops the walk, unless something does before. -/
theorem encodeNodes_stops (appends : ∀ x ∈ nodes, good x → Appends turn content x)
    (stops : ∀ x ∈ nodes, ¬ good x → ∀ ber r, ∃ e, turn x ber r = .error e)
    (bad : ¬ ∀ x ∈ nodes, good x) (ber : BER) {r : Nat} (hr : r ≤ 1) :
    ∃ e, encodeNodes turn nodes ber r = .error e := by
  induction nodes generalizing ber r with
  | nil => exact absurd (by simp) bad
  | cons x xs ih =>
    rw [encodeNodes]
    by_cases hgood : good x
    · have hbad : ¬ ∀ y ∈ xs, good y := by
        intro hall
        refine bad fun y hy => ?_
        rcases List.mem_cons.1 hy with rfl | hy
        · exact hgood
        · exact hall y hy
      obtain ⟨n, hn, hturn⟩ := appends x List.mem_cons_self hgood ber r hr
      rw [hturn]
      cases hb : ber.append (tlv 0x30 (content x)) with
      | error e => exact ⟨e, rfl⟩
      | ok b =>
        obtain ⟨e, he⟩ := ih (fun y hy => appends y (List.mem_cons_of_mem _ hy))
          (fun y hy => stops y (List.mem_cons_of_mem _ hy)) hbad b hn
        exact ⟨e, by simpa only [ok_bind, pure_eq_ok] using he⟩
    · obtain ⟨e, he⟩ := stops x List.mem_cons_self hgood ber r
      exact ⟨e, by rw [he, error_bind]⟩

theorem append_eq_ok_iff {b : BER} {xs : List UInt8} :
    (∃ b', b.append xs = .ok b') ↔ b.berval.length + xs.length ≤ b.size := by
  unfold BER.append
  split
  · rename_i hle
    exact ⟨fun _ => hle, fun _ => ⟨_, rfl⟩⟩
  · rename_i hlt
    exact ⟨fun ⟨_, h⟩ => (by cases h), fun h => absurd h hlt⟩

/-- Where there is something to append, it fits what is reserved or there is no such BER. -/
theorem reserved_iff {alloc : Bool} {ber : Option BER} {xs : List UInt8} (hpos : 0 < xs.length) :
    (∃ b b', berAllocBuffer alloc ber berBuffer = some b ∧ b.append xs = .ok b') ↔
      xs.length ≤ reserved alloc ber := by
  have hfull : adjustSize berBuffer berBuffer = berBuffer := by decide
  cases ber with
  | none =>
    cases alloc with
    | false => simp [berAllocBuffer, reserved, List.length_pos_iff.1 hpos]
    | true =>
      simp only [berAllocBuffer, reserved, if_true, hfull, Option.some.injEq, exists_and_left,
        exists_eq_left', append_eq_ok_iff, List.length_nil, Nat.zero_add]
  | some b =>
    simp only [berAllocBuffer, reserved]
    split
    · simp only [Option.some.injEq, exists_and_left, exists_eq_left', append_eq_ok_iff]
      omega
    · simp only [Option.some.injEq, exists_and_left, exists_eq_left', append_eq_ok_iff]
      omega

/-- A call comes back when there is nothing to do or no memory to do it with, and otherwise when
every node is good and the list fits what is reserved. -/
theorem genBerList_eq_ok (appends : ∀ x ∈ nodes, good x → Appends turn content x)
    (stops : ∀ x ∈ nodes, ¬ good x → ∀ ber r, ∃ e, turn x ber r = .error e)
    (buff alloc : Bool) (ber : Option BER) (freeFlag : Bool) :
    (∃ r, genBerList turn buff alloc nodes ber freeFlag = .ok r) ↔
      nodes = [] ∨ buff = false ∨
        (∀ x ∈ nodes, good x) ∧ (itemOctets content nodes).length ≤ reserved alloc ber := by
  unfold genBerList
  by_cases hnil : nodes = []
  · subst hnil
    simp
  · have hempty : nodes.isEmpty = false := List.isEmpty_eq_false_iff.2 hnil
    have hpos : 0 < (itemOctets content nodes).length :=
      lt_of_lt_of_le (List.length_pos_iff.2 hnil) (length_le_items nodes)
    simp only [hempty, Bool.false_eq_true, if_false, hnil, false_or]
    cases buff with
    | false => simp
    | true =>
      simp only [not_true_eq_false, if_false, Bool.true_eq_false, false_or]
      rw [← reserved_iff hpos]
      cases hber : berAllocBuffer alloc ber berBuffer with
      | none => simp
      | some b =>
        simp only [Option.some.injEq, exists_and_left, exists_eq_left']
        by_cases hgood : ∀ x ∈ nodes, good x
        · rw [encodeNodes_appends (fun x hx => appends x hx (hgood x hx)) hnil b (Nat.zero_le 1)]
          cases hb : b.append (itemOctets content nodes) with
          | error e => simp
          | ok b' => simpa using hgood
        · obtain ⟨e, he⟩ := encodeNodes_stops appends stops hgood b (Nat.zero_le 1)
          simp [he, hgood]

/-- So it keeps to its promise just when there is nothing to do, no memory, or room for all. -/
theorem bounded_iff (good : ν → Prop) {vals : ν → List (List UInt8)}
    (appends : ∀ x ∈ nodes, good x → Appends turn content x)
    (stops : ∀ x ∈ nodes, ¬ good x → ∀ ber r, ∃ e, turn x ber r = .error e)
    (hvals : ∀ x, good x → (valsOctets (vals x)).length ≤ berBuffer)
    (buff alloc : Bool) (ber : Option BER) (freeFlag : Bool) :
    Bounded (genBerList turn buff alloc nodes ber freeFlag)
        (ListFits content vals alloc ber nodes) ↔
      nodes = [] ∨ buff = false ∨
        (∀ x ∈ nodes, good x) ∧ (itemOctets content nodes).length ≤ reserved alloc ber := by
  rw [← genBerList_eq_ok appends stops buff alloc ber freeFlag]
  constructor
  · rintro ⟨code, ber', left, hrun, -⟩
    exact ⟨_, hrun⟩
  · rintro ⟨⟨code, ber', left⟩, hrun⟩
    refine ⟨code, ber', left, hrun, fun misfit => ?_⟩
    rcases (genBerList_eq_ok appends stops buff alloc ber freeFlag).1 ⟨_, hrun⟩ with
      rfl | rfl | ⟨hgood, hroom⟩
    · cases hrun
      decide
    · unfold genBerList at hrun
      split at hrun
      · cases hrun
        decide
      · cases hrun
        decide
    · exact absurd ⟨fun x hx => hvals x (hgood x hx), hroom⟩ misfit

end Nodes

/-! ## The two generators -/

theorem attrlist_bounded (attrs : List Attr) (buff alloc : Bool) (ber : Option BER)
    (freeFlag : Bool) :
    Bounded (ldapGenBerAttrlist buff alloc ((addAttrs attrs).getD []) ber freeFlag)
        (ListFits Attr.octets Attr.vals alloc ber ((addAttrs attrs).getD [])) ↔
      (addAttrs attrs).getD [] = [] ∨ buff = false ∨
        (∀ a ∈ (addAttrs attrs).getD [], a.vals ≠ []) ∧
          ListFits Attr.octets Attr.vals alloc ber ((addAttrs attrs).getD []) := by
  have hname := addAttrs_name attrs
  refine (bounded_iff (fun a : Attr => a.vals ≠ [] ∧ (valsOctets a.vals).length ≤ berBuffer)
    ?_ ?_ ?_ buff alloc ber freeFlag).trans ?_
  · exact fun a ha hgood => encodeAttr_appends ⟨hname a ha, hgood.2⟩ hgood.1
  · exact fun a ha hbad => encodeAttr_stops (hname a ha) hbad
  · exact fun a hgood => hgood.2
  · refine or_congr_right (or_congr_right ⟨fun h => ?_, fun h => ?_⟩)
    · exact ⟨fun a ha => (h.1 a ha).1, fun a ha => (h.1 a ha).2, h.2⟩
    · exact ⟨fun a ha => ⟨h.1 a ha, h.2.values a ha⟩, h.2.room⟩

theorem modlist_bounded (mods : List Mod) (buff alloc : Bool) (ber : Option BER)
    (freeFlag : Bool) :
    Bounded (ldapGenBerModlist buff alloc ((addMods mods).getD []) ber freeFlag)
        (ListFits Mod.octets Mod.vals alloc ber ((addMods mods).getD [])) ↔
      (addMods mods).getD [] = [] ∨ buff = false ∨
        ListFits Mod.octets Mod.vals alloc ber ((addMods mods).getD []) := by
  have hname := addMods_name mods
  refine (bounded_iff (fun m : Mod => (valsOctets m.vals).length ≤ berBuffer)
    ?_ ?_ ?_ buff alloc ber freeFlag).trans ?_
  · exact fun m hm hgood => encodeMod_appends ⟨hname m hm, hgood⟩
  · exact fun m hm hbad => encodeMod_stops (hname m hm) hbad
  · exact fun m hgood => hgood
  · exact or_congr_right (or_congr_right ⟨fun h => ⟨h.1, h.2⟩, fun h => ⟨h.values, h.room⟩⟩)

/-- Lists that were built come through the two generators without a byte written outside, and with
an error where they do not fit, just when they do fit. -/
theorem list_generators_bounded_iff (buff alloc : Bool) (ber : Option BER) (freeFlag : Bool) :
    (∀ attrs : List Attr,
      Bounded (ldapGenBerAttrlist buff alloc ((addAttrs attrs).getD []) ber freeFlag)
          (ListFits Attr.octets Attr.vals alloc ber ((addAttrs attrs).getD [])) ↔
        (addAttrs attrs).getD [] = [] ∨ buff = false ∨
          (∀ a ∈ (addAttrs attrs).getD [], a.vals ≠ []) ∧
            ListFits Attr.octets Attr.vals alloc ber ((addAttrs attrs).getD [])) ∧
    ∀ mods : List Mod,
      Bounded (ldapGenBerModlist buff alloc ((addMods mods).getD []) ber freeFlag)
          (ListFits Mod.octets Mod.vals alloc ber ((addMods mods).getD [])) ↔
        (addMods mods).getD [] = [] ∨ buff = false ∨
          ListFits Mod.octets Mod.vals alloc ber ((addMods mods).getD []) :=
  ⟨fun attrs => attrlist_bounded attrs buff alloc ber freeFlag,
    fun mods => modlist_bounded mods buff alloc ber freeFlag⟩

theorem valsOctets_replicate (n : Nat) (v : List UInt8) :
    (valsOctets (List.replicate n v)).length = n * (tlv 0x04 v).length := by
  rw [valsOctets, List.length_flatMap, List.map_replicate, List.sum_replicate, smul_eq_mul]

/-- Seventeen values of 8191 bytes. -/
def manyValues : List (List UInt8) := List.replicate 17 (List.replicate 8191 97)

/-- An attribute with no values, and a modification with more values than the array takes. -/
theorem lists_overrun :
    ldapGenBerAttrlist true true ((addAttrs [⟨ascii "mail", []⟩]).getD []) none false =
      .error .null ∧
    ¬ Bounded
      (ldapGenBerModlist true true ((addMods [⟨0, ascii "mail", manyValues⟩]).getD []) none false)
      (ListFits Mod.octets Mod.vals true none
        ((addMods [⟨0, ascii "mail", manyValues⟩]).getD [])) := by
  refine ⟨rfl, fun h => ?_⟩
  have hvalues : addValues manyValues = some manyValues := by
    refine addValues_eq fun v hv => ?_
    rw [List.eq_of_mem_replicate hv]
    exact ⟨by rw [List.length_replicate]; decide,
      fun hmem => absurd (List.eq_of_mem_replicate hmem) (by decide)⟩
  have hlist : (addMods [⟨0, ascii "mail", manyValues⟩]).getD [] =
      [⟨0, ascii "mail", manyValues⟩] := by
    simp only [addMods, List.foldl_cons, List.foldl_nil, hvalues]
    rfl
  have hlong : (valsOctets manyValues).length = 139315 := by
    rw [manyValues, valsOctets_replicate, tlv_length, List.length_replicate]
    decide
  rcases (modlist_bounded _ true true none false).1 h with h | h | h
  · rw [hlist] at h
    cases h
  · cases h
  · have hfit := h.values ⟨0, ascii "mail", manyValues⟩ (by rw [hlist]; exact List.mem_singleton_self _)
    rw [hlong] at hfit
    exact absurd hfit (by decide)

end CassandraApi.Ldap
