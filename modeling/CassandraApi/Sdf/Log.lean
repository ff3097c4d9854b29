/-
# `Sdf.Log` — the log levels of sdflog.c

SDF_set_level_string reads names in any letter case, each followed by one
delimiter or the end:

    level  =  space* (name delimiter)* name delimiter?

It tries the names in a fixed order and takes the first that the string starts
with.  As WARN comes before WARNNING, the second is read as WARN, and what is
left of it is no delimiter (`level_string_iff`).
-/
import CassandraApi.C.CString

namespace CassandraApi.Sdf

open C

/-! ## SDF_set_level_string -/

/-- The names, in the order in which they are tried. -/
inductive Level where
  | none
  | fatal
  | error
  | warn
  | warnning
  | info
  | debug
  | all
  deriving DecidableEq

namespace Level

def tried : List Level := [.none, .fatal, .error, .warn, .warnning, .info, .debug, .all]

def name : Level → List UInt8
  | .none => ascii "NONE"
  | .fatal => ascii "FATAL"
  | .error => ascii "ERROR"
  | .warn => ascii "WARN"
  | .warnning => ascii "WARNNING"
  | .info => ascii "INFO"
  | .debug => ascii "DEBUG"
  | .all => ascii "ALL"

/-- SDFLOG_LEVEL_NONE … SDFLOG_LEVEL_ALL -/
def value : Level → Nat
  | .none => 0
  | .fatal => 1
  | .error => 2
  | .warn => 4
  | .warnning => 4
  | .info => 8
  | .debug => 16
  | .all => (16 <<< 1) - 1

end Level

/-- `*level`, with the NUL behind the string. -/
def deref (level : List UInt8) : UInt8 := level.headD 0

/-- _TOU -/
def toU (c : UInt8) : UInt8 := if 0x61 ≤ c ∧ c ≤ 0x7a then c - 0x61 + 0x41 else c

/-- `memXcmp(m1, M2, len)`, with `M2` as the `len` bytes.  Behind the NUL of `m1` nothing is
read, as no byte of `M2` is NUL. -/
def memXcmp (m1 : List UInt8) : List UInt8 → Int
  | [] => 0
  | M :: M2 =>
      if deref m1 ≠ M ∧ toU (deref m1) ≠ M then -1 else memXcmp m1.tail M2

def isWhite (c : UInt8) : Bool := c = 0x20 || c = 0x09 || c = 0x0a || c = 0x0d

/-- _SKIP_WHITESPACE -/
def skipWhitespace (level : List UInt8) : List UInt8 := level.dropWhile isWhite

/-- _IS_DELIMITER: what is behind the delimiter. -/
def isDelimiter (level : List UInt8) : Option (List UInt8) :=
  if deref level = 0x20 ∨ deref level = 0x2c ∨ deref level = 0x2b ∨ deref level = 0x7c then
    some level.tail
  else if deref level = 0 then some level
  else none

/-- `while (*level)`: what is returned, and `lev`.  A turn takes three bytes at least. -/
def levelLoop : Nat → List UInt8 → Nat → Option (Int × Nat)
  | 0, _, _ => none
  | turns + 1, level, lev =>
      if deref level = 0 then some (0, lev)
      else
        match Level.tried.find? (fun n => memXcmp level n.name == 0) with
        | none => some (-3, lev)
        | some n =>
            match isDelimiter (level.drop n.name.length) with
            | none => some (-2, lev ||| n.value)
            | some level =>
                levelLoop turns level (if n = .none then Level.none.value else lev ||| n.value)

/-- SDF_set_level_string: what it returns, and `log_level`. -/
def sdfSetLevelString (level : List UInt8) (logLevel : Nat) : Option (Int × Nat) :=
  let level := skipWhitespace level
  if deref level = 0 then some (-1, logLevel)
  else
    (levelLoop (level.length + 1) level Level.none.value).map fun (ret, lev) =>
      (ret, if ret = 0 then lev else logLevel)

/-! ## The grammar -/

/-- The upper-case letter `C` or its lower-case one. -/
def AnyCase (c C : UInt8) : Prop := c = C ∨ c = C + 0x20

/-- `w` is the name of `n` in any letter case. -/
def Spells (w : List UInt8) (n : Level) : Prop := List.Forall₂ AnyCase w n.name

/-- Names, each followed by the end of the string or by one delimiter. -/
inductive Names : List UInt8 → List Level → Prop
  | last {w : List UInt8} {n : Level} : Spells w n → Names w [n]
  | delimited {w : List UInt8} {n : Level} {d : UInt8} : Spells w n → d ∈ ascii " ,+|" →
      Names (w ++ [d]) [n]
  | more {w : List UInt8} {n : Level} {d : UInt8} {level : List UInt8} {ns : List Level} :
      Spells w n → d ∈ ascii " ,+|" → Names level ns → Names (w ++ d :: level) (n :: ns)

/-- Names, behind white space. -/
def Accepted (level : List UInt8) (ns : List Level) : Prop :=
  ∃ front rest, level = front ++ rest ∧ (∀ c ∈ front, c ∈ ascii " \t\n\r") ∧ Names rest ns

/-- The union of the levels named after the last NONE. -/
def union (ns : List Level) : Nat :=
  (ns.reverse.takeWhile (· ≠ .none)).foldr (fun n lev => lev ||| n.value) 0

/-- What is returned says whether the string is accepted; log_level becomes the union if it is,
and stays as it was otherwise. -/
def ParsedAs (level : List UInt8) (logLevel : Nat) (ret : Int) (logLevel' : Nat) : Prop :=
  (ret = 0 ↔ ∃ ns, Accepted level ns) ∧ (∀ ns, Accepted level ns → logLevel' = union ns) ∧
    ((¬ ∃ ns, Accepted level ns) → logLevel' = logLevel)

/-! ## Letters -/

/-- An upper-case letter. -/
def Upper (C : UInt8) : Prop := 0x41 ≤ C ∧ C ≤ 0x5a

instance (C : UInt8) : Decidable (Upper C) := inferInstanceAs (Decidable (_ ∧ _))

theorem Level.upper (n : Level) : ∀ C ∈ n.name, Upper C := by
  cases n <;> simp [Level.name, ascii, Upper]

theorem toU_eq_iff {c C : UInt8} (h : Upper C) : toU c = C ↔ AnyCase c C := by
  obtain ⟨hA, hZ⟩ := h
  have h20 : (0x20 : UInt8).toNat = 32 := rfl
  have h41 : (0x41 : UInt8).toNat = 65 := rfl
  have h5a : (0x5a : UInt8).toNat = 90 := rfl
  have h61 : (0x61 : UInt8).toNat = 97 := rfl
  have h7a : (0x7a : UInt8).toNat = 122 := rfl
  have hc : c.toNat < 256 := c.toNat_lt
  simp only [toU, AnyCase, UInt8.le_iff_toNat_le, UInt8.ext_iff] at hA hZ ⊢
  split_ifs with hlow
  · rw [UInt8.toNat_add, UInt8.toNat_sub, UInt8.toNat_add]
    omega
  · rw [UInt8.toNat_add]
    omega

theorem spells_iff {w : List UInt8} {n : Level} : Spells w n ↔ w.map toU = n.name := by
  have hforall : ∀ S : List UInt8, (∀ C ∈ S, Upper C) →
      (List.Forall₂ AnyCase w S ↔ w.map toU = S) := by
    intro S hS
    induction w generalizing S with
    | nil => simp [eq_comm]
    | cons c w ih =>
      cases S with
      | nil => simp
      | cons C S =>
        obtain ⟨hC, hS⟩ := List.forall_mem_cons.1 hS
        rw [List.forall₂_cons, List.map_cons, List.cons.injEq, toU_eq_iff hC, ih S hS]
  exact hforall n.name n.upper

/-- A name is found if and only if the string starts with it, in some letter case. -/
theorem memXcmp_eq_zero_iff {S m1 : List UInt8} (hS : ∀ C ∈ S, Upper C) :
    memXcmp m1 S = 0 ↔ S <+: m1.map toU := by
  induction S generalizing m1 with
  | nil => exact iff_of_true rfl List.nil_prefix
  | cons M S ih =>
    obtain ⟨hM, hS⟩ := List.forall_mem_cons.1 hS
    rw [memXcmp]
    cases m1 with
    | nil =>
      have hne : M ≠ 0 := by
        rintro rfl
        exact absurd hM.1 (by decide)
      rw [if_pos ⟨hne.symm, hne.symm⟩]
      simp
    | cons c m1 =>
      have hsame : c = M → toU c = M := fun h => (toU_eq_iff hM).2 (.inl h)
      rw [List.map_cons, List.cons_prefix_cons, ← ih hS]
      change (if c ≠ M ∧ toU c ≠ M then (-1 : Int) else memXcmp m1 S) = 0 ↔ _
      split_ifs with h
      · exact iff_of_false (by decide) fun h' => h.2 h'.1.symm
      · have hto : M = toU c := by
          by_contra hne
          exact h ⟨fun hc => hne (hsame hc).symm, fun hc => hne hc.symm⟩
        exact (and_iff_right hto).symm

/-! ## What follows a name -/

/-- The end of the string, or a delimiter and what is behind it. -/
inductive Ends : List UInt8 → List UInt8 → Prop
  | here : Ends [] []
  | delimiter {d : UInt8} {level : List UInt8} : d ∈ ascii " ,+|" → Ends (d :: level) level

theorem isDelimiter_eq_some_iff {rest level : List UInt8} (h0 : 0 ∉ rest) :
    isDelimiter rest = some level ↔ Ends rest level := by
  cases rest with
  | nil =>
    change some ([] : List UInt8) = some level ↔ _
    constructor
    · rintro ⟨⟩
      exact .here
    · rintro ⟨⟩
      rfl
  | cons d rest =>
    have hd : (d = 0x20 ∨ d = 0x2c ∨ d = 0x2b ∨ d = 0x7c) ↔ d ∈ ascii " ,+|" := by simp [ascii]
    have hne : d ≠ 0 := fun h => h0 (h ▸ List.mem_cons_self)
    change (if d = 0x20 ∨ d = 0x2c ∨ d = 0x2b ∨ d = 0x7c then some rest
      else if d = 0 then some (d :: rest) else none) = some level ↔ _
    rw [if_neg hne]
    constructor
    · intro h
      split_ifs at h with hdelim
      cases h
      exact .delimiter (hd.1 hdelim)
    · rintro (_ | hdelim)
      rw [if_pos (hd.2 hdelim)]

/-- What follows a name does not make another name of it. -/
theorem Ends.prefix_iff {rest left S N : List UInt8} (h : Ends rest left)
    (hS : ∀ C ∈ S, Upper C) : S <+: N ++ rest.map toU ↔ S <+: N := by
  refine ⟨fun hpre => ?_, fun hpre => hpre.trans (List.prefix_append ..)⟩
  rcases List.prefix_or_prefix_of_prefix hpre (List.prefix_append N _) with hshort | ⟨T, rfl⟩
  · exact hshort
  · rw [List.prefix_append_right_inj] at hpre
    cases h with
    | here =>
      rw [List.map_nil, List.prefix_nil] at hpre
      rw [hpre, List.append_nil]
    | @delimiter d level hd =>
      cases T with
      | nil => rw [List.append_nil]
      | cons C T =>
        rw [List.map_cons, List.cons_prefix_cons] at hpre
        have hnot : ∀ d ∈ ascii " ,+|", ¬ Upper (toU d) := by simp [ascii, toU, Upper]
        exact absurd (hpre.1 ▸ hS C (by simp)) (hnot d hd)

/-- The name that is found where `n` is written. -/
def Level.found (n : Level) : Level := if n = .warnning then .warn else n

theorem Level.find_prefix (n : Level) :
    Level.tried.find? (fun m => m.name.isPrefixOf n.name) = some n.found := by
  cases n <;> decide

variable {w rest left : List UInt8} {n : Level}

theorem find_tried (hw : Spells w n) (hends : Ends rest left) :
    Level.tried.find? (fun m => memXcmp (w ++ rest) m.name == 0) = some n.found := by
  rw [← n.find_prefix]
  congr 1
  funext m
  rw [Bool.eq_iff_iff, beq_iff_eq, memXcmp_eq_zero_iff m.upper, List.isPrefixOf_iff_prefix,
    List.map_append, spells_iff.1 hw, hends.prefix_iff m.upper]

theorem Spells.length (hw : Spells w n) : w.length = n.name.length := List.Forall₂.length_eq hw

theorem Level.name_pos (n : Level) : 0 < n.name.length := by
  cases n <;> decide

/-- What is left of WARNNING behind WARN does not start with a delimiter. -/
theorem isDelimiter_warnning (hw : Spells w .warnning) (rest : List UInt8) :
    isDelimiter ((w ++ rest).drop Level.warn.name.length) = none := by
  have hlen : Level.warn.name.length ≤ w.length := by
    rw [hw.length]
    decide
  have hdrop : List.Forall₂ AnyCase (w.drop Level.warn.name.length) (ascii "NING") :=
    List.forall₂_drop _ hw
  rw [List.drop_append_of_le_length hlen]
  revert hdrop
  generalize w.drop Level.warn.name.length = left
  have hning : ascii "NING" = 0x4e :: ascii "ING" := by decide
  rw [hning]
  intro hdrop
  cases hdrop with
  | cons hN hing =>
    rcases hN with rfl | rfl
    · rfl
    · rfl

theorem Ends.length_le (h : Ends rest left) : left.length ≤ rest.length := by
  cases h with
  | here => exact le_rfl
  | delimiter => exact Nat.le_succ _

theorem Ends.not_mem (h : Ends rest left) (h0 : 0 ∉ rest) : 0 ∉ left := by
  cases h with
  | here => exact h0
  | delimiter => exact fun hmem => h0 (List.mem_cons_of_mem _ hmem)

theorem deref_ne_zero {level : List UInt8} (hne : level ≠ []) (h0 : 0 ∉ level) :
    deref level ≠ 0 := by
  cases level with
  | nil => exact absurd rfl hne
  | cons c level => exact fun h => h0 (h ▸ List.mem_cons_self)

theorem levelLoop_nil {turns : Nat} (hturns : 0 < turns) (lev : Nat) :
    levelLoop turns [] lev = some (0, lev) := by
  obtain ⟨turns, rfl⟩ := Nat.exists_eq_succ_of_ne_zero hturns.ne'
  rfl

/-- A turn of the loop. -/
theorem levelLoop_name (hw : Spells w n) (hends : Ends rest left) (h0 : 0 ∉ w ++ rest)
    (turns lev : Nat) : levelLoop (turns + 1) (w ++ rest) lev =
      if n = .warnning then some (-2, lev ||| n.value)
      else levelLoop turns left (if n = .none then 0 else lev ||| n.value) := by
  have hne : w ++ rest ≠ [] := by
    have := n.name_pos
    rw [← hw.length] at this
    exact List.append_ne_nil_of_left_ne_nil (List.ne_nil_of_length_pos this) _
  rw [levelLoop, if_neg (deref_ne_zero hne h0), find_tried hw hends]
  by_cases hn : n = .warnning
  · subst hn
    have hnone := isDelimiter_warnning hw rest
    simp only [Level.found, if_true, hnone]
    rfl
  · have hdrop : (w ++ rest).drop n.name.length = rest := by rw [← hw.length, List.drop_left]
    have hsome : isDelimiter rest = some left :=
      (isDelimiter_eq_some_iff fun h => h0 (List.mem_append_right _ h)).2 hends
    simp only [Level.found, if_neg hn, hdrop, hsome]
    rfl

/-! ## The loop and the grammar -/

/-- A string of names, by the first of them. -/
theorem Names.first {level : List UInt8} {ns : List Level} (h : Names level ns) :
    ∃ w n rest left ns', level = w ++ rest ∧ Spells w n ∧ Ends rest left ∧ ns = n :: ns' ∧
      (left = [] ∧ ns' = [] ∨ Names left ns') := by
  cases h with
  | @last _ n hw =>
    exact ⟨level, n, [], [], [], (List.append_nil _).symm, hw, .here, rfl, .inl ⟨rfl, rfl⟩⟩
  | @delimited w n d hw hd =>
    exact ⟨w, n, [d], [], [], rfl, hw, .delimiter hd, rfl, .inl ⟨rfl, rfl⟩⟩
  | @more w n d level ns hw hd hrest =>
    exact ⟨w, n, _, level, ns, rfl, hw, .delimiter hd, rfl, .inr hrest⟩

/-- `lev` after names. -/
def levelAfter (lev : Nat) (ns : List Level) : Nat :=
  ns.foldl (fun lev n => if n = .none then 0 else lev ||| n.value) lev

theorem levelAfter_zero (ns : List Level) : levelAfter 0 ns = union ns := by
  induction ns using List.reverseRecOn with
  | nil => rfl
  | append_singleton ns n ih =>
    have hstep : levelAfter 0 (ns ++ [n]) =
        if n = .none then 0 else levelAfter 0 ns ||| n.value := by
      rw [levelAfter, List.foldl_append]
      rfl
    rw [hstep, ih, union, union, List.reverse_append, List.reverse_singleton,
      List.singleton_append, List.takeWhile_cons]
    by_cases h : n = .none
    · simp [h]
    · simp [h]

/-- What the loop makes of names: it ends at WARNNING. -/
theorem Names.loop {turns : Nat} {level : List UInt8} {ns : List Level} (h : Names level ns)
    (h0 : 0 ∉ level) (hturns : level.length < turns) (lev : Nat) :
    (.warnning ∉ ns → levelLoop turns level lev = some (0, levelAfter lev ns)) ∧
      (.warnning ∈ ns → ∃ lev', levelLoop turns level lev = some (-2, lev')) := by
  induction turns generalizing level ns lev with
  | zero => exact absurd hturns (Nat.not_lt_zero _)
  | succ turns ih =>
    obtain ⟨w, n, rest, left, ns', rfl, hw, hends, rfl, hleft⟩ := h.first
    rw [levelLoop_name hw hends h0]
    by_cases hn : n = .warnning
    · rw [if_pos hn]
      exact ⟨fun hnot => absurd (hn ▸ List.mem_cons_self) hnot, fun _ => ⟨_, rfl⟩⟩
    · have hshort : left.length < turns := by
        have hle := hends.length_le
        have hpos := n.name_pos
        rw [← hw.length] at hpos
        rw [List.length_append] at hturns
        omega
      have hwarn : .warnning ∈ n :: ns' ↔ .warnning ∈ ns' :=
        List.mem_cons.trans (or_iff_right (Ne.symm hn))
      rw [if_neg hn, hwarn, levelAfter, List.foldl_cons, ← levelAfter]
      rcases hleft with ⟨rfl, rfl⟩ | hnames
      · rw [levelLoop_nil (Nat.zero_lt_of_lt hshort)]
        exact ⟨fun _ => rfl, fun h => absurd h List.not_mem_nil⟩
      · exact ih hnames (hends.not_mem fun h => h0 (List.mem_append_right _ h)) hshort _

/-- What the loop finds: a name, and what follows it. -/
theorem found_name {level : List UInt8}
    (h : Level.tried.find? (fun m => memXcmp level m.name == 0) = some n) :
    ∃ w rest, level = w ++ rest ∧ Spells w n ∧ level.drop n.name.length = rest := by
  have hzero := List.find?_some h
  rw [beq_iff_eq, memXcmp_eq_zero_iff n.upper] at hzero
  have htake : (level.take n.name.length).map toU = n.name := by
    rw [List.map_take]
    exact (List.prefix_iff_eq_take.1 hzero).symm
  exact ⟨level.take n.name.length, level.drop n.name.length, (List.take_append_drop ..).symm,
    spells_iff.2 htake, rfl⟩

/-- The loop comes to an end, and returns 0 only at the end of names. -/
theorem levelLoop_sound {turns : Nat} {level : List UInt8} (h0 : 0 ∉ level)
    (hturns : level.length < turns) (lev : Nat) :
    ∃ ret lev', levelLoop turns level lev = some (ret, lev') ∧
      (ret = 0 → level = [] ∨ ∃ ns, Names level ns) := by
  induction turns generalizing level lev with
  | zero => exact absurd hturns (Nat.not_lt_zero _)
  | succ turns ih =>
    by_cases hnil : level = []
    · subst hnil
      exact ⟨0, lev, rfl, fun _ => .inl rfl⟩
    · rw [levelLoop, if_neg (deref_ne_zero hnil h0)]
      cases hfind : Level.tried.find? (fun m => memXcmp level m.name == 0) with
      | none => exact ⟨-3, lev, rfl, fun h => absurd h (by decide)⟩
      | some n =>
        obtain ⟨w, rest, rfl, hw, hdrop⟩ := found_name hfind
        have hrest : 0 ∉ rest := fun h => h0 (List.mem_append_right _ h)
        simp only [hdrop]
        cases hdelim : isDelimiter rest with
        | none => exact ⟨-2, _, rfl, fun h => absurd h (by decide)⟩
        | some left =>
          have hends := (isDelimiter_eq_some_iff hrest).1 hdelim
          have hshort : left.length < turns := by
            have hle := hends.length_le
            have hpos := n.name_pos
            rw [← hw.length] at hpos
            rw [List.length_append] at hturns
            omega
          obtain ⟨ret, lev', hloop, hret⟩ := ih (hends.not_mem hrest) hshort
            (if n = .none then Level.none.value else lev ||| n.value)
          refine ⟨ret, lev', hloop, fun hzero => .inr ?_⟩
          cases hends with
          | here =>
            rw [List.append_nil]
            exact ⟨[n], .last hw⟩
          | delimiter hd =>
            rcases hret hzero with rfl | ⟨ns, hns⟩
            · exact ⟨[n], .delimited hw hd⟩
            · exact ⟨n :: ns, .more hw hd hns⟩

/-! ## White space -/

theorem Names.head_not_white {level : List UInt8} {ns : List Level} (h : Names level ns)
    (hwhite : ∀ c ∈ level.head?, c ∈ ascii " \t\n\r") : False := by
  obtain ⟨w, n, rest, left, ns', rfl, hw, -⟩ := h.first
  cases w with
  | nil => exact absurd hw.length.symm n.name_pos.ne'
  | cons c w =>
    have hc : c ∈ ascii " \t\n\r" := hwhite c rfl
    have hname := spells_iff.1 hw
    have hupper : Upper (toU c) := n.upper _ (hname ▸ List.mem_cons_self)
    have hnot : ∀ c ∈ ascii " \t\n\r", ¬ Upper (toU c) := by simp [ascii, toU, Upper]
    exact hnot c hc hupper

theorem mem_white_iff {c : UInt8} : c ∈ ascii " \t\n\r" ↔ isWhite c = true := by
  simp [ascii, isWhite, or_assoc]

/-- The names of an accepted string are what is left without the white space. -/
theorem accepted_iff {level : List UInt8} {ns : List Level} :
    Accepted level ns ↔ Names (skipWhitespace level) ns := by
  constructor
  · rintro ⟨front, rest, rfl, hfront, hnames⟩
    have hskip : skipWhitespace (front ++ rest) = skipWhitespace rest := by
      rw [skipWhitespace, List.dropWhile_append_of_pos fun c hc => mem_white_iff.1 (hfront c hc)]
      rfl
    rw [hskip]
    cases rest with
    | nil => exact hnames
    | cons c rest =>
      have hc : ¬ isWhite c = true :=
        fun h => hnames.head_not_white fun c' hc' => by
          cases hc'
          exact mem_white_iff.2 h
      rw [skipWhitespace, List.dropWhile_cons_of_neg hc]
      exact hnames
  · intro hnames
    exact ⟨_, _, List.takeWhile_append_dropWhile.symm,
      fun c hc => mem_white_iff.2 (List.mem_takeWhile_imp hc), hnames⟩

/-- The level string is read by its grammar if and only if no WARNNING is in it. -/
theorem level_string_iff {level : List UInt8} (h0 : 0 ∉ level) (logLevel : Nat) :
    ∃ ret logLevel', sdfSetLevelString level logLevel = some (ret, logLevel') ∧
      (ParsedAs level logLevel ret logLevel' ↔ ∀ ns, Accepted level ns → .warnning ∉ ns) := by
  have h0' : 0 ∉ skipWhitespace level := fun h => h0 (List.dropWhile_subset _ h)
  simp only [ParsedAs, accepted_iff, sdfSetLevelString]
  generalize skipWhitespace level = names at h0'
  by_cases hnil : names = []
  · subst hnil
    have hnone : ∀ ns, ¬ Names [] ns := fun ns h => h.head_not_white fun c hc => by cases hc
    refine ⟨-1, logLevel, rfl, ?_⟩
    refine iff_of_true ⟨iff_of_false (by decide) fun ⟨ns, h⟩ => hnone ns h, ?_, fun _ => rfl⟩ ?_
    · exact fun ns h => absurd h (hnone ns)
    · exact fun ns h => absurd h (hnone ns)
  rw [if_neg (deref_ne_zero hnil h0')]
  obtain ⟨ret, lev', hloop, hret⟩ := levelLoop_sound h0' names.length.lt_succ_self Level.none.value
  refine ⟨ret, if ret = 0 then lev' else logLevel, by rw [hloop]; rfl, ?_⟩
  constructor
  · rintro ⟨hzero, -, -⟩ ns hns hwarn
    obtain ⟨lev, hstop⟩ := (hns.loop h0' names.length.lt_succ_self _).2 hwarn
    have hne : ret = -2 := congrArg Prod.fst (Option.some.inj (hloop.symm.trans hstop))
    rw [hne] at hzero
    exact absurd (hzero.2 ⟨ns, hns⟩) (by decide)
  · intro hplain
    have hread : ∀ ns, Names names ns → ret = 0 ∧ lev' = union ns := by
      intro ns hns
      have hend := (hns.loop h0' names.length.lt_succ_self Level.none.value).1 (hplain ns hns)
      rw [hloop, Option.some.injEq, Prod.mk.injEq] at hend
      exact ⟨hend.1, hend.2.trans (levelAfter_zero ns)⟩
    refine ⟨⟨fun h => (hret h).resolve_left hnil, fun ⟨ns, hns⟩ => (hread ns hns).1⟩, ?_, ?_⟩
    · intro ns hns
      rw [if_pos (hread ns hns).1]
      exact (hread ns hns).2
    · exact fun hnone => if_neg fun hzero => hnone ((hret hzero).resolve_left hnil)

/-- `fatal,Warn` gives 5. -/
theorem level_string_fatal_warn :
    ∃ ret logLevel', sdfSetLevelString (ascii "fatal,Warn") 31 = some (ret, logLevel') ∧
      (ParsedAs (ascii "fatal,Warn") 31 ret logLevel' ↔
        ∀ ns, Accepted (ascii "fatal,Warn") ns → .warnning ∉ ns) :=
  level_string_iff (by decide) 31

/-- WARNNING is a name, and is not read. -/
theorem warnning_not_read : ¬ ∀ level : List UInt8, 0 ∉ level → ∀ logLevel : Nat,
    ∃ ret logLevel', sdfSetLevelString level logLevel = some (ret, logLevel') ∧
      ParsedAs level logLevel ret logLevel' := by
  intro h
  obtain ⟨ret, logLevel', hset, hret, -⟩ := h (ascii "WARNNING") (by decide) 31
  have hstop : sdfSetLevelString (ascii "WARNNING") 31 = some (-2, 31) := by decide
  obtain ⟨rfl, -⟩ := Prod.mk.inj (Option.some.inj (hset.symm.trans hstop))
  have hspells : Spells (ascii "WARNNING") .warnning := List.forall₂_same.2 fun _ _ => .inl rfl
  have haccepted : Accepted (ascii "WARNNING") [.warnning] :=
    ⟨[], _, rfl, fun _ h => absurd h List.not_mem_nil, .last hspells⟩
  exact absurd (hret.2 ⟨_, haccepted⟩) (by decide)

end CassandraApi.Sdf
