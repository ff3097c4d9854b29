/-
# `C.StringArray` — strings built up in an array

`Text b s` says that the array `b` holds the string `s`.  sprintf puts a string at
the front and strcat puts one behind what is there; both are `overrun` where the
array ends first, so that a run that is `.ok` had the room.
-/
import CassandraApi.C.CString

namespace CassandraApi.C

/-- `char a[n]; a[0] = 0;` -/
def emptyString (n : Nat) (garbage : Nat → UInt8) : Block :=
  ⟨n, fun k => if k = 0 then 0 else garbage k⟩

/-- `sprintf(b, "%s", s)` -/
def sprintf (b : Block) (s : List UInt8) : Except Fault Block := b.write 0 (s ++ [0])

/-- `strcat(b, s)`; also `strncat(b, s, n)` when `s` is cut there. -/
def strcat (b : Block) (s : List UInt8) : Except Fault Block := do
  let before ← b.cstr 0
  b.write before.length (s ++ [0])

/-- The array holds the string. -/
structure Text (b : Block) (s : List UInt8) : Prop where
  holds : Holds b 0 (s ++ [0])
  noNul : 0 ∉ s

variable {b b' : Block} {s t : List UInt8}

theorem Text.cstr (h : Text b s) : b.cstr 0 = .ok s := Block.cstr_eq h.holds h.noNul

theorem Text.inj (h : Text b s) (h' : Text b t) : s = t :=
  Except.ok.inj (h.cstr.symm.trans h'.cstr)

theorem Text.room (h : Text b s) : s.length < b.size := by
  have hin := h.holds.inside
  rw [List.length_append, List.length_singleton] at hin
  omega

theorem emptyString_text {n : Nat} (hn : 0 < n) (garbage : Nat → UInt8) :
    Text (emptyString n garbage) [] :=
  ⟨Holds.cons_iff.2 ⟨⟨hn, rfl⟩, .nil hn⟩, List.not_mem_nil⟩

theorem noNul_append (hs : 0 ∉ s) (ht : (0 : UInt8) ∉ t) : 0 ∉ s ++ t := by
  rw [List.mem_append, not_or]
  exact ⟨hs, ht⟩

/-- What a string that was written looks like afterwards. -/
theorem write_text (h : Holds b 0 s) (hs : 0 ∉ s) (ht : 0 ∉ t)
    (hw : b.write s.length (t ++ [0]) = .ok b') : Text b' (s ++ t) ∧ b'.size = b.size := by
  obtain ⟨held, hsize⟩ := Holds.written hw
  rw [Int.toNat_natCast] at held
  have hfront : Holds b' 0 s := Holds.write_frame hw h (.inl (by omega))
  refine ⟨⟨?_, noNul_append hs ht⟩, hsize⟩
  rw [List.append_assoc]
  exact Holds.append_iff.2 ⟨hfront, by rwa [Nat.zero_add]⟩

theorem sprintf_text (ht : 0 ∉ t) (hok : sprintf b t = .ok b') :
    Text b' t ∧ b'.size = b.size := by
  have hnil : (0 : UInt8) ∉ ([] : List UInt8) := List.not_mem_nil
  exact write_text (.nil (Nat.zero_le _)) hnil ht hok

theorem sprintf_ok (ht : 0 ∉ t) (room : t.length < b.size) :
    ∃ b', sprintf b t = .ok b' ∧ Text b' t ∧ b'.size = b.size := by
  have hroom : 0 + (t ++ [0]).length ≤ b.size := by
    rw [List.length_append, List.length_singleton]
    omega
  obtain ⟨b', hw, -⟩ := write_filled hroom
  exact ⟨b', hw, sprintf_text ht hw⟩

theorem strcat_text (h : Text b s) (ht : 0 ∉ t) (hok : strcat b t = .ok b') :
    Text b' (s ++ t) ∧ b'.size = b.size := by
  simp only [strcat, h.cstr, ok_bind] at hok
  exact write_text h.holds.left h.noNul ht hok

theorem strcat_ok (h : Text b s) (ht : 0 ∉ t) (room : s.length + t.length < b.size) :
    ∃ b', strcat b t = .ok b' ∧ Text b' (s ++ t) ∧ b'.size = b.size := by
  have hroom : s.length + (t ++ [0]).length ≤ b.size := by
    rw [List.length_append, List.length_singleton]
    omega
  obtain ⟨b', hw, -⟩ := write_filled hroom
  have hok : strcat b t = .ok b' := by
    simp only [strcat, h.cstr, ok_bind, hw]
  exact ⟨b', hok, strcat_text h ht hok⟩

/-- A function that puts `t` behind the string in an array, if it comes to an end, and comes to an
end where there is room. -/
structure AppendsText (f : Block → Except Fault Block) (t : List UInt8) : Prop where
  text : ∀ {b b' : Block} {s : List UInt8}, Text b s → f b = .ok b' →
    Text b' (s ++ t) ∧ b'.size = b.size
  ok : ∀ {b : Block} {s : List UInt8}, Text b s → s.length + t.length < b.size → ∃ b', f b = .ok b'

theorem strcat_appends (ht : 0 ∉ t) : AppendsText (strcat · t) t where
  text h hok := strcat_text h ht hok
  ok h room := by
    obtain ⟨b', hok, -⟩ := strcat_ok h ht room
    exact ⟨b', hok⟩

theorem pure_appends : AppendsText pure [] where
  text h hok := by
    cases hok
    rw [List.append_nil]
    exact ⟨h, rfl⟩
  ok {b} _ := fun _ _ => ⟨b, rfl⟩

theorem AppendsText.then {f g : Block → Except Fault Block} (hf : AppendsText f s)
    (hg : AppendsText g t) : AppendsText (fun b => f b >>= g) (s ++ t) where
  text h hok := by
    obtain ⟨b₁, h₁, h₂⟩ := bind_eq_ok.1 hok
    obtain ⟨text₁, size₁⟩ := hf.text h h₁
    obtain ⟨text₂, size₂⟩ := hg.text text₁ h₂
    rw [← List.append_assoc]
    exact ⟨text₂, size₂.trans size₁⟩
  ok h room := by
    rw [List.length_append] at room
    obtain ⟨b₁, h₁⟩ := hf.ok h (by omega)
    obtain ⟨text₁, size₁⟩ := hf.text h h₁
    obtain ⟨b₂, h₂⟩ := hg.ok text₁ (by rw [List.length_append]; omega)
    exact ⟨b₂, bind_eq_ok.2 ⟨b₁, h₁, h₂⟩⟩

end CassandraApi.C
