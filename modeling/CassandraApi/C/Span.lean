/-
# `C.Span` — the bytes that a reader walks over

A reader of a block returns a value and the index behind what it has read.  For the
question where it stops the values do not matter: a `Span` says from which index it
comes to which, and `Walks` that the reader returns there and nowhere else.

Spans are put together like the readers they belong to, and keep two properties: in
a longer block they are the same (`Local`), and they never come back (`Forward`).
-/
import CassandraApi.C.Memory

namespace CassandraApi.C

/-- From an index of a block to another. -/
abbrev Span := Block → Int → Int → Prop

/-- The block is the front of another, or all of it. -/
structure Block.FrontOf (b b' : Block) : Prop where
  size : b.size ≤ b'.size
  same : ∀ k < b.size, b'.byte k = b.byte k

/-- What is walked over in a block is walked over in every longer one. -/
def Span.Local (R : Span) : Prop :=
  ∀ ⦃b b' : Block⦄ ⦃i j : Int⦄, b.FrontOf b' → R b i j → R b' i j

/-- It never comes back. -/
def Span.Forward (R : Span) : Prop := ∀ ⦃b : Block⦄ ⦃i j : Int⦄, R b i j → i ≤ j

/-- The reader returns where the span comes. -/
def Walks {α : Type} (f : Block → Int → Except Fault (α × Int)) (R : Span) : Prop :=
  ∀ b i j, (∃ a, f b i = .ok (a, j)) ↔ R b i j

/-! ## Single reads -/

theorem rd_eq_ok {b : Block} {i : Int} {c : UInt8} :
    b.rd i = .ok c ↔ (0 ≤ i ∧ i < b.size) ∧ b.byte i.toNat = c := by
  unfold Block.rd
  split
  · rename_i hin
    exact ⟨fun h => ⟨hin, Except.ok.inj h⟩, fun h => congrArg Except.ok h.2⟩
  · rename_i hin
    exact ⟨(fun h => by cases h), fun h => absurd h.1 hin⟩

theorem Block.FrontOf.rd {b b' : Block} (h : b.FrontOf b') {i : Int} {c : UInt8}
    (hc : b.rd i = .ok c) : b'.rd i = .ok c := by
  obtain ⟨⟨h0, hlt⟩, hbyte⟩ := rd_eq_ok.1 hc
  have hsize := h.size
  refine rd_eq_ok.2 ⟨⟨h0, by omega⟩, ?_⟩
  rw [h.same _ (by omega), hbyte]

theorem load_eq_ok {b : Block} {i n : Int} {s : List UInt8} :
    b.load i n = .ok s ↔ 0 ≤ n ∧ (0 ≤ i ∧ i + n ≤ b.size) ∧ b.slice i.toNat n.toNat = s := by
  unfold Block.load
  split
  · rename_i hneg
    exact ⟨(fun h => by cases h), fun h => absurd h.1 (by omega)⟩
  · rename_i hpos
    split
    · rename_i hin
      exact ⟨fun h => ⟨by omega, hin, Except.ok.inj h⟩, fun h => congrArg Except.ok h.2.2⟩
    · rename_i hin
      exact ⟨(fun h => by cases h), fun h => absurd h.2.1 hin⟩

theorem Block.FrontOf.load {b b' : Block} (h : b.FrontOf b') {i n : Int} {s : List UInt8}
    (hs : b.load i n = .ok s) : b'.load i n = .ok s := by
  obtain ⟨hn, ⟨h0, hle⟩, hslice⟩ := load_eq_ok.1 hs
  have hsize := h.size
  refine load_eq_ok.2 ⟨hn, ⟨h0, by omega⟩, ?_⟩
  rw [← hslice]
  exact Block.slice_congr fun k hk => h.same _ (by omega)

/-! ## Spans -/

/-- One span behind another. -/
def Span.then (R S : Span) : Span := fun b i j => ∃ k, R b i k ∧ S b k j

/-- One byte, whatever it is. -/
def Span.one : Span := fun b i j => (∃ c, b.rd i = .ok c) ∧ j = i + 1

/-- The byte `tag`, and a span behind it. -/
def Span.tagged (tag : UInt8) (R : Span) : Span := fun b i j => b.rd i = .ok tag ∧ R b (i + 1) j

/-- One byte that is not `tag`. -/
def Span.other (tag : UInt8) : Span := fun b i j => (∃ c, b.rd i = .ok c ∧ c ≠ tag) ∧ j = i + 1

/-- What `if (b[i++] == tag) { … }` walks over. -/
def Span.optional (tag : UInt8) (R : Span) : Span := fun b i j =>
  R.tagged tag b i j ∨ Span.other tag b i j

section Rules

variable {R S : Span} {tag : UInt8}

theorem Span.one_local : Span.one.Local := by
  rintro b b' i j hfront ⟨⟨c, hc⟩, rfl⟩
  exact ⟨⟨c, hfront.rd hc⟩, rfl⟩

theorem Span.Local.then (hR : R.Local) (hS : S.Local) : (R.then S).Local := by
  rintro b b' i j hfront ⟨k, hik, hkj⟩
  exact ⟨k, hR hfront hik, hS hfront hkj⟩

theorem Span.Local.tagged (hR : R.Local) : (R.tagged tag).Local := by
  rintro b b' i j hfront ⟨hc, hij⟩
  exact ⟨hfront.rd hc, hR hfront hij⟩

theorem Span.Local.optional (hR : R.Local) : (R.optional tag).Local := by
  rintro b b' i j hfront (h | ⟨⟨c, hc, hne⟩, rfl⟩)
  · exact .inl (hR.tagged hfront h)
  · exact .inr ⟨⟨c, hfront.rd hc, hne⟩, rfl⟩

theorem Span.Forward.then (hR : R.Forward) (hS : S.Forward) : (R.then S).Forward := by
  rintro b i j ⟨k, hik, hkj⟩
  exact le_trans (hR hik) (hS hkj)

theorem Span.Forward.optional (hR : R.Forward) : (R.optional tag).Forward := by
  rintro b i j (⟨-, hij⟩ | ⟨-, rfl⟩)
  · exact (Int.le_add_one (le_refl i)).trans (hR hij)
  · exact Int.le_add_one (le_refl i)

variable {α β : Type} {f : Block → Int → Except Fault (α × Int)}

theorem Walks.congr {g : Block → Int → Except Fault (α × Int)} (h : Walks f R)
    (heq : ∀ b i, g b i = f b i) : Walks g R := by
  intro b i j
  rw [heq]
  exact h b i j

theorem Walks.bind {g : α → Block → Int → Except Fault (β × Int)} (h : Walks f R)
    (hg : ∀ a, Walks (g a) S) : Walks (fun b i => f b i >>= fun p => g p.1 b p.2) (R.then S) := by
  intro b i j
  constructor
  · rintro ⟨y, hy⟩
    obtain ⟨⟨a, k⟩, ha, hy⟩ := bind_eq_ok.1 hy
    exact ⟨k, (h b i k).1 ⟨a, ha⟩, (hg a b k j).1 ⟨y, hy⟩⟩
  · rintro ⟨k, hik, hkj⟩
    obtain ⟨a, ha⟩ := (h b i k).2 hik
    obtain ⟨y, hy⟩ := (hg a b k j).2 hkj
    exact ⟨y, bind_eq_ok.2 ⟨(a, k), ha, hy⟩⟩

theorem Walks.map (g : α → β) (h : Walks f R) :
    Walks (fun b i => f b i >>= fun p => pure (g p.1, p.2)) R := by
  intro b i j
  rw [← h b i j]
  constructor
  · rintro ⟨y, hy⟩
    obtain ⟨⟨a, k⟩, ha, hy⟩ := bind_eq_ok.1 hy
    cases hy
    exact ⟨a, ha⟩
  · rintro ⟨a, ha⟩
    exact ⟨g a, bind_eq_ok.2 ⟨(a, j), ha, rfl⟩⟩

theorem Walks.one (g : UInt8 → α) :
    Walks (fun b i => b.rd i >>= fun c => pure (g c, i + 1)) Span.one := by
  intro b i j
  constructor
  · rintro ⟨y, hy⟩
    obtain ⟨c, hc, hy⟩ := bind_eq_ok.1 hy
    cases hy
    exact ⟨⟨c, hc⟩, rfl⟩
  · rintro ⟨⟨c, hc⟩, rfl⟩
    exact ⟨g c, bind_eq_ok.2 ⟨c, hc, rfl⟩⟩

theorem Walks.optional (x : α) (h : Walks f R) :
    Walks (fun b i => b.rd i >>= fun c => if c = tag then f b (i + 1) else pure (x, i + 1))
      (R.optional tag) := by
  intro b i j
  constructor
  · rintro ⟨y, hy⟩
    obtain ⟨c, hc, hy⟩ := bind_eq_ok.1 hy
    split at hy
    · rename_i htag
      exact .inl ⟨htag ▸ hc, (h b (i + 1) j).1 ⟨y, hy⟩⟩
    · rename_i htag
      cases hy
      exact .inr ⟨⟨c, hc, htag⟩, rfl⟩
  · rintro (⟨hc, hij⟩ | ⟨⟨c, hc, hne⟩, rfl⟩)
    · obtain ⟨y, hy⟩ := (h b (i + 1) j).2 hij
      exact ⟨y, bind_eq_ok.2 ⟨tag, hc, by rw [if_pos rfl]; exact hy⟩⟩
    · exact ⟨x, bind_eq_ok.2 ⟨c, hc, by rw [if_neg hne]; rfl⟩⟩

end Rules

end CassandraApi.C
