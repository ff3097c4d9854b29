/-
# `C.Memory` — machine integers and heap blocks of a C program

A C function that works on a malloc'd buffer is modelled as a Lean function
that takes the block and returns it changed.  What C leaves undefined stops
the run with a `Fault`:

    read      a read outside the block
    overrun   a write outside the block (or a copy into a field too small for it)
    null      a dereference of NULL
    freed     an access to a node that is not allocated
    stuck     a loop that never makes progress

so a theorem that a run is `.ok` says that none of these happens.

The contents of a block are a total function of the index: bytes that were
never written have a value too, which is whatever the allocator left there.

`Holds b i xs` (the bytes of `xs` lie in `b` from index `i` on) is the only
way later modules speak about contents; the lemmas here say how it splits,
how it is read, and what each operation keeps of it.
-/
import Mathlib

namespace CassandraApi.C

/-! ## Integers -/

/-- `int`: 32 bits, two's complement, wrapping. -/
def int32 (x : Int) : Int := x.bmod (2 ^ 32)

/-- `unsigned int`. -/
def uint32 (x : Int) : Int := x % 2 ^ 32

/-- `(int) c` for a `char c`: plain `char` is signed. -/
def schar (b : UInt8) : Int := if b.toNat < 128 then b.toNat else (b.toNat : Int) - 256

/-- `(char) n`. -/
def toChar (n : Int) : UInt8 := UInt8.ofNat (n % 256).toNat

@[simp] theorem int32_of_range {x : Int} (h : -2 ^ 31 ≤ x) (h' : x < 2 ^ 31) : int32 x = x := by
  unfold int32
  exact Int.bmod_eq_of_le (by omega) (by omega)

theorem int32_natCast {n : Nat} (h : n < 2 ^ 31) : int32 n = n :=
  int32_of_range (by omega) (by omega)

theorem int32_range (x : Int) : -2 ^ 31 ≤ int32 x ∧ int32 x < 2 ^ 31 := by
  have hl := Int.le_bmod (x := x) (m := 2 ^ 32) (by decide)
  have hu := Int.bmod_lt (x := x) (m := 2 ^ 32) (by decide)
  unfold int32
  omega

theorem int32_int32_mul (x y : Int) : int32 (int32 x * y) = int32 (x * y) :=
  Int.bmod_mul_bmod ..

theorem schar_of_lt {b : UInt8} (h : b.toNat < 128) : schar b = b.toNat := if_pos h

theorem schar_ofNat {n : Nat} (h : n < 128) : schar (UInt8.ofNat n) = n := by
  have ht : (UInt8.ofNat n).toNat = n := by
    rw [UInt8.toNat_ofNat']
    omega
  rw [schar_of_lt (by omega), ht]

/-- A number below 128 is its own `char`. -/
theorem schar_toChar {n : Int} (h0 : 0 ≤ n) (h : n < 128) : schar (toChar n) = n := by
  unfold toChar
  rw [schar_ofNat (by omega)]
  omega

/-- The test `c > 0xffffff00` on a promoted `char`: the top bit is set. -/
theorem uint32_schar_gt (b : UInt8) : uint32 (schar b) > 0xffffff00 ↔ 128 ≤ b.toNat := by
  have := b.toNat_lt
  unfold uint32 schar
  split <;> omega

/-! ## Faults -/

inductive Fault where
  | read
  | overrun
  | null
  | freed
  | stuck
  deriving DecidableEq, Repr

@[simp] theorem ok_bind {α β : Type} (a : α) (f : α → Except Fault β) :
    (Except.ok a >>= f) = f a := rfl

@[simp] theorem error_bind {α β : Type} (e : Fault) (f : α → Except Fault β) :
    (Except.error e >>= f) = Except.error e := rfl

@[simp] theorem pure_eq_ok {α : Type} (a : α) : (pure a : Except Fault α) = .ok a := rfl

@[simp] theorem throw_eq_error {α : Type} (e : Fault) :
    (throw e : Except Fault α) = .error e := rfl

/-- A sequence succeeds exactly when both halves do. -/
theorem bind_eq_ok {α β : Type} {x : Except Fault α} {f : α → Except Fault β} {b : β} :
    (x >>= f) = .ok b ↔ ∃ a, x = .ok a ∧ f a = .ok b := by
  cases x <;> simp

/-! ## Results -/

/-- What a call leaves for its caller: the code, and the text it wrote to its `error` buffer, if
any. -/
structure Reply (ρ : Type) where
  code : ρ
  error : Option String := none
  deriving DecidableEq, Repr

/-- A later write to the same buffer replaces the earlier one. -/
def Reply.after {ρ : Type} (r : Reply ρ) (earlier : Option String) : Reply ρ :=
  { r with error := r.error <|> earlier }

@[simp] theorem Reply.after_code {ρ : Type} (r : Reply ρ) (t : Option String) :
    (r.after t).code = r.code := rfl

/-! ## The outside -/

/-- What the allocator answers during a call: `none` is NULL, otherwise the garbage that new
memory holds. -/
abbrev Alloc := Option (Nat → UInt8)

/-- What `recv` reports: an errno text, or the bytes it delivered (none of them when the peer
has closed). -/
inductive Recv where
  | failed (strerror : String)
  | data (bytes : List UInt8)

/-! ## Blocks -/

/-- A block from `malloc`. -/
structure Block where
  size : Nat
  byte : Nat → UInt8

namespace Block

/-- `b[i]`. -/
def rd (b : Block) (i : Int) : Except Fault UInt8 :=
  if 0 ≤ i ∧ i < b.size then .ok (b.byte i.toNat) else .error .read

/-- `memcpy(b + i, xs, |xs|)`. -/
def write (b : Block) (i : Int) (xs : List UInt8) : Except Fault Block :=
  if 0 ≤ i ∧ i + xs.length ≤ b.size then
    .ok { b with
      byte := fun k =>
        if i.toNat ≤ k ∧ k < i.toNat + xs.length then xs.getD (k - i.toNat) 0 else b.byte k }
  else .error .overrun

/-- `memmove(b + dst, b + src, n)` inside one block. -/
def memmove (b : Block) (dst src n : Int) : Except Fault Block :=
  if 0 ≤ dst ∧ 0 ≤ src ∧ 0 ≤ n ∧ dst + n ≤ b.size ∧ src + n ≤ b.size then
    .ok { b with
      byte := fun k =>
        if dst.toNat ≤ k ∧ k < dst.toNat + n.toNat then b.byte (src.toNat + (k - dst.toNat))
        else b.byte k }
  else .error .overrun

/-- The `n` bytes from index `i` on. -/
def slice (b : Block) : Nat → Nat → List UInt8
  | _, 0 => []
  | i, n + 1 => b.byte i :: slice b (i + 1) n

/-- The source of a `memcpy(_, b + i, n)`: a negative `n` is a copy of nearly all memory. -/
def load (b : Block) (i n : Int) : Except Fault (List UInt8) :=
  if n < 0 then .error .overrun
  else if 0 ≤ i ∧ i + n ≤ b.size then .ok (b.slice i.toNat n.toNat)
  else .error .read

/-- `memset(b + i, 0, n)`. -/
def clear (b : Block) (i n : Int) : Except Fault Block :=
  if 0 ≤ i ∧ 0 ≤ n ∧ i + n ≤ b.size then
    .ok { b with
      byte := fun k => if i.toNat ≤ k ∧ k < i.toNat + n.toNat then 0 else b.byte k }
  else .error .overrun

/-- `realloc(b, n)`: the old bytes stay, `fill` is what the new memory holds. -/
def realloc (b : Block) (n : Nat) (fill : Nat → UInt8) : Block where
  size := n
  byte k := if k < b.size then b.byte k else fill k

@[simp] theorem slice_length (b : Block) : ∀ i n, (b.slice i n).length = n
  | _, 0 => rfl
  | i, n + 1 => by simp only [slice, List.length_cons, slice_length b (i + 1) n]

theorem slice_add (b : Block) : ∀ i m n, b.slice i (m + n) = b.slice i m ++ b.slice (i + m) n
  | i, 0, n => by simp [slice]
  | i, m + 1, n => by
    have ih := slice_add b (i + 1) m n
    rw [show m + 1 + n = (m + n) + 1 by omega, slice, slice, ih, List.cons_append,
      show i + 1 + m = i + (m + 1) by omega]

theorem slice_getElem (b : Block) :
    ∀ i n k (hk : k < (b.slice i n).length), (b.slice i n)[k] = b.byte (i + k)
  | _, 0, _, hk => by simp [slice] at hk
  | _, _ + 1, 0, _ => rfl
  | i, n + 1, k + 1, hk => by
    simp only [slice, List.getElem_cons_succ]
    rw [slice_getElem b (i + 1) n k, show i + 1 + k = i + (k + 1) by omega]

theorem slice_congr {b b' : Block} : ∀ {i i' n : Nat},
    (∀ k < n, b.byte (i + k) = b'.byte (i' + k)) → b.slice i n = b'.slice i' n
  | _, _, 0, _ => rfl
  | i, i', n + 1, h => by
    have h0 := h 0 (by omega)
    have ih : b.slice (i + 1) n = b'.slice (i' + 1) n := slice_congr fun k hk => by
      have := h (k + 1) (by omega)
      rwa [show i + (k + 1) = i + 1 + k by omega, show i' + (k + 1) = i' + 1 + k by omega] at this
    simp only [slice, ih, Nat.add_zero] at h0 ⊢
    rw [h0]

/-- `memcpy` changes its range only. -/
theorem write_byte {b b' : Block} {i : Int} {xs : List UInt8} (hw : b.write i xs = .ok b') {k : Nat}
    (hk : k < i ∨ i + xs.length ≤ k) : b'.byte k = b.byte k := by
  unfold write at hw
  split at hw
  · cases hw
    exact if_neg (by omega)
  · cases hw

/-- `memmove` changes its range only. -/
theorem memmove_byte {b b' : Block} {dst src n : Int} (hw : b.memmove dst src n = .ok b') {k : Nat}
    (hk : k < dst ∨ dst + n ≤ k) : b'.byte k = b.byte k := by
  unfold memmove at hw
  split at hw
  · cases hw
    exact if_neg (by omega)
  · cases hw

end Block

/-! ## Contents -/

/-- The bytes `xs` lie in the block from index `i` on. -/
structure Holds (b : Block) (i : Nat) (xs : List UInt8) : Prop where
  inside : i + xs.length ≤ b.size
  bytes : b.slice i xs.length = xs

namespace Holds

variable {b b' : Block} {i : Nat} {xs ys : List UInt8}

theorem append_iff :
    Holds b i (xs ++ ys) ↔ Holds b i xs ∧ Holds b (i + xs.length) ys := by
  constructor
  · rintro ⟨hin, hb⟩
    rw [List.length_append] at hin hb
    rw [Block.slice_add] at hb
    obtain ⟨h₁, h₂⟩ := List.append_inj hb (by simp)
    exact ⟨⟨by omega, h₁⟩, ⟨by omega, h₂⟩⟩
  · rintro ⟨⟨_, h₁⟩, ⟨hin, h₂⟩⟩
    exact ⟨by rw [List.length_append]; omega, by
      rw [List.length_append, Block.slice_add, h₁, h₂]⟩

theorem cons_iff {x : UInt8} :
    Holds b i (x :: xs) ↔ (i < b.size ∧ b.byte i = x) ∧ Holds b (i + 1) xs := by
  constructor
  · rintro ⟨hin, hb⟩
    simp only [List.length_cons] at hin
    simp only [List.length_cons, Block.slice, List.cons.injEq] at hb
    exact ⟨⟨by omega, hb.1⟩, ⟨by omega, hb.2⟩⟩
  · rintro ⟨⟨_, hx⟩, ⟨hin, hb⟩⟩
    exact ⟨by simp only [List.length_cons]; omega, by
      simp only [List.length_cons, Block.slice, hx, hb]⟩

theorem nil (h : i ≤ b.size) : Holds b i [] := ⟨by simpa using h, rfl⟩

/-- Reading the first byte. -/
theorem rd {x : UInt8} (h : Holds b i (x :: xs)) : b.rd i = .ok x := by
  obtain ⟨⟨hlt, hx⟩, _⟩ := cons_iff.1 h
  simp only [Block.rd, Int.toNat_natCast, hx]
  exact if_pos (by omega)

theorem tail {x : UInt8} (h : Holds b i (x :: xs)) : Holds b (i + 1) xs := (cons_iff.1 h).2

theorem left (h : Holds b i (xs ++ ys)) : Holds b i xs := (append_iff.1 h).1

theorem right (h : Holds b i (xs ++ ys)) : Holds b (i + xs.length) ys := (append_iff.1 h).2

theorem iff_get :
    Holds b i xs ↔ i + xs.length ≤ b.size ∧ ∀ k (h : k < xs.length), b.byte (i + k) = xs[k] := by
  constructor
  · rintro ⟨hin, hb⟩
    refine ⟨hin, fun k hk => ?_⟩
    rw [← Block.slice_getElem b i xs.length k (by simpa using hk)]
    simp only [hb]
  · rintro ⟨hin, hget⟩
    refine ⟨hin, List.ext_getElem (by simp) fun k _ hk => ?_⟩
    rw [Block.slice_getElem, hget k hk]

/-- Contents survive any change outside their range. -/
theorem frame (h : Holds b i xs) (hsize : i + xs.length ≤ b'.size)
    (hsame : ∀ k, i ≤ k → k < i + xs.length → b'.byte k = b.byte k) : Holds b' i xs := by
  rw [iff_get] at h ⊢
  refine ⟨hsize, fun k hk => ?_⟩
  rw [hsame _ (by omega) (by omega), h.2 k hk]

/-- A `memcpy` from there finds the bytes. -/
theorem load (h : Holds b i xs) : b.load i xs.length = .ok xs := by
  have hin := h.inside
  unfold Block.load
  rw [if_neg (by omega), if_pos (by omega), Int.toNat_natCast, Int.toNat_natCast, h.bytes]

/-- What `memcpy` wrote is there. -/
theorem written {j : Int} (hw : b.write j xs = .ok b') :
    Holds b' j.toNat xs ∧ b'.size = b.size := by
  unfold Block.write at hw
  split at hw
  · rename_i hin
    cases hw
    refine ⟨iff_get.2 ⟨by simp only; omega, fun k hk => ?_⟩, rfl⟩
    simp only
    rw [if_pos (by omega), Nat.add_sub_cancel_left, List.getD_eq_getElem _ _ hk]
  · cases hw

/-- Bytes next to a `memcpy` stay. -/
theorem write_frame {j : Int} (hw : b.write j ys = .ok b') (h : Holds b i xs)
    (hout : (i + xs.length : Int) ≤ j ∨ j + ys.length ≤ i) : Holds b' i xs := by
  refine h.frame ?_ fun k hk hk' => Block.write_byte hw (by omega)
  rw [(written hw).2]
  exact h.inside

/-- `memmove` to the front brings its source along. -/
theorem moved {src n : Int} (hw : b.memmove 0 src n = .ok b')
    (h : Holds b src.toNat xs) (hn : n = xs.length) : Holds b' 0 xs ∧ b'.size = b.size := by
  unfold Block.memmove at hw
  split at hw
  · rename_i hin
    cases hw
    rw [iff_get] at h
    refine ⟨iff_get.2 ⟨by simp only; omega, fun k hk => ?_⟩, rfl⟩
    simp only [Int.toNat_zero, Nat.zero_add, Nat.zero_le, Nat.sub_zero, true_and]
    rw [if_pos (by omega), h.2 k hk]
  · cases hw

theorem realloc {n : Nat} {fill : Nat → UInt8} (h : Holds b i xs) (hn : b.size ≤ n) :
    Holds (b.realloc n fill) i xs :=
  h.frame (by have := h.inside; simp only [Block.realloc]; omega) fun k _ _ =>
    if_pos (by have := h.inside; omega)

end Holds

/-! ## Filling a buffer from the front -/

theorem rd_inside {data : Block} {k : Nat} (h : k < data.size) : data.rd k = .ok (data.byte k) := by
  unfold Block.rd
  rw [if_pos (by omega), Int.toNat_natCast]

/-- The block is as it was, up to `o`, and holds `t` from there on. -/
structure Filled (out : Block) (o : Nat) (t : List UInt8) (out' : Block) : Prop where
  holds : Holds out' o t
  size : out'.size = out.size
  before : ∀ k < o, out'.byte k = out.byte k

theorem Filled.nil {out : Block} {o : Nat} (h : o ≤ out.size) : Filled out o [] out :=
  ⟨.nil h, rfl, fun _ _ => rfl⟩

theorem write_filled {out : Block} {o : Nat} {t : List UInt8} (h : o + t.length ≤ out.size) :
    ∃ out', out.write o t = .ok out' ∧ Filled out o t out' := by
  obtain ⟨out', hw⟩ : ∃ out', out.write o t = .ok out' := by
    unfold Block.write
    rw [if_pos (by omega)]
    exact ⟨_, rfl⟩
  obtain ⟨holds, size⟩ := Holds.written hw
  exact ⟨out', hw, holds, size, fun k hk => Block.write_byte hw (.inl (by omega))⟩

theorem Filled.append {out out₁ out₂ : Block} {o : Nat} {t u : List UInt8}
    (h : Filled out o t out₁) (h' : Filled out₁ (o + t.length) u out₂) : Filled out o (t ++ u) out₂ where
  holds := by
    refine Holds.append_iff.2 ⟨h.holds.frame ?_ fun k _ hk => h'.before k hk, h'.holds⟩
    rw [h'.size]
    exact h.holds.inside
  size := h'.size.trans h.size
  before k hk := (h'.before k (by omega)).trans (h.before k hk)

/-- A block of just these bytes. -/
def Block.ofList (xs : List UInt8) : Block := ⟨xs.length, fun k => xs.getD k 0⟩

theorem Block.ofList_holds (xs : List UInt8) : Holds (.ofList xs) 0 xs := by
  refine Holds.iff_get.2 ⟨by simp [Block.ofList], fun k hk => ?_⟩
  simp only [Block.ofList, Nat.zero_add]
  exact List.getD_eq_getElem xs 0 hk

end CassandraApi.C
