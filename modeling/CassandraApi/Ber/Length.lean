/-
# `Ber.Length` — definite lengths, and the two ways the code reads them

A BER definite length is either one octet below 128 (short form) or `0x80 + k`
followed by `k` octets, most significant first (long form).  `DefLen n L` says
that the octets `L` are such a length of value `n` with `1 ≤ k ≤ 4`; the long
form need not be minimal.

The code never reads a length through a function.  It repeats one loop,

    while (size > 0) { p++; pp = pp + (unsigned char) p[0];
                       if (size > 1) pp = pp << 8; size--; }

with the conversion to an unsigned octet spelled as a comparison with
`0xffffff00`.  `accLength` is that loop, `findLength` the macro `FIND_LENGTH`
around it.  Both work in wrapping `int`, so what they compute is the value of
the octets only below `2 ^ 31` (`accLength_eq`, `findLength_eq`).
-/
import CassandraApi.C.Memory

namespace CassandraApi.Ber

open C

/-! ## Big-endian values -/

/-- The number whose base-256 digits are `os`, most significant first. -/
def beVal : List UInt8 → Nat
  | [] => 0
  | o :: os => o.toNat * 256 ^ os.length + beVal os

theorem beVal_lt : ∀ os : List UInt8, beVal os < 256 ^ os.length
  | [] => by simp [beVal]
  | o :: os => by
    have ih := beVal_lt os
    have ho : o.toNat + 1 ≤ 256 := o.toNat_lt
    calc beVal (o :: os) < o.toNat * 256 ^ os.length + 256 ^ os.length := by
          simp only [beVal]; omega
      _ = (o.toNat + 1) * 256 ^ os.length := by ring
      _ ≤ 256 * 256 ^ os.length := Nat.mul_le_mul_right _ ho
      _ = 256 ^ (o :: os).length := by rw [List.length_cons]; ring

/-- `L` are the length octets of a definite length `n`. -/
inductive DefLen : Nat → List UInt8 → Prop where
  | short {n : Nat} (h : n < 128) : DefLen n [UInt8.ofNat n]
  | long (os : List UInt8) (pos : 1 ≤ os.length) (four : os.length ≤ 4) :
      DefLen (beVal os) (UInt8.ofNat (128 + os.length) :: os)

namespace DefLen

variable {n : Nat} {L : List UInt8}

theorem length_pos (h : DefLen n L) : 1 ≤ L.length := by
  cases h <;> simp

theorem length_le (h : DefLen n L) : L.length ≤ 5 := by
  cases h with
  | short => simp
  | long _ _ four => simp only [List.length_cons]; omega

end DefLen

/-! ## The loop over the length octets -/

/-- One octet as the loops convert it: `0xffffff00` is subtracted when the promoted
`char` is above it, which leaves the octet unsigned. -/
def addOctet (pp : Int) (c : UInt8) : Int :=
  if uint32 (schar c) > 0xffffff00 then int32 (pp + schar c - 0xffffff00)
  else int32 (pp + schar c)

theorem addOctet_eq (pp : Int) (c : UInt8) : addOctet pp c = int32 (pp + c.toNat) := by
  unfold addOctet
  have hc := c.toNat_lt
  split
  · rename_i h
    rw [uint32_schar_gt] at h
    have hs : schar c = (c.toNat : Int) - 256 := if_neg (by omega)
    rw [hs, show pp + (↑c.toNat - 256) - 0xffffff00 = (pp + c.toNat) - 2 ^ 32 by ring]
    exact Int.sub_bmod_right _ _
  · rename_i h
    rw [uint32_schar_gt] at h
    rw [schar_of_lt (by omega)]

/-- `while (size > 0) { p++; … size--; }`, `p` the index before the next octet. -/
def accLength (buf : Block) : Nat → Int → Int → Except Fault Int
  | 0, _, pp => .ok pp
  | size + 1, p, pp => do
    let c ← buf.rd (p + 1)
    let pp := addOctet pp c
    let pp := if size + 1 > 1 then int32 (pp * 256) else pp
    accLength buf size (p + 1) pp

/-- On octets that are there, the loop shifts `pp` past them and adds their value. -/
theorem accLength_eq {buf : Block} : ∀ {os : List UInt8} {p : Nat} (pp : Int),
    Holds buf (p + 1) os → os ≠ [] →
    accLength buf os.length p pp = .ok (int32 (pp * 256 ^ (os.length - 1) + beVal os))
  | [], _, _, _, h => absurd rfl h
  | [o], p, pp, h, _ => by
    have hr : buf.rd (p + 1) = .ok o := by exact_mod_cast h.rd
    simp [accLength, hr, addOctet_eq, beVal]
  | o :: o' :: os, p, pp, h, _ => by
    have hr : buf.rd (p + 1) = .ok o := by exact_mod_cast h.rd
    have ih := accLength_eq (p := p + 1) (int32 (addOctet pp o * 256)) h.tail (by simp)
    have hstep : accLength buf (o :: o' :: os).length p pp =
        accLength buf (o' :: os).length ((p + 1 : Nat) : Int) (int32 (addOctet pp o * 256)) := by
      simp [accLength, hr]
    rw [hstep, ih, addOctet_eq, int32_int32_mul]
    congr 1
    simp only [List.length_cons, Nat.add_sub_cancel, beVal, int32]
    rw [← Int.bmod_add_bmod, ← Int.bmod_mul_bmod, Int.bmod_bmod, Int.bmod_mul_bmod,
      Int.bmod_add_bmod]
    congr 1
    push_cast
    ring

/-! ## The macro FIND_LENGTH -/

/-- `FIND_LENGTH(_data, _len)` at the global index `i`: the length and the new `i`. -/
def findLength (buf : Block) (i : Int) : Except Fault (Int × Int) := do
  let c ← buf.rd i
  if uint32 (schar c) > 0xffffff00 then
    let size := int32 (uint32 (schar c) - 0xffffff80)
    let pp ← accLength buf size.toNat i 0
    pure (pp, i + size + 1)
  else pure (schar c, i + 1)

/-- The number of octets that the first length octet announces. -/
theorem lengthSize_eq {k : Nat} (h : k < 128) :
    uint32 (schar (UInt8.ofNat (128 + k))) > 0xffffff00 ∧
      int32 (uint32 (schar (UInt8.ofNat (128 + k))) - 0xffffff80) = k := by
  have ht : (UInt8.ofNat (128 + k)).toNat = 128 + k := by
    rw [UInt8.toNat_ofNat']; omega
  have hs : schar (UInt8.ofNat (128 + k)) = (k : Int) - 128 := by
    unfold schar
    rw [ht, if_neg (by omega)]
    push_cast
    ring
  have hu : uint32 (schar (UInt8.ofNat (128 + k))) = 0xffffff80 + k := by
    rw [hs]
    unfold uint32
    omega
  refine ⟨by rw [hu]; omega, ?_⟩
  rw [hu, show (0xffffff80 + (k : Int) - 0xffffff80) = (k : Int) by ring]
  exact int32_natCast (by omega)

theorem findLength_eq {buf : Block} {i n : Nat} {L : List UInt8} (hL : DefLen n L)
    (hn : n < 2 ^ 31) (h : Holds buf i L) :
    findLength buf i = .ok ((n : Int), (i + L.length : Int)) := by
  cases hL with
  | short hlt =>
    have ht : (UInt8.ofNat n).toNat = n := by rw [UInt8.toNat_ofNat']; omega
    have hn' : ¬ uint32 (schar (UInt8.ofNat n)) > 0xffffff00 := by
      rw [uint32_schar_gt, ht]; omega
    have hs : schar (UInt8.ofNat n) = n := by rw [schar_of_lt (by omega), ht]
    rw [findLength, h.rd, ok_bind, if_neg hn', hs]
    rfl
  | long os pos four =>
    obtain ⟨hgt, hsz⟩ := lengthSize_eq (k := os.length) (by omega)
    have hne : os ≠ [] := by rintro rfl; simp at pos
    have hacc := accLength_eq 0 h.tail hne
    rw [findLength, h.rd, ok_bind, if_pos hgt]
    simp only [hsz, Int.toNat_natCast, hacc, ok_bind, Int.zero_mul, Int.zero_add,
      int32_natCast hn, pure_eq_ok, List.length_cons]
    push_cast
    ring_nf

end CassandraApi.Ber
