/-
# `Ber.Write` — writing lengths and message ids

`INSERT_LENGTH` writes a definite length: one octet below 128, `81 len` below
256, and from there on as many octets as the length needs.  It counts them in
the caller's variable `r`, which it leaves at 0, and does not touch `r`
otherwise; the callers use the same `r` for counts of their own, so it is part
of the state here (`scratchAfter`).

The count shifts an `int` by 8, 16, 24, … until nothing is left.  From `2 ^ 24`
on it would shift by 32, which C leaves undefined: the fault `stuck`.
-/
import CassandraApi.Ber.Length

namespace CassandraApi.Ber

open C

/-- `while ((len >> (r * 8)) > 0) r++`, for at most `left` shifts. -/
def countOctets (len : Nat) : Nat → Nat → Except Fault Nat
  | 0, _ => .error .stuck
  | left + 1, r => if 0 < len >>> (r * 8) then countOctets len left (r + 1) else .ok r

/-- The loop, started at `r`: shifts by 32 and more are undefined. -/
def octetsFrom (len r : Nat) : Except Fault Nat := countOctets len (4 - r) r

/-- The low `r` octets of `len`, most significant first. -/
def octets (len : Nat) : Nat → List UInt8
  | 0 => []
  | r + 1 => UInt8.ofNat (len >>> (r * 8)) :: octets len r

/-- `INSERT_LENGTH(_data, _i, _len)`: what it writes. -/
def insertLength (len : Nat) : Except Fault (List UInt8) :=
  if len < 128 then .ok [UInt8.ofNat len]
  else if len < 256 then .ok [0x81, UInt8.ofNat len]
  else do
    let r ← octetsFrom len 0
    pure (UInt8.ofNat (0x80 + r) :: octets len r)

/-- `r` after `INSERT_LENGTH(_data, _i, len)`. -/
def scratchAfter (len r : Nat) : Nat := if len < 256 then r else 0

/-- `INSERT_LENGTH(_data, _i, r)`, the scratch variable itself being the length: what it writes,
and `r` afterwards.  Setting `r` to 0 for the count loses the length. -/
def insertLengthOfScratch (r : Nat) : List UInt8 × Nat :=
  if r < 128 then ([UInt8.ofNat r], r)
  else if r < 256 then ([0x81, UInt8.ofNat r], r)
  else ([0x80], 0)

/-- `ber_tid_create`: the message id as a BER integer. -/
def berTidCreate (tid : Int) : Except Fault (List UInt8) := do
  -- `tid` is a `long`, so up to seven shifts are defined; a negative one counts as no octets
  let r ← countOctets tid.toNat 8 0
  -- `int min, max`: the doubling wraps
  let min := int32 (2 ^ (8 * r - 1))
  let max := int32 (2 ^ (8 * r))
  let lead := if min ≤ tid ∧ tid < max then [UInt8.ofNat (r + 1), 0] else [UInt8.ofNat r]
  pure (0x02 :: (lead ++ octets tid.toNat r))

/-! ## What they write -/

theorem octets_length (len : Nat) : ∀ r, (octets len r).length = r
  | 0 => rfl
  | r + 1 => by rw [octets, List.length_cons, octets_length len r]

theorem shiftRight_octets (len r : Nat) : len >>> (r * 8) = len / 256 ^ r := by
  rw [Nat.shiftRight_eq_div_pow, mul_comm r 8, pow_mul]
  norm_num

theorem beVal_octets (len : Nat) : ∀ r, beVal (octets len r) = len % 256 ^ r
  | 0 => by simp [octets, beVal, Nat.mod_one]
  | r + 1 => by
    rw [octets, beVal, octets_length, beVal_octets len r, UInt8.toNat_ofNat', shiftRight_octets,
      pow_succ 256 r, Nat.mod_mul]
    norm_num
    ring

theorem countOctets_eq {len : Nat} {left r n : Nat} (h : countOctets len left r = .ok n) :
    len < 256 ^ n ∧ r ≤ n ∧ (r < n → 256 ^ (n - 1) ≤ len) := by
  induction left generalizing r with
  | zero => simp [countOctets] at h
  | succ left ih =>
    rw [countOctets, shiftRight_octets] at h
    split at h
    · rename_i hpos
      obtain ⟨h1, h2, h3⟩ := ih h
      refine ⟨h1, by omega, fun _ => ?_⟩
      obtain rfl | hlt : r + 1 = n ∨ r + 1 < n := by omega
      · exact (Nat.div_pos_iff.1 hpos).2
      · exact h3 hlt
    · rename_i hpos
      obtain rfl : r = n := Except.ok.inj h
      refine ⟨?_, le_rfl, fun h => absurd h (lt_irrefl r)⟩
      exact (Nat.div_eq_zero_iff_lt (by positivity)).1 (Nat.eq_zero_of_not_pos hpos)

theorem countOctets_total (len left r : Nat) (h : len < 256 ^ (r + left)) :
    ∃ n, countOctets len (left + 1) r = .ok n ∧ n ≤ r + left := by
  induction left generalizing r with
  | zero =>
    refine ⟨r, ?_, le_rfl⟩
    rw [Nat.add_zero] at h
    rw [countOctets, shiftRight_octets, Nat.div_eq_of_lt h]
    rfl
  | succ left ih =>
    rw [countOctets]
    split
    · obtain ⟨n, hn, hle⟩ := ih (r + 1) (by rwa [Nat.add_right_comm])
      exact ⟨n, hn, by omega⟩
    · exact ⟨r, rfl, by omega⟩

/-- Below `2 ^ 24` the macro writes a definite length. -/
theorem insertLength_eq {len : Nat} (h : len < 2 ^ 24) :
    ∃ L, insertLength len = .ok L ∧ DefLen len L ∧ L.length ≤ 4 := by
  unfold insertLength
  split
  · rename_i hs
    exact ⟨_, rfl, .short hs, by simp⟩
  split
  · rename_i _ hlt
    refine ⟨_, rfl, ?_, by simp⟩
    have hv : beVal [UInt8.ofNat len] = len := by
      simp only [beVal, List.length_nil, pow_zero, UInt8.toNat_ofNat']
      omega
    have := DefLen.long [UInt8.ofNat len] (by simp) (by simp)
    rwa [hv] at this
  · rename_i _ hge
    obtain ⟨n, hn, hle⟩ := countOctets_total len 3 0 (by simpa using h)
    obtain ⟨hlt, -, -⟩ := countOctets_eq hn
    have hpos : 1 ≤ n := by
      by_contra h0
      obtain rfl : n = 0 := by omega
      simp only [pow_zero] at hlt
      omega
    refine ⟨UInt8.ofNat (0x80 + n) :: octets len n, ?_, ?_, ?_⟩
    · simp only [octetsFrom, Nat.sub_zero, hn, ok_bind, pure_eq_ok]
    · have hv : beVal (octets len n) = len := by
        rw [beVal_octets, Nat.mod_eq_of_lt hlt]
      have := DefLen.long (octets len n) (by rwa [octets_length]) (by rw [octets_length]; omega)
      rwa [hv, octets_length] at this
    · simp only [List.length_cons, octets_length]
      omega

end CassandraApi.Ber
