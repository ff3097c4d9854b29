/-
# `Codec.UrlEncode` — percent decoding

`url_decode_init` on the bytes of a C string.  It never fails: a `%` with
fewer than two bytes behind it is dropped, and bytes that are not hexadecimal
digits are run through the same arithmetic as those that are.  Where every `%` has
two hexadecimal digits behind it, the result is the text they stand for
(`urlDecodeInit_eq`).
-/
import CassandraApi.C.CString

namespace CassandraApi.Codec

open C

/-- Converts a hex character to its integer value, in `char` arithmetic. -/
def fromHex (ch : UInt8) : UInt8 :=
  if isDigit ch then ch - 48 else toLower ch - 97 + 10

/-- The decoded version of `str`. -/
def urlDecodeInit : List UInt8 → List UInt8
  | [] => []
  | 37 :: a :: b :: rest => (fromHex a <<< 4 ||| fromHex b) :: urlDecodeInit rest
  | c :: rest => if c = 37 then urlDecodeInit rest else c :: urlDecodeInit rest

/-! ## What it is for -/

/-- The value of a hexadecimal digit. -/
def hexValue (c : UInt8) : Option UInt8 :=
  if 48 ≤ c ∧ c ≤ 57 then some (c - 48)
  else if 65 ≤ c ∧ c ≤ 70 then some (c - 55)
  else if 97 ≤ c ∧ c ≤ 102 then some (c - 87)
  else none

/-- The text that stands behind escapes, each of them a `%` and two hexadecimal digits. -/
def percentDecode : List UInt8 → Option (List UInt8)
  | [] => some []
  | 37 :: a :: b :: rest => do
      let high ← hexValue a
      let low ← hexValue b
      let text ← percentDecode rest
      some ((16 * high + low) :: text)
  | c :: rest => if c = 37 then none else (percentDecode rest).map fun text => c :: text

theorem sub_lt_sixteen {c k low high : UInt8} (hlow : low ≤ c) (hhigh : c ≤ high)
    (hk : k ≤ low) (hspan : high.toNat < k.toNat + 16) : (c - k).toNat < 16 := by
  rw [UInt8.toNat_sub_of_le _ _ (UInt8.le_trans hk hlow)]
  have hle := UInt8.le_iff_toNat_le.1 hhigh
  omega

theorem fromHex_eq {c v : UInt8} (h : hexValue c = some v) :
    fromHex c = v ∧ v.toNat < 16 := by
  rw [hexValue] at h
  split_ifs at h with hdigit hupper hlower
  · obtain rfl := Option.some.inj h
    refine ⟨?_, sub_lt_sixteen hdigit.1 hdigit.2 (by decide) (by decide)⟩
    rw [fromHex, isDigit, if_pos (by simpa using hdigit)]
  · obtain rfl := Option.some.inj h
    refine ⟨?_, sub_lt_sixteen hupper.1 hupper.2 (by decide) (by decide)⟩
    rw [fromHex, isDigit, if_neg (by simpa using hdigit), toLower, if_pos (by grind)]
    grind
  · obtain rfl := Option.some.inj h
    refine ⟨?_, sub_lt_sixteen hlower.1 hlower.2 (by decide) (by decide)⟩
    rw [fromHex, isDigit, if_neg (by simpa using hdigit), toLower, if_neg (by grind)]
    grind

theorem shift_or : ∀ high < 16, ∀ low < 16,
    (UInt8.ofNat high <<< 4 ||| UInt8.ofNat low) = 16 * UInt8.ofNat high + UInt8.ofNat low := by
  decide +kernel

theorem urlDecodeInit_eq {s text : List UInt8} (h : percentDecode s = some text) :
    urlDecodeInit s = text := by
  induction s using percentDecode.induct generalizing text with
  | case1 =>
    cases h
    rfl
  | case2 a b rest ih =>
    rw [percentDecode] at h
    obtain ⟨high, hhigh, h⟩ := Option.bind_eq_some_iff.1 h
    obtain ⟨low, hlow, h⟩ := Option.bind_eq_some_iff.1 h
    obtain ⟨text, htext, h⟩ := Option.bind_eq_some_iff.1 h
    cases h
    obtain ⟨hfrom, hlt⟩ := fromHex_eq hhigh
    obtain ⟨hfrom', hlt'⟩ := fromHex_eq hlow
    have hvalue := shift_or high.toNat hlt low.toNat hlt'
    rw [UInt8.ofNat_toNat, UInt8.ofNat_toNat] at hvalue
    rw [urlDecodeInit, hfrom, hfrom', hvalue, ih htext]
  | case3 rest hno =>
    rw [percentDecode, if_pos rfl] at h
    · cases h
    · exact hno
  | case4 c rest hno hne ih =>
    rw [percentDecode, if_neg hne] at h
    · obtain ⟨text, htext, rfl⟩ := Option.map_eq_some_iff.1 h
      rw [urlDecodeInit, if_neg hne, ih htext]
      exact hno
    · exact hno

end CassandraApi.Codec
