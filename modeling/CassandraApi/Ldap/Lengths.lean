/-
# `Ldap.Lengths` — one writer and three readers of a length

INSERT_LENGTH writes a length; FIND_LENGTH, FIND_LEN and the loop that cuts the
stream into frames each read one with code of their own:

    INSERT_LENGTH   n           ↦  L
    FIND_LENGTH     L           ↦  n, behind L
    FIND_LEN        L           ↦  n, behind L, and the octets after the first
    the frame       30 L        ↦  1 + |L| + n

They agree on every length that the writer can write, which shifts an `int` by 32
from `2 ^ 24` on (`length_codec_iff`).
-/
import CassandraApi.Ber.Tlv
import CassandraApi.Ldap.Filter
import CassandraApi.Ldap.Framing

namespace CassandraApi.Ldap

open C Ber

/-- `L` is a definite length of `n`, and none has fewer octets. -/
def Shortest (n : Nat) (L : List UInt8) : Prop :=
  DefLen n L ∧ ∀ M, DefLen n M → L.length ≤ M.length

/-- What the readers make of the octets `L`, wherever they lie. -/
structure ReadBack (n : Nat) (L : List UInt8) : Prop where
  findLength : ∀ (buf : Block) (i : Nat), Holds buf i L →
    findLength buf i = .ok ((n : Int), ((i + L.length : Nat) : Int))
  findLen : ∀ (buf : Block) (i : Nat), Holds buf i L →
    findLen buf i = .ok ((n : Int), ((L.length - 1 : Nat) : Int), ((i + L.length : Nat) : Int))
  frameLength : ∀ (buf : Block) (p : Nat), Holds buf p (0x30 :: L) →
    frameLength buf p = .ok ((1 + L.length + n : Nat) : Int)

/-- The writer writes the shortest length of `n`, and the readers read it. -/
def Consistent (n : Nat) : Prop :=
  ∃ L, insertLength n = .ok L ∧ Shortest n L ∧ L.length ≤ 5 ∧ ReadBack n L

variable {n : Nat} {L : List UInt8}

/-- A length of four octets at most has as many as its value needs. -/
theorem lengthOctets_shortest (h : n < 2 ^ 24) : Shortest n (lengthOctets n) := by
  refine ⟨lengthOctets_defLen h, fun M hM => ?_⟩
  rcases hM.forms with ⟨hshort, rfl⟩ | ⟨os, hpos, hfour, rfl, rfl⟩
  · rw [lengthOctets, if_pos hshort]
  · have hlt := beVal_lt os
    have hlen : os.length = 1 ∨ os.length = 2 ∨ os.length = 3 ∨ os.length = 4 := by omega
    unfold lengthOctets
    rw [List.length_cons]
    rcases hlen with h1 | h2 | h3 | h4
    · rw [h1] at hlt
      split_ifs <;> simp [octets_length] <;> omega
    · rw [h2] at hlt
      split_ifs <;> simp [octets_length] <;> omega
    · rw [h3] at hlt
      split_ifs <;> simp [octets_length] <;> omega
    · split_ifs <;> simp [octets_length] <;> omega

/-- FIND_LEN counts what FIND_LENGTH steps over. -/
theorem findLen_eq {buf : Block} {i : Nat} (hL : DefLen n L) (hn : n < 2 ^ 31)
    (h : Holds buf i L) : findLen buf i =
      .ok ((n : Int), ((L.length - 1 : Nat) : Int), ((i + L.length : Nat) : Int)) := by
  have hpos := hL.length_pos
  have hsize : (i : Int) + L.length - (i + 1) = ((L.length - 1 : Nat) : Int) := by omega
  simp only [findLen, findLength_eq hL hn h, ok_bind, pure_eq_ok, hsize]
  push_cast
  rfl

theorem readBack_of_defLen (hL : DefLen n L) (hn : n < 2 ^ 31 - 6) : ReadBack n L where
  findLength buf i h := by
    rw [findLength_eq hL (by omega) h]
    push_cast
    rfl
  findLen buf i h := findLen_eq hL (by omega) h
  frameLength buf p h := by
    have hfive := hL.length_le
    exact frameLength_eq hL (by omega) h

/-- The codec of lengths is consistent on the lengths below `2 ^ 24`, and on no other. -/
theorem length_codec_iff (n : Nat) : Consistent n ↔ n < 2 ^ 24 := by
  constructor
  · rintro ⟨L, hL, -⟩
    rw [insertLength_eq_ite] at hL
    split at hL
    · assumption
    · cases hL
  · intro hn
    have hdef := lengthOctets_defLen hn
    refine ⟨lengthOctets n, ?_, lengthOctets_shortest hn, hdef.length_le, ?_⟩
    · rw [insertLength_eq_ite, if_pos hn]
    · exact readBack_of_defLen hdef (by omega)

/-- A length of sixteen megabytes is shifted by 32. -/
theorem length_codec_shift : ¬ Consistent (2 ^ 24) := by
  rintro ⟨L, hL, -⟩
  have hstuck : insertLength (2 ^ 24) = .error .stuck := by decide
  rw [hstuck] at hL
  cases hL

end CassandraApi.Ldap
