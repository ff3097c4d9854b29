/-
# `Codec.Md5` — a digest, however the message comes

md5_append takes a message in pieces: it fills the block that is begun, processes
the blocks that are whole where they lie, and keeps the rest.  md5_finish appends
the padding and the length.  The digest is that of the whole message (`digestOf`),
whatever the pieces, as long as the bytes kept and those of a piece can be added
as `int`s (`md5_of_pieces_iff`): beyond that the copy into the block begun is as
long as the piece.
-/
import CassandraApi.C.Memory
import CassandraApi.Lib.Blocks

namespace CassandraApi.Codec.Md5

open C Lib

/-! ## One block -/

/-- T_MASK -/
def tMask : UInt32 := 0xffffffff

/-- T1 to T64. -/
def tTable : List UInt32 :=
  [tMask ^^^ 0x28955b87, tMask ^^^ 0x173848a9, 0x242070db, tMask ^^^ 0x3e423111,
    tMask ^^^ 0x0a83f050, 0x4787c62a, tMask ^^^ 0x57cfb9ec, tMask ^^^ 0x02b96afe,
    0x698098d8, tMask ^^^ 0x74bb0850, tMask ^^^ 0x0000a44e, tMask ^^^ 0x76a32841,
    0x6b901122, tMask ^^^ 0x02678e6c, tMask ^^^ 0x5986bc71, 0x49b40821,
    tMask ^^^ 0x09e1da9d, tMask ^^^ 0x3fbf4cbf, 0x265e5a51, tMask ^^^ 0x16493855,
    tMask ^^^ 0x29d0efa2, 0x02441453, tMask ^^^ 0x275e197e, tMask ^^^ 0x182c0437,
    0x21e1cde6, tMask ^^^ 0x3cc8f829, tMask ^^^ 0x0b2af278, 0x455a14ed,
    tMask ^^^ 0x561c16fa, tMask ^^^ 0x03105c07, 0x676f02d9, tMask ^^^ 0x72d5b375,
    tMask ^^^ 0x0005c6bd, tMask ^^^ 0x788e097e, 0x6d9d6122, tMask ^^^ 0x021ac7f3,
    tMask ^^^ 0x5b4115bb, 0x4bdecfa9, tMask ^^^ 0x0944b49f, tMask ^^^ 0x4140438f,
    0x289b7ec6, tMask ^^^ 0x155ed805, tMask ^^^ 0x2b10cf7a, 0x04881d05,
    tMask ^^^ 0x262b2fc6, tMask ^^^ 0x1924661a, 0x1fa27cf8, tMask ^^^ 0x3b53a99a,
    tMask ^^^ 0x0bd6ddbb, 0x432aff97, tMask ^^^ 0x546bdc58, tMask ^^^ 0x036c5fc6,
    0x655b59c3, tMask ^^^ 0x70f3336d, tMask ^^^ 0x00100b82, tMask ^^^ 0x7a7ba22e,
    0x6fa87e4f, tMask ^^^ 0x01d3191f, tMask ^^^ 0x5cfebceb, 0x4e0811a1,
    tMask ^^^ 0x08ac817d, tMask ^^^ 0x42c50dca, 0x2ad7d2bb, tMask ^^^ 0x14792c6e]

def t (i : Nat) : UInt32 := tTable.getD (i - 1) 0

/-- F, G, H and I of md5_process. -/
def fMix (x y z : UInt32) : UInt32 := (x &&& y) ||| (~~~x &&& z)
def gMix (x y z : UInt32) : UInt32 := (x &&& z) ||| (y &&& ~~~z)
def hMix (x y z : UInt32) : UInt32 := x ^^^ y ^^^ z
def iMix (x y z : UInt32) : UInt32 := y ^^^ (x ||| ~~~z)

/-- ROTATE_LEFT -/
def rotateLeft (x n : UInt32) : UInt32 := (x <<< n) ||| (x >>> (32 - n))

/-- SET, the value that it gives to `a`. -/
def set (mix : UInt32 → UInt32 → UInt32 → UInt32) (a b c d x s ti : UInt32) : UInt32 :=
  rotateLeft (a + mix b c d + x + ti) s + b

/-- `abcd` of md5_state_t. -/
structure Registers where
  a : UInt32
  b : UInt32
  c : UInt32
  d : UInt32
  deriving DecidableEq

/-- The word at `xp`, the least byte first. -/
def word (block : List UInt8) (k : Nat) : UInt32 :=
  let xp := fun i => (block.getD (4 * k + i) 0).toUInt32
  xp 0 + (xp 1 <<< 8) + (xp 2 <<< 16) + (xp 3 <<< 24)

/-- Round 1 of md5_process. -/
def round1 (x : Nat → UInt32) : Registers → Registers
  | ⟨a, b, c, d⟩ =>
    let a := set fMix a b c d (x 0) 7 (t 1)
    let d := set fMix d a b c (x 1) 12 (t 2)
    let c := set fMix c d a b (x 2) 17 (t 3)
    let b := set fMix b c d a (x 3) 22 (t 4)
    let a := set fMix a b c d (x 4) 7 (t 5)
    let d := set fMix d a b c (x 5) 12 (t 6)
    let c := set fMix c d a b (x 6) 17 (t 7)
    let b := set fMix b c d a (x 7) 22 (t 8)
    let a := set fMix a b c d (x 8) 7 (t 9)
    let d := set fMix d a b c (x 9) 12 (t 10)
    let c := set fMix c d a b (x 10) 17 (t 11)
    let b := set fMix b c d a (x 11) 22 (t 12)
    let a := set fMix a b c d (x 12) 7 (t 13)
    let d := set fMix d a b c (x 13) 12 (t 14)
    let c := set fMix c d a b (x 14) 17 (t 15)
    let b := set fMix b c d a (x 15) 22 (t 16)
    ⟨a, b, c, d⟩

/-- Round 2 of md5_process. -/
def round2 (x : Nat → UInt32) : Registers → Registers
  | ⟨a, b, c, d⟩ =>
    let a := set gMix a b c d (x 1) 5 (t 17)
    let d := set gMix d a b c (x 6) 9 (t 18)
    let c := set gMix c d a b (x 11) 14 (t 19)
    let b := set gMix b c d a (x 0) 20 (t 20)
    let a := set gMix a b c d (x 5) 5 (t 21)
    let d := set gMix d a b c (x 10) 9 (t 22)
    let c := set gMix c d a b (x 15) 14 (t 23)
    let b := set gMix b c d a (x 4) 20 (t 24)
    let a := set gMix a b c d (x 9) 5 (t 25)
    let d := set gMix d a b c (x 14) 9 (t 26)
    let c := set gMix c d a b (x 3) 14 (t 27)
    let b := set gMix b c d a (x 8) 20 (t 28)
    let a := set gMix a b c d (x 13) 5 (t 29)
    let d := set gMix d a b c (x 2) 9 (t 30)
    let c := set gMix c d a b (x 7) 14 (t 31)
    let b := set gMix b c d a (x 12) 20 (t 32)
    ⟨a, b, c, d⟩

/-- Round 3 of md5_process. -/
def round3 (x : Nat → UInt32) : Registers → Registers
  | ⟨a, b, c, d⟩ =>
    let a := set hMix a b c d (x 5) 4 (t 33)
    let d := set hMix d a b c (x 8) 11 (t 34)
    let c := set hMix c d a b (x 11) 16 (t 35)
    let b := set hMix b c d a (x 14) 23 (t 36)
    let a := set hMix a b c d (x 1) 4 (t 37)
    let d := set hMix d a b c (x 4) 11 (t 38)
    let c := set hMix c d a b (x 7) 16 (t 39)
    let b := set hMix b c d a (x 10) 23 (t 40)
    let a := set hMix a b c d (x 13) 4 (t 41)
    let d := set hMix d a b c (x 0) 11 (t 42)
    let c := set hMix c d a b (x 3) 16 (t 43)
    let b := set hMix b c d a (x 6) 23 (t 44)
    let a := set hMix a b c d (x 9) 4 (t 45)
    let d := set hMix d a b c (x 12) 11 (t 46)
    let c := set hMix c d a b (x 15) 16 (t 47)
    let b := set hMix b c d a (x 2) 23 (t 48)
    ⟨a, b, c, d⟩

/-- Round 4 of md5_process. -/
def round4 (x : Nat → UInt32) : Registers → Registers
  | ⟨a, b, c, d⟩ =>
    let a := set iMix a b c d (x 0) 6 (t 49)
    let d := set iMix d a b c (x 7) 10 (t 50)
    let c := set iMix c d a b (x 14) 15 (t 51)
    let b := set iMix b c d a (x 5) 21 (t 52)
    let a := set iMix a b c d (x 12) 6 (t 53)
    let d := set iMix d a b c (x 3) 10 (t 54)
    let c := set iMix c d a b (x 10) 15 (t 55)
    let b := set iMix b c d a (x 1) 21 (t 56)
    let a := set iMix a b c d (x 8) 6 (t 57)
    let d := set iMix d a b c (x 15) 10 (t 58)
    let c := set iMix c d a b (x 6) 15 (t 59)
    let b := set iMix b c d a (x 13) 21 (t 60)
    let a := set iMix a b c d (x 4) 6 (t 61)
    let d := set iMix d a b c (x 11) 10 (t 62)
    let c := set iMix c d a b (x 2) 15 (t 63)
    let b := set iMix b c d a (x 9) 21 (t 64)
    ⟨a, b, c, d⟩

/-- md5_process -/
def md5Process (r : Registers) (block : List UInt8) : Registers :=
  let x := word block
  let r' := round4 x (round3 x (round2 x (round1 x r)))
  ⟨r.a + r'.a, r.b + r'.b, r.c + r'.c, r.d + r'.d⟩

/-! ## The message -/

/-- md5_state_t -/
structure Md5State where
  count0 : UInt32
  count1 : UInt32
  abcd : Registers
  buf : Block

def initial : Registers := ⟨0x67452301, tMask ^^^ 0x10325476, tMask ^^^ 0x67452301, 0x10325476⟩

/-- md5_init.  `garbage` is what the buffer holds. -/
def md5Init (garbage : Nat → UInt8) : Md5State := ⟨0, 0, initial, ⟨64, garbage⟩⟩

/-- A conversion to md5_word_t. -/
def toWord (x : Int) : UInt32 := UInt32.ofNat (uint32 x).toNat

/-- The blocks of a piece that are whole, from `p` on. -/
def processBlocks (data : Block) : Nat → Int → Int → Registers →
    Except Fault (Registers × Int × Int)
  | 0, _, _, _ => .error .stuck
  | turns + 1, p, left, r =>
      if left ≥ 64 then do
        let block ← data.load p 64
        processBlocks data turns (p + 64) (left - 64) (md5Process r block)
      else .ok (r, p, left)

/-- md5_append behind the block that was begun. -/
def appendRest (pms : Md5State) (data : Block) (p left : Int) : Except Fault Md5State := do
  let (abcd, p, left) ← processBlocks data (left.toNat + 1) p left pms.abcd
  if left ≠ 0 then do
    let buf ← pms.buf.write 0 (← data.load p left)
    pure { pms with abcd := abcd, buf := buf }
  else pure { pms with abcd := abcd }

/-- The length of the message, and its carry. -/
def addCount (pms : Md5State) (nbytes : Int) : Md5State :=
  let nbits := toWord (int32 (nbytes * 8))
  let count0 := pms.count0 + nbits
  let count1 := pms.count1 + toWord (nbytes / 2 ^ 29)
  { pms with count0 := count0, count1 := if count0 < nbits then count1 + 1 else count1 }

/-- md5_append -/
def md5Append (pms : Md5State) (data : Block) (nbytes : Int) : Except Fault Md5State :=
  let offset : Int := ((pms.count0 >>> 3) &&& 63).toNat
  if nbytes ≤ 0 then .ok pms
  else
    let pms := addCount pms nbytes
    if offset ≠ 0 then do
      let copy := if int32 (offset + nbytes) > 64 then 64 - offset else nbytes
      let buf ← pms.buf.write offset (← data.load 0 copy)
      if int32 (offset + copy) < 64 then pure { pms with buf := buf }
      else do
        let block ← buf.load 0 64
        appendRest { pms with abcd := md5Process pms.abcd block, buf := buf } data copy
          (nbytes - copy)
    else appendRest pms data 0 nbytes

/-- `pad` of md5_finish. -/
def pad : List UInt8 := 0x80 :: List.replicate 63 0

/-- The bytes of two words, the least first. -/
def octetsOf (w : Nat → UInt32) (n : Nat) : List UInt8 :=
  (List.range n).map fun i => (w (i >>> 2) >>> UInt32.ofNat ((i &&& 3) <<< 3)).toUInt8

def Registers.get (r : Registers) : Nat → UInt32
  | 0 => r.a
  | 1 => r.b
  | 2 => r.c
  | _ => r.d

/-- md5_finish -/
def md5Finish (pms : Md5State) : Except Fault (List UInt8) := do
  let data := octetsOf (fun i => if i = 0 then pms.count0 else pms.count1) 8
  let pms ← md5Append pms (.ofList pad) ((((55 : UInt32) - (pms.count0 >>> 3)) &&& 63).toNat + 1)
  let pms ← md5Append pms (.ofList data) 8
  pure (octetsOf pms.abcd.get 16)

/-- The digest of the pieces of a message. -/
def digestPieces (garbage : Nat → UInt8) (pieces : List (List UInt8)) :
    Except Fault (List UInt8) := do
  let pms ← pieces.foldlM (fun pms piece => md5Append pms (.ofList piece) piece.length)
    (md5Init garbage)
  md5Finish pms

/-! ## The digest of a message -/

/-- The bytes of a number, the least first. -/
def leOctets (x n : Nat) : List UInt8 := (List.range n).map fun i => UInt8.ofNat (x / 256 ^ i)

/-- What is appended to a message of `n` bytes: a one, zeros up to eight bytes before the end of a
block, and its length in bits. -/
def padding (n : Nat) : List UInt8 :=
  pad.take ((119 - n % 64) % 64 + 1) ++ leOctets (8 * n % 2 ^ 64) 8

/-- The digest of a message. -/
def digestOf (msg : List UInt8) : List UInt8 :=
  octetsOf ((wholeBlocks 64 (msg ++ padding msg.length)).foldl md5Process initial).get 16

example : digestOf [] = [0xd4, 0x1d, 0x8c, 0xd9, 0x8f, 0x00, 0xb2, 0x04,
    0xe9, 0x80, 0x09, 0x98, 0xec, 0xf8, 0x42, 0x7e] := by decide +kernel


/-! ## Counting -/

/-- What there is after the bytes `msg`: the blocks that are whole have been processed, the others
are in the buffer. -/
structure Of (pms : Md5State) (msg : List UInt8) : Prop where
  abcd : pms.abcd = (wholeBlocks 64 msg).foldl md5Process initial
  buf : Holds pms.buf 0 (blockRest 64 msg)
  size : pms.buf.size = 64
  count : pms.count0.toNat + 2 ^ 32 * pms.count1.toNat = 8 * msg.length % 2 ^ 64

theorem md5Init_of (garbage : Nat → UInt8) : Of (md5Init garbage) [] where
  abcd := rfl
  buf := .nil (Nat.zero_le _)
  size := rfl
  count := rfl

variable {pms pms' : Md5State} {msg piece xs : List UInt8} {data : Block} {p n : Nat}

theorem toWord_toNat (n : Nat) : (toWord n).toNat = n % 2 ^ 32 := by
  rw [toWord, uint32, UInt32.toNat_ofNat']
  omega

theorem toWord_int32 (x : Int) : toWord (int32 x) = toWord x := by
  have h : int32 x % 2 ^ 32 = x % 2 ^ 32 := Int.bmod_emod
  rw [toWord, toWord, uint32, uint32, h]

/-- The bytes of the message, as counted, without their blocks. -/
theorem Of.offset (h : Of pms msg) : ((pms.count0 >>> 3) &&& 63).toNat = msg.length % 64 := by
  have hlow := pms.count0.toNat_lt
  have hcount := h.count
  have hdiv : (pms.count0 >>> 3).toNat = pms.count0.toNat / 8 := by
    rw [UInt32.toNat_shiftRight, Nat.shiftRight_eq_div_pow]
    rfl
  rw [UInt32.toNat_and, hdiv]
  have hmod := Nat.and_two_pow_sub_one_eq_mod (pms.count0.toNat / 8) 6
  rw [show (63 : UInt32).toNat = 2 ^ 6 - 1 from rfl, hmod]
  omega

theorem addCount_count (h : Of pms msg) :
    (addCount pms n).count0.toNat + 2 ^ 32 * (addCount pms n).count1.toNat =
      8 * (msg.length + n) % 2 ^ 64 := by
  have hlow := pms.count0.toNat_lt
  have hhigh := pms.count1.toNat_lt
  have hcount := h.count
  have hbits : (toWord (int32 ((n : Int) * 8))).toNat = n * 8 % 2 ^ 32 := by
    rw [toWord_int32]
    exact_mod_cast toWord_toNat (n * 8)
  have hover : (toWord ((n : Int) / 2 ^ 29)).toNat = n / 2 ^ 29 % 2 ^ 32 := by
    exact_mod_cast toWord_toNat (n / 2 ^ 29)
  simp only [addCount]
  split
  · rename_i hcarry
    rw [UInt32.lt_iff_toNat_lt, UInt32.toNat_add, hbits] at hcarry
    rw [UInt32.toNat_add, UInt32.toNat_add, UInt32.toNat_add, hbits, hover,
      show (1 : UInt32).toNat = 1 from rfl]
    omega
  · rename_i hcarry
    rw [UInt32.lt_iff_toNat_lt, UInt32.toNat_add, hbits] at hcarry
    rw [UInt32.toNat_add, UInt32.toNat_add, hbits, hover]
    omega

/-! ## One piece -/

/-- The loop, on a piece that lies in the block. -/
theorem processBlocks_ok (hxs : Holds data p xs) {turns : Nat} (ht : xs.length < 64 * turns)
    (r : Registers) :
    processBlocks data turns p xs.length r =
        .ok ((wholeBlocks 64 xs).foldl md5Process r, ((p + 64 * (xs.length / 64) : Nat) : Int),
          ((blockRest 64 xs).length : Int)) ∧
      Holds data (p + 64 * (xs.length / 64)) (blockRest 64 xs) := by
  induction turns generalizing p xs r with
  | zero => omega
  | succ turns ih =>
    rw [processBlocks]
    by_cases hshort : xs.length < 64
    · rw [if_neg (by omega), wholeBlocks_short hshort, blockRest_short hshort,
        Nat.div_eq_of_lt hshort, Nat.mul_zero, Nat.add_zero, List.foldl_nil]
      exact ⟨rfl, hxs⟩
    · obtain ⟨b, ys, rfl, hb⟩ : ∃ b ys, xs = b ++ ys ∧ b.length = 64 :=
        ⟨xs.take 64, xs.drop 64, (List.take_append_drop 64 xs).symm,
          List.length_take_of_le (by omega)⟩
      have hload : data.load p 64 = .ok b := by
        have := hxs.left.load
        rwa [hb] at this
      have hys : Holds data (p + 64) ys := hb ▸ hxs.right
      rw [List.length_append, hb] at ht ⊢
      obtain ⟨hrun, hrest⟩ := ih hys (by omega) (md5Process r b)
      have hdiv : (64 + ys.length) / 64 = ys.length / 64 + 1 := by omega
      have hp : p + 64 * (ys.length / 64 + 1) = p + 64 + 64 * (ys.length / 64) := by omega
      have hleft : ((64 + ys.length : Nat) : Int) - 64 = ys.length := by omega
      rw [if_pos (by omega), hload, ok_bind, wholeBlocks_cons (by omega) hb, List.foldl_cons,
        blockRest_cons (by omega) hb, hdiv, hp, hleft]
      exact ⟨hrun, hrest⟩

/-- Behind the block that was begun. -/
theorem appendRest_ok (hxs : Holds data p xs) (hsize : pms.buf.size = 64) :
    ∃ pms', appendRest pms data p xs.length = .ok pms' ∧
      pms'.abcd = (wholeBlocks 64 xs).foldl md5Process pms.abcd ∧
      Holds pms'.buf 0 (blockRest 64 xs) ∧ pms'.buf.size = 64 ∧
      pms'.count0 = pms.count0 ∧ pms'.count1 = pms.count1 := by
  have hturns : xs.length < 64 * ((xs.length : Int).toNat + 1) := by omega
  obtain ⟨hrun, hrest⟩ := processBlocks_ok hxs hturns pms.abcd
  have hlt : (blockRest 64 xs).length < 64 := by
    rw [length_blockRest]
    omega
  rw [appendRest, hrun]
  simp only [ok_bind]
  by_cases hnil : (blockRest 64 xs).length = 0
  · rw [if_neg (by omega), List.length_eq_zero_iff.1 hnil]
    exact ⟨_, rfl, rfl, .nil (Nat.zero_le _), hsize, rfl, rfl⟩
  · obtain ⟨buf, hbuf, hfilled⟩ :=
      write_filled (show 0 + (blockRest 64 xs).length ≤ pms.buf.size by omega)
    rw [Nat.cast_zero] at hbuf
    rw [if_pos (by omega), hrest.load, ok_bind, hbuf, ok_bind]
    exact ⟨_, rfl, rfl, hfilled.holds, hfilled.size.trans hsize, rfl, rfl⟩

@[simp] theorem addCount_abcd (pms : Md5State) (nbytes : Int) :
    (addCount pms nbytes).abcd = pms.abcd := rfl

@[simp] theorem addCount_buf (pms : Md5State) (nbytes : Int) :
    (addCount pms nbytes).buf = pms.buf := rfl

theorem load_front (h : Holds data 0 xs) : data.load 0 xs.length = .ok xs := by
  have hload := h.load
  rwa [Nat.cast_zero] at hload

/-- md5_append can add up the bytes kept and those of the piece. -/
def Room (msg piece : List UInt8) : Prop :=
  msg.length % 64 = 0 ∨ msg.length % 64 + piece.length < 2 ^ 31

/-- A piece that comes when no block is begun. -/
theorem Of.append_whole (h : Of pms msg) (hpiece : Holds data 0 piece)
    (hrest : msg.length % 64 = 0) :
    ∃ pms', appendRest (addCount pms piece.length) data 0 piece.length = .ok pms' ∧
      Of pms' (msg ++ piece) := by
  have hnil : blockRest 64 msg = [] :=
    List.length_eq_zero_iff.1 (length_blockRest.trans hrest)
  have hsize : (addCount pms piece.length).buf.size = 64 := by
    rw [addCount_buf, h.size]
  obtain ⟨pms', hrun, habcd, hbuf, hsize, hcount0, hcount1⟩ := appendRest_ok hpiece hsize
  rw [Nat.cast_zero] at hrun
  refine ⟨pms', hrun, ?_, ?_, hsize, ?_⟩
  · rw [habcd, addCount_abcd, h.abcd, wholeBlocks_append (by omega), hnil, List.nil_append,
      List.foldl_append]
  · rwa [blockRest_append (by omega), hnil, List.nil_append]
  · rw [hcount0, hcount1, addCount_count h, List.length_append]

/-- What is copied behind the bytes of a block that is begun. -/
theorem copy_length (hmany : n + piece.length < 2 ^ 31) (hn : n < 64) :
    (if int32 ((n : Int) + piece.length) > 64 then 64 - (n : Int) else piece.length) =
      (piece.take (64 - n)).length := by
  rw [int32_of_range (by omega) (by omega), List.length_take]
  split <;> omega

/-- md5_append, where it can. -/
theorem Of.append (h : Of pms msg) (hpiece : Holds data 0 piece) (hlen : piece.length < 2 ^ 31)
    (room : Room msg piece) :
    ∃ pms', md5Append pms data piece.length = .ok pms' ∧ Of pms' (msg ++ piece) := by
  rw [md5Append, h.offset]
  simp only
  by_cases hnone : piece = []
  · rw [if_pos (by simp [hnone]), hnone, List.append_nil]
    exact ⟨pms, rfl, h⟩
  have hpos := List.length_pos_iff.2 hnone
  rw [if_neg (by omega)]
  by_cases hrest : msg.length % 64 = 0
  · rw [if_neg (by omega)]
    exact h.append_whole hpiece hrest
  -- A block is begun: the piece fills it, or is used up.
  have hmany := room.resolve_left hrest
  have hlt := Nat.mod_lt msg.length (by omega : 64 > 0)
  have hkept : (blockRest 64 msg).length = msg.length % 64 := length_blockRest
  rw [if_pos (by omega), copy_length hmany hlt]
  obtain ⟨first, last, hparts, hfirst⟩ : ∃ first last, piece = first ++ last ∧
      first = piece.take (64 - msg.length % 64) :=
    ⟨_, _, (List.take_append_drop _ piece).symm, rfl⟩
  have hfirst' : first.length = min (64 - msg.length % 64) piece.length := by
    rw [hfirst, List.length_take]
  have hsum : piece.length = first.length + last.length := by
    rw [hparts, List.length_append]
  have hroom : msg.length % 64 + first.length ≤ pms.buf.size := by
    rw [h.size]
    omega
  obtain ⟨buf, hw, hfilled⟩ := write_filled hroom
  have hbuf : Holds buf 0 (blockRest 64 msg ++ first) := by
    refine Holds.append_iff.2 ⟨h.buf.frame ?_ fun k _ hk => hfilled.before k (by omega), ?_⟩
    · rw [hfilled.size, h.size]
      omega
    · rw [hkept, Nat.zero_add]
      exact hfilled.holds
  have hsize : buf.size = 64 := hfilled.size.trans h.size
  rw [← hfirst, load_front (hparts ▸ hpiece).left, ok_bind, addCount_buf, hw, ok_bind,
    int32_of_range (by omega) (by omega)]
  by_cases hbegun : msg.length % 64 + first.length < 64
  · have hlast : last = [] := List.length_eq_zero_iff.1 (by omega)
    have hshort : (blockRest 64 msg ++ piece).length < 64 := by
      rw [List.length_append, hkept]
      omega
    rw [if_pos (by omega)]
    refine ⟨_, rfl, ?_, ?_, hsize, ?_⟩
    · rw [wholeBlocks_append (by omega), wholeBlocks_short hshort, List.append_nil,
        addCount_abcd, h.abcd]
    · rw [blockRest_append (by omega), blockRest_short hshort, hparts, hlast, List.append_nil]
      exact hbuf
    · rw [addCount_count h, List.length_append]
  · have hblock : (blockRest 64 msg ++ first).length = 64 := by
      rw [List.length_append, hkept]
      omega
    have hload : buf.load 0 64 = .ok (blockRest 64 msg ++ first) := by
      have hload := load_front hbuf
      rwa [hblock] at hload
    have hrest' : Holds data first.length last := by
      have := (hparts ▸ hpiece : Holds data 0 (first ++ last)).right
      rwa [Nat.zero_add] at this
    have hleft : (piece.length : Int) - first.length = last.length := by omega
    rw [if_neg (by omega), hleft]
    have hbegun : ({ addCount pms piece.length with
        abcd := md5Process pms.abcd (blockRest 64 msg ++ first)
        buf := buf } : Md5State).buf.size = 64 := hsize
    obtain ⟨pms', hrun, habcd, hbuf', hsize', hcount0, hcount1⟩ := appendRest_ok hrest' hbegun
    have hwhole : blockRest 64 msg ++ piece = (blockRest 64 msg ++ first) ++ last := by
      rw [hparts, List.append_assoc]
    rw [hload, ok_bind, addCount_abcd]
    refine ⟨pms', hrun, ?_, ?_, hsize', ?_⟩
    · rw [habcd, wholeBlocks_append (by omega), hwhole, wholeBlocks_cons (by omega) hblock,
        List.foldl_append, List.foldl_cons, h.abcd]
    · rwa [blockRest_append (by omega), hwhole, blockRest_cons (by omega) hblock]
    · rw [hcount0, hcount1, addCount_count h, List.length_append]

/-- And where it cannot: the sum is below zero, and the piece is copied whole. -/
theorem Of.overrun (h : Of pms msg) (hlen : piece.length < 2 ^ 31) (room : ¬ Room msg piece) :
    md5Append pms (.ofList piece) piece.length = .error .overrun := by
  obtain ⟨hrest, hmany⟩ := not_or.1 room
  have hlt := Nat.mod_lt msg.length (by omega : 64 > 0)
  have hsum : int32 (((msg.length % 64 : Nat) : Int) + piece.length) < 0 := by
    simp only [int32, Int.bmod]
    split <;> omega
  have hw : pms.buf.write (msg.length % 64 : Nat) piece = .error .overrun := by
    rw [Block.write, if_neg]
    rw [h.size]
    omega
  rw [md5Append, h.offset]
  simp only
  rw [if_neg (by omega), if_pos (by omega), if_neg (by omega),
    load_front (Block.ofList_holds piece), ok_bind, addCount_buf, hw]
  rfl

/-! ## The end of the message -/

/-- The length, as md5_finish saves it. -/
theorem octetsOf_count (h : Of pms msg) :
    octetsOf (fun i => if i = 0 then pms.count0 else pms.count1) 8 =
      leOctets (8 * msg.length % 2 ^ 64) 8 := by
  have hlow := pms.count0.toNat_lt
  rw [← h.count, octetsOf, leOctets]
  refine List.map_congr_left fun i hi => UInt8.toNat_inj.1 ?_
  have hlt : i < 8 := List.mem_range.1 hi
  interval_cases i <;>
    simp only [UInt32.toNat_toUInt8, UInt32.toNat_shiftRight, Nat.shiftRight_eq_div_pow,
      UInt8.toNat_ofNat'] <;> simp <;> omega

/-- The bytes of `pad` that are appended. -/
theorem pad_count (h : Of pms msg) :
    ((((55 : UInt32) - (pms.count0 >>> 3)) &&& 63).toNat + 1 : Int) =
      (pad.take ((119 - msg.length % 64) % 64 + 1)).length := by
  have hcount := h.count
  have hlow := pms.count0.toNat_lt
  have hdiv : (pms.count0 >>> 3).toNat = pms.count0.toNat / 8 := by
    rw [UInt32.toNat_shiftRight, Nat.shiftRight_eq_div_pow]
    rfl
  have hmod := Nat.and_two_pow_sub_one_eq_mod ((55 : UInt32) - (pms.count0 >>> 3)).toNat 6
  have hpad : pad.length = 64 := rfl
  rw [UInt32.toNat_and, show (63 : UInt32).toNat = 2 ^ 6 - 1 from rfl, hmod, UInt32.toNat_sub, hdiv,
    List.length_take, hpad, show (55 : UInt32).toNat = 55 from rfl]
  omega

theorem length_leOctets (x n : Nat) : (leOctets x n).length = n := by
  rw [leOctets, List.length_map, List.length_range]

theorem length_pad_take (n : Nat) : (pad.take n).length ≤ 64 := by
  rw [List.length_take]
  exact Nat.min_le_right _ _

theorem room_short {msg piece : List UInt8} (h : piece.length ≤ 64) : Room msg piece := by
  have hlt := Nat.mod_lt msg.length (by omega : 64 > 0)
  exact .inr (by omega)

/-- md5_finish -/
theorem Of.finish (h : Of pms msg) : md5Finish pms = .ok (digestOf msg) := by
  have hpad : Holds (.ofList pad) 0 (pad.take ((119 - msg.length % 64) % 64 + 1)) := by
    have hwhole := Block.ofList_holds pad
    nth_rewrite 2 [← List.take_append_drop ((119 - msg.length % 64) % 64 + 1) pad] at hwhole
    exact hwhole.left
  have hlen := length_pad_take ((119 - msg.length % 64) % 64 + 1)
  obtain ⟨pms₁, hrun₁, h₁⟩ := h.append hpad (by omega) (room_short hlen)
  have height := length_leOctets (8 * msg.length % 2 ^ 64) 8
  obtain ⟨pms₂, hrun₂, h₂⟩ := h₁.append
    (Block.ofList_holds (leOctets (8 * msg.length % 2 ^ 64) 8)) (by omega) (room_short (by omega))
  rw [height] at hrun₂
  rw [md5Finish, pad_count h, octetsOf_count h, hrun₁, ok_bind]
  rw [show (8 : Int) = ((8 : Nat) : Int) from rfl, hrun₂, ok_bind, h₂.abcd, List.append_assoc]
  rfl

/-! ## A message in pieces -/

/-- Every piece has room behind those before it. -/
def AllRoom (pieces : List (List UInt8)) : Prop :=
  ∀ before piece after, pieces = before ++ piece :: after → Room before.flatten piece

/-- As md5_append comes to them, behind `msg`. -/
def RoomBehind (msg : List UInt8) : List (List UInt8) → Prop
  | [] => True
  | piece :: pieces => Room msg piece ∧ RoomBehind (msg ++ piece) pieces

theorem roomBehind_iff (msg : List UInt8) (pieces : List (List UInt8)) :
    RoomBehind msg pieces ↔ ∀ before piece after, pieces = before ++ piece :: after →
      Room (msg ++ before.flatten) piece := by
  induction pieces generalizing msg with
  | nil => simp [RoomBehind]
  | cons piece pieces ih =>
    rw [RoomBehind, ih]
    constructor
    · rintro ⟨hroom, hlater⟩ before piece' after heq
      cases before with
      | nil =>
        obtain ⟨rfl, rfl⟩ := List.cons.inj heq
        rwa [List.flatten_nil, List.append_nil]
      | cons first before =>
        obtain ⟨hfirst, htail⟩ := List.cons.inj heq
        rw [← hfirst, List.flatten_cons, ← List.append_assoc]
        exact hlater before piece' after htail
    · intro h
      refine ⟨?_, fun before piece' after heq => ?_⟩
      · have hroom := h [] piece pieces rfl
        rwa [List.flatten_nil, List.append_nil] at hroom
      · rw [List.append_assoc, ← List.flatten_cons]
        exact h (piece :: before) piece' after (congrArg (piece :: ·) heq)

/-- The pieces, one after the other. -/
def appendAll (pms : Md5State) (pieces : List (List UInt8)) : Except Fault Md5State :=
  pieces.foldlM (fun pms piece => md5Append pms (.ofList piece) piece.length) pms

theorem Of.appendAll {pieces : List (List UInt8)} (h : Of pms msg)
    (hlen : ∀ piece ∈ pieces, piece.length < 2 ^ 31) (room : RoomBehind msg pieces) :
    ∃ pms', Md5.appendAll pms pieces = .ok pms' ∧ Of pms' (msg ++ pieces.flatten) := by
  induction pieces generalizing pms msg with
  | nil =>
    rw [List.flatten_nil, List.append_nil]
    exact ⟨pms, rfl, h⟩
  | cons piece pieces ih =>
    obtain ⟨hroom, hlater⟩ := room
    obtain ⟨pms₁, hrun₁, h₁⟩ := h.append (Block.ofList_holds piece)
      (hlen piece List.mem_cons_self) hroom
    obtain ⟨pms', hrun, h'⟩ := ih h₁ (fun p hp => hlen p (List.mem_cons_of_mem _ hp)) hlater
    rw [List.flatten_cons, ← List.append_assoc]
    refine ⟨pms', ?_, h'⟩
    rw [Md5.appendAll, List.foldlM_cons, hrun₁]
    exact hrun

theorem Of.appendAll_overrun {pieces : List (List UInt8)} (h : Of pms msg)
    (hlen : ∀ piece ∈ pieces, piece.length < 2 ^ 31) (room : ¬ RoomBehind msg pieces) :
    Md5.appendAll pms pieces = .error .overrun := by
  induction pieces generalizing pms msg with
  | nil => exact absurd trivial room
  | cons piece pieces ih =>
    rw [Md5.appendAll, List.foldlM_cons]
    by_cases hroom : Room msg piece
    · obtain ⟨pms₁, hrun₁, h₁⟩ := h.append (Block.ofList_holds piece)
        (hlen piece List.mem_cons_self) hroom
      rw [hrun₁]
      exact ih h₁ (fun p hp => hlen p (List.mem_cons_of_mem _ hp)) fun hlater =>
        room ⟨hroom, hlater⟩
    · rw [h.overrun (hlen piece List.mem_cons_self) hroom]
      rfl

/-- The digest of the pieces is that of the message exactly when every piece has room. -/
theorem md5_of_pieces_iff (garbage : Nat → UInt8) (pieces : List (List UInt8))
    (hlen : ∀ piece ∈ pieces, piece.length < 2 ^ 31) :
    digestPieces garbage pieces = .ok (digestOf pieces.flatten) ↔ AllRoom pieces := by
  have hiff : RoomBehind [] pieces ↔ AllRoom pieces := roomBehind_iff [] pieces
  rw [← hiff]
  constructor
  · intro hdigest
    by_contra room
    have hrun := (md5Init_of garbage).appendAll_overrun hlen room
    rw [digestPieces, ← appendAll, hrun] at hdigest
    cases hdigest
  · intro room
    obtain ⟨pms, hrun, h⟩ := (md5Init_of garbage).appendAll hlen room
    rw [digestPieces, ← appendAll, hrun, ok_bind, h.finish]
    rfl

theorem md5_of_pieces_iff_abc :
    digestPieces (fun _ => 0) [[97], [98, 99]] = .ok (digestOf [97, 98, 99]) :=
  (md5_of_pieces_iff (fun _ => 0) [[97], [98, 99]] (by decide)).2 <|
    (roomBehind_iff [] _).1 ⟨room_short (by decide), room_short (by decide), trivial⟩

end CassandraApi.Codec.Md5
