/-
# `Ldap.BerBuffer` — the block behind a BER

A BER is one block of the heap: the header, `berval` from byte 24 on, and there room for `size`
bytes, of which `len` are in use.  ber_alloc_buffer has two ways to get the block, and where a
pointer takes eight bytes they do not ask for the same:

    malloc (sizeof(*ber)+len)            8 + len     `ber` is a `BER **`
    realloc ((*ber), sizeof(*x)+len)    32 + len     `x` is a `BER *`

A fresh block ends 16 bytes before the room it says it has; from the first time it
grows it is as large as it says.  `Sound` is what a call should leave.  No sequence that has a
call in it meets it throughout, and a single call does exactly if it is not the first and the
sizes do not leave the `int`s (`buffers_as_large_iff`).
-/
import CassandraApi.Lib.Machine
import CassandraApi.Ldap.Wire

namespace CassandraApi.Ldap.BerBuffer

open C Lib

/-! ## The code -/

/-- `offsetof(BER, berval)` -/
def bervalOffset : Nat := 24

/-- `sizeof(BER)` -/
def sizeofBER : Nat := 32

/-- `sizeof(BER *)` -/
def sizeofPointer : Nat := 8

/-- A BER on the heap, the links apart. -/
structure HeapBER where
  block : Block
  size : Int
  len : Int

/-- The argument `n + len` of malloc and realloc, a `size_t`. -/
def sizeT (n : Nat) (len : Int) : Nat := ((n + len) % 2 ^ 64).toNat

/-- `ADJUST_SIZE(_l, _s)`, for an `int`. -/
def adjustSize (l s : Int) : Int :=
  let r := l.tmod s
  if r > 0 then int32 (l + (s - r)) else l

/-- ber_alloc_buffer, when memory is available; `garbage` is what new memory holds. -/
def berAllocBuffer (garbage : Nat → UInt8) (ber : Option HeapBER) (len : Int) : HeapBER :=
  match ber with
  | none =>
      let len := adjustSize len berBuffer
      ⟨⟨sizeT sizeofPointer len, garbage⟩, len, 0⟩
  | some b =>
      if int32 (b.len + len) > b.size then
        let len := adjustSize (int32 (len + b.len)) berBuffer
        ⟨b.block.realloc (sizeT sizeofBER len) garbage, len, b.len⟩
      else b

/-- `memcpy(ber->berval + ber->len, …); ber->len += …`. -/
def HeapBER.append (b : HeapBER) (bytes : List UInt8) : Except Fault HeapBER := do
  let block ← b.block.write (bervalOffset + b.len) bytes
  pure { b with block := block, len := int32 (b.len + bytes.length) }

/-- What is done to a `BER *` that is NULL at first. -/
inductive Op where
  | alloc (garbage : Nat → UInt8) (len : Int)
  | append (bytes : List UInt8)

def step : Option HeapBER → Op → Except Fault (Option HeapBER)
  | s, .alloc garbage len => .ok (some (berAllocBuffer garbage s len))
  | none, .append _ => .error .null
  | some b, .append bytes => do
      let b ← b.append bytes
      pure (some b)

/-! ## What is asked of it -/

/-- The list is `xs`. -/
def Bytes : Option HeapBER → List UInt8 → Prop
  | none, xs => xs = []
  | some b, xs => b.len = xs.length ∧ Holds b.block bervalOffset xs

/-- The block holds the room it says it has, that room is enough, and the list is the same. -/
structure Sound (before : Option HeapBER) (len : Int) (after : HeapBER) : Prop where
  room : (bervalOffset : Int) + after.size ≤ after.block.size
  left : len ≤ after.size - after.len
  kept : ∀ xs, Bytes before xs → Bytes (some after) xs

/-- The lengths that are asked for. -/
def requests (ops : List Op) : List Int :=
  ops.filterMap fun
    | .alloc _ len => some len
    | .append _ => none

/-- An append stays within `size`. -/
def Fits : Option HeapBER → Op → Prop
  | _, .alloc _ _ => True
  | none, .append _ => False
  | some b, .append bytes => b.len + bytes.length ≤ b.size

structure Legal (ops : List Op) : Prop where
  positive : ∀ n ∈ requests ops, 0 < n
  total : (requests ops).sum < 2 ^ 31
  appends : Along step (fun _ => Fits) none ops

/-- Every call that is reached leaves what is asked of it. -/
def AsLargeAsTheySay (ops : List Op) : Prop :=
  ∀ before garbage len after s, ops = before ++ .alloc garbage len :: after →
    run step none before = .ok s → Sound s len (berAllocBuffer garbage s len)

/-- There is a block; it is as large as it says and has the room, or it has to grow and the
rounded size is an `int`. -/
def GrowsOrSuffices (s : Option HeapBER) (len : Int) : Prop :=
  ∃ b, s = some b ∧
    ((b.len + len ≤ b.size ∧ (bervalOffset : Int) + b.size ≤ b.block.size) ∨
      (b.size < b.len + len ∧ Ldap.adjustSize (b.len + len).toNat berBuffer < 2 ^ 31))

/-! ## Sizes -/

/-- What rounding up to blocks of BER_BUFFER does. -/
theorem rounded (n : Nat) :
    n ≤ Ldap.adjustSize n berBuffer ∧ Ldap.adjustSize n berBuffer < n + 131072 ∧
      Ldap.adjustSize n berBuffer % 131072 = 0 := by
  unfold Ldap.adjustSize berBuffer
  split <;> omega

theorem adjustSize_int32 {n s : Nat} (h : n < 2 ^ 31) (hs : 0 < s) :
    adjustSize n s = int32 (Ldap.adjustSize n s) := by
  have hr : (n : Int).tmod s = ((n % s : Nat) : Int) := by
    rw [Int.tmod_eq_emod_of_nonneg (by omega)]
    rfl
  have hlt := Nat.mod_lt n hs
  simp only [adjustSize, Ldap.adjustSize, hr]
  by_cases hpos : 0 < n % s
  · rw [if_pos (by omega), if_pos hpos]
    congr 1
    omega
  · rw [if_neg (by omega), if_neg hpos, int32_natCast h]

/-- A rounded size that is no `int` is the one behind the last of them. -/
theorem adjustSize_natCast {n : Nat} (h : n < 2 ^ 31) :
    adjustSize n berBuffer =
      if Ldap.adjustSize n berBuffer < 2 ^ 31 then (Ldap.adjustSize n berBuffer : Int)
      else -2 ^ 31 := by
  obtain ⟨-, hlt, hmod⟩ := rounded n
  rw [adjustSize_int32 h (by decide)]
  split
  · rw [int32_natCast (by assumption)]
  · have hval : Ldap.adjustSize n berBuffer = 2 ^ 31 := by omega
    rw [hval]
    decide

theorem adjustSize_neg {x : Int} (h : x < 0) : adjustSize x berBuffer = x := by
  have hr : x.tmod (berBuffer : Nat) ≤ 0 := by
    have := Int.tmod_nonneg (a := -x) ((berBuffer : Nat) : Int) (by omega)
    rw [Int.neg_tmod] at this
    omega
  unfold adjustSize
  rw [if_neg (by omega)]

theorem sizeT_of_nonneg (n : Nat) {len : Int} (hn : n ≤ 32) (h0 : 0 ≤ len) (h : len < 2 ^ 31) :
    (sizeT n len : Int) = n + len := by
  unfold sizeT
  omega

theorem sizeT_of_neg (n : Nat) {len : Int} (hn : n ≤ 32) (h0 : -2 ^ 31 ≤ len) (h : len < -32) :
    (2 ^ 32 : Int) ≤ sizeT n len := by
  unfold sizeT
  omega

/-! ## What a call does -/

/-- What the numbers of a BER on the heap are like. -/
structure Ranges (block : Block) (size len : Int) : Prop where
  len_nonneg : 0 ≤ len
  len_le : len ≤ 2 ^ 31 - 131072
  size_ge : -2 ^ 31 ≤ size
  size_le : size ≤ 2 ^ 31 - 131072
  inside : (bervalOffset : Int) + len ≤ block.size

def HeapBER.InRange (b : HeapBER) : Prop := Ranges b.block b.size b.len

section Calls

variable {b : HeapBER} {s : Option HeapBER} (garbage : Nat → UInt8) {len : Int}

theorem alloc_enough (hb : b.InRange) (h0 : 0 < len) (h : b.len + len ≤ b.size) :
    berAllocBuffer garbage (some b) len = b := by
  obtain ⟨hlen, hlen', hsize, hsize', -⟩ := hb
  simp only [berAllocBuffer]
  rw [int32_of_range (by omega) (by omega), if_neg (by omega)]

theorem alloc_grown (hb : b.InRange) (h0 : 0 < len) (h : b.size < b.len + len)
    (hfit : Ldap.adjustSize (b.len + len).toNat berBuffer < 2 ^ 31) :
    ∃ new : Nat, Ldap.adjustSize (b.len + len).toNat berBuffer = new ∧
      berAllocBuffer garbage (some b) len =
        ⟨b.block.realloc (sizeofBER + new) garbage, new, b.len⟩ := by
  obtain ⟨hlen, hlen', hsize, hsize', -⟩ := hb
  obtain ⟨hle, -⟩ := rounded (b.len + len).toNat
  refine ⟨_, rfl, ?_⟩
  obtain ⟨n, hn⟩ : ∃ n : Nat, b.len + len = n := ⟨(b.len + len).toNat, by omega⟩
  rw [hn, Int.toNat_natCast] at hfit hle ⊢
  have hroom := sizeT_of_nonneg sizeofBER (le_refl 32)
    (Int.natCast_nonneg (Ldap.adjustSize n berBuffer)) (by omega)
  simp only [berAllocBuffer]
  rw [hn, Int.add_comm len, hn, int32_natCast (by omega), if_pos (by omega),
    adjustSize_natCast (by omega), if_pos hfit]
  congr 3
  omega

/-- An overflow leaves less room than is asked for. -/
theorem alloc_overflow (hb : b.InRange) (h0 : 0 < len) (hmax : len < 2 ^ 31)
    (hover : 2 ^ 31 ≤ Ldap.adjustSize (b.len + len).toNat berBuffer) :
    ∃ block size, berAllocBuffer garbage (some b) len = ⟨block, size, b.len⟩ ∧
      Ranges block size b.len ∧ size < b.len + len := by
  have hr := hb
  obtain ⟨hlen, hlen', hsize, hsize', hin⟩ := hb
  obtain ⟨n, hn⟩ : ∃ n : Nat, b.len + len = n := ⟨(b.len + len).toNat, by omega⟩
  obtain ⟨-, hlt, -⟩ := rounded n
  rw [hn, Int.toNat_natCast] at hover
  simp only [berAllocBuffer]
  rw [Int.add_comm len, hn]
  by_cases hint : n < 2 ^ 31
  · -- the sum is an `int`, its rounding is not
    have hroom := sizeT_of_neg sizeofBER (le_refl 32) (le_refl (-2 ^ 31)) (by decide)
    refine ⟨b.block.realloc (sizeT sizeofBER (-2 ^ 31)) garbage, -2 ^ 31, ?_,
      ⟨hlen, hlen', le_refl _, by decide, ?_⟩, by omega⟩
    · rw [int32_natCast hint, if_pos (by omega), adjustSize_natCast hint, if_neg (by omega)]
    · simp only [Block.realloc, bervalOffset]
      omega
  · have hwrap : int32 n = n - 2 ^ 32 := by
      unfold int32
      rw [Int.bmod_def]
      omega
    rw [hwrap]
    split
    · have hroom : (2 ^ 32 : Int) ≤ sizeT sizeofBER (n - 2 ^ 32) :=
        sizeT_of_neg sizeofBER (le_refl 32) (by omega) (by omega)
      refine ⟨b.block.realloc (sizeT sizeofBER (n - 2 ^ 32)) garbage, n - 2 ^ 32, ?_,
        ⟨hlen, hlen', by omega, by omega, ?_⟩, by omega⟩
      · rw [adjustSize_neg (by omega)]
      · simp only [Block.realloc, bervalOffset]
        omega
    · exact ⟨b.block, b.size, rfl, hr, by omega⟩

theorem alloc_fresh (h0 : 0 < len) (hmax : len < 2 ^ 31)
    (hfit : Ldap.adjustSize len.toNat berBuffer < 2 ^ 31) :
    ∃ new : Nat, Ldap.adjustSize len.toNat berBuffer = new ∧ 131072 ≤ new ∧
      berAllocBuffer garbage none len = ⟨⟨sizeofPointer + new, garbage⟩, new, 0⟩ := by
  obtain ⟨n, rfl⟩ := Int.eq_ofNat_of_zero_le h0.le
  rw [Int.toNat_natCast] at hfit ⊢
  obtain ⟨hle, -, hmod⟩ := rounded n
  have hroom := sizeT_of_nonneg sizeofPointer (by decide)
    (Int.natCast_nonneg (Ldap.adjustSize n berBuffer)) (by omega)
  refine ⟨_, rfl, by omega, ?_⟩
  simp only [berAllocBuffer]
  rw [adjustSize_natCast (by omega), if_pos hfit]
  congr 2
  omega

theorem alloc_fresh_overflow (h0 : 0 < len) (hmax : len < 2 ^ 31)
    (hover : 2 ^ 31 ≤ Ldap.adjustSize len.toNat berBuffer) :
    ∃ block : Block, bervalOffset ≤ block.size ∧
      berAllocBuffer garbage none len = ⟨block, -2 ^ 31, 0⟩ := by
  obtain ⟨n, rfl⟩ := Int.eq_ofNat_of_zero_le h0.le
  rw [Int.toNat_natCast] at hover
  have hroom := sizeT_of_neg sizeofPointer (by decide) (le_refl (-2 ^ 31)) (by decide)
  refine ⟨⟨sizeT sizeofPointer (-2 ^ 31), garbage⟩, ?_, ?_⟩
  · simp only [bervalOffset]
    omega
  · simp only [berAllocBuffer]
    rw [adjustSize_natCast (by omega), if_neg (by omega)]

variable {garbage}

theorem inRange_fresh (h0 : 0 < len) (hmax : len < 2 ^ 31) :
    (berAllocBuffer garbage none len).InRange := by
  by_cases hfit : Ldap.adjustSize len.toNat berBuffer < 2 ^ 31
  · obtain ⟨new, hnew, hge, heq⟩ := alloc_fresh garbage h0 hmax hfit
    obtain ⟨-, -, hmod⟩ := rounded len.toNat
    rw [heq]
    change Ranges _ new 0
    refine ⟨le_refl 0, by decide, by omega, by omega, ?_⟩
    simp only [bervalOffset, sizeofPointer]
    omega
  · obtain ⟨block, hblock, heq⟩ := alloc_fresh_overflow garbage h0 hmax (by omega)
    rw [heq]
    change Ranges block (-2 ^ 31) 0
    exact ⟨le_refl 0, by decide, le_refl _, by decide, by omega⟩

/-- A call keeps the ranges. -/
theorem inRange_alloc (hs : ∀ b, s = some b → b.InRange) (h0 : 0 < len) (hmax : len < 2 ^ 31) :
    (berAllocBuffer garbage s len).InRange := by
  cases s with
  | none => exact inRange_fresh h0 hmax
  | some b =>
    have hb := hs b rfl
    by_cases hle : b.len + len ≤ b.size
    · rw [alloc_enough garbage hb h0 hle]
      exact hb
    · by_cases hfit : Ldap.adjustSize (b.len + len).toNat berBuffer < 2 ^ 31
      · obtain ⟨new, hnew, heq⟩ := alloc_grown garbage hb h0 (by omega) hfit
        obtain ⟨hge, -, hmod⟩ := rounded (b.len + len).toNat
        have hlen := hb.len_nonneg
        rw [heq]
        change Ranges _ new b.len
        refine ⟨hlen, hb.len_le, by omega, by omega, ?_⟩
        simp only [Block.realloc, bervalOffset, sizeofBER]
        omega
      · obtain ⟨block, size, heq, hrange, -⟩ := alloc_overflow garbage hb h0 hmax (by omega)
        rw [heq]
        exact hrange

/-- So does an append within `size`. -/
theorem inRange_append {b' : HeapBER} {bytes : List UInt8} (hb : b.InRange)
    (hfits : b.len + bytes.length ≤ b.size) (ha : b.append bytes = .ok b') : b'.InRange := by
  obtain ⟨hlen, hlen', hsize, hsize', -⟩ := hb
  obtain ⟨block, hw, heq⟩ := bind_eq_ok.1 ha
  cases heq
  obtain ⟨hin, hsame⟩ := Holds.written hw
  have hinside := hin.inside
  have hnew : int32 (b.len + bytes.length) = b.len + bytes.length :=
    int32_of_range (by omega) (by omega)
  refine ⟨?_, ?_, hsize, hsize', ?_⟩ <;> simp only [hnew] <;> omega

/-! ## When it is what is asked for -/

theorem sound_enough (hb : b.InRange) (h0 : 0 < len) (h : b.len + len ≤ b.size) :
    Sound (some b) len (berAllocBuffer garbage (some b) len) ↔
      (bervalOffset : Int) + b.size ≤ b.block.size := by
  rw [alloc_enough garbage hb h0 h]
  exact ⟨Sound.room, fun room => ⟨room, by omega, fun _ => id⟩⟩

theorem sound_grown (hb : b.InRange) (h0 : 0 < len) (h : b.size < b.len + len)
    (hfit : Ldap.adjustSize (b.len + len).toNat berBuffer < 2 ^ 31) :
    Sound (some b) len (berAllocBuffer garbage (some b) len) := by
  obtain ⟨new, hnew, heq⟩ := alloc_grown garbage hb h0 h hfit
  obtain ⟨hge, -, -⟩ := rounded (b.len + len).toNat
  have hlen := hb.len_nonneg
  rw [heq]
  constructor
  · simp only [Block.realloc, bervalOffset, sizeofBER]
    omega
  · simp only
    omega
  · rintro xs ⟨hxs, holds⟩
    have hin := holds.inside
    refine ⟨hxs, holds.frame ?_ fun k _ hk => if_pos (by omega)⟩
    simp only [Block.realloc, bervalOffset, sizeofBER]
    omega

/-- A first call never is. -/
theorem not_sound_fresh (h0 : 0 < len) (hmax : len < 2 ^ 31) :
    ¬ Sound none len (berAllocBuffer garbage none len) := by
  rintro ⟨room, left, -⟩
  by_cases hfit : Ldap.adjustSize len.toNat berBuffer < 2 ^ 31
  · obtain ⟨new, -, -, heq⟩ := alloc_fresh garbage h0 hmax hfit
    rw [heq] at room
    simp only [bervalOffset, sizeofPointer] at room
    omega
  · obtain ⟨block, -, heq⟩ := alloc_fresh_overflow garbage h0 hmax (by omega)
    rw [heq] at left
    simp only at left
    omega

theorem sound_iff (hs : ∀ b, s = some b → b.InRange) (h0 : 0 < len) (hmax : len < 2 ^ 31) :
    Sound s len (berAllocBuffer garbage s len) ↔ GrowsOrSuffices s len := by
  cases s with
  | none => exact iff_of_false (not_sound_fresh h0 hmax) (by rintro ⟨b, hb, -⟩; cases hb)
  | some b =>
    have hb := hs b rfl
    by_cases hle : b.len + len ≤ b.size
    · rw [sound_enough hb h0 hle]
      constructor
      · exact fun room => ⟨b, rfl, .inl ⟨hle, room⟩⟩
      · rintro ⟨_, ⟨⟩, ⟨-, room⟩ | ⟨hgt, -⟩⟩
        · exact room
        · omega
    · constructor
      · intro sound
        refine ⟨b, rfl, .inr ⟨by omega, ?_⟩⟩
        by_contra hover
        obtain ⟨block, size, heq, -, hsize⟩ := alloc_overflow garbage hb h0 hmax (by omega)
        have left := sound.left
        rw [heq] at left
        simp only at left
        omega
      · rintro ⟨_, ⟨⟩, ⟨hle', -⟩ | ⟨hgt, hfit⟩⟩
        · exact absurd hle' hle
        · exact sound_grown hb h0 hgt hfit

end Calls

/-! ## Along a sequence -/

section Runs

variable {ops : List Op}

/-- What a legal sequence does next. -/
def Allowed : Option HeapBER → Op → Prop
  | _, .alloc _ len => 0 < len ∧ len < 2 ^ 31
  | none, .append _ => False
  | some b, .append bytes => b.len + bytes.length ≤ b.size

theorem Legal.request (legal : Legal ops) {before after : List Op} {garbage : Nat → UInt8}
    {len : Int} (he : ops = before ++ .alloc garbage len :: after) : 0 < len ∧ len < 2 ^ 31 := by
  have h : len ∈ requests ops := List.mem_filterMap.2 ⟨.alloc garbage len, by simp [he], rfl⟩
  have hle := List.single_le_sum (fun n hn => (legal.positive n hn).le) len h
  exact ⟨legal.positive len h, lt_of_le_of_lt hle legal.total⟩

theorem Legal.along (legal : Legal ops) : Along step (fun _ => Allowed) none ops := by
  intro before op after s he hs
  have hfits := legal.appends before op after s he hs
  cases op with
  | alloc garbage len => exact legal.request he
  | append bytes =>
    cases s with
    | none => exact hfits
    | some b => exact hfits

theorem step_inRange {s s' : Option HeapBER} {op : Op} (hs : ∀ b, s = some b → b.InRange)
    (ok : Allowed s op) (h : step s op = .ok s') : ∀ b, s' = some b → b.InRange := by
  cases op with
  | alloc garbage len =>
    cases h
    rintro b ⟨⟩
    exact inRange_alloc hs ok.1 ok.2
  | append bytes =>
    cases s with
    | none => cases h
    | some b =>
      obtain ⟨b', ha, heq⟩ := bind_eq_ok.1 h
      cases heq
      rintro _ ⟨⟩
      exact inRange_append (hs b rfl) ok ha

theorem reached_inRange (legal : Legal ops) {before after : List Op} {s : Option HeapBER}
    (he : ops = before ++ after) (hrun : run step none before = .ok s) :
    ∀ b, s = some b → b.InRange := by
  have along : Along step (fun _ => Allowed) none before := (he ▸ legal.along).left
  have keep : ∀ (tr : List Op) (s : Option HeapBER) (op : Op) (s' : Option HeapBER),
      (∀ b, s = some b → b.InRange) → Allowed s op → step s op = .ok s' →
      ∀ b, s' = some b → b.InRange := fun _ _ _ _ => step_inRange
  exact run_invariant (I := fun _ s => ∀ b, s = some b → b.InRange) (by rintro b ⟨⟩) keep along hrun

/-- A sequence with a call in it begins with one, and that one falls short; of the others, those
that grow the block or find one that has grown are as large as they say. -/
theorem buffers_as_large_iff (legal : Legal ops) :
    (AsLargeAsTheySay ops ↔ ops = []) ∧
      ∀ before garbage len after s, ops = before ++ .alloc garbage len :: after →
        run step none before = .ok s →
        (Sound s len (berAllocBuffer garbage s len) ↔ GrowsOrSuffices s len) := by
  constructor
  · constructor
    · intro large
      cases ops with
      | nil => rfl
      | cons op ops =>
        cases op with
        | alloc garbage len =>
          obtain ⟨h0, hmax⟩ := legal.request (List.nil_append _).symm
          exact absurd (large [] garbage len ops none rfl rfl) (not_sound_fresh h0 hmax)
        | append bytes => exact absurd (legal.appends [] _ ops none rfl rfl) id
    · rintro rfl before garbage len after s he
      exact absurd he.symm (by simp)
  · intro before garbage len after s he hrun
    obtain ⟨h0, hmax⟩ := legal.request he
    exact sound_iff (reached_inRange legal he hrun) h0 hmax

/-- One byte, in a block of 131080 that says it has room for 131072 behind the header. -/
theorem buffers_as_large_short :
    Legal [.alloc (fun _ => 0) 1] ∧ ¬ AsLargeAsTheySay [.alloc (fun _ => 0) 1] := by
  refine ⟨⟨by decide, by decide, along_cons trivial fun _ _ => along_nil _⟩, fun large => ?_⟩
  have room := (large [] _ 1 [] none rfl rfl).room
  have hshort : ¬ (bervalOffset : Int) + (berAllocBuffer (fun _ => 0) none 1).size ≤
      (berAllocBuffer (fun _ => 0) none 1).block.size := by decide
  exact hshort room

/-- A second call that grows the block. -/
theorem buffers_as_large_iff_twice :
    ¬ AsLargeAsTheySay [.alloc (fun _ => 0) 1, .alloc (fun _ => 0) 131073] ∧
      Sound (some (berAllocBuffer (fun _ => 0) none 1)) 131073
        (berAllocBuffer (fun _ => 0) (some (berAllocBuffer (fun _ => 0) none 1)) 131073) := by
  have legal : Legal [.alloc (fun _ => 0) 1, .alloc (fun _ => 0) 131073] :=
    ⟨by decide, by decide,
      along_cons trivial fun _ _ => along_cons trivial fun _ _ => along_nil _⟩
  obtain ⟨never, each⟩ := buffers_as_large_iff legal
  refine ⟨fun large => absurd (never.1 large) (by simp), ?_⟩
  exact (each [.alloc (fun _ => 0) 1] _ 131073 [] _ rfl rfl).2
    ⟨_, rfl, .inr ⟨by decide, by decide⟩⟩

end Runs

/-! ## The list it holds -/

section Refine

/-- The BER on the heap is the BER `a`. -/
structure Stands (b : HeapBER) (a : BER) : Prop where
  size : b.size = a.size
  bytes : Bytes (some b) a.berval

variable {b : HeapBER} {a a' : BER} {bytes : List UInt8} {garbage : Nat → UInt8} {len : Int}

theorem alloc_fresh_stands (h0 : 0 < len) (hmax : len < 2 ^ 31)
    (hfit : Ldap.adjustSize len.toNat berBuffer < 2 ^ 31) :
    ∃ a, Ldap.berAllocBuffer true none len.toNat = some a ∧
      Stands (berAllocBuffer garbage none len) a := by
  obtain ⟨new, hnew, hge, heq⟩ := alloc_fresh garbage h0 hmax hfit
  refine ⟨⟨new, []⟩, by simp only [Ldap.berAllocBuffer, hnew, if_true], ?_⟩
  rw [heq]
  exact ⟨rfl, rfl, .nil (by simp only [bervalOffset, sizeofPointer]; omega)⟩

theorem alloc_stands (hb : b.InRange) (h : Stands b a) (h0 : 0 < len)
    (hfit : Ldap.adjustSize (b.len + len).toNat berBuffer < 2 ^ 31) :
    ∃ a', Ldap.berAllocBuffer true (some a) len.toNat = some a' ∧
      Stands (berAllocBuffer garbage (some b) len) a' := by
  have hlen : b.len = a.berval.length := h.bytes.1
  have hsize := h.size
  have hsum : (b.len + len).toNat = a.berval.length + len.toNat := by omega
  by_cases hle : b.len + len ≤ b.size
  · refine ⟨a, ?_, ?_⟩
    · simp only [Ldap.berAllocBuffer, and_true]
      rw [if_neg (by omega)]
    · rw [alloc_enough garbage hb h0 hle]
      exact h
  · obtain ⟨new, hnew, heq⟩ := alloc_grown garbage hb h0 (by omega) hfit
    have sound : Sound (some b) len (berAllocBuffer garbage (some b) len) :=
      sound_grown hb h0 (by omega) hfit
    refine ⟨{ a with size := new }, ?_, ?_, sound.kept _ h.bytes⟩
    · simp only [Ldap.berAllocBuffer, and_true]
      rw [if_pos (by omega), ← hsum, hnew]
    · rw [heq]

/-- Where the block has the room it says it has, an append is an append to the list. -/
theorem append_stands (h : Stands b a) (hmax : b.size < 2 ^ 31)
    (room : (bervalOffset : Int) + b.size ≤ b.block.size) (ha : a.append bytes = .ok a') :
    ∃ b', b.append bytes = .ok b' ∧ Stands b' a' := by
  obtain ⟨hlen, holds⟩ := h.bytes
  have hsize := h.size
  have hfits : a.berval.length + bytes.length ≤ a.size := by
    by_contra hgt
    rw [BER.append, if_neg hgt] at ha
    cases ha
  obtain rfl := BER.append_ok ha
  have hroom : bervalOffset + a.berval.length + bytes.length ≤ b.block.size := by omega
  obtain ⟨block, hw, filled⟩ := write_filled hroom
  have hw' : b.block.write (bervalOffset + b.len) bytes = .ok block := by
    rw [hlen, ← hw]
    push_cast
    rfl
  refine ⟨{ b with block := block, len := int32 (b.len + bytes.length) }, ?_, hsize, ?_, ?_⟩
  · simp only [HeapBER.append, hw', ok_bind, pure_eq_ok]
  · rw [hlen, int32_of_range (by omega) (by omega), List.length_append]
    push_cast
    rfl
  · exact Holds.append_iff.2 ⟨Holds.write_frame hw holds (.inl (by push_cast; rfl)), filled.holds⟩

/-- In a fresh block an append may stay within `size` and write behind the block. -/
theorem append_overruns (h0 : 0 < len) (hmax : len < 2 ^ 31)
    (hfit : Ldap.adjustSize len.toNat berBuffer < 2 ^ 31)
    (hfull : (berAllocBuffer garbage none len).size - 16 < bytes.length) :
    (berAllocBuffer garbage none len).append bytes = .error .overrun := by
  obtain ⟨new, hnew, hge, heq⟩ := alloc_fresh garbage h0 hmax hfit
  rw [heq] at hfull ⊢
  simp only at hfull
  have hw : Block.write ⟨sizeofPointer + new, garbage⟩ (bervalOffset + 0) bytes =
      .error .overrun :=
    if_neg (by simp only [bervalOffset, sizeofPointer]; omega)
  simp only [HeapBER.append, hw, error_bind]

end Refine

end CassandraApi.Ldap.BerBuffer
