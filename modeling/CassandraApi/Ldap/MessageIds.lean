/-
# `Ldap.MessageIds` — the counter of a client, and its values on the wire

LDAP_clnt_init lets SDF_random fill the low three bytes of a cleared counter, which
on a little-endian machine is a value below `2 ^ 24`.  From there on tid_increment
runs through

    1, 2, …, 2 ^ 31 - 2, 1, 2, …

so that `2 ^ 31 - 2` ids in a row differ.  ber_tid_create writes an id as the
shortest INTEGER that is not negative, in four octets without a sign octet, since the
ids end below `2 ^ 31`; the parsers of a request and of a response read it back.
-/
import CassandraApi.Ldap.Reading
import CassandraApi.Ldap.Responses

namespace CassandraApi.Ldap

open C Ber

/-! ## The first id -/

/-- The state of `_FILL`: the bytes, the next index, and how often it has started over. -/
structure Fill where
  data : List UInt8
  i : Nat := 0
  z : Nat := 0

/-- One turn of the loop of `_FILL`. -/
def Fill.byte (len : Nat) (s : Fill) (b : UInt8) : Fill :=
  let (i, z) := if s.i ≥ len then (0, s.z + 1) else (s.i, s.z)
  { data := s.data.modify i (· ^^^ b), i := i + 1, z := z }

/-- The endless loop of SDF_random, with the bytes of `gt` in each of its turns. -/
def mixTimes (len : Nat) : List (List UInt8) → Fill → Except Fault (List UInt8)
  | [], _ => .error .stuck
  | gt :: rest, s =>
      let s := gt.foldl (Fill.byte len) s
      if s.z ≠ 0 then .ok s.data else mixTimes len rest s

/-- SDF_random.  `urandom` is what the reads of /dev/urandom deliver. -/
def sdfRandom (urandom : List UInt8) (gt : List (List UInt8)) (data : List UInt8) (len : Nat) :
    Except Fault (List UInt8) :=
  let bytes := urandom.take len
  mixTimes len gt { data := bytes ++ data.drop bytes.length }

/-- `dc->tid` of a client that is initialised, the bytes of an `int` read with the lowest
first. -/
def firstTid (urandom : List UInt8) (gt : List (List UInt8)) : Except Fault Int := do
  let data ← sdfRandom urandom gt [0, 0, 0, 0] 3
  pure (int32 (beVal data.reverse))

section

variable {len : Nat} {s : Fill} {data : List UInt8}

/-- The bytes from `len` on are left alone. -/
theorem Fill.byte_keeps (hpos : 0 < len) (hi : s.i ≤ len) (b : UInt8) :
    (s.byte len b).i ≤ len ∧ (s.byte len b).data.drop len = s.data.drop len ∧
      (s.byte len b).data.length = s.data.length := by
  simp only [Fill.byte]
  split
  · refine ⟨by simp only; omega, ?_, List.length_modify ..⟩
    rw [List.drop_modify_of_lt _ _ _ _ (by simp only; omega)]
  · refine ⟨by simp only; omega, ?_, List.length_modify ..⟩
    rw [List.drop_modify_of_lt _ _ _ _ (by simp only; omega)]

theorem fill_keeps (hpos : 0 < len) (hi : s.i ≤ len) (bytes : List UInt8) :
    (bytes.foldl (Fill.byte len) s).i ≤ len ∧
      (bytes.foldl (Fill.byte len) s).data.drop len = s.data.drop len ∧
      (bytes.foldl (Fill.byte len) s).data.length = s.data.length := by
  induction bytes generalizing s with
  | nil => exact ⟨hi, rfl, rfl⟩
  | cons b bytes ih =>
    obtain ⟨hi', hdrop, hlen⟩ := Fill.byte_keeps hpos hi b
    obtain ⟨hend, hdrops, hlens⟩ := ih hi'
    exact ⟨hend, hdrops.trans hdrop, hlens.trans hlen⟩

theorem mixTimes_keeps {gt : List (List UInt8)} (hpos : 0 < len) (hi : s.i ≤ len)
    (h : mixTimes len gt s = .ok data) :
    data.drop len = s.data.drop len ∧ data.length = s.data.length := by
  induction gt generalizing s with
  | nil => cases h
  | cons bytes gt ih =>
    obtain ⟨hi', hdrop, hlen⟩ := fill_keeps hpos hi bytes
    rw [mixTimes] at h
    split at h
    · cases h
      exact ⟨hdrop, hlen⟩
    · obtain ⟨hdrops, hlens⟩ := ih hi' h
      exact ⟨hdrops.trans hdrop, hlens.trans hlen⟩

theorem sdfRandom_keeps {urandom data' : List UInt8} {gt : List (List UInt8)} (hpos : 0 < len)
    (hlen : len ≤ data.length) (h : sdfRandom urandom gt data len = .ok data') :
    data'.drop len = data.drop len ∧ data'.length = data.length := by
  obtain ⟨hdrop, hsame⟩ := mixTimes_keeps hpos (Nat.zero_le _) h
  have htake : (urandom.take len).length ≤ len := by
    rw [List.length_take]
    omega
  have hbehind : (urandom.take len ++ data.drop (urandom.take len).length).drop len =
      data.drop len := by
    rw [List.drop_append, List.drop_eq_nil_of_le htake, List.nil_append, List.drop_drop,
      Nat.add_sub_cancel' htake]
  refine ⟨hdrop.trans hbehind, hsame.trans ?_⟩
  rw [List.length_append, List.length_drop]
  omega

end

theorem low_bytes {data : List UInt8} (hlen : data.length = 4) (hdrop : data.drop 3 = [0]) :
    ∃ a b c, data = [a, b, c, 0] := by
  match data, hlen, hdrop with
  | [a, b, c, d], _, hdrop => exact ⟨a, b, c, by rw [(List.cons.inj hdrop).1]⟩

/-- The counter starts as LDAP_clnt_init has it, with a value of three bytes. -/
theorem firstTid_random {urandom : List UInt8} {gt : List (List UInt8)} {tid : Int}
    (h : firstTid urandom gt = .ok tid) :
    ∃ random : Fin (2 ^ 24), ∀ username password wbuffer concurrent maxClient,
      (ldapClntInit username password wbuffer concurrent maxClient random).tid = tid := by
  obtain ⟨data, hdata, htid⟩ := bind_eq_ok.1 h
  obtain ⟨hdrop, hlen⟩ := sdfRandom_keeps (by decide) (by decide) hdata
  obtain ⟨a, b, c, rfl⟩ := low_bytes hlen hdrop
  have hval : beVal ([a, b, c, 0] : List UInt8).reverse = beVal [c, b, a] := by
    simp [beVal]
  have hlt : beVal [c, b, a] < 2 ^ 24 := (beVal_lt [c, b, a]).trans_eq (by norm_num)
  rw [hval, int32_natCast (hlt.trans (by norm_num)), pure_eq_ok] at htid
  exact ⟨⟨beVal [c, b, a], hlt⟩, fun _ _ _ _ _ => Except.ok.inj htid⟩

/-! ## The counter -/

theorem tidIncrement_eq {tid : Int} (h0 : 0 ≤ tid) (h : tid ≤ 2 ^ 31 - 2) :
    tidIncrement tid = tid % (2 ^ 31 - 2) + 1 := by
  unfold tidIncrement
  rw [int32_of_range (by omega) (by omega)]
  simp only
  split <;> split <;> omega

/-- What the calls of tid_increment return, one after another. -/
def nthId (tid : Int) (k : Nat) : Int := tidIncrement^[k + 1] tid

/-- The ids go round. -/
theorem nthId_eq {tid : Int} (h0 : 0 ≤ tid) (h : tid ≤ 2 ^ 31 - 2) (k : Nat) :
    nthId tid k = (tid + k) % (2 ^ 31 - 2) + 1 := by
  induction k with
  | zero =>
    rw [nthId, Function.iterate_one, tidIncrement_eq h0 h, Nat.cast_zero, Int.add_zero]
  | succ k ih =>
    have hstep : nthId tid (k + 1) = tidIncrement (nthId tid k) := Function.iterate_succ_apply' ..
    rw [hstep, ih, tidIncrement_eq (by omega) (by omega)]
    push_cast
    omega

/-! ## An id on the wire -/

/-- The value of the contents of an INTEGER. -/
def integer (os : List UInt8) : Int :=
  match os with
  | [] => 0
  | o :: _ => if o.toNat < 128 then beVal os else (beVal os : Int) - 256 ^ os.length

/-- What the two decoders make of the id `out` of a message, wherever the message lies. -/
structure IdReadBack (tid : Int) (out : List UInt8) : Prop where
  request : ∀ (env : DecodeEnv) (buf : Block) (p : Nat) (op : UInt8) (body frame : List UInt8),
    env.message = true → Tlv 0x30 (out ++ op :: body) frame → frame.length < 2 ^ 31 →
    Holds buf p frame → ∃ k : Nat, Holds buf k (op :: body) ∧
      ldapDecodeRequest env (frameAt buf p frame.length) =
        decodeFrom env buf (UInt32.ofNat tid.toNat) op ((k + 1 : Nat) : Int)
  response : ∀ (buf : Block) (p : Nat) (op : UInt8) (body frame : List UInt8),
    Tlv 0x30 (out ++ op :: body) frame → frame.length < 2 ^ 31 → Holds buf p frame →
    ∃ k : Nat, Holds buf k (op :: body) ∧
      responseHeader buf p = .ok (some (UInt32.ofNat tid.toNat, op, (k : Int)))

/-- The id is written as an INTEGER of its value in six bytes at most, and read back. -/
def Survives (tid : Int) : Prop :=
  ∃ os, berTidCreate tid = .ok (0x02 :: UInt8.ofNat os.length :: os) ∧
    2 + os.length ≤ 6 ∧ integer os = tid ∧ IdReadBack tid (0x02 :: UInt8.ofNat os.length :: os)

section

variable {buf : Block} {i : Nat} {os body frame : List UInt8} {op : UInt8}

/-- A value below half of what the octets can hold is not negative. -/
theorem integer_of_lt (hne : os ≠ []) (h : beVal os < 128 * 256 ^ (os.length - 1)) :
    integer os = beVal os := by
  cases os with
  | nil => exact absurd rfl hne
  | cons o os =>
    rw [beVal, List.length_cons, Nat.add_sub_cancel] at h
    have ho : o.toNat * 256 ^ os.length < 128 * 256 ^ os.length :=
      Nat.lt_of_le_of_lt (Nat.le_add_right _ _) h
    rw [integer, if_pos (Nat.lt_of_mul_lt_mul_right ho)]

/-- The parser of an id, at the tag. -/
theorem readId (h : Holds buf i (0x02 :: UInt8.ofNat os.length :: os)) :
    buf.rd (i : Int) = .ok 0x02 ∧ buf.rd ((i : Int) + 1) = .ok (UInt8.ofNat os.length) ∧
      decodeTid buf os.length ((i : Int) + 2) 0 = .ok (UInt32.ofNat (beVal os)) := by
  have hoctets := decodeTid_eq 0 h.tail.tail
  rw [UInt32.zero_add] at hoctets
  exact ⟨h.rd, by exact_mod_cast h.tail.rd, by exact_mod_cast hoctets⟩

/-- The operation is read behind the id. -/
theorem readOp (h : Holds buf (i + (0x02 :: UInt8.ofNat os.length :: os).length) (op :: body)) :
    buf.rd ((i : Int) + 2 + os.length) = .ok op := by
  have hrd := h.rd
  rw [List.length_cons, List.length_cons] at hrd
  push_cast at hrd
  rw [← hrd]
  congr 1
  ring

theorem request_reads {env : DecodeEnv} (henv : env.message = true) (hos : os.length < 128)
    (hframe : Tlv 0x30 ((0x02 :: UInt8.ofNat os.length :: os) ++ op :: body) frame)
    (hlen : frame.length < 2 ^ 31) (h : Holds buf i frame) :
    ∃ k : Nat, Holds buf k (op :: body) ∧ ldapDecodeRequest env (frameAt buf i frame.length) =
      decodeFrom env buf (UInt32.ofNat (beVal os)) op ((k + 1 : Nat) : Int) := by
  have hshort := hframe.length_lt
  obtain ⟨q, hrd, hlength, hbytes, -⟩ := hframe.read (by omega) h
  obtain ⟨htag, hcount, htid⟩ := readId hbytes.left
  have hop := readOp hbytes.right
  have hnot : ¬ ((((0x02 :: UInt8.ofNat os.length :: os) ++ op :: body).length : Nat) : Int) >
      (frame.length : Nat) := by omega
  have hnext : ((q + (0x02 :: UInt8.ofNat os.length :: os).length + 1 : Nat) : Int) =
      (q : Int) + 2 + os.length + 1 := by
    rw [List.length_cons, List.length_cons]
    push_cast
    ring
  refine ⟨_, hbytes.right, ?_⟩
  rw [hnext]
  simp only [ldapDecodeRequest, frameAt, hrd, hlength, ok_bind, ne_eq, not_true_eq_false, if_false,
    hnot, henv, htag, hcount, schar_ofNat hos, Int.toNat_natCast, htid, hop]
  rfl

theorem response_reads (hos : os.length < 128)
    (hframe : Tlv 0x30 ((0x02 :: UInt8.ofNat os.length :: os) ++ op :: body) frame)
    (hlen : frame.length < 2 ^ 31) (h : Holds buf i frame) :
    ∃ k : Nat, Holds buf k (op :: body) ∧
      responseHeader buf i = .ok (some (UInt32.ofNat (beVal os), op, (k : Int))) := by
  have hshort := hframe.length_lt
  obtain ⟨q, hrd, hlength, hbytes, -⟩ := hframe.read (by omega) h
  obtain ⟨htag, hcount, htid⟩ := readId hbytes.left
  have hop := readOp hbytes.right
  refine ⟨_, hbytes.right, ?_⟩
  simp only [responseHeader, hrd, hlength, ok_bind, ne_eq, not_true_eq_false, if_false, htag,
    hcount, schar_ofNat hos, Int.toNat_natCast, htid, hop, pure_eq_ok]
  rw [List.length_cons, List.length_cons]
  push_cast
  congr 4
  ring

end

/-- An id in as many octets as it needs is not negative. -/
theorem beVal_idOctets_lt {tid : Int} (hpos : 0 < tid) (hlt : tid < 2 ^ 31) :
    beVal (octets tid.toNat (idSize tid)) < 128 * 256 ^ (idSize tid - 1) := by
  rw [beVal_idOctets hpos hlt]
  unfold idSize
  split_ifs <;> omega

theorem survives {tid : Int} (hpos : 0 < tid) (hlt : tid < 2 ^ 31) : Survives tid := by
  have hsize := idSize_range tid
  have hval := beVal_idOctets hpos hlt
  have hhalf := beVal_idOctets_lt hpos hlt
  have hwrite := berTidCreate_octets hpos hlt
  have hlength : (octets tid.toNat (idSize tid)).length = idSize tid := octets_length _ _
  rw [idTlv] at hwrite
  generalize octets tid.toNat (idSize tid) = os at *
  rw [← hlength] at hwrite hhalf hsize
  refine ⟨os, hwrite, by omega, ?_, ?_⟩
  · have hne : os ≠ [] := List.ne_nil_of_length_pos (by omega)
    rw [integer_of_lt hne hhalf, hval]
    omega
  · constructor
    · intro env buf p op body frame henv hframe hlen h
      rw [← hval]
      exact request_reads henv (by omega) hframe hlen h
    · intro buf p op body frame hframe hlen h
      rw [← hval]
      exact response_reads (by omega) hframe hlen h

/-- Valid ids, of which `2 ^ 31 - 2` in a row differ. -/
structure ValidIds (id : Nat → Int) : Prop where
  range : ∀ k, 1 ≤ id k ∧ id k ≤ 2 ^ 31 - 2
  fresh : ∀ i j, i < j → j < i + (2 ^ 31 - 2) → id i ≠ id j

theorem validIds {tid : Int} (h0 : 0 ≤ tid) (h : tid ≤ 2 ^ 31 - 2) : ValidIds (nthId tid) := by
  constructor
  · intro k
    rw [nthId_eq h0 h]
    omega
  · intro i j hij hj
    rw [nthId_eq h0 h, nthId_eq h0 h]
    omega

/-- The ids of a client are valid and fresh, and every id that an `int` can hold survives the
wire. -/
theorem message_ids (username password : List UInt8) (wbuffer concurrent maxClient : Int)
    (random : Fin (2 ^ 24)) :
    ValidIds (nthId (ldapClntInit username password wbuffer concurrent maxClient random).tid) ∧
      ∀ tid : Int, 1 ≤ tid ∧ tid ≤ 2 ^ 31 - 1 → Survives tid := by
  have hlt := random.isLt
  have hstart : (ldapClntInit username password wbuffer concurrent maxClient random).tid =
      (random.val : Int) := rfl
  constructor
  · rw [hstart]
    exact validIds (Int.natCast_nonneg _) (by omega)
  · rintro tid ⟨h1, hmax⟩
    exact survives (by omega) (by omega)

end CassandraApi.Ldap
