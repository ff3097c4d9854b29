/-
# `Ldap.Bind` — the bind handshake

`BindMessage`: bytes that are one LDAPMessage with a version 3 simple bind.  The
client writes it by hand, into an array of 128 bytes and with every length in one
`char`; of the message id it leaves out all octets that are not positive as
`char`, so of an id like 128 nothing is left.  `handshake_iff` says for which ids
and credentials client and server agree.
-/
import CassandraApi.Ber.Tlv
import CassandraApi.Ldap.Session

namespace CassandraApi.Ldap

open C Ber

/-! ## Bind requests -/

/-- The bytes are one LDAPMessage with the id, a version 3 simple bind and nothing but `more`
behind it. -/
def BindMessage (id : Nat) (name password more msg : List UInt8) : Prop :=
  ∃ idOctets idT nameT passwordT op, Tlv 0x02 idOctets idT ∧ beVal idOctets = id ∧
    Tlv 0x04 name nameT ∧ Tlv 0x80 password passwordT ∧
    Tlv 0x60 ([0x02, 0x01, 0x03] ++ nameT ++ passwordT) op ∧ Tlv 0x30 (idT ++ op ++ more) msg

/-! ## Reading single bytes and ids -/

/-- From 128 to 255 it is negative. -/
theorem schar_toChar_neg {n : Nat} (h : 128 ≤ n) (h' : n < 256) : schar (toChar n) < 0 := by
  have ht : (toChar n).toNat = n := by
    rw [toChar, UInt8.toNat_ofNat']
    omega
  unfold schar
  rw [ht, if_neg (by omega)]
  omega

theorem toChar_natCast (n : Nat) (h : n < 256) : toChar n = UInt8.ofNat n := by
  rw [toChar, show ((n : Int) % 256).toNat = n by omega]

/-! ## The octets of the id -/

/-- How many octets a message id has. -/
def octetCount (tid : Int) : Nat :=
  if tid < 0x100 then 1 else if tid < 0x10000 then 2 else if tid < 0x1000000 then 3 else 4

/-- Every octet of the id is positive as `char`. -/
def PositiveOctets (tid : Int) : Prop :=
  ∀ r < octetCount tid, 0 < tid / 256 ^ r % 256 ∧ tid / 256 ^ r % 256 < 128

theorem schar_toChar_pos (n : Int) : 0 < schar (toChar n) ↔ 0 < n % 256 ∧ n % 256 < 128 := by
  have ht : (toChar n).toNat = (n % 256).toNat := by
    rw [toChar, UInt8.toNat_ofNat']
    omega
  unfold schar
  rw [ht]
  split <;> omega

theorem toNat_toChar (n : Int) : ((toChar n).toNat : Int) = n % 256 := by
  rw [toChar, UInt8.toNat_ofNat']
  omega

theorem positiveOctets_iff {tid : Int} (hpos : 0 < tid) (hmax : tid < 2 ^ 31) :
    PositiveOctets tid ↔
      (0 < tid % 256 ∧ tid % 256 < 128) ∧
      (0x100 ≤ tid → 0 < tid / 256 % 256 ∧ tid / 256 % 256 < 128) ∧
      (0x10000 ≤ tid → 0 < tid / 65536 % 256 ∧ tid / 65536 % 256 < 128) ∧
      (0x1000000 ≤ tid → 0 < tid / 16777216 % 256 ∧ tid / 16777216 % 256 < 128) := by
  have hcount : ∀ r : Nat, r < octetCount tid ↔
      r = 0 ∨ (r = 1 ∧ 0x100 ≤ tid) ∨ (r = 2 ∧ 0x10000 ≤ tid) ∨ (r = 3 ∧ 0x1000000 ≤ tid) := by
    intro r
    unfold octetCount
    split_ifs <;> omega
  constructor
  · intro h
    refine ⟨?_, fun h1 => ?_, fun h2 => ?_, fun h3 => ?_⟩
    · simpa using h 0 ((hcount 0).2 (by omega))
    · simpa using h 1 ((hcount 1).2 (by omega))
    · simpa using h 2 ((hcount 2).2 (by omega))
    · simpa using h 3 ((hcount 3).2 (by omega))
  · rintro ⟨h0, h1, h2, h3⟩ r hr
    obtain rfl | ⟨rfl, hge⟩ | ⟨rfl, hge⟩ | ⟨rfl, hge⟩ := (hcount r).1 hr
    · simpa using h0
    · simpa using h1 hge
    · simpa using h2 hge
    · simpa using h3 hge

theorem bindIdOctets_cases (tid : Int) :
    bindIdOctets tid =
      (if 0 < schar (toChar (tid / 16777216)) then [toChar (tid / 16777216)] else []) ++
      ((if 0 < schar (toChar (tid / 65536)) then [toChar (tid / 65536)] else []) ++
      ((if 0 < schar (toChar (tid / 256)) then [toChar (tid / 256)] else []) ++
      (if 0 < schar (toChar tid) then [toChar tid] else []))) := by
  have h0 : tid / 256 ^ 0 = tid := by norm_num
  have h1 : tid / 256 ^ 1 = tid / 256 := by norm_num
  have h2 : tid / 256 ^ 2 = tid / 65536 := by norm_num
  have h3 : tid / 256 ^ 3 = tid / 16777216 := by norm_num
  simp only [bindIdOctets, List.map_cons, List.map_nil, h0, h1, h2, h3, List.filter_cons,
    List.filter_nil, decide_eq_true_eq]
  split_ifs <;> rfl

/-- The octets that are written stand for the id exactly when all of them are positive. -/
theorem beVal_bindIdOctets_iff {tid : Int} (hpos : 0 < tid) (hmax : tid < 2 ^ 31) :
    beVal (bindIdOctets tid) = tid.toNat ↔ PositiveOctets tid := by
  have e3 := toNat_toChar (tid / 16777216)
  have e2 := toNat_toChar (tid / 65536)
  have e1 := toNat_toChar (tid / 256)
  have e0 := toNat_toChar tid
  have hsum : tid = tid / 16777216 % 256 * 16777216 + tid / 65536 % 256 * 65536 +
      tid / 256 % 256 * 256 + tid % 256 := by omega
  have b3 := Int.emod_lt_of_pos (tid / 16777216) (show (0 : Int) < 256 by decide)
  have b2 := Int.emod_lt_of_pos (tid / 65536) (show (0 : Int) < 256 by decide)
  have b1 := Int.emod_lt_of_pos (tid / 256) (show (0 : Int) < 256 by decide)
  have b0 := Int.emod_lt_of_pos tid (show (0 : Int) < 256 by decide)
  rw [positiveOctets_iff hpos hmax, bindIdOctets_cases]
  simp only [schar_toChar_pos]
  -- from here on the id is its four digits
  generalize toChar (tid / 16777216) = c3 at *
  generalize toChar (tid / 65536) = c2 at *
  generalize toChar (tid / 256) = c1 at *
  generalize toChar tid = c0 at *
  generalize tid / 16777216 % 256 = d3 at *
  generalize tid / 65536 % 256 = d2 at *
  generalize tid / 256 % 256 = d1 at *
  generalize tid % 256 = d0 at *
  split_ifs <;> simp only [List.nil_append, List.cons_append, beVal, List.length_cons,
    List.length_nil, Nat.zero_add, Nat.add_zero, Nat.reducePow, pow_zero, Nat.mul_one] <;> omega

theorem bindIdOctets_length {tid : Int} (hpos : 0 < tid) (hmax : tid < 2 ^ 31)
    (h : PositiveOctets tid) : (bindIdOctets tid).length = octetCount tid := by
  rw [positiveOctets_iff hpos hmax] at h
  rw [bindIdOctets_cases]
  simp only [schar_toChar_pos]
  unfold octetCount
  split_ifs <;> simp only [List.nil_append, List.cons_append, List.length_cons, List.length_nil] <;>
    omega

/-! ## The client's request -/

/-- A value below 128 bytes with its length in one octet. -/
def shortTlv (tag : UInt8) (content : List UInt8) : List UInt8 :=
  tag :: UInt8.ofNat content.length :: content

theorem shortTlv_isTlv {tag : UInt8} {content : List UInt8} (h : content.length < 128) :
    Tlv tag content (shortTlv tag content) :=
  .mk (L := [UInt8.ofNat content.length]) (.short h)

/-- The operation of a bind request. -/
def bindOp (username password : List UInt8) : List UInt8 :=
  shortTlv 0x60 ([0x02, 0x01, 0x03] ++ shortTlv 0x04 username ++ shortTlv 0x80 password)

/-- A bind request with all its lengths in one octet. -/
def bindOctets (id username password : List UInt8) : List UInt8 :=
  shortTlv 0x30 (shortTlv 0x02 id ++ bindOp username password)

theorem bindOp_length (username password : List UInt8) :
    (bindOp username password).length = 9 + username.length + password.length := by
  simp only [bindOp, shortTlv, List.length_cons, List.length_append, List.length_nil]
  omega

theorem bindOctets_length (id username password : List UInt8) :
    (bindOctets id username password).length =
      13 + id.length + username.length + password.length := by
  simp only [bindOctets, shortTlv, List.length_cons, List.length_append, bindOp_length]
  omega

/-- ldap_send_bind_rqt: the request, as long as it fits into the array. -/
theorem bindRequest_eq (tid : Int) {username password : List UInt8}
    (hu : username.length < 256) (hp : password.length < 256) :
    bindRequest tid username password =
      if 13 + (bindIdOctets tid).length + username.length + password.length ≤ 128 then
        .ok (bindOctets (bindIdOctets tid) username password)
      else .error .overrun := by
  unfold bindRequest
  by_cases hu' : username.length < 128
  · by_cases hp' : password.length < 128
    · simp only [schar_toChar (Int.natCast_nonneg _) (Int.ofNat_lt.2 hu'),
        schar_toChar (Int.natCast_nonneg _) (Int.ofNat_lt.2 hp'), Int.toNat_natCast,
        List.take_length]
      simp only [toChar_natCast _ hu, toChar_natCast _ hp]
      have hmsg : 0x30 :: UInt8.ofNat (0x02 :: UInt8.ofNat (bindIdOctets tid).length ::
          bindIdOctets tid ++ 0x60 :: UInt8.ofNat ([0x02, 0x01, 0x03, 0x04,
            UInt8.ofNat username.length] ++ username ++ [0x80, UInt8.ofNat password.length] ++
            password).length :: ([0x02, 0x01, 0x03, 0x04, UInt8.ofNat username.length] ++
            username ++ [0x80, UInt8.ofNat password.length] ++ password)).length ::
          (0x02 :: UInt8.ofNat (bindIdOctets tid).length ::
          bindIdOctets tid ++ 0x60 :: UInt8.ofNat ([0x02, 0x01, 0x03, 0x04,
            UInt8.ofNat username.length] ++ username ++ [0x80, UInt8.ofNat password.length] ++
            password).length :: ([0x02, 0x01, 0x03, 0x04, UInt8.ofNat username.length] ++
            username ++ [0x80, UInt8.ofNat password.length] ++ password)) =
          bindOctets (bindIdOctets tid) username password := by
        simp only [bindOctets, bindOp, shortTlv, List.append_assoc, List.cons_append,
          List.nil_append]
      rw [hmsg, bindOctets_length]
      split
      · rw [if_neg (by omega)]
      · rw [if_pos (by omega)]
    · have hneg := schar_toChar_neg (by omega : 128 ≤ password.length) hp
      rw [if_pos (.inr (.inl hneg)), if_neg (by omega)]
  · have hneg := schar_toChar_neg (by omega : 128 ≤ username.length) hu
    rw [if_pos (.inl hneg), if_neg (by omega)]

/-- The request is well formed exactly when its octets of the id are those of the id. -/
theorem bindOctets_message_iff {n : Nat} {id username password : List UInt8}
    (h : 13 + id.length + username.length + password.length ≤ 128) :
    BindMessage n username password [] (bindOctets id username password) ↔ beVal id = n := by
  have hop := bindOp_length username password
  have hid : Tlv 0x02 id (shortTlv 0x02 id) := shortTlv_isTlv (by omega)
  have hall : Tlv 0x30 (shortTlv 0x02 id ++ bindOp username password)
      (bindOctets id username password) := by
    refine shortTlv_isTlv ?_
    simp only [shortTlv, List.length_append, List.length_cons, hop]
    omega
  constructor
  · rintro ⟨idOctets, idT, nameT, passwordT, op, hidT, hval, -, -, -, hmsg⟩
    have he := hmsg.inj hall
    rw [List.append_assoc] at he
    rw [← (hidT.append_inj hid he).1, hval]
  · intro hval
    refine ⟨id, _, shortTlv 0x04 username, shortTlv 0x80 password, bindOp username password, hid,
      hval, shortTlv_isTlv (by omega), shortTlv_isTlv (by omega), shortTlv_isTlv ?_, ?_⟩
    · simp only [shortTlv, List.length_append, List.length_cons, List.length_nil]
      omega
    · rwa [List.append_nil]

/-! ## The server's reading of it -/

/-- What ldap_recv_bind_rqt reads: of the first two lengths, and of the tag and length of the
version, it does not look at the values. -/
def bindLayout (l l₁ t l₂ : UInt8) (id name password : List UInt8) : List UInt8 :=
  0x30 :: l :: (shortTlv 0x02 id ++ 0x60 :: l₁ :: t :: l₂ :: 0x03 ::
    (shortTlv 0x04 name ++ shortTlv 0x80 password))

theorem bindOctets_layout (id username password : List UInt8) :
    bindOctets id username password =
      bindLayout (UInt8.ofNat (shortTlv 0x02 id ++ bindOp username password).length)
        (UInt8.ofNat ([0x02, 0x01, 0x03] ++ shortTlv 0x04 username ++
          shortTlv 0x80 password).length) 0x02 0x01 id username password := by
  simp only [bindOctets, bindLayout, bindOp, shortTlv, List.cons_append, List.nil_append]

/-- The session after a bind request was read. -/
def DsSession.bound (sess : DsSession) (messageId : UInt32) (user : DsUser) : DsSession :=
  { sess with rdata := [{ messageId := messageId }], user := user }

/-- A string behind its length, which is below 128. -/
theorem charString_eq {buff : Block} {i : Nat} {s : List UInt8} (hs : s.length < 128)
    (h : Holds buff i (UInt8.ofNat s.length :: s)) :
    charString buff i = .ok (s, ((i + 1 + s.length : Nat) : Int)) := by
  have hl : buff.load ((i : Int) + 1) s.length = .ok s := by exact_mod_cast h.tail.load
  simp only [charString, h.rd, ok_bind, schar_ofNat hs, hl, pure_eq_ok]
  push_cast
  rfl

theorem shortTlv_length (tag : UInt8) (content : List UInt8) :
    (shortTlv tag content).length = 2 + content.length := by
  rw [shortTlv, List.length_cons, List.length_cons]
  omega

/-- The password, and the look into the user list. -/
theorem recvBindPassword_eq (users : List DsUser) {buff : Block} {i : Nat}
    {password : List UInt8} (hp : password.length < 128)
    (h : Holds buff i (shortTlv 0x80 password)) (sess : DsSession) :
    recvBindPassword users buff i sess =
      (authenticate users ⟨sess.user.name, password⟩).map fun known =>
        (if known then some .ok else some .errAuthen,
          { sess with user := ⟨sess.user.name, password⟩ }) := by
  have hs : charString buff ((i : Int) + 1) =
      .ok (password, ((i + 1 + 1 + password.length : Nat) : Int)) := by
    exact_mod_cast charString_eq hp h.tail
  simp only [recvBindPassword, h.rd, hs, ok_bind, ne_eq, not_true_eq_false, if_false]
  cases authenticate users ⟨sess.user.name, password⟩ with
  | error f => rfl
  | ok known => cases known <;> rfl

/-- The operation up to the name. -/
theorem recvBindOp_name (users : List DsUser) {buff : Block} {i : Nat} {l₁ t l₂ : UInt8}
    {name : List UInt8} (hn : name.length < 128)
    (h : Holds buff i (0x60 :: l₁ :: t :: l₂ :: 0x03 :: shortTlv 0x04 name)) (sess : DsSession) :
    recvBindOp users buff i sess =
      recvBindPassword users buff ((i + 7 + name.length : Nat) : Int)
        { sess with user := { sess.user with name := name } } := by
  have h4 := h.tail.tail.tail.tail
  have r0 := h.rd
  have r4 : buff.rd ((i : Int) + 4) = .ok 0x03 := by exact_mod_cast h4.rd
  have r5 : buff.rd ((i : Int) + 5) = .ok 0x04 := by exact_mod_cast h4.tail.rd
  have hs : charString buff ((i : Int) + 6) = .ok (name, ((i + 7 + name.length : Nat) : Int)) := by
    have := charString_eq hn h4.tail.tail
    push_cast at this ⊢
    exact this
  simp only [recvBindOp, r0, r4, r5, hs, ok_bind, ne_eq, not_true_eq_false, if_false]

/-- The parser up to the id. -/
theorem recvBindMsg_id (users : List DsUser) {buff : Block} {l : UInt8} {id : List UInt8}
    (hi : id.length < 128) (h : Holds buff 0 (0x30 :: l :: shortTlv 0x02 id)) (sess : DsSession) :
    recvBindMsg users buff sess =
      recvBindOp users buff ((4 + id.length : Nat) : Int)
        { sess with rdata := [{ messageId := UInt32.ofNat (beVal id) }] } := by
  have h2 := h.tail.tail
  have r0 : buff.rd 0 = .ok 0x30 := by exact_mod_cast h.rd
  have r2 : buff.rd 2 = .ok 0x02 := by exact_mod_cast h2.rd
  have r3 : buff.rd 3 = .ok (UInt8.ofNat id.length) := by exact_mod_cast h2.tail.rd
  have htid : decodeTid buff id.length 4 0 = .ok (UInt32.ofNat (beVal id)) := by
    have := decodeTid_eq 0 h2.tail.tail
    rw [UInt32.zero_add] at this
    exact_mod_cast this
  have hneg : ¬ ((id.length : Int) < 0) := by omega
  simp only [recvBindMsg, r0, r2, r3, schar_ofNat hi, ok_bind, ne_eq, not_true_eq_false, if_false,
    hneg, Int.toNat_natCast, htid]
  push_cast
  rfl

/-- The whole parser on a layout. -/
theorem recvBindMsg_layout (users : List DsUser) {buff : Block} {l l₁ t l₂ : UInt8}
    {id name password : List UInt8} (hi : id.length < 128) (hn : name.length < 128)
    (hp : password.length < 128) (h : Holds buff 0 (bindLayout l l₁ t l₂ id name password))
    (sess : DsSession) :
    recvBindMsg users buff sess =
      (authenticate users ⟨name, password⟩).map fun known =>
        (if known then some .ok else some .errAuthen,
          sess.bound (UInt32.ofNat (beVal id)) ⟨name, password⟩) := by
  have hsplit : bindLayout l l₁ t l₂ id name password =
      (0x30 :: l :: shortTlv 0x02 id) ++ ((0x60 :: l₁ :: t :: l₂ :: 0x03 :: shortTlv 0x04 name) ++
        shortTlv 0x80 password) := by
    simp only [bindLayout, List.cons_append]
  rw [hsplit] at h
  have hop := h.right
  have hpw := hop.right
  simp only [List.length_cons, shortTlv_length] at hop hpw
  rw [show 0 + (2 + id.length + 1 + 1) = 4 + id.length by omega] at hop hpw
  rw [show 4 + id.length + (2 + name.length + 1 + 1 + 1 + 1 + 1) = 4 + id.length + 7 + name.length
    by omega] at hpw
  rw [recvBindMsg_id users hi h.left, recvBindOp_name users hn hop.left,
    recvBindPassword_eq users hp hpw]
  rfl

/-! ## The reply -/

/-- An array that is large enough takes what is received into it. -/
theorem write_stack (size : Nat) (stack : Nat → UInt8) (xs : List UInt8) (h : xs.length ≤ size) :
    ∃ buff, Block.write ⟨size, stack⟩ 0 xs = .ok buff ∧ Holds buff 0 xs ∧ buff.size = size := by
  have hw : ∃ buff, Block.write ⟨size, stack⟩ 0 xs = .ok buff := by
    unfold Block.write
    exact ⟨_, if_pos (by simp only; omega)⟩
  obtain ⟨buff, hbuff⟩ := hw
  obtain ⟨hholds, hsize⟩ := Holds.written hbuff
  exact ⟨buff, hbuff, hholds, hsize⟩

theorem bindRespIdSize_range (messageId : UInt32) :
    1 ≤ bindRespIdSize messageId ∧ bindRespIdSize messageId ≤ 4 := by
  unfold bindRespIdSize
  split_ifs <;> omega

/-- A successful bind response is accepted, whatever the message id. -/
theorem recvBindResp_accepts (stack : Nat → UInt8) (messageId : UInt32) :
    ldapRecvBindResp stack (.data (bindResponse messageId 0)) = .ok 0 := by
  obtain ⟨hn1, hn4⟩ := bindRespIdSize_range messageId
  generalize hn : bindRespIdSize messageId = n at hn1 hn4
  have hlen := octets_length messageId.toNat n
  generalize hos : octets messageId.toNat n = os at hlen
  have hmsg : bindResponse messageId 0 = 0x30 :: UInt8.ofNat (0x02 :: UInt8.ofNat n :: os ++
      [0x61, 0x07, 0x0a, 0x01, toChar 0, 0x04, 0x00, 0x04, 0x00]).length :: 0x02 ::
      UInt8.ofNat n :: (os ++ [0x61, 0x07, 0x0a, 0x01, toChar 0, 0x04, 0x00, 0x04, 0x00]) := by
    simp only [bindResponse, hn, hos, List.cons_append]
  rw [hmsg]
  have hfits : (0x30 :: UInt8.ofNat (0x02 :: UInt8.ofNat n :: os ++
      [0x61, 0x07, 0x0a, 0x01, toChar 0, 0x04, 0x00, 0x04, 0x00]).length :: 0x02 ::
      UInt8.ofNat n :: (os ++ [0x61, 0x07, 0x0a, 0x01, toChar 0, 0x04, 0x00, 0x04,
        0x00])).length ≤ 128 := by
    simp only [List.length_cons, List.length_append, List.length_nil]
    omega
  obtain ⟨buff, hbuff, h, -⟩ := write_stack 128 stack _ hfits
  have h2 := h.tail.tail
  have h4 := h2.tail.tail
  have h5 := h4.right
  have r0 : buff.rd 0 = .ok 0x30 := by exact_mod_cast h.rd
  have r2 : buff.rd 2 = .ok 0x02 := by exact_mod_cast h2.rd
  have r3 : buff.rd 3 = .ok (UInt8.ofNat n) := by exact_mod_cast h2.tail.rd
  have hid : buff.load 4 n = .ok os := by
    have := h4.left.load
    rw [hlen] at this
    exact_mod_cast this
  have hi : 0 + 1 + 1 + 1 + 1 + os.length = 4 + n := by omega
  rw [hi] at h5
  have r5 : buff.rd (4 + (n : Int)) = .ok 0x61 := by exact_mod_cast h5.rd
  have r6 : buff.rd (4 + (n : Int) + 2) = .ok 0x0a := by exact_mod_cast h5.tail.tail.rd
  have r7 : buff.rd (4 + (n : Int) + 4) = .ok (toChar 0) := by
    exact_mod_cast h5.tail.tail.tail.tail.rd
  have hpos : 0 < (n : Int) := by omega
  have hzero : toChar 0 = 0 := by decide
  rw [hzero] at hbuff r7 ⊢
  simp only [ldapRecvBindResp, hbuff, ok_bind, r0, r2, r3, schar_ofNat (by omega : n < 128), hpos,
    if_true, hid, r5, r6, r7, ne_eq, not_true_eq_false, if_false, pure_eq_ok]

/-! ## The handshake -/

/-- What the handshake is to achieve: the bytes sent are one well-formed bind request, the server
accepts exactly those bytes and has the id and the credentials, and the client accepts the
server's reply. -/
def HandshakeAgrees (tid : Int) (username password : List UInt8) (ds : DsT) : Prop :=
  ∃ msg, bindRequest tid username password = .ok msg ∧
    BindMessage tid.toNat username password [] msg ∧
    ∀ stack sess, ∃ sess', ldapRecvBindRqt stack (.data msg) ds sess = .ok (some .ok, sess') ∧
      sess'.rdata.map LdapMessage.messageId = [UInt32.ofNat tid.toNat] ∧
      sess'.user = ⟨username, password⟩ ∧
      ∀ stack' send, ∃ reply, (ldapSendBindResp 0 send sess').2.2 = some reply ∧
        ldapRecvBindResp stack' (.data reply) = .ok 0

/-- A user of the list is recognised. -/
theorem authenticate_mem {users : List DsUser} {user : DsUser} (h : user ∈ users) :
    authenticate users user = .ok true := by
  unfold authenticate
  rw [if_neg (by cases users with | nil => cases h | cons => simp), List.any_eq_true.2]
  exact ⟨user, h, by simp⟩

theorem bound_accepted (resultCode : Int) (send : Send) (sess : DsSession) (messageId : UInt32)
    (user : DsUser) :
    (ldapSendBindResp resultCode send (sess.bound messageId user)).2.2 =
      some (bindResponse messageId resultCode) := by
  unfold ldapSendBindResp
  simp only [DsSession.bound, List.head?_cons]
  split <;> rfl

/-- Client and server agree exactly when every octet of the id is in 1..127 and the request fits
into the 128 bytes the client has for it. -/
theorem handshake_iff {tid : Int} (hpos : 0 < tid) (hmax : tid < 0x7fffffff)
    {username password : List UInt8} (hu : username.length < 256) (hp : password.length < 256)
    {ds : DsT} (known : ⟨username, password⟩ ∈ ds.userList) :
    HandshakeAgrees tid username password ds ↔
      PositiveOctets tid ∧ 13 + octetCount tid + username.length + password.length ≤ 128 := by
  have hreq := bindRequest_eq tid hu hp
  constructor
  · rintro ⟨msg, hmsg, hbind, -⟩
    rw [hreq] at hmsg
    split at hmsg
    · rename_i hfits
      cases hmsg
      have hval := (bindOctets_message_iff hfits).1 hbind
      have hoct := (beVal_bindIdOctets_iff hpos (by omega)).1 hval
      rw [bindIdOctets_length hpos (by omega) hoct] at hfits
      exact ⟨hoct, hfits⟩
    · cases hmsg
  · rintro ⟨hoct, hfits⟩
    have hval := (beVal_bindIdOctets_iff hpos (by omega)).2 hoct
    rw [← bindIdOctets_length hpos (by omega) hoct] at hfits
    rw [if_pos hfits] at hreq
    refine ⟨_, hreq, (bindOctets_message_iff hfits).2 hval, fun stack sess => ?_⟩
    have hlong : (bindOctets (bindIdOctets tid) username password).length ≤ 512 := by
      rw [bindOctets_length]
      omega
    obtain ⟨buff, hbuff, hholds, -⟩ := write_stack 512 stack _ hlong
    rw [bindOctets_layout] at hholds
    have hrecv := recvBindMsg_layout ds.userList (by omega) (by omega) (by omega) hholds sess
    rw [authenticate_mem known, hval] at hrecv
    refine ⟨sess.bound (UInt32.ofNat tid.toNat) ⟨username, password⟩, ?_, rfl, rfl,
      fun stack' send => ⟨_, bound_accepted 0 send sess _ _, recvBindResp_accepts stack' _⟩⟩
    rw [bindOctets_layout] at hbuff ⊢
    unfold bindLayout at hbuff ⊢
    simp only [ldapRecvBindRqt, hbuff, ok_bind]
    exact hrecv

theorem handshake_iff_five :
    HandshakeAgrees 5 (ascii "u") (ascii "p") ⟨[⟨ascii "u", ascii "p"⟩], 1⟩ ↔
      PositiveOctets 5 ∧ 13 + octetCount 5 + (ascii "u").length + (ascii "p").length ≤ 128 :=
  handshake_iff (by decide) (by decide) (by decide) (by decide) (List.mem_singleton.2 rfl)

/-- With the id 128 the request has an empty id. -/
theorem handshake_fails_128 :
    ¬ HandshakeAgrees 128 (ascii "u") (ascii "p") ⟨[⟨ascii "u", ascii "p"⟩], 1⟩ := by
  rintro ⟨msg, hmsg, hbind, -⟩
  have hu : (ascii "u").length < 256 := by decide
  have hp : (ascii "p").length < 256 := by decide
  have hfits : 13 + (bindIdOctets 128).length + (ascii "u").length + (ascii "p").length ≤ 128 := by
    decide
  rw [bindRequest_eq 128 hu hp, if_pos hfits] at hmsg
  cases hmsg
  have hval := (bindOctets_message_iff hfits).1 hbind
  exact absurd hval (by decide)

end CassandraApi.Ldap
