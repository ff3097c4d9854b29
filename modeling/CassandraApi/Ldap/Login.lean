/-
# `Ldap.Login` — who gets in

LDAP_sess_read on a session in state OPEN, for every user list, every packet and
every contents of the 512-byte array behind the received bytes.  The parser looks
at neither the number of bytes received nor the sign of its length octets, so

    * a length octet of 128 or more (`BadLength`) is a copy or a walk over nearly
      all memory;
    * what it reads may lie behind the packet (`bindLayout` is what it reads);
    * the octets it steps over may be anything;
    * strcmp stops at a NUL inside a name or password;
    * the walk over an empty user list dereferences NULL.

`onlyRegistered_iff`: these are all the ways in which it goes wrong.
-/
import CassandraApi.Ldap.Bind

namespace CassandraApi.Ldap

open C Ber

/-! ## The property -/

/-- A return code below 0. -/
def BindRet.isError (r : BindRet) : Prop := BindRet.value r < 0

/-- A server with the users that were added to it. -/
def withUsers (maxConcurrent : Int) (added : List (Option (List UInt8) × Option (List UInt8))) :
    DsT :=
  added.foldl (fun ds u => ldpaSvrUserAdd ds u.1 u.2) ⟨[], maxConcurrent⟩

/-- The received bytes start with a complete version 3 simple bind as this user. -/
def CompleteBind (user : DsUser) (data : List UInt8) : Prop :=
  ∃ id more msg rest, data = msg ++ rest ∧ BindMessage id user.name user.password more msg

/-- LDAP_sess_read reads no invalid memory, lets in only a registered user whose bind is
complete, and otherwise returns an error and leaves the session OPEN. -/
def OnlyRegistered (ds : DsT) (stack : Nat → UInt8) (data : List UInt8) (sess : DsSession) : Prop :=
  ∀ send alloc, ∃ out sess', ldapSessRead .none stack send alloc (.data data) ds sess =
      .ok (out, sess') ∧
    ((sess'.state = .stateReady ∧ ∃ u ∈ ds.userList, CompleteBind u data) ∨
      (sess'.state = .stateOpen ∧ BindRet.isError out.code))

/-! ## What is in the array -/

/-- The array after the packet was received into it. -/
def received (stack : Nat → UInt8) (data : List UInt8) : Block where
  size := 512
  byte k := if k < data.length then data.getD k 0 else stack k

/-- A length octet that is negative as `char`, where the parser reads a length. -/
inductive BadLength (buff : Block) : Prop where
  | id {l b : UInt8} (bad : 128 ≤ b.toNat) (h : Holds buff 0 [0x30, l, 0x02, b])
  | name {l l₁ t l₂ b : UInt8} {id : List UInt8} (bad : 128 ≤ b.toNat) (hid : id.length < 128)
      (h : Holds buff 0 (0x30 :: l :: (shortTlv 0x02 id ++ [0x60, l₁, t, l₂, 0x03, 0x04, b])))
  | password {l l₁ t l₂ b : UInt8} {id name : List UInt8} (bad : 128 ≤ b.toNat)
      (hid : id.length < 128) (hn : name.length < 128)
      (h : Holds buff 0 (0x30 :: l :: (shortTlv 0x02 id ++ 0x60 :: l₁ :: t :: l₂ :: 0x03 ::
        (shortTlv 0x04 name ++ [0x80, b]))))

/-- The octets that the parser steps over are those of a complete bind within the packet. -/
structure WithinPacket (data : List UInt8) (l l₁ t l₂ : UInt8) (id name password : List UInt8) :
    Prop where
  inside : 2 + l.toNat ≤ data.length
  covers : 2 + id.length + (9 + name.length + password.length) ≤ l.toNat
  short : l.toNat < 128
  operation : l₁.toNat = 7 + name.length + password.length
  tag : t = 0x02
  length : l₂ = 0x01

/-- A user of the list has this name and password as far as strcmp looks at them. -/
def Matches (users : List DsUser) (name password : List UInt8) : Prop :=
  ∃ u ∈ users, beforeNul name = beforeNul u.name ∧ beforeNul password = beforeNul u.password

/-- When the parser does what it is for. -/
structure Guarded (ds : DsT) (stack : Nat → UInt8) (data : List UInt8) : Prop where
  lengths : ¬ BadLength (received stack data)
  users : ∀ l l₁ t l₂ id name password, id.length < 128 → name.length < 128 →
    password.length < 128 →
    Holds (received stack data) 0 (bindLayout l l₁ t l₂ id name password) →
    ds.userList ≠ [] ∧ (Matches ds.userList name password →
      WithinPacket data l l₁ t l₂ id name password ∧ 0 ∉ name ∧ 0 ∉ password)

/-! ## Two lists in one place -/

/-- Lists that lie in the same place differ only in how long they are. -/
theorem holds_common {b : Block} {i : Nat} {xs ys : List UInt8} (hx : Holds b i xs)
    (hy : Holds b i ys) : ∃ us vs, xs ++ us = ys ++ vs := by
  obtain h | h := Nat.le_total xs.length ys.length
  · refine ⟨b.slice (i + xs.length) (ys.length - xs.length), [], ?_⟩
    have hsplit := b.slice_add i xs.length (ys.length - xs.length)
    rw [show xs.length + (ys.length - xs.length) = ys.length by omega, hx.bytes, hy.bytes] at hsplit
    rw [List.append_nil, ← hsplit]
  · refine ⟨[], b.slice (i + ys.length) (xs.length - ys.length), ?_⟩
    have hsplit := b.slice_add i ys.length (xs.length - ys.length)
    rw [show ys.length + (xs.length - ys.length) = xs.length by omega, hx.bytes, hy.bytes] at hsplit
    rw [List.append_nil, ← hsplit]

/-- The shorter one is an initial segment of the longer one. -/
theorem holds_segment {b : Block} {i : Nat} {xs ys : List UInt8} (hx : Holds b i xs)
    (hy : Holds b i ys) (h : xs.length ≤ ys.length) : ∃ zs, ys = xs ++ zs := by
  obtain ⟨us, vs, he⟩ := holds_common hx hy
  have ht := congrArg (List.take xs.length) he
  rw [List.take_left, List.take_append_of_le_length h] at ht
  refine ⟨ys.drop xs.length, ?_⟩
  calc ys = ys.take xs.length ++ ys.drop xs.length := (List.take_append_drop ..).symm
    _ = xs ++ ys.drop xs.length := by rw [← ht]

theorem holds_received (stack : Nat → UInt8) {data : List UInt8} (h : data.length ≤ 512) :
    Holds (received stack data) 0 data := by
  rw [Holds.iff_get]
  refine ⟨by simpa [received] using h, fun k hk => ?_⟩
  simp only [received, Nat.zero_add, if_pos hk]
  exact List.getD_eq_getElem _ _ hk

theorem write_received (stack : Nat → UInt8) {data : List UInt8} (h : data.length ≤ 512) :
    Block.write ⟨512, stack⟩ 0 data = .ok (received stack data) := by
  unfold Block.write received
  rw [if_pos (by simp only; omega)]
  congr 2
  funext k
  simp only [Int.toNat_zero, Nat.zero_le, true_and, Nat.zero_add, Nat.sub_zero]

/-! ## Where the parser can go -/

theorem rd_byte {b : Block} {i : Nat} (h : i < b.size) : b.rd (i : Int) = .ok (b.byte i) := by
  rw [Block.rd, if_pos (by omega), Int.toNat_natCast]

theorem holds_slice {b : Block} {i n : Nat} (h : i + n ≤ b.size) : Holds b i (b.slice i n) :=
  ⟨by rw [Block.slice_length]; exact h, by rw [Block.slice_length]⟩

theorem holds_byte {b : Block} {i : Nat} (h : i < b.size) : Holds b i [b.byte i] :=
  holds_slice (n := 1) h

/-- The string behind a length below 128. -/
theorem holds_string {b : Block} {i : Nat} (h : i + 1 + (b.byte i).toNat ≤ b.size) :
    Holds b i (UInt8.ofNat (b.slice (i + 1) (b.byte i).toNat).length ::
      b.slice (i + 1) (b.byte i).toNat) := by
  rw [Holds.cons_iff, Block.slice_length]
  exact ⟨⟨by omega, UInt8.ofNat_toNat.symm⟩, holds_slice h⟩

theorem error_none : BindRet.isError none := by
  unfold BindRet.isError BindRet.value
  decide

theorem error_version : BindRet.isError (some .errLdapversion) := by
  unfold BindRet.isError
  decide

theorem error_method : BindRet.isError (some .errAuthenMethod) := by
  unfold BindRet.isError
  decide

theorem error_authen : BindRet.isError (some .errAuthen) := by
  unfold BindRet.isError
  decide

/-- A call that ends with an error, and leaves the session in its state. -/
def EndsRefused (call : Except Fault (BindRet × DsSession)) (sess : DsSession) : Prop :=
  ∃ r sess', call = .ok (r, sess') ∧ BindRet.isError r ∧ sess'.state = sess.state

/-- A call of the parser that refuses the packet. -/
def Refuses (users : List DsUser) (buff : Block) (sess : DsSession) : Prop :=
  ∃ r sess', recvBindMsg users buff sess = .ok (r, sess') ∧ BindRet.isError r ∧
    sess'.state = sess.state

theorem EndsRefused.of_eq {call call' : Except Fault (BindRet × DsSession)}
    {sess sess' : DsSession} (h : EndsRefused call' sess') (hcall : call = call')
    (hstate : sess'.state = sess.state) : EndsRefused call sess := by
  obtain ⟨r, last, hr, herror, hlast⟩ := h
  exact ⟨r, last, hcall.trans hr, herror, hlast.trans hstate⟩

section

variable (users : List DsUser) {buff : Block}

/-- The message id ends the parser, or the operation is behind it. -/
theorem recvBindMsg_cases (hs : 4 + 127 ≤ buff.size) (sess : DsSession) :
    (∃ l b : UInt8, 128 ≤ b.toNat ∧ Holds buff 0 [0x30, l, 0x02, b]) ∨
      EndsRefused (recvBindMsg users buff sess) sess ∨
      ∃ l id sess₁, id.length < 128 ∧ Holds buff 0 (0x30 :: l :: shortTlv 0x02 id) ∧
        recvBindMsg users buff sess = recvBindOp users buff ((4 + id.length : Nat) : Int) sess₁ ∧
        sess₁.state = sess.state := by
  have r0 : buff.rd 0 = .ok (buff.byte 0) := rd_byte (i := 0) (by omega)
  have r2 : buff.rd 2 = .ok (buff.byte 2) := rd_byte (i := 2) (by omega)
  by_cases h0 : buff.byte 0 = 0x30
  swap
  · refine .inr (.inl ⟨none, sess, ?_, error_none, rfl⟩)
    simp only [recvBindMsg, r0, ok_bind, ne_eq, h0, not_false_eq_true, if_true, pure_eq_ok]
  by_cases h2 : buff.byte 2 = 0x02
  swap
  · refine .inr (.inl ⟨none, sess, ?_, error_none, rfl⟩)
    simp only [recvBindMsg, r0, r2, ok_bind, ne_eq, h0, h2, not_true_eq_false, not_false_eq_true,
      if_true, if_false, pure_eq_ok]
  have hstart : ∀ {xs : List UInt8}, Holds buff 2 (0x02 :: xs) →
      Holds buff 0 (0x30 :: buff.byte 1 :: 0x02 :: xs) := by
    intro xs hxs
    exact Holds.cons_iff.2 ⟨⟨by omega, h0⟩, Holds.cons_iff.2 ⟨⟨by omega, rfl⟩, hxs⟩⟩
  by_cases h3 : 128 ≤ (buff.byte 3).toNat
  · refine .inl ⟨_, _, h3, hstart (Holds.cons_iff.2 ⟨⟨by omega, h2⟩, holds_byte (by omega)⟩)⟩
  have hid : Holds buff 2 (shortTlv 0x02 (buff.slice 4 (buff.byte 3).toNat)) :=
    Holds.cons_iff.2 ⟨⟨by omega, h2⟩, holds_string (i := 3) (by omega)⟩
  have hidlen : (buff.slice 4 (buff.byte 3).toNat).length < 128 := by
    rw [Block.slice_length]
    omega
  exact .inr (.inr ⟨_, _, _, hidlen, hstart hid, recvBindMsg_id users hidlen (hstart hid) sess,
    rfl⟩)

/-- The operation ends the parser, or the authentication is behind the name. -/
theorem recvBindOp_cases {i : Nat} (hi : i + 7 + 127 ≤ buff.size) (sess : DsSession) :
    (∃ l₁ t l₂ b : UInt8, 128 ≤ b.toNat ∧ Holds buff i [0x60, l₁, t, l₂, 0x03, 0x04, b]) ∨
      EndsRefused (recvBindOp users buff i sess) sess ∨
      ∃ l₁ t l₂ name sess₁, name.length < 128 ∧
        Holds buff i (0x60 :: l₁ :: t :: l₂ :: 0x03 :: shortTlv 0x04 name) ∧
        recvBindOp users buff i sess =
          recvBindPassword users buff ((i + 7 + name.length : Nat) : Int) sess₁ ∧
        sess₁.state = sess.state := by
  have r0 : buff.rd (i : Int) = .ok (buff.byte i) := rd_byte (by omega)
  have r4 : buff.rd ((i : Int) + 4) = .ok (buff.byte (i + 4)) := rd_byte (i := i + 4) (by omega)
  have r5 : buff.rd ((i : Int) + 5) = .ok (buff.byte (i + 5)) := rd_byte (i := i + 5) (by omega)
  by_cases h0 : buff.byte i = 0x60
  swap
  · refine .inr (.inl ⟨none, sess, ?_, error_none, rfl⟩)
    simp only [recvBindOp, r0, ok_bind, ne_eq, h0, not_false_eq_true, if_true, pure_eq_ok]
  by_cases h4 : buff.byte (i + 4) = 3
  swap
  · refine .inr (.inl ⟨_, sess, ?_, error_version, rfl⟩)
    simp only [recvBindOp, r0, r4, ok_bind, ne_eq, h0, h4, not_true_eq_false, not_false_eq_true,
      if_true, if_false, pure_eq_ok]
  by_cases h5 : buff.byte (i + 5) = 0x04
  swap
  · refine .inr (.inl ⟨none, sess, ?_, error_none, rfl⟩)
    simp only [recvBindOp, r0, r4, r5, ok_bind, ne_eq, h0, h4, h5, not_true_eq_false,
      not_false_eq_true, if_true, if_false, pure_eq_ok]
  have hstart : ∀ {zs : List UInt8}, Holds buff (i + 5) (0x04 :: zs) → Holds buff i
      (0x60 :: buff.byte (i + 1) :: buff.byte (i + 2) :: buff.byte (i + 3) :: 0x03 :: 0x04 ::
        zs) := by
    intro zs hzs
    refine Holds.cons_iff.2 ⟨⟨by omega, h0⟩, Holds.cons_iff.2 ⟨⟨by omega, rfl⟩,
      Holds.cons_iff.2 ⟨⟨by omega, rfl⟩, Holds.cons_iff.2 ⟨⟨by omega, rfl⟩,
      Holds.cons_iff.2 ⟨⟨by omega, h4⟩, hzs⟩⟩⟩⟩⟩
  by_cases h6 : 128 ≤ (buff.byte (i + 6)).toNat
  · refine .inl ⟨_, _, _, _, h6, hstart ?_⟩
    exact Holds.cons_iff.2 ⟨⟨by omega, h5⟩, holds_byte (by omega)⟩
  have hname : Holds buff (i + 5) (shortTlv 0x04 (buff.slice (i + 7) (buff.byte (i + 6)).toNat)) :=
    Holds.cons_iff.2 ⟨⟨by omega, h5⟩, holds_string (i := i + 6) (by omega)⟩
  have hnamelen : (buff.slice (i + 7) (buff.byte (i + 6)).toNat).length < 128 := by
    rw [Block.slice_length]
    omega
  exact .inr (.inr ⟨_, _, _, _, _, hnamelen, hstart hname,
    recvBindOp_name users hnamelen (hstart hname) sess, rfl⟩)

/-- The authentication ends the parser, or a password is read. -/
theorem recvBindPassword_cases {i : Nat} (hi : i + 2 + 127 ≤ buff.size) (sess : DsSession) :
    (∃ b : UInt8, 128 ≤ b.toNat ∧ Holds buff i [0x80, b]) ∨
      EndsRefused (recvBindPassword users buff i sess) sess ∨
      ∃ password, password.length < 128 ∧ Holds buff i (shortTlv 0x80 password) := by
  have r0 : buff.rd (i : Int) = .ok (buff.byte i) := rd_byte (by omega)
  by_cases h0 : buff.byte i = 0x80
  swap
  · refine .inr (.inl ⟨_, sess, ?_, error_method, rfl⟩)
    simp only [recvBindPassword, r0, ok_bind, ne_eq, h0, not_false_eq_true, if_true, pure_eq_ok]
  by_cases h1 : 128 ≤ (buff.byte (i + 1)).toNat
  · exact .inl ⟨_, h1, Holds.cons_iff.2 ⟨⟨by omega, h0⟩, holds_byte (by omega)⟩⟩
  have hpw : Holds buff i (shortTlv 0x80 (buff.slice (i + 2) (buff.byte (i + 1)).toNat)) :=
    Holds.cons_iff.2 ⟨⟨by omega, h0⟩, holds_string (i := i + 1) (by omega)⟩
  exact .inr (.inr ⟨_, by rw [Block.slice_length]; omega, hpw⟩)

/-- The parser meets a bad length, or refuses the packet, or reads a name and a password. -/
theorem parser_cases (hs : buff.size = 512) (sess : DsSession) :
    BadLength buff ∨ Refuses users buff sess ∨
      ∃ l l₁ t l₂ id name password, id.length < 128 ∧ name.length < 128 ∧
        password.length < 128 ∧ Holds buff 0 (bindLayout l l₁ t l₂ id name password) := by
  obtain ⟨l, b, bad, h⟩ | hrefuses | ⟨l, id, sess₁, hid, hhead, hmsg, hstate⟩ :=
    recvBindMsg_cases users (show 4 + 127 ≤ buff.size by omega) sess
  · exact .inl (.id bad h)
  · exact .inr (.inl hrefuses)
  have hjoin : ∀ {ys : List UInt8}, Holds buff (4 + id.length) ys →
      Holds buff 0 (0x30 :: l :: (shortTlv 0x02 id ++ ys)) := by
    intro ys hys
    rw [← List.cons_append, ← List.cons_append]
    refine Holds.append_iff.2 ⟨hhead, ?_⟩
    simp only [List.length_cons, shortTlv_length]
    rwa [show 0 + (2 + id.length + 1 + 1) = 4 + id.length by omega]
  obtain ⟨l₁, t, l₂, b, bad, h⟩ | hrefuses | ⟨l₁, t, l₂, name, sess₂, hname, hop, hbind, hstate₂⟩ :=
    recvBindOp_cases users (show 4 + id.length + 7 + 127 ≤ buff.size by omega) sess₁
  · exact .inl (.name bad hid (hjoin h))
  · exact .inr (.inl (hrefuses.of_eq hmsg hstate))
  have hjoin' : ∀ {ws : List UInt8}, Holds buff (4 + id.length + 7 + name.length) ws →
      Holds buff (4 + id.length)
        (0x60 :: l₁ :: t :: l₂ :: 0x03 :: (shortTlv 0x04 name ++ ws)) := by
    intro ws hws
    refine Holds.append_iff.2 ⟨hop, ?_⟩
    simp only [List.length_cons, shortTlv_length]
    rwa [show 4 + id.length + (2 + name.length + 1 + 1 + 1 + 1 + 1) =
      4 + id.length + 7 + name.length by omega]
  obtain ⟨b, bad, h⟩ | hrefuses | ⟨password, hpassword, hpw⟩ :=
    recvBindPassword_cases users
      (show 4 + id.length + 7 + name.length + 2 + 127 ≤ buff.size by omega) sess₂
  · exact .inl (.password bad hid hname (hjoin (hjoin' h)))
  · exact .inr (.inl (hrefuses.of_eq (hmsg.trans hbind) (hstate₂.trans hstate)))
  · exact .inr (.inr ⟨l, l₁, t, l₂, id, name, password, hid, hname, hpassword,
      hjoin (hjoin' hpw)⟩)

end

/-! ## Bad lengths -/

theorem schar_neg {b : UInt8} (h : 128 ≤ b.toNat) : schar b < 0 := by
  have := b.toNat_lt
  unfold schar
  rw [if_neg (by omega)]
  omega

theorem charString_bad {buff : Block} {i : Nat} {b : UInt8} (bad : 128 ≤ b.toNat)
    (h : Holds buff i [b]) : charString buff i = .error .overrun := by
  have hload : buff.load ((i : Int) + 1) (schar b) = .error .overrun := if_pos (schar_neg bad)
  simp only [charString, h.rd, ok_bind, hload, error_bind]

/-- A negative length never goes unnoticed: it runs over memory. -/
theorem badLength_faults (users : List DsUser) {buff : Block} (h : BadLength buff)
    (sess : DsSession) : ∃ f, recvBindMsg users buff sess = .error f := by
  cases h with
  | id bad h =>
    have r0 : buff.rd 0 = .ok 0x30 := by exact_mod_cast h.rd
    have r2 : buff.rd 2 = .ok 0x02 := by exact_mod_cast h.tail.tail.rd
    have r3 := h.tail.tail.tail.rd
    refine ⟨.read, ?_⟩
    simp only [recvBindMsg, r0, r2, ok_bind, ne_eq, not_true_eq_false, if_false,
      show buff.rd 3 = _ from r3, schar_neg bad, if_true, throw_eq_error, error_bind]
  | @name l l₁ t l₂ b id bad hid h =>
    rw [← List.cons_append, ← List.cons_append] at h
    have hop := h.right
    simp only [List.length_cons, shortTlv_length] at hop
    rw [show 0 + (2 + id.length + 1 + 1) = 4 + id.length by omega] at hop
    rw [recvBindMsg_id users hid h.left]
    generalize 4 + id.length = i at hop
    have h4 := hop.tail.tail.tail.tail
    have r0 := hop.rd
    have r4 : buff.rd ((i : Int) + 4) = .ok 0x03 := by exact_mod_cast h4.rd
    have r5 : buff.rd ((i : Int) + 5) = .ok 0x04 := by exact_mod_cast h4.tail.rd
    have hs : charString buff ((i : Int) + 6) = .error .overrun := by
      exact_mod_cast charString_bad bad h4.tail.tail
    exact ⟨.overrun, by
      simp only [recvBindOp, r0, r4, r5, hs, ok_bind, error_bind, ne_eq, not_true_eq_false,
        if_false]⟩
  | @password l l₁ t l₂ b id name bad hid hn h =>
    rw [← List.cons_append, ← List.cons_append] at h
    have hop := h.right
    simp only [List.length_cons, shortTlv_length] at hop
    rw [show 0 + (2 + id.length + 1 + 1) = 4 + id.length by omega] at hop
    rw [recvBindMsg_id users hid h.left]
    generalize 4 + id.length = i at hop
    simp only [← List.cons_append] at hop
    have hpw := hop.right
    simp only [List.length_cons, shortTlv_length] at hpw
    rw [show i + (2 + name.length + 1 + 1 + 1 + 1 + 1) = i + 7 + name.length by omega] at hpw
    rw [recvBindOp_name users hn hop.left]
    generalize i + 7 + name.length = j at hpw
    have hs : charString buff ((j : Int) + 1) = .error .overrun := by
      exact_mod_cast charString_bad bad hpw.tail
    exact ⟨.overrun, by
      simp only [recvBindPassword, hpw.rd, hs, ok_bind, error_bind, ne_eq, not_true_eq_false,
        if_false]⟩

/-! ## Complete binds -/

/-- The operation of a complete bind, where the parser has read its layout. -/
theorem operation_layout {user : DsUser} {l₁ t l₂ : UInt8}
    {name password nameT passwordT op xs ys : List UInt8} (hn : Tlv 0x04 user.name nameT)
    (hp : Tlv 0x80 user.password passwordT)
    (hop : Tlv 0x60 ([0x02, 0x01, 0x03] ++ nameT ++ passwordT) op) (hlen : op.length ≤ 512)
    (hname : name.length < 128) (hpw : password.length < 128)
    (he : op ++ xs = 0x60 :: l₁ :: t :: l₂ :: 0x03 ::
      (shortTlv 0x04 name ++ (shortTlv 0x80 password ++ ys))) :
    t = 0x02 ∧ l₂ = 0x01 ∧ user.name = name ∧ user.password = password ∧
      l₁.toNat = 7 + name.length + password.length ∧ xs = ys := by
  cases hop with
  | @mk L len =>
    rw [List.cons_append, List.append_assoc] at he
    have htl := (List.cons.inj he).2
    simp only [List.length_cons, List.length_append, List.length_nil] at hlen len
    obtain ⟨hshort, rfl⟩ | ⟨os, pos, four, hval, rfl⟩ := len.forms
    · obtain ⟨hl, htl⟩ := List.cons.inj htl
      simp only [List.cons_append, List.nil_append, List.append_assoc] at htl
      obtain ⟨ht, htl⟩ := List.cons.inj htl
      obtain ⟨hl₂, htl⟩ := List.cons.inj htl
      obtain ⟨-, htl⟩ := List.cons.inj htl
      obtain ⟨hun, htl'⟩ := hn.append_inj (shortTlv_isTlv hname) htl
      obtain ⟨hup, hxy⟩ := hp.append_inj (shortTlv_isTlv hpw) htl'
      have e2 := congrArg List.length htl'
      have e1 := congrArg List.length htl
      have e0 := congrArg List.length hxy
      simp only [List.length_append, shortTlv_length] at e1 e2
      refine ⟨ht.symm, hl₂.symm, hun, hup, ?_, hxy⟩
      rw [← hl, UInt8.toNat_ofNat']
      omega
    · -- a long form would take some of the bytes that have to be those of the version
      exfalso
      have htl := (List.cons.inj htl).2
      simp only [List.length_cons] at hlen
      match os, pos, four with
      | [a], _, _ =>
        simp only [List.append_eq, List.cons_append, List.nil_append, List.cons.injEq] at htl
        exact absurd htl.2.2.1 (by decide)
      | [a, b], _, _ =>
        simp only [List.append_eq, List.cons_append, List.nil_append, List.cons.injEq] at htl
        exact absurd htl.2.2.1 (by decide)
      | [a, b, c], _, _ =>
        simp only [List.append_eq, List.cons_append, List.nil_append, List.cons.injEq, shortTlv] at htl
        exact absurd htl.2.2.2.1 (by decide)
      | [a, b, c, d], _, _ =>
        simp only [List.append_eq, List.cons_append, List.nil_append, List.cons.injEq, shortTlv] at htl
        obtain ⟨-, -, hc, -⟩ := htl
        have h3 : (0x03 : UInt8).toNat = 3 := rfl
        simp only [beVal, List.length_cons, List.length_nil, hc, h3] at hval
        omega

/-- A complete bind that starts where the parser has read its layout. -/
theorem message_layout {user : DsUser} {id₀ : Nat} {l l₁ t l₂ : UInt8}
    {id name password more msg rest vs us : List UInt8} (hid : id.length < 128)
    (hname : name.length < 128) (hpw : password.length < 128) (hlen : msg.length ≤ 512)
    (hmsg : BindMessage id₀ user.name user.password more msg)
    (he : msg ++ (rest ++ vs) = bindLayout l l₁ t l₂ id name password ++ us) :
    WithinPacket (msg ++ rest) l l₁ t l₂ id name password ∧ user.name = name ∧
      user.password = password := by
  obtain ⟨idOctets, idT, nameT, passwordT, op, hidT, -, hn, hp, hop, hwhole⟩ := hmsg
  cases hwhole with
  | @mk L len =>
    rw [bindLayout, List.cons_append, List.cons_append] at he
    have htl := (List.cons.inj he).2
    simp only [List.append_assoc, List.cons_append] at htl
    simp only [List.length_cons, List.length_append] at hlen
    obtain ⟨hshort, rfl⟩ | ⟨os, pos, four, hval, rfl⟩ := len.forms
    · obtain ⟨hl, htl⟩ := List.cons.inj htl
      simp only [List.append_eq, List.nil_append] at htl
      obtain ⟨rfl, htl'⟩ := hidT.append_inj (shortTlv_isTlv hid) htl
      obtain ⟨ht, hl₂, hun, hup, hl₁, hxy⟩ := operation_layout hn hp hop (by omega) hname hpw htl'
      have e2 := congrArg List.length htl'
      have e1 := congrArg List.length htl
      have e0 := congrArg List.length hxy
      simp only [List.length_append, List.length_cons, shortTlv_length] at e0 e1 e2 hshort
      have hln : l.toNat = (idT ++ op ++ more).length := by
        rw [← hl, UInt8.toNat_ofNat']
        simp only [List.length_append]
        omega
      simp only [List.length_append] at hln
      refine ⟨⟨?_, ?_, ?_, hl₁, ht, hl₂⟩, hun, hup⟩
      · simp only [List.length_append, List.length_cons, List.length_nil]
        omega
      · omega
      · omega
    · -- the id and its length would be octets of a length beyond the array
      exfalso
      have htl := (List.cons.inj htl).2
      have h2 : (0x02 : UInt8).toNat = 2 := rfl
      have hid2 := hidT.two_le
      have hop2 := hop.two_le
      simp only [List.length_cons, List.length_append] at hlen hval
      cases os with
      | nil => exact absurd pos (by simp)
      | cons a os =>
        cases os with
        | nil =>
          simp only [List.append_eq, List.cons_append, List.nil_append, List.cons.injEq, shortTlv]
            at htl
          simp only [beVal, List.length_nil, htl.1, h2] at hval
          omega
        | cons b os =>
          simp only [List.append_eq, List.cons_append, List.cons.injEq, shortTlv] at htl
          have hpow : 256 ^ 1 ≤ 256 ^ (b :: os).length :=
            Nat.pow_le_pow_right (by norm_num) (by simp)
          simp only [beVal, htl.1, h2] at hval
          simp only [List.length_cons] at hlen hpow hval
          omega

/-- The names and passwords of a server's users are C strings. -/
theorem withUsers_nulFree (maxConcurrent : Int)
    (added : List (Option (List UInt8) × Option (List UInt8))) :
    ∀ u ∈ (withUsers maxConcurrent added).userList, 0 ∉ u.name ∧ 0 ∉ u.password := by
  have hstep : ∀ (ds : DsT), (∀ u ∈ ds.userList, 0 ∉ u.name ∧ 0 ∉ u.password) →
      ∀ u ∈ (added.foldl (fun ds u => ldpaSvrUserAdd ds u.1 u.2) ds).userList,
        0 ∉ u.name ∧ 0 ∉ u.password := by
    induction added with
    | nil => exact fun ds h => h
    | cons a added ih =>
      intro ds h
      refine ih _ fun u hu => ?_
      have hfield : ∀ s : Option (List UInt8), 0 ∉ ((s.map beforeNul).getD []).take 255 := by
        intro s hs
        have hmem := List.mem_of_mem_take hs
        cases s with
        | none => cases hmem
        | some s => exact not_mem_beforeNul s hmem
      obtain hu | hu := List.mem_append.1 hu
      · exact h u hu
      · rw [List.mem_singleton.1 hu]
        exact ⟨hfield a.1, hfield a.2⟩
  exact hstep _ fun u hu => absurd hu List.not_mem_nil

theorem bindLayout_length (l l₁ t l₂ : UInt8) (id name password : List UInt8) :
    (bindLayout l l₁ t l₂ id name password).length =
      2 + (2 + id.length + (9 + name.length + password.length)) := by
  simp only [bindLayout, List.length_cons, List.length_append, shortTlv_length]
  omega

/-- With the skipped octets right, the layout is the beginning of a complete bind. -/
theorem complete_of_within {data : List UInt8} {l l₁ t l₂ : UInt8} {id name password zs : List UInt8}
    (hid : id.length < 128) (hdata : data = bindLayout l l₁ t l₂ id name password ++ zs)
    (h : WithinPacket data l l₁ t l₂ id name password) : CompleteBind ⟨name, password⟩ data := by
  obtain ⟨inside, covers, short, operation, rfl, rfl⟩ := h
  have hop : 0x60 :: l₁ :: 0x02 :: 0x01 :: 0x03 ::
      (shortTlv 0x04 name ++ shortTlv 0x80 password) = bindOp name password := by
    have hl₁ : l₁ = UInt8.ofNat (7 + name.length + password.length) := by
      rw [← operation, UInt8.ofNat_toNat]
    have hlen : ([0x02, 0x01, 0x03] ++ shortTlv 0x04 name ++ shortTlv 0x80 password).length =
        7 + name.length + password.length := by
      simp only [List.length_append, List.length_cons, List.length_nil, shortTlv_length]
      omega
    rw [bindOp, shortTlv.eq_1 0x60, hlen, ← hl₁]
    rfl
  have hlayout : bindLayout l l₁ 0x02 0x01 id name password =
      0x30 :: l :: (shortTlv 0x02 id ++ bindOp name password) := by
    rw [bindLayout, hop]
  have hlong := congrArg List.length hdata
  rw [List.length_append, bindLayout_length] at hlong
  -- what the length of the whole message covers behind the operation
  obtain ⟨n, hn⟩ : ∃ n, l.toNat = 2 + id.length + (9 + name.length + password.length) + n :=
    ⟨l.toNat - (2 + id.length + (9 + name.length + password.length)), by omega⟩
  have hcontent : (shortTlv 0x02 id ++ bindOp name password ++ zs.take n).length = l.toNat := by
    simp only [List.length_append, shortTlv_length, bindOp_length, List.length_take]
    omega
  have hn128 : name.length < 128 := by omega
  have hp128 : password.length < 128 := by omega
  refine ⟨beVal id, zs.take n,
    0x30 :: l :: (shortTlv 0x02 id ++ bindOp name password ++ zs.take n), zs.drop n, ?_,
    id, shortTlv 0x02 id, shortTlv 0x04 name, shortTlv 0x80 password, bindOp name password,
    shortTlv_isTlv hid, rfl, shortTlv_isTlv hn128, shortTlv_isTlv hp128, shortTlv_isTlv ?_, ?_⟩
  · rw [hdata, hlayout]
    simp only [List.cons_append, List.append_assoc, List.take_append_drop]
  · simp only [List.length_append, List.length_cons, List.length_nil, shortTlv_length]
    omega
  · have hl : l = UInt8.ofNat
        (shortTlv 0x02 id ++ bindOp name password ++ zs.take n).length := by
      rw [hcontent, UInt8.ofNat_toNat]
    conv => arg 3; rw [hl]
    exact shortTlv_isTlv (by omega)

/-- A user that strcmp finds has a complete bind in the packet exactly when the octets that the
parser skips are right and there is no NUL in name and password. -/
theorem matched_complete_iff {ds : DsT} {stack : Nat → UInt8} {data : List UInt8}
    {l l₁ t l₂ : UInt8} {id name password : List UInt8} (hd : data.length ≤ 512)
    (nulFree : ∀ u ∈ ds.userList, 0 ∉ u.name ∧ 0 ∉ u.password) (hid : id.length < 128)
    (hname : name.length < 128) (hpw : password.length < 128)
    (h : Holds (received stack data) 0 (bindLayout l l₁ t l₂ id name password))
    (hmatch : Matches ds.userList name password) :
    (∃ u ∈ ds.userList, CompleteBind u data) ↔
      WithinPacket data l l₁ t l₂ id name password ∧ 0 ∉ name ∧ 0 ∉ password := by
  constructor
  · rintro ⟨u, hu, id₀, more, msg, rest, rfl, hmsg⟩
    obtain ⟨us, vs, he⟩ := holds_common (holds_received stack hd) h
    rw [List.append_assoc] at he
    rw [List.length_append] at hd
    obtain ⟨hw, rfl, rfl⟩ := message_layout hid hname hpw (by omega) hmsg he
    exact ⟨hw, nulFree u hu⟩
  · rintro ⟨hw, hn, hp⟩
    obtain ⟨u, hu, hun, hup⟩ := hmatch
    rw [beforeNul_eq_self.2 hn, beforeNul_eq_self.2 (nulFree u hu).1] at hun
    rw [beforeNul_eq_self.2 hp, beforeNul_eq_self.2 (nulFree u hu).2] at hup
    have hlen : (bindLayout l l₁ t l₂ id name password).length ≤ data.length := by
      have := hw.inside
      have := hw.covers
      rw [bindLayout_length]
      omega
    obtain ⟨zs, hzs⟩ := holds_segment h (holds_received stack hd) hlen
    refine ⟨u, hu, ?_⟩
    have hc := complete_of_within hid hzs hw
    rwa [hun, hup] at hc

/-! ## LDAP_sess_read -/

theorem sessRead_open {ds : DsT} {stack : Nat → UInt8} {data : List UInt8} {sess : DsSession}
    (hopen : sess.state = .stateOpen) (hne : data ≠ []) (hd : data.length ≤ 512) (send : Send)
    (alloc : Alloc) :
    ldapSessRead .none stack send alloc (.data data) ds sess = (do
      let (r, sess) ← recvBindMsg ds.userList (received stack data) sess
      if r ≠ some .ok then
        let (_, sess, _) := ldapSendBindResp (bindFailure r) send sess
        pure (⟨r, some s!"bind request return error ({BindRet.value r})"⟩, sess)
      else
        match ldapSendBindResp 0 send sess with
        | (some .ok, sess, _) => pure (⟨some .ready, none⟩, { sess with state := .stateReady })
        | (_, sess, _) => pure (⟨some .errConnect, some "can not send bind response"⟩, sess)) := by
  cases data with
  | nil => exact absurd rfl hne
  | cons b bs =>
    simp only [ldapSessRead, hopen, SockErr.message, ldapRecvBindRqt, write_received stack hd,
      ok_bind] <;> rfl

theorem sendBindResp_state (resultCode : Int) (send : Send) (sess : DsSession) :
    (ldapSendBindResp resultCode send sess).2.1.state = sess.state := by
  unfold ldapSendBindResp
  split
  · rfl
  · split <;> rfl

theorem authenticate_iff {users : List DsUser} {name password : List UInt8} {known : Bool}
    (h : authenticate users ⟨name, password⟩ = .ok known) :
    users ≠ [] ∧ (known = true ↔ Matches users name password) := by
  unfold authenticate at h
  split at h
  · cases h
  · rename_i hne
    cases h
    refine ⟨by simpa using hne, ?_⟩
    rw [List.any_eq_true]
    simp only [decide_eq_true_eq]
    rfl

/-- LDAP_sess_read does what it is for exactly when the parser is guarded. -/
theorem onlyRegistered_iff (maxConcurrent : Int)
    (added : List (Option (List UInt8) × Option (List UInt8))) (stack : Nat → UInt8)
    {data : List UInt8} (hne : data ≠ []) (hd : data.length ≤ 512) {sess : DsSession}
    (hopen : sess.state = .stateOpen) :
    OnlyRegistered (withUsers maxConcurrent added) stack data sess ↔
      Guarded (withUsers maxConcurrent added) stack data := by
  have nulFree := withUsers_nulFree maxConcurrent added
  generalize withUsers maxConcurrent added = ds at nulFree
  have hsize : (received stack data).size = 512 := rfl
  have hauth {l l₁ t l₂ : UInt8} {id name password : List UInt8} (hid : id.length < 128)
      (hname : name.length < 128) (hpw : password.length < 128)
      (h : Holds (received stack data) 0 (bindLayout l l₁ t l₂ id name password)) :=
    recvBindMsg_layout ds.userList hid hname hpw h sess
  constructor
  · intro hprop
    refine ⟨fun hbad => ?_, fun l l₁ t l₂ id name password hid hname hpw h => ?_⟩
    · obtain ⟨f, hf⟩ := badLength_faults ds.userList hbad sess
      obtain ⟨out, sess', hrun, -⟩ := hprop (.wrote 1) none
      rw [sessRead_open hopen hne hd, hf] at hrun
      cases hrun
    · obtain ⟨out, sess', hrun, hres⟩ := hprop (.wrote 1) none
      rw [sessRead_open hopen hne hd, hauth hid hname hpw h] at hrun
      cases ha : authenticate ds.userList ⟨name, password⟩ with
      | error f =>
        rw [ha] at hrun
        cases hrun
      | ok known =>
        obtain ⟨husers, hknown⟩ := authenticate_iff ha
        refine ⟨husers, fun hmatch => ?_⟩
        rw [ha, hknown.2 hmatch] at hrun
        cases hrun
        obtain ⟨-, hcomplete⟩ | ⟨hstate, -⟩ := hres
        · exact (matched_complete_iff hd nulFree hid hname hpw h hmatch).1 hcomplete
        · cases hstate
  · rintro ⟨hlengths, husers⟩ send alloc
    rw [sessRead_open hopen hne hd]
    obtain hbad | ⟨r, sess', hr, herr, hstate⟩ |
      ⟨l, l₁, t, l₂, id, name, password, hid, hname, hpw, h⟩ :=
      parser_cases ds.userList hsize sess
    · exact absurd hbad hlengths
    · have hr' : r ≠ some .ok := by
        rintro rfl
        exact absurd herr (by unfold BindRet.isError; decide)
      rw [hr, ok_bind]
      simp only [hr', ne_eq, not_false_eq_true, if_true, pure_eq_ok]
      refine ⟨_, _, rfl, .inr ⟨?_, herr⟩⟩
      rw [sendBindResp_state, hstate, hopen]
    · obtain ⟨hsome, hmatched⟩ := husers l l₁ t l₂ id name password hid hname hpw h
      rw [hauth hid hname hpw h]
      have ha : ∃ known, authenticate ds.userList ⟨name, password⟩ = .ok known := by
        unfold authenticate
        rw [if_neg (by simpa using hsome)]
        exact ⟨_, rfl⟩
      obtain ⟨known, ha⟩ := ha
      rw [ha]
      have hknown := (authenticate_iff ha).2
      cases known with
      | false =>
        cases send with
        | failed e => exact ⟨_, _, rfl, .inr ⟨hopen, error_authen⟩⟩
        | wrote n => cases n <;> exact ⟨_, _, rfl, .inr ⟨hopen, error_authen⟩⟩
      | true =>
        have hmatch := hknown.1 rfl
        have hcomplete := (matched_complete_iff hd nulFree hid hname hpw h hmatch).2
          (hmatched hmatch)
        cases send with
        | failed e => exact ⟨_, _, rfl, .inr ⟨hopen, by unfold BindRet.isError; decide⟩⟩
        | wrote n =>
          cases n with
          | zero => exact ⟨_, _, rfl, .inr ⟨hopen, by unfold BindRet.isError; decide⟩⟩
          | succ n => exact ⟨_, _, rfl, .inl ⟨rfl, hcomplete⟩⟩

theorem onlyRegistered_iff_zero :
    OnlyRegistered (withUsers 1 [(some (ascii "u"), some (ascii "p"))]) (fun _ => 0) [0] {} ↔
      Guarded (withUsers 1 [(some (ascii "u"), some (ascii "p"))]) (fun _ => 0) [0] :=
  onlyRegistered_iff 1 [(some (ascii "u"), some (ascii "p"))] (fun _ => 0) (by decide) (by decide)
    rfl

/-- A complete bind to a server without users stops it. -/
theorem empty_user_list_faults :
    ¬ OnlyRegistered (withUsers 1 []) (fun _ => 0) (bindOctets [1] (ascii "u") (ascii "p")) {} := by
  intro h
  obtain ⟨out, sess', hrun, -⟩ := h (.wrote 1) none
  have hd : (bindOctets [1] (ascii "u") (ascii "p")).length ≤ 512 := by decide
  have hne : bindOctets [1] (ascii "u") (ascii "p") ≠ [] := by decide
  have hbind := holds_received (fun _ => 0) hd
  rw [bindOctets_layout] at hbind
  have hparse := recvBindMsg_layout (withUsers 1 []).userList (by decide) (by decide) (by decide)
    hbind ({} : DsSession)
  rw [← bindOctets_layout] at hparse
  rw [sessRead_open rfl hne hd, hparse] at hrun
  cases hrun

end CassandraApi.Ldap
