/-
# `Rauthen` — rauthen.c, which hosts may connect

A list of entries, as in hosts.equiv:

    +           everyone            host        a host or address
    +@group     a netgroup          -host       the same, negative
    -@group     the same, negative

rauthen_checkhost answers 1 for a positive match, -1 for a negative match and 0
for none; rauthen_verify walks the ring of entries until an answer is 1.  So it
looks for any positive match (`rauthenVerify_pass_iff`), where hosts.equiv means
the first match.  The two agree unless a negative match comes first and a
positive one behind it (`order_followed_iff`).

What the C library knows about hosts is a parameter, `NetDb`.  At the end is what
the servers do with a connection until its peer has passed.
-/
import CassandraApi.C.CString
import CassandraApi.Linkedlist

namespace CassandraApi.Rauthen

open C Lib

/-! ## The library -/

/-- The functions of netdb.h and inet.h.  innetgr answers 1 or 0; an address of a host has four
bytes. -/
structure NetDb where
  innetgr : List UInt8 → List UInt8 → Bool
  inetAddr : List UInt8 → UInt32
  gethostbyname : List UInt8 → Option (List UInt32)

/-- INADDR_NONE, what inet_addr returns for what is no address. -/
def inaddrNone : UInt32 := 0xffffffff

/-- `isdigit(*s)` -/
def isdigit (s : List UInt8) : Bool := s.head?.any fun c => 0x30 ≤ c ∧ c ≤ 0x39

/-! ## The code -/

variable {α : Type}

/-- An answer of C as an `int`. -/
def answer (b : Bool) : Int := if b then 1 else 0

/-- From the address on, behind a `-` if there is one. -/
def checkAddress (net : NetDb) (raddr : UInt32) (negate : Int) (lhost : List UInt8) : Int :=
  if isdigit lhost ∧ net.inetAddr lhost ≠ inaddrNone then
    negate * answer (raddr ^^^ net.inetAddr lhost = 0)
  else
    match net.gethostbyname lhost with
    | none => 0
    | some addrs => if raddr ∈ addrs then negate else 0

/-- rauthen_checkhost -/
def rauthenCheckhost (net : NetDb) (raddr : UInt32) (lhost rhost : List UInt8) : Int :=
  if ascii "+@" <+: lhost then answer (net.innetgr (lhost.drop 2) rhost)
  else if ascii "-@" <+: lhost then -answer (net.innetgr (lhost.drop 2) rhost)
  else if ascii "-" <+: lhost then checkAddress net raddr (-1) (lhost.drop 1)
  else if lhost = ascii "+" then 1
  else checkAddress net raddr 1 lhost

inductive RauthenReturn where
  | fail
  | pass
  deriving DecidableEq, Repr

/-- What rauthen_verify leaves in `message`. -/
def checkMessage (res : Int) (raddr : UInt32) (lhost rhost : List UInt8) : String :=
  s!"[remote authentication check] res = {res} longip={int32 raddr.toNat} " ++
    s!"cmp [{text lhost} = {text rhost}]"

/-- `while(he)`, `first` being `he_first`. -/
def verifyFrom [DecidableEq α] (net : NetDb) (raddr : UInt32) (rhost : List UInt8) (h : Heap α)
    (data : α → List UInt8) :
    Nat → Option α → Option α → Except Fault (C.Reply RauthenReturn)
  | 0, _, _ => .error .stuck
  | _, _, none => .ok ⟨.fail, none⟩
  | turns + 1, first, some he => do
      let res := rauthenCheckhost net raddr (data he) rhost
      let message := checkMessage res raddr (data he) rhost
      if res = 1 then pure ⟨.pass, some message⟩
      else do
        let first := some (first.getD he)
        let next := (← h.node he).next
        if next = first then pure ⟨.fail, some message⟩
        else
          let reply ← verifyFrom net raddr rhost h data turns first next
          pure (reply.after (some message))

/-- rauthen_verify: `turns` bounds the nodes that there can be. -/
def rauthenVerify [DecidableEq α] (net : NetDb) (raddr : UInt32) (rhost : List UInt8)
    (h : Heap α) (data : α → List UInt8) (turns : Nat) (hl : Option α) :
    Except Fault (C.Reply RauthenReturn) :=
  match hl with
  | none => .ok ⟨.fail, none⟩
  | some he => verifyFrom net raddr rhost h data turns none (some he)

/-! ## What an entry says -/

/-- Whom an entry is about. -/
inductive Subject where
  | everyone
  | netgroup (name : List UInt8)
  | host (name : List UInt8)
  deriving DecidableEq

/-- An entry: whom it is about, and whether they may connect. -/
structure Rule where
  positive : Bool
  subject : Subject
  deriving DecidableEq

/-- The five forms. -/
def Rule.ofEntry (entry : List UInt8) : Rule :=
  if ascii "+@" <+: entry then ⟨true, .netgroup (entry.drop 2)⟩
  else if ascii "-@" <+: entry then ⟨false, .netgroup (entry.drop 2)⟩
  else if ascii "-" <+: entry then ⟨false, .host (entry.drop 1)⟩
  else if entry = ascii "+" then ⟨true, .everyone⟩
  else ⟨true, .host entry⟩

/-- Whether a peer is one of them: an address is compared, a name looked up. -/
def Subject.Matches (net : NetDb) (raddr : UInt32) (rhost : List UInt8) : Subject → Prop
  | everyone => True
  | netgroup name => net.innetgr name rhost = true
  | host name =>
      if isdigit name ∧ net.inetAddr name ≠ inaddrNone then raddr = net.inetAddr name
      else raddr ∈ (net.gethostbyname name).getD []

/-- At the first element with `P`, which there is, `Q` holds of it and of what is behind it. -/
def AtFirst {β : Type} (P : β → Prop) (Q : β → List β → Prop) (xs : List β) : Prop :=
  ∃ before x behind, xs = before ++ x :: behind ∧ (∀ y ∈ before, ¬ P y) ∧ P x ∧ Q x behind

theorem atFirst_cons {β : Type} {P : β → Prop} {Q : β → List β → Prop} {x : β} {xs : List β} :
    AtFirst P Q (x :: xs) ↔ P x ∧ Q x xs ∨ ¬ P x ∧ AtFirst P Q xs := by
  constructor
  · rintro ⟨before, y, behind, heq, hbefore, hy, hQ⟩
    cases before with
    | nil =>
      cases heq
      exact .inl ⟨hy, hQ⟩
    | cons z before =>
      cases heq
      exact .inr ⟨hbefore x List.mem_cons_self, before, y, behind, rfl,
        fun w hw => hbefore w (List.mem_cons_of_mem _ hw), hy, hQ⟩
  · rintro (⟨hx, hQ⟩ | ⟨hx, before, y, behind, rfl, hbefore, hy, hQ⟩)
    · exact ⟨[], x, xs, rfl, fun _ hw => absurd hw List.not_mem_nil, hx, hQ⟩
    · refine ⟨x :: before, y, behind, rfl, fun w hw => ?_, hy, hQ⟩
      rcases List.mem_cons.1 hw with rfl | hmem
      · exact hx
      · exact hbefore w hmem

theorem not_atFirst_nil {β : Type} {P : β → Prop} {Q : β → List β → Prop} :
    ¬ AtFirst P Q [] := by
  rintro ⟨before, x, behind, heq, -⟩
  cases before <;> cases heq

instance (net : NetDb) (raddr : UInt32) (rhost : List UInt8) (s : Subject) :
    Decidable (s.Matches net raddr rhost) :=
  match s with
  | .everyone => isTrue trivial
  | .netgroup name => inferInstanceAs (Decidable (net.innetgr name rhost = true))
  | .host name => inferInstanceAs (Decidable (if isdigit name ∧ net.inetAddr name ≠ inaddrNone
      then raddr = net.inetAddr name else raddr ∈ (net.gethostbyname name).getD []))

section Order

variable (net : NetDb) (raddr : UInt32) (rhost : List UInt8)

/-- The entry matches the peer, in the positive or in the negative. -/
def MatchesAs (positive : Bool) (entry : List UInt8) : Prop :=
  (Rule.ofEntry entry).positive = positive ∧
    (Rule.ofEntry entry).subject.Matches net raddr rhost

instance (positive : Bool) (entry : List UInt8) :
    Decidable (MatchesAs net raddr rhost positive entry) :=
  inferInstanceAs (Decidable (_ ∧ _))

/-- The order of hosts.equiv: some entry matches, and the first that does is a positive one. -/
def Allowed (entries : List (List UInt8)) : Prop :=
  AtFirst (fun e => ∃ positive, MatchesAs net raddr rhost positive e)
    (fun e _ => MatchesAs net raddr rhost true e) entries

/-- The first match is negative, and a positive one is behind it. -/
def Overridden (entries : List (List UInt8)) : Prop :=
  AtFirst (fun e => ∃ positive, MatchesAs net raddr rhost positive e)
    (fun e behind => MatchesAs net raddr rhost false e ∧
      ∃ e' ∈ behind, MatchesAs net raddr rhost true e') entries

variable {net raddr rhost}

theorem netgroup_matches (name : List UInt8) :
    (Subject.netgroup name).Matches net raddr rhost ↔ net.innetgr name rhost = true := Iff.rfl

theorem host_matches (name : List UInt8) :
    (Subject.host name).Matches net raddr rhost ↔
      if isdigit name ∧ net.inetAddr name ≠ inaddrNone then raddr = net.inetAddr name
      else raddr ∈ (net.gethostbyname name).getD [] := Iff.rfl

theorem answer_eq_one_iff (b : Bool) : answer b = 1 ↔ b = true := by
  cases b <;> decide

theorem checkAddress_eq_iff {negate : Int} (hn : negate ≠ 0) (lhost : List UInt8) :
    checkAddress net raddr negate lhost = negate ↔
      (Subject.host lhost).Matches net raddr rhost := by
  rw [host_matches]
  unfold checkAddress
  split
  · have hxor : raddr ^^^ net.inetAddr lhost = 0 ↔ raddr = net.inetAddr lhost :=
      UInt32.xor_eq_zero_iff
    by_cases heq : raddr = net.inetAddr lhost
    · simp [heq, answer]
    · simp [heq, hxor, answer, hn.symm]
  · cases net.gethostbyname lhost with
    | none => simp [hn.symm]
    | some addrs => by_cases hmem : raddr ∈ addrs <;> simp [hmem, hn.symm]

theorem checkAddress_range (negate : Int) (lhost : List UInt8) :
    checkAddress net raddr negate lhost = negate ∨ checkAddress net raddr negate lhost = 0 := by
  unfold checkAddress answer
  split
  · split <;> simp
  · cases net.gethostbyname lhost with
    | none => exact .inr rfl
    | some addrs => by_cases hmem : raddr ∈ addrs <;> simp [hmem]

/-- The answer 1 is a positive match. -/
theorem rauthenCheckhost_eq_one_iff (entry : List UInt8) :
    rauthenCheckhost net raddr entry rhost = 1 ↔ MatchesAs net raddr rhost true entry := by
  unfold rauthenCheckhost MatchesAs Rule.ofEntry
  by_cases hplus : ascii "+@" <+: entry
  · simp only [if_pos hplus, true_and, answer_eq_one_iff, netgroup_matches]
  simp only [if_neg hplus]
  by_cases hminus : ascii "-@" <+: entry
  · simp only [if_pos hminus, Bool.false_eq_true, false_and, iff_false]
    cases net.innetgr (entry.drop 2) rhost <;> decide
  simp only [if_neg hminus]
  by_cases hneg : ascii "-" <+: entry
  · have hrange := @checkAddress_range net raddr (-1) (entry.drop 1)
    simp only [if_pos hneg, Bool.false_eq_true, false_and, iff_false]
    omega
  simp only [if_neg hneg]
  by_cases hall : entry = ascii "+"
  · simp only [if_pos hall, true_and, true_iff]
    trivial
  · simp only [if_neg hall, true_and]
    exact checkAddress_eq_iff one_ne_zero entry

/-- rauthen_checkhost's three answers, in terms of the rule. -/
theorem rauthenCheckhost_eq_neg_one_iff (entry : List UInt8) :
    rauthenCheckhost net raddr entry rhost = -1 ↔ MatchesAs net raddr rhost false entry := by
  unfold rauthenCheckhost MatchesAs Rule.ofEntry
  by_cases hplus : ascii "+@" <+: entry
  · simp only [if_pos hplus, Bool.true_eq_false, false_and, iff_false]
    cases net.innetgr (entry.drop 2) rhost <;> decide
  simp only [if_neg hplus]
  by_cases hminus : ascii "-@" <+: entry
  · simp only [if_pos hminus, true_and, neg_inj, answer_eq_one_iff, netgroup_matches]
  simp only [if_neg hminus]
  by_cases hneg : ascii "-" <+: entry
  · simp only [if_pos hneg, true_and]
    exact checkAddress_eq_iff (by decide) (entry.drop 1)
  simp only [if_neg hneg]
  by_cases hall : entry = ascii "+"
  · simp only [if_pos hall, Bool.true_eq_false, false_and, iff_false]
    decide
  · have hrange := @checkAddress_range net raddr 1 entry
    simp only [if_neg hall, Bool.true_eq_false, false_and, iff_false]
    omega

/-! ## The order -/

theorem MatchesAs.not_both {e : List UInt8} (h : MatchesAs net raddr rhost true e) :
    ¬ MatchesAs net raddr rhost false e := by
  intro h'
  have heq := h.1.symm.trans h'.1
  cases heq

/-- A positive match anywhere is either the first match or overridden. -/
theorem exists_positive_iff (entries : List (List UInt8)) :
    (∃ e ∈ entries, MatchesAs net raddr rhost true e) ↔
      Allowed net raddr rhost entries ∨ Overridden net raddr rhost entries := by
  unfold Allowed Overridden
  induction entries with
  | nil => simp [not_atFirst_nil]
  | cons e entries ih =>
    rw [List.exists_mem_cons_iff, ih, atFirst_cons, atFirst_cons]
    by_cases hpos : MatchesAs net raddr rhost true e
    · have hany : ∃ positive, MatchesAs net raddr rhost positive e := ⟨true, hpos⟩
      tauto
    · by_cases hneg : MatchesAs net raddr rhost false e
      · have hany : ∃ positive, MatchesAs net raddr rhost positive e := ⟨false, hneg⟩
        simp only [hpos, hneg, hany, true_and, false_and, not_true_eq_false, or_false, false_or]
        exact ih.symm
      · have hnone : ¬ ∃ positive, MatchesAs net raddr rhost positive e := by
          rintro ⟨positive, h⟩
          cases positive
          · exact hneg h
          · exact hpos h
        tauto

theorem not_allowed_of_overridden {entries : List (List UInt8)}
    (h : Overridden net raddr rhost entries) : ¬ Allowed net raddr rhost entries := by
  unfold Overridden Allowed at *
  induction entries with
  | nil => exact absurd h not_atFirst_nil
  | cons e entries ih =>
    rw [atFirst_cons] at h ⊢
    rcases h with ⟨hany, hneg, -⟩ | ⟨hnone, hrest⟩
    · have hpos : ¬ MatchesAs net raddr rhost true e := fun h' => h'.not_both hneg
      tauto
    · have hno := ih hrest
      tauto

/-! ## The walk -/

section Walk

variable [DecidableEq α] {h : Heap α} {data : α → List UInt8} {a he : α} {rest : List α}

/-- From a member on, to the end of the ring: the walk looks for an answer 1. -/
theorem verifyFrom_seg {turns : Nat} {first : Option α}
    (hfirst : first = none ∧ he = a ∨ first = some a) (hseg : Seg h he rest a) (hnot : a ∉ rest)
    (hturns : rest.length < turns) :
    ∃ reply, verifyFrom net raddr rhost h data turns first (some he) = .ok reply ∧
      (reply.code = .pass ↔
        ∃ b ∈ he :: rest, rauthenCheckhost net raddr (data b) rhost = 1) := by
  induction rest generalizing he first turns with
  | nil =>
    obtain ⟨turns, rfl⟩ := Nat.exists_eq_succ_of_ne_zero (Nat.ne_of_gt hturns)
    obtain ⟨n, hn, -, hnext⟩ := node_eq (alloc_of_next hseg.1)
    have hget : some (first.getD he) = some a := by
      rcases hfirst with ⟨rfl, rfl⟩ | rfl <;> rfl
    rw [hseg.1] at hnext
    by_cases hone : rauthenCheckhost net raddr (data he) rhost = 1
    · exact ⟨_, by rw [verifyFrom]; simp only [if_pos hone]; rfl, by simp [hone]⟩
    · refine ⟨⟨.fail, some (checkMessage (rauthenCheckhost net raddr (data he) rhost) raddr
        (data he) rhost)⟩, ?_, ?_⟩
      · rw [verifyFrom]
        simp only [if_neg hone, hn, ok_bind, hget, hnext, if_true, pure_eq_ok]
      · simp [hone]
  | cons b rest ih =>
    obtain ⟨turns, rfl⟩ := Nat.exists_eq_succ_of_ne_zero (Nat.ne_zero_of_lt hturns)
    obtain ⟨hab, -, hrest⟩ := hseg
    obtain ⟨n, hn, -, hnext⟩ := node_eq (alloc_of_next hab)
    rw [hab] at hnext
    have hget : some (first.getD he) = some a := by
      rcases hfirst with ⟨rfl, rfl⟩ | rfl <;> rfl
    by_cases hone : rauthenCheckhost net raddr (data he) rhost = 1
    · exact ⟨_, by rw [verifyFrom]; simp only [if_pos hone]; rfl, by simp [hone]⟩
    · have hba : ¬ (some b = some a) := by
        intro heq
        cases heq
        exact hnot List.mem_cons_self
      rw [List.length_cons] at hturns
      obtain ⟨reply, hreply, hcode⟩ := ih (.inr rfl) hrest
        (fun hmem => hnot (List.mem_cons_of_mem _ hmem)) (show rest.length < turns by omega)
      refine ⟨reply.after (some (checkMessage (rauthenCheckhost net raddr (data he) rhost) raddr
        (data he) rhost)), ?_, ?_⟩
      · rw [verifyFrom]
        simp only [if_neg hone, hn, ok_bind, hget, hnext, if_neg hba, hreply, pure_eq_ok]
      · rw [Reply.after_code, hcode]
        simp [hone]

/-- rauthen_verify passes a peer that any entry matches in the positive. -/
theorem rauthenVerify_pass_iff {hl : Option α} {xs : List α} {turns : Nat} (hr : IsRing h hl xs)
    (hturns : xs.length ≤ turns) :
    ∃ reply, rauthenVerify net raddr rhost h data turns hl = .ok reply ∧
      (reply.code = .pass ↔ ∃ e ∈ xs.map data, MatchesAs net raddr rhost true e) := by
  cases xs with
  | nil =>
    obtain rfl : hl = none := hr.head
    exact ⟨⟨.fail, none⟩, rfl, by simp⟩
  | cons a rest =>
    obtain rfl : hl = some a := hr.head
    obtain ⟨reply, hreply, hcode⟩ : ∃ reply,
        verifyFrom net raddr rhost h data turns none (some a) = .ok reply ∧
          (reply.code = .pass ↔
            ∃ b ∈ a :: rest, rauthenCheckhost net raddr (data b) rhost = 1) :=
      verifyFrom_seg (.inl ⟨rfl, rfl⟩) hr.cycle (List.nodup_cons.1 hr.nodup).1 hturns
    refine ⟨reply, hreply, ?_⟩
    simp only [hcode, rauthenCheckhost_eq_one_iff, List.mem_map, exists_exists_and_eq_and]

/-- It follows the order of hosts.equiv unless the first match is negative and a positive one is
behind it. -/
theorem order_followed_iff {hl : Option α} {xs : List α} {turns : Nat} (hr : IsRing h hl xs)
    (hturns : xs.length ≤ turns) :
    ∃ reply, rauthenVerify net raddr rhost h data turns hl = .ok reply ∧
      ((reply.code = .pass ↔ Allowed net raddr rhost (xs.map data)) ↔
        ¬ Overridden net raddr rhost (xs.map data)) := by
  obtain ⟨reply, hreply, hcode⟩ := rauthenVerify_pass_iff hr hturns
  refine ⟨reply, hreply, ?_⟩
  rw [hcode, exists_positive_iff]
  have hnot := @not_allowed_of_overridden net raddr rhost (xs.map data)
  tauto

end Walk

/-! ## An entry that is overridden -/

/-- Two entries, `-h` and `+`, in a ring. -/
def twoEntries : Heap Bool := fun b => some ⟨some !b, some !b⟩

def twoData (b : Bool) : List UInt8 := if b then ascii "+" else ascii "-h"

theorem twoEntries_ring : IsRing twoEntries (some false) [false, true] :=
  ⟨rfl, by decide, rfl, rfl, rfl, rfl⟩

/-- Every name is a host's with this address. -/
def oneHost (raddr : UInt32) : NetDb where
  innetgr _ _ := false
  inetAddr _ := inaddrNone
  gethostbyname _ := some [raddr]

theorem order_followed_iff_two :
    ∃ reply, rauthenVerify (oneHost 1) 1 (ascii "h") twoEntries twoData 2 (some false) =
      .ok reply ∧
        ((reply.code = .pass ↔ Allowed (oneHost 1) 1 (ascii "h") ([false, true].map twoData)) ↔
          ¬ Overridden (oneHost 1) 1 (ascii "h") ([false, true].map twoData)) :=
  order_followed_iff twoEntries_ring (by decide)

/-- `-h` in front of `+`: the host `h` is let in. -/
theorem negative_entry_ignored :
    ∃ reply, rauthenVerify (oneHost 1) 1 (ascii "h") twoEntries twoData 2 (some false) =
      .ok reply ∧
        ¬ (reply.code = .pass ↔
          Allowed (oneHost 1) 1 (ascii "h") ([false, true].map twoData)) := by
  obtain ⟨reply, hreply, hcode⟩ := @rauthenVerify_pass_iff Bool (oneHost 1) 1 (ascii "h") _ _
    twoData _ _ 2 twoEntries_ring (by decide)
  have hover : Overridden (oneHost 1) 1 (ascii "h") ([false, true].map twoData) :=
    ⟨[], ascii "-h", [ascii "+"], rfl, fun _ hmem => absurd hmem List.not_mem_nil,
      ⟨false, by decide⟩, by decide, ascii "+", List.mem_singleton_self _, by decide⟩
  have hpass : reply.code = .pass := hcode.2 ⟨ascii "+", by decide, by decide⟩
  exact ⟨reply, hreply, fun h => not_allowed_of_overridden hover (h.1 hpass)⟩

end Order

/-! ## Accepting a peer -/

/-- A peer whose connection was accepted: `verdict` is what rauthen_verify says of it. -/
structure Peer where
  sock : Nat
  ip : String
  port : UInt16
  resolved : Option String
  verdict : C.Reply RauthenReturn
  now : Int

def Peer.name (p : Peer) : String := p.resolved.getD p.ip

/-- What is in the error text when the peer is let in. -/
def Peer.error (p : Peer) : Option String :=
  p.verdict.error <|>
    if p.resolved.isSome then none else some s!"can not resolve hostname for ip {p.name}"

/-- What `accept` does, one call after another: after an interruption there is another. -/
inductive Accept where
  | interrupted (again : Accept)
  /-- EPROTO and ECONNABORTED -/
  | gone
  | failed (strerror : String)
  | peer (p : Peer)

/-- Why there is no new session. -/
inductive Refused where
  | gone
  | failed (strerror : String)
  | denied (name : String)

def Refused.error : Refused → Option String
  | gone => none
  | failed e => some s!"accept return error [{e}]"
  | denied name => some s!"deny remote host[{name}]"

/-- From `accept_again` to the verdict: LDAP_sess_open and HTTP_sess_open are alike. -/
def Accept.admit : Accept → Except Refused Peer
  | interrupted again => again.admit
  | gone => .error .gone
  | failed e => .error (.failed e)
  | peer p => if p.verdict.code = .pass then .ok p else .error (.denied p.name)

end CassandraApi.Rauthen
