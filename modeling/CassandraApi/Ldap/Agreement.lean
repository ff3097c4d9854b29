/-
# `Ldap.Agreement` — slots, rings and states of the client

`Agree`: the members of the two rings are the connections in client_array, each
is on one ring and once, it is on ready_queue when its state says so, and
client_count counts the slots.  Every event of the pool keeps this, two apart:

    leaked           a connection without a write buffer is left in client_array
                     and put on no ring
    keptAlive true   the answer to a keepalive moves a connection from wait_queue
                     to ready_queue, and its state stays what it was

so it holds along every run without them (`connections_agree`).
-/
import CassandraApi.Ldap.PoolRefines

namespace CassandraApi.Ldap

open C Ber Lib

/-! ## Slots -/

/-- The slots of client_array in use. -/
def usedSlots (array : Nat → Option Ptr) : Finset Nat :=
  (Finset.range ldapMaxClient).filter fun i => (array i).isSome

theorem mem_usedSlots {array : Nat → Option Ptr} {i : Nat} :
    i ∈ usedSlots array ↔ i < ldapMaxClient ∧ (array i).isSome := by
  rw [usedSlots, Finset.mem_filter, Finset.mem_range]

theorem card_occupied {array : Nat → Option Ptr} {i : Nat} (c : Ptr) (hi : i < ldapMaxClient)
    (hfree : array i = none) :
    (usedSlots (Function.update array i (some c))).card = (usedSlots array).card + 1 := by
  have hset : usedSlots (Function.update array i (some c)) = insert i (usedSlots array) := by
    ext j
    rw [Finset.mem_insert, mem_usedSlots, mem_usedSlots]
    by_cases hji : j = i
    · subst hji
      simp [hi]
    · simp [hji]
  rw [hset, Finset.card_insert_of_notMem]
  intro hmem
  have hsome := (mem_usedSlots.1 hmem).2
  rw [hfree] at hsome
  cases hsome

theorem card_vacated {array : Nat → Option Ptr} {i : Nat} {c : Ptr} (hi : i < ldapMaxClient)
    (hused : array i = some c) :
    (usedSlots (Function.update array i none)).card + 1 = (usedSlots array).card := by
  have hset : usedSlots (Function.update array i none) = (usedSlots array).erase i := by
    ext j
    rw [Finset.mem_erase, mem_usedSlots, mem_usedSlots]
    by_cases hji : j = i
    · subst hji
      simp
    · simp [hji]
  have hmem : i ∈ usedSlots array := mem_usedSlots.2 ⟨hi, by rw [hused]; rfl⟩
  rw [hset, Finset.card_erase_add_one hmem]

/-! ## The invariant -/

/-- Slots, rings, states and the counter agree, the rings being `ready` and `wait`. -/
structure Agree (k : Pool) (ready wait : List Ptr) : Prop where
  rings : Rings k.toQueues ready wait
  /-- the members of the rings are the connections in client_array -/
  slots : ∀ c, c ∈ ready ++ wait ↔ ∃ i, k.clientArray i = some c
  inside : ∀ i c, k.clientArray i = some c → i < ldapMaxClient
  apart : ∀ i j c, k.clientArray i = some c → k.clientArray j = some c → i = j
  state : ∀ c ∈ ready ++ wait, (c ∈ ready ↔ (k.conns c).state = .stateReady)
  /-- there are no connections elsewhere -/
  allocated : ∀ c, (k.links c).isSome → c ∈ ready ++ wait
  count : k.clientCount = (usedSlots k.clientArray).card

/-- Slots, rings, states and the counter of a client agree. -/
def ConnectionsAgree (dc : LdapT) : Prop := ∃ ready wait, Agree dc.pool ready wait

namespace Agree

variable {k k' : Pool} {ready wait ready' wait' : List Ptr} {c : Ptr} {cn : Conn} {q : Queues}

theorem ready_or_wait (h : Agree k ready wait) (hc : k.conn c = .ok cn) :
    c ∈ ready ++ wait ∧ cn = k.conns c := by
  unfold Pool.conn at hc
  split at hc
  · cases hc
    exact ⟨h.allocated c (by assumption), rfl⟩
  · cases hc

theorem ready_of_state (h : Agree k ready wait) (hc : k.conn c = .ok cn)
    (hstate : cn.state = .stateReady) : c ∈ ready := by
  obtain ⟨hmem, rfl⟩ := h.ready_or_wait hc
  exact (h.state c hmem).2 hstate

theorem wait_of_state (h : Agree k ready wait) (hc : k.conn c = .ok cn)
    (hstate : cn.state ≠ .stateReady) : c ∈ wait := by
  obtain ⟨hmem, rfl⟩ := h.ready_or_wait hc
  rcases List.mem_append.1 hmem with hr | hw
  · exact absurd ((h.state c hmem).1 hr) hstate
  · exact hw

/-- What does not touch slots, rings and states. -/
theorem put (h : Agree k ready wait)
    (hstate : cn.state = .stateReady ↔ (k.conns c).state = .stateReady) :
    Agree (k.put c cn) ready wait where
  rings := h.rings
  slots := h.slots
  inside := h.inside
  apart := h.apart
  state := by
    intro y hy
    rw [h.state y hy]
    by_cases hyc : y = c
    · subst hyc
      simp only [Pool.put, Function.update_self]
      exact hstate.symm
    · simp only [Pool.put, Function.update_of_ne hyc]
  allocated := h.allocated
  count := h.count

/-- A connection is moved on the rings, and its state with it. -/
theorem moved (h : Agree k ready wait) (rings : Rings q ready' wait')
    (same : SameElse (ready ++ wait) k.links q.links)
    (members : ∀ y, y ∈ ready' ++ wait' ↔ y ∈ ready ++ wait)
    (others : ∀ y, y ≠ c → (y ∈ ready' ↔ y ∈ ready)) (own : c ∈ ready' ↔ cn.state = .stateReady) :
    Agree (Pool.put { k with toQueues := q } c cn) ready' wait' where
  rings := rings
  slots := by
    intro y
    rw [members]
    exact h.slots y
  inside := h.inside
  apart := h.apart
  state := by
    intro y hy
    by_cases hyc : y = c
    · subst hyc
      simp only [Pool.put, Function.update_self]
      exact own
    · simp only [Pool.put, Function.update_of_ne hyc]
      rw [others y hyc]
      exact h.state y ((members y).1 hy)
  allocated := by
    intro y hy
    rw [members]
    refine h.allocated y ?_
    rw [← same.alloc]
    exact hy
  count := h.count

theorem mem_erase_append {xs : List Ptr} (hc : c ∈ xs) (y : Ptr) :
    y ∈ xs.erase c ++ [c] ↔ y ∈ xs := by
  rw [List.mem_append, List.mem_singleton]
  constructor
  · rintro (hy | rfl)
    · exact List.mem_of_mem_erase hy
    · exact hc
  · intro hy
    by_cases hyc : y = c
    · exact .inr hyc
    · exact .inl ((List.mem_erase_of_ne hyc).2 hy)

/-- From wait_queue to ready_queue. -/
theorem toReady (h : Agree k ready wait) (hc : c ∈ wait) (hq : k.toReady c = .ok q)
    (hstate : cn.state = .stateReady) :
    Agree (Pool.put { k with toQueues := q } c cn) (ready ++ [c]) (wait.erase c) := by
  obtain ⟨q', hq', rings, same⟩ := h.rings.toReady hc
  rw [hq] at hq'
  cases hq'
  refine h.moved rings same (fun y => ?_) (fun y hy => ?_) ?_
  · have hmem := mem_erase_append hc y
    simp only [List.mem_append, List.mem_singleton] at hmem ⊢
    tauto
  · rw [List.mem_append, List.mem_singleton]
    exact or_iff_left hy
  · exact iff_of_true (List.mem_append_right _ List.mem_cons_self) hstate

/-- From ready_queue to wait_queue. -/
theorem toWait (h : Agree k ready wait) (hc : c ∈ ready) (hq : k.toWait c = .ok q)
    (hstate : cn.state ≠ .stateReady) :
    Agree (Pool.put { k with toQueues := q } c cn) (ready.erase c) (wait ++ [c]) := by
  obtain ⟨q', hq', rings, same⟩ := h.rings.toWait hc
  rw [hq] at hq'
  cases hq'
  refine h.moved rings same (fun y => ?_) (fun y hy => ?_) ?_
  · have hmem := mem_erase_append hc y
    simp only [List.mem_append, List.mem_singleton] at hmem ⊢
    tauto
  · exact List.mem_erase_of_ne hy
  · exact iff_of_false (List.nodup_append.1 h.rings.once).1.not_mem_erase hstate

/-- To the end of ready_queue. -/
theorem requeue (h : Agree k ready wait) (hc : c ∈ ready) (hq : k.requeue c = .ok q)
    (hstate : cn.state = .stateReady) :
    Agree (Pool.put { k with toQueues := q } c cn) (ready.erase c ++ [c]) wait := by
  obtain ⟨q', hq', rings, same⟩ := h.rings.requeue hc
  rw [hq] at hq'
  cases hq'
  refine h.moved rings same (fun y => ?_) (fun y hy => mem_erase_append hc y) ?_
  · rw [List.mem_append, mem_erase_append hc y, List.mem_append]
  · exact iff_of_true (List.mem_append_right _ List.mem_cons_self) hstate

/-- A free slot that is taken holds the new connection, the others what they held. -/
theorem occupied_iff {slots : Nat → Option Ptr} {i j : Nat} {y : Ptr} (hslot : slots i = none) :
    Function.update slots i (some c) j = some y ↔ j = i ∧ y = c ∨ slots j = some y := by
  by_cases hji : j = i
  · subst hji
    rw [Function.update_self, hslot]
    simp [eq_comm]
  · rw [Function.update_of_ne hji]
    simp [hji]

/-- A slot that is left holds nothing, the others what they held. -/
theorem vacated_iff {slots : Nat → Option Ptr} {i j : Nat} {y : Ptr} :
    Function.update slots i none j = some y ↔ j ≠ i ∧ slots j = some y := by
  by_cases hji : j = i
  · subst hji
    simp
  · rw [Function.update_of_ne hji]
    simp [hji]

/-- A new connection in a free slot, on wait_queue. -/
theorem opened {i : Nat} (h : Agree k ready wait)
    (hfree : i < ldapMaxClient ∧ k.clientArray i = none ∧ (k.links c).isNone)
    (hq : Queues.appendWait c { k.toQueues with links := Function.update k.links c (some {}) } =
      .ok q) (hstate : cn.state ≠ .stateReady) :
    Agree { Pool.put { k with
      clientArray := Function.update k.clientArray i (some c)
      links := Function.update k.links c (some {}) } c cn with
      toQueues := q, clientCount := k.clientCount + 1 } ready (wait ++ [c]) := by
  obtain ⟨hi, hslot, hnew⟩ := hfree
  have new : c ∉ ready ++ wait := by
    intro hc
    have halloc := h.rings.alloc hc
    rw [Option.isNone_iff_eq_none] at hnew
    rw [hnew] at halloc
    cases halloc
  have nowhere : ∀ j, k.clientArray j ≠ some c := fun j hj => new ((h.slots c).2 ⟨j, hj⟩)
  have hsame : ∀ y ∈ ready ++ wait, Function.update k.links c (some {}) y = k.links y := by
    intro y hy
    refine Function.update_of_ne ?_ _ _
    rintro rfl
    exact new hy
  have hrings := h.rings.congr hsame
  obtain ⟨q', hq', rings, same⟩ := hrings.appendWait new (by simp)
  rw [hq] at hq'
  cases hq'
  have hmem : ∀ y, y ∈ ready ++ (wait ++ [c]) ↔ y ∈ ready ++ wait ∨ y = c := by
    intro y
    simp only [List.mem_append, List.mem_singleton, or_assoc]
  refine ⟨rings, ?slots, ?inside, ?apart, ?state, ?allocated, ?count⟩
  case slots =>
    intro y
    rw [hmem, h.slots y]
    constructor
    · rintro (⟨j, hj⟩ | rfl)
      · exact ⟨j, (occupied_iff hslot).2 (.inr hj)⟩
      · exact ⟨i, (occupied_iff hslot).2 (.inl ⟨rfl, rfl⟩)⟩
    · rintro ⟨j, hj⟩
      rcases (occupied_iff hslot).1 hj with ⟨-, hyc⟩ | hj
      · exact .inr hyc
      · exact .inl ⟨j, hj⟩
  case inside =>
    intro j y hj
    rcases (occupied_iff hslot).1 hj with ⟨rfl, -⟩ | hj
    · exact hi
    · exact h.inside j y hj
  case apart =>
    intro j l y hj hl
    rcases (occupied_iff hslot).1 hj with ⟨rfl, rfl⟩ | hj'
    · rcases (occupied_iff hslot).1 hl with ⟨rfl, -⟩ | hl'
      · rfl
      · exact absurd hl' (nowhere l)
    · rcases (occupied_iff hslot).1 hl with ⟨-, rfl⟩ | hl'
      · exact absurd hj' (nowhere j)
      · exact h.apart j l y hj' hl'
  case state =>
    intro y hy
    by_cases hyc : y = c
    · subst hyc
      simp only [Pool.put, Function.update_self]
      exact iff_of_false (fun hr => new (List.mem_append_left _ hr)) hstate
    · simp only [Pool.put, Function.update_of_ne hyc]
      exact h.state y (((hmem y).1 hy).resolve_right hyc)
  case allocated =>
    intro y hy
    rw [hmem]
    by_cases hyc : y = c
    · exact .inr hyc
    · refine .inl (h.allocated y ?_)
      have halloc := same.alloc y
      simp only [Function.update_of_ne hyc] at halloc
      rw [← halloc]
      exact hy
  case count =>
    have hcard := card_occupied c hi hslot
    have hcount := h.count
    show k.clientCount + 1 = ((usedSlots (Function.update k.clientArray i (some c))).card : Int)
    omega

/-- A connection leaves its slot and its ring. -/
theorem closed {i : Nat} (h : Agree k ready wait) (hslot : k.clientArray i = some c)
    (rings : Rings q ready' wait') (same : SameElse (ready ++ wait) k.links q.links)
    (members : ∀ y, y ∈ ready' ++ wait' ↔ y ∈ ready ++ wait ∧ y ≠ c)
    (readies : ∀ y, y ≠ c → (y ∈ ready' ↔ y ∈ ready)) :
    Agree { k with
      toQueues := { q with links := Function.update q.links c none }
      clientArray := Function.update k.clientArray i none
      clientCount := k.clientCount - 1 } ready' wait' := by
  refine ⟨rings.congr fun y hy => Function.update_of_ne ((members y).1 hy).2 _ _, ?slots, ?inside,
    ?apart, ?state, ?allocated, ?count⟩
  case slots =>
    intro y
    rw [members, h.slots y]
    constructor
    · rintro ⟨⟨j, hj⟩, hyc⟩
      refine ⟨j, vacated_iff.2 ⟨?_, hj⟩⟩
      rintro rfl
      exact hyc (Option.some.inj (hj.symm.trans hslot))
    · rintro ⟨j, hj⟩
      obtain ⟨hji, hj'⟩ := vacated_iff.1 hj
      refine ⟨⟨j, hj'⟩, ?_⟩
      rintro rfl
      exact hji (h.apart j i y hj' hslot)
  case inside =>
    intro j y hj
    exact h.inside j y (vacated_iff.1 hj).2
  case apart =>
    intro j l y hj hl
    exact h.apart j l y (vacated_iff.1 hj).2 (vacated_iff.1 hl).2
  case state =>
    intro y hy
    obtain ⟨hmem, hyc⟩ := (members y).1 hy
    rw [readies y hyc]
    exact h.state y hmem
  case allocated =>
    intro y hy
    have hyc : y ≠ c := by
      rintro rfl
      simp at hy
    rw [members]
    refine ⟨h.allocated y ?_, hyc⟩
    simp only [Function.update_of_ne hyc] at hy
    rw [← same.alloc]
    exact hy
  case count =>
    have hcard := card_vacated (h.inside i c hslot) hslot
    have hcount := h.count
    show k.clientCount - 1 = ((usedSlots (Function.update k.clientArray i none)).card : Int)
    omega

end Agree

/-! ## Events -/

/-- An event that leaves no connection behind and moves none without its state. -/
def Event.clean : Event → Bool
  | .leaked _ _ => false
  | .keptAlive _ _ waiting => ! waiting
  | _ => true

variable {k k' : Pool} {ready wait : List Ptr} {c : Ptr}

theorem Pool.copy_state {ber : BER} {cn cn' : Conn} (h : Pool.copy ber cn = .ok cn') :
    cn'.state = cn.state := by
  unfold Pool.copy at h
  split at h
  · cases h
  · cases h
    rfl

theorem Agree.closed_step {i : Nat} (h : Agree k ready wait)
    (hstep : k.step (.closed i c) = .ok k') : ∃ ready' wait', Agree k' ready' wait' := by
  obtain ⟨_, hguard, hstep⟩ := bind_eq_ok.1 hstep
  obtain ⟨cn, hcn, hstep⟩ := bind_eq_ok.1 hstep
  obtain ⟨q, hq, hstep⟩ := bind_eq_ok.1 hstep
  cases hstep
  rw [Pool.require_eq_ok] at hguard
  have hnodup := h.rings.once
  by_cases hstate : cn.state = .stateReady
  · have hc := h.ready_of_state hcn hstate
    obtain ⟨q', hq', rings, same, -⟩ := h.rings.removeReady hc
    have hremove : k.removeReady c = .ok q := by
      simpa only [Queues.leave, hstate, if_true] using hq
    rw [hremove] at hq'
    cases hq'
    refine ⟨_, _, h.closed hguard.2 rings (same.mono _ fun y hy => List.mem_append_left _ hy)
      (fun y => ?_) fun y hy => List.mem_erase_of_ne hy⟩
    rw [← List.erase_append_left _ hc, hnodup.mem_erase_iff, and_comm]
  · have hc := h.wait_of_state hcn hstate
    obtain ⟨q', hq', rings, same, -⟩ := h.rings.removeWait hc
    have hremove : k.removeWait c = .ok q := by
      simpa only [Queues.leave, hstate, if_false] using hq
    rw [hremove] at hq'
    cases hq'
    refine ⟨_, _, h.closed hguard.2 rings (same.mono _ fun y hy => List.mem_append_right _ hy)
      (fun y => ?_) fun y _ => Iff.rfl⟩
    rw [← List.erase_append_right _ fun hr => h.rings.disjoint hr hc, hnodup.mem_erase_iff,
      and_comm]

theorem Agree.flushed_step {ber : BER} (h : Agree k ready wait)
    (hstep : k.step (.flushed c ber) = .ok k') : ∃ ready' wait', Agree k' ready' wait' := by
  obtain ⟨_, hguard, hstep⟩ := bind_eq_ok.1 hstep
  obtain ⟨cn, hcn, hstep⟩ := bind_eq_ok.1 hstep
  obtain ⟨cn', hcopy, hstep⟩ := bind_eq_ok.1 hstep
  rw [Pool.require_eq_ok] at hguard
  have hc : c ∈ ready := by
    have hhead := h.rings.readyRing.head
    rw [hguard.1] at hhead
    exact List.mem_of_mem_head? hhead.symm
  have hstate : cn'.state = .stateReady := by
    obtain ⟨hmem, rfl⟩ := h.ready_or_wait hcn
    rw [Pool.copy_state hcopy]
    exact (h.state c hmem).1 hc
  have htaken : Agree { k with
      sendMsgQueue := k.sendMsgQueue.tail, queueCount := k.queueCount - 1 } ready wait :=
    ⟨h.rings, h.slots, h.inside, h.apart, h.state, h.allocated, h.count⟩
  simp only at hstep
  split at hstep
  · obtain ⟨q, hq, hstep⟩ := bind_eq_ok.1 hstep
    cases hstep
    exact ⟨_, _, htaken.toWait hc hq (by simp)⟩
  · obtain ⟨q, hq, hstep⟩ := bind_eq_ok.1 hstep
    cases hstep
    exact ⟨_, _, htaken.requeue hc hq hstate⟩

theorem Agree.answered_step {resp : Response} (h : Agree k ready wait)
    (hstep : k.step (.answered c resp) = .ok k') : ∃ ready' wait', Agree k' ready' wait' := by
  obtain ⟨cn, hcn, hstep⟩ := bind_eq_ok.1 hstep
  obtain ⟨_, -, hstep⟩ := bind_eq_ok.1 hstep
  simp only at hstep
  split at hstep
  · rename_i hwait
    obtain ⟨q, hq, hstep⟩ := bind_eq_ok.1 hstep
    cases hstep
    have hc := h.wait_of_state hcn (by rw [hwait.1]; decide)
    exact ⟨_, _, h.toReady hc hq rfl⟩
  · cases hstep
    obtain ⟨-, rfl⟩ := h.ready_or_wait hcn
    exact ⟨_, _, h.put Iff.rfl⟩

/-- Every event but the two keeps slots, rings and states in agreement. -/
theorem Agree.step {e : Event} (h : Agree k ready wait) (clean : e.clean)
    (hstep : k.step e = .ok k') : ∃ ready' wait', Agree k' ready' wait' := by
  cases e with
  | opened i c =>
    obtain ⟨k₁, halloc, hstep⟩ := bind_eq_ok.1 hstep
    obtain ⟨q, hq, hstep⟩ := bind_eq_ok.1 hstep
    obtain ⟨_, hguard, halloc⟩ := bind_eq_ok.1 halloc
    cases halloc
    cases hstep
    exact ⟨_, _, h.opened (Pool.require_eq_ok.1 hguard) hq (by simp)⟩
  | leaked i c => cases clean
  | closed i c => exact h.closed_step hstep
  | bindSent c =>
    obtain ⟨cn, hcn, hstep⟩ := bind_eq_ok.1 hstep
    obtain ⟨_, hguard, hstep⟩ := bind_eq_ok.1 hstep
    cases hstep
    obtain ⟨-, rfl⟩ := h.ready_or_wait hcn
    rw [Pool.require_eq_ok] at hguard
    exact ⟨_, _, h.put (iff_of_false (by simp) (by rw [hguard]; decide))⟩
  | established c =>
    obtain ⟨cn, hcn, hstep⟩ := bind_eq_ok.1 hstep
    obtain ⟨_, hguard, hstep⟩ := bind_eq_ok.1 hstep
    obtain ⟨q, hq, hstep⟩ := bind_eq_ok.1 hstep
    cases hstep
    rw [Pool.require_eq_ok] at hguard
    have hc := h.wait_of_state hcn (by rw [hguard]; decide)
    exact ⟨_, _, h.toReady hc hq rfl⟩
  | direct c ber =>
    obtain ⟨cn, hcn, hstep⟩ := bind_eq_ok.1 hstep
    obtain ⟨cn', hcopy, hstep⟩ := bind_eq_ok.1 hstep
    cases hstep
    obtain ⟨-, rfl⟩ := h.ready_or_wait hcn
    exact ⟨_, _, h.put (by rw [← Pool.copy_state hcopy])⟩
  | queued ber =>
    cases hstep
    exact ⟨_, _, ⟨h.rings, h.slots, h.inside, h.apart, h.state, h.allocated, h.count⟩⟩
  | flushed c ber => exact h.flushed_step hstep
  | keepaliveId c ktid =>
    obtain ⟨cn, hcn, hstep⟩ := bind_eq_ok.1 hstep
    cases hstep
    obtain ⟨-, rfl⟩ := h.ready_or_wait hcn
    exact ⟨_, _, h.put Iff.rfl⟩
  | keepaliveCopied c ber =>
    obtain ⟨cn, hcn, hstep⟩ := bind_eq_ok.1 hstep
    obtain ⟨cn', hcopy, hstep⟩ := bind_eq_ok.1 hstep
    cases hstep
    obtain ⟨-, rfl⟩ := h.ready_or_wait hcn
    exact ⟨_, _, h.put (by rw [← Pool.copy_state hcopy])⟩
  | sent c bytes =>
    obtain ⟨cn, hcn, hstep⟩ := bind_eq_ok.1 hstep
    obtain ⟨_, -, hstep⟩ := bind_eq_ok.1 hstep
    obtain ⟨-, rfl⟩ := h.ready_or_wait hcn
    simp only at hstep
    split at hstep
    · cases hstep
      exact ⟨_, _, h.put Iff.rfl⟩
    · cases hstep
      exact ⟨_, _, h.put Iff.rfl⟩
  | entry c resp =>
    obtain ⟨cn, hcn, hstep⟩ := bind_eq_ok.1 hstep
    obtain ⟨_, -, hstep⟩ := bind_eq_ok.1 hstep
    cases hstep
    obtain ⟨-, rfl⟩ := h.ready_or_wait hcn
    exact ⟨_, _, h.put Iff.rfl⟩
  | keepaliveEntry c resp =>
    obtain ⟨cn, -, hstep⟩ := bind_eq_ok.1 hstep
    obtain ⟨_, -, hstep⟩ := bind_eq_ok.1 hstep
    cases hstep
    exact ⟨_, _, h⟩
  | answered c resp => exact h.answered_step hstep
  | unexpected c resp =>
    obtain ⟨cn, hcn, hstep⟩ := bind_eq_ok.1 hstep
    obtain ⟨_, -, hstep⟩ := bind_eq_ok.1 hstep
    cases hstep
    obtain ⟨-, rfl⟩ := h.ready_or_wait hcn
    exact ⟨_, _, h.put Iff.rfl⟩
  | keptAlive c resp waiting =>
    obtain ⟨cn, hcn, hstep⟩ := bind_eq_ok.1 hstep
    obtain ⟨_, -, hstep⟩ := bind_eq_ok.1 hstep
    obtain ⟨found, -, hstep⟩ := bind_eq_ok.1 hstep
    obtain ⟨_, hguard, hstep⟩ := bind_eq_ok.1 hstep
    obtain rfl := Pool.require_eq_ok.1 hguard
    obtain rfl : found = false := by simpa [Event.clean] using clean
    cases hstep
    obtain ⟨-, rfl⟩ := h.ready_or_wait hcn
    exact ⟨_, _, h.put Iff.rfl⟩
  | consumed c =>
    obtain ⟨cn, hcn, hstep⟩ := bind_eq_ok.1 hstep
    cases hstep
    obtain ⟨-, rfl⟩ := h.ready_or_wait hcn
    exact ⟨_, _, h.put Iff.rfl⟩

/-! ## Runs -/

/-- A client without connections. -/
structure Unconnected (dc : LdapT) : Prop where
  queues : dc.toQueues = {}
  clientArray : dc.clientArray = fun _ => none
  clientCount : dc.clientCount = 0
  clients : dc.clients = fun _ => { no := 0 }

theorem ldapClntSetOption_unconnected {dc : LdapT} (opt : ClntOption) (h : Unconnected dc) :
    Unconnected (ldapClntSetOption dc opt).2 := by
  cases opt with
  | maxClient n =>
    simp only [ldapClntSetOption]
    split <;> exact ⟨h.queues, h.clientArray, h.clientCount, h.clients⟩
  | maxConcurrent n =>
    simp only [ldapClntSetOption]
    split <;> exact ⟨h.queues, h.clientArray, h.clientCount, h.clients⟩
  | _ => exact ⟨h.queues, h.clientArray, h.clientCount, h.clients⟩

theorem foldl_unconnected {opts : List ClntOption} {dc : LdapT} (h : Unconnected dc) :
    Unconnected (opts.foldl (fun dc opt => (ldapClntSetOption dc opt).2) dc) := by
  induction opts generalizing dc with
  | nil => exact h
  | cons opt opts ih => exact ih (ldapClntSetOption_unconnected opt h)

theorem Setup.start_unconnected (s : Setup) : Unconnected s.start :=
  foldl_unconnected ⟨rfl, rfl, rfl, rfl⟩

theorem Unconnected.agree {dc : LdapT} (h : Unconnected dc) : Agree dc.pool [] [] where
  rings := by
    have hqueues : dc.pool.toQueues = {} := h.queues
    rw [hqueues]
    exact ⟨.empty, .empty, List.nodup_nil⟩
  slots := by
    intro c
    have harray : dc.pool.clientArray = fun _ => none := h.clientArray
    simp [harray]
  inside := by
    intro i c hi
    have harray : dc.pool.clientArray = fun _ => none := h.clientArray
    simp [harray] at hi
  apart := by
    intro i j c hi
    have harray : dc.pool.clientArray = fun _ => none := h.clientArray
    simp [harray] at hi
  state := by
    intro c hc
    cases hc
  allocated := by
    intro c hc
    have hqueues : dc.pool.toQueues = {} := h.queues
    rw [hqueues] at hc
    cases hc
  count := by
    have harray : dc.pool.clientArray = fun _ => none := h.clientArray
    have hcount : dc.pool.clientCount = 0 := h.clientCount
    rw [hcount, harray]
    simp [usedSlots]

/-- After any sequence of calls in which no connection is left without a write buffer and no
answer to a keepalive finds its connection in wait_queue, slots, rings, states and the counter
agree. -/
theorem connections_agree (s : Setup) (calls : List Call) (dc : LdapT) (log : List Event)
    (h : runCalls calls s.start = .ok (dc, log)) (clean : ∀ e ∈ log, e.clean) :
    ConnectionsAgree dc := by
  have hrun : run Pool.step s.start.pool log = .ok dc.pool := runCalls_refines h
  have along : Along Pool.step (fun _ _ e => e.clean) s.start.pool log := by
    rintro before e after _ rfl -
    exact clean e (List.mem_append_right _ List.mem_cons_self)
  refine run_invariant (I := fun _ k => ∃ ready wait, Agree k ready wait)
    ⟨[], [], s.start_unconnected.agree⟩ ?_ along hrun
  rintro _ k e k' ⟨ready, wait, hagree⟩ hclean hstep
  exact hagree.step hclean hstep

/-- A connection on ready_queue that is in another state. -/
theorem not_agree_of_ready {dc : LdapT} (hready : dc.readyQueue = some c)
    (hstate : (dc.clients c).state ≠ .stateReady) : ¬ ConnectionsAgree dc := by
  rintro ⟨ready, wait, h⟩
  have hhead : dc.readyQueue = ready.head? := h.rings.readyRing.head
  rw [hready] at hhead
  have hc := List.mem_of_mem_head? hhead.symm
  exact hstate ((h.state c (List.mem_append_left _ hc)).1 hc)

/-- What a run comes to, by evaluation. -/
theorem runCalls_of_check {s : Setup} {c : List Call} {P : LdapT → List Event → Bool}
    (h : (match runCalls c s.start with
      | .ok (dc, log) => P dc log
      | .error _ => false) = true) :
    ∃ dc log, runCalls c s.start = .ok (dc, log) ∧ P dc log = true := by
  split at h
  · exact ⟨_, _, by assumption, h⟩
  · cases h

/-- One request at a time, and searches that keep connections alive. -/
def oneAtATime : Setup :=
  { wbuffer := 0, concurrent := 1, maxClient := 4, random := 0, options := [.keepaliveType .search] }

/-- A connection sends its one request and, without having an answer, a keepalive. -/
def sendAndKeepAlive : List Call :=
  [.open 1 .connected (some 1) true,
    .write 1 .none (.wrote 14) 1,
    .read 1 .none (fun _ => 0) (some fun _ => 0)
      (.data [0x30, 12, 2, 1, 1, 0x61, 7, 0x0a, 1, 0, 4, 0, 4, 0]) 1,
    .sendMessage 1 {} ⟨fun _ => true, none⟩ none (some ⟨512, [0x30, 5, 2, 1, 1, 0x42, 0]⟩),
    .write 2 .none (.wrote 7) 1,
    .keepAlive 3 fun _ => ⟨true, true, .none, .wrote 200, none⟩,
    .read 4 .none (fun _ => 0) (some fun _ => 0)
      (.data [0x30, 12, 2, 1, 2, 0x65, 7, 0x0a, 1, 0, 4, 0, 4, 0]) 1]

theorem connections_agree_sent :
    ∃ dc log, runCalls sendAndKeepAlive oneAtATime.start = .ok (dc, log) ∧ ConnectionsAgree dc := by
  obtain ⟨dc, log, hrun, hclean⟩ := runCalls_of_check (s := oneAtATime) (c := sendAndKeepAlive)
    (P := fun _ log => log.all Event.clean) (by decide +kernel)
  exact ⟨dc, log, hrun, connections_agree _ _ dc log hrun (List.all_eq_true.1 hclean)⟩

/-- The answer to the keepalive puts the connection on ready_queue, and leaves it waiting. -/
theorem keepalive_answer_disagrees :
    ∃ dc log, runCalls (sendAndKeepAlive ++ [.decode 4 {} (some fun _ => 0) true 1])
      oneAtATime.start = .ok (dc, log) ∧ ¬ ConnectionsAgree dc := by
  obtain ⟨dc, log, hrun, hend⟩ := runCalls_of_check (s := oneAtATime)
    (c := sendAndKeepAlive ++ [.decode 4 {} (some fun _ => 0) true 1])
    (P := fun dc _ => dc.readyQueue = some 1 ∧ (dc.clients 1).state = .stateWaiting)
    (by decide +kernel)
  have hboth := of_decide_eq_true hend
  refine ⟨dc, log, hrun, not_agree_of_ready hboth.1 ?_⟩
  rw [hboth.2]
  decide

end CassandraApi.Ldap
