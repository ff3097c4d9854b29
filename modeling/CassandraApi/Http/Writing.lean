/-
# `Http.Writing` — HTTP_sess_write and the queue of a session

The responses of a session wait in `w_buffer`, a ring of HSDATA nodes.
HTTP_sess_write offers the unsent part of the first node to `send`, at most
`max_w_len` bytes of it, and frees the node when its last byte is gone.

A call reports what it did besides its result: the bytes `send` took and the node
that was freed.  The source has no such report.
-/
import CassandraApi.Http.Session
import CassandraApi.Lib.Machine
import CassandraApi.Linkedlist

namespace CassandraApi.Http.Writing

open C Lib

variable {α : Type}

/-! ## The data -/

/-- HTTP_t, as far as HTTP_sess_write sees it. -/
structure WriteHs where
  maxWLen : Int
  idleTimeout : Int
  sentMsgCount : Nat := 0

/-- HSSESSION, its write side, with the links of the nodes. -/
structure WriteSess (α : Type) where
  no : Int := 0
  sock : Int := 0
  wBuffer : Option α
  wCurr : Int := 0
  heap : Heap α
  writeTime : Int := 0
  activeTime : Int := 0
  writeCount : UInt8 := 0

/-- What `send` reports: an errno text, or how many bytes it took. -/
inductive Sent where
  | failed (strerror : String)
  | took (r : Nat)

/-- What a call did. -/
structure Did (α : Type) where
  taken : List UInt8 := []
  freed : Option α := none

/-- The bytes of a node. -/
def contents (d : HSDATA) : List UInt8 := d.data.slice 0 d.len.toNat

/-- How much of the node is offered to `send`. -/
def offered (hs : WriteHs) (wCurr : Int) (d : HSDATA) : Int :=
  let n := int32 (d.len - wCurr)
  if hs.maxWLen > 0 ∧ n > hs.maxWLen then hs.maxWLen else n

/-- The queue is its first node, and the ring says where that is. -/
theorem ring_first {heap : Heap α} {w : α} {left : List α} (h : IsRing heap (some w) left) :
    ∃ rest, left = w :: rest := by
  cases left with
  | nil => cases h.head
  | cons a rest =>
    cases h.head
    exact ⟨rest, rfl⟩

theorem ring_node {heap : Heap α} {first : Option α} {w : α} {rest : List α}
    (h : IsRing heap first (w :: rest)) :
    ∃ n, heap.node w = .ok n := by
  obtain ⟨⟨n, -, hnext⟩, -⟩ := h.cycle.links List.mem_cons_self
  obtain ⟨it, hit, -⟩ := node_eq (alloc_of_next hnext)
  exact ⟨it, hit⟩

/-! ## HTTP_sess_write -/

section Write

variable [DecidableEq α] (data : α → HSDATA)

/-- The first node is done: it leaves the queue and is freed. -/
def finishNode (hs : WriteHs) (sess : WriteSess α) (w : α) (taken : List UInt8) :
    Except Fault (Outcome × WriteHs × WriteSess α × Did α) := do
  let (first, heap) ← linkedlistRemove (some w) w sess.heap
  let sess := { sess with
    wCurr := 0, wBuffer := first, heap := Function.update heap w none
    writeTime := if first.isNone then 0 else sess.writeTime }
  -- close connection immediately in case of synchronous blocking
  pure (⟨if hs.idleTimeout = 0 then .sentClose else .sent, none⟩, hs, sess, ⟨taken, some w⟩)

/-- The node is to be gone on with.  `fdSet` is what the callback returns, if there is one. -/
def keepNode (fdSet : Option Int) (hs : WriteHs) (sess : WriteSess α) (taken : List UInt8) :
    Outcome × WriteHs × WriteSess α × Did α :=
  if fdSet.getD 0 ≠ 0 then
    (⟨.errSend, some s!"fd_set_write error for socket ({sess.sock})"⟩, hs, sess, ⟨taken, none⟩)
  else
    (⟨.sentFragment, none⟩, hs, { sess with writeCount := sess.writeCount + 1 }, ⟨taken, none⟩)

def httpSessWrite (send : Sent) (fdSet : Option Int) (now : Int) (hs : WriteHs)
    (sess : WriteSess α) : Except Fault (Outcome × WriteHs × WriteSess α × Did α) :=
  match sess.wBuffer with
  | none => .ok (⟨.ok, none⟩, hs, { sess with writeTime := 0 }, {})
  | some w => do
      let _ ← sess.heap.node w
      let bytes ← (data w).data.load sess.wCurr (offered hs sess.wCurr (data w))
      match send with
      | .failed e =>
          pure (⟨.errSend, some s!"session({sess.no}), send return error [{e}]"⟩, hs, sess, {})
      | .took r =>
          let sess := { sess with
            wCurr := int32 (sess.wCurr + r), activeTime := now, writeTime := now }
          let hs := { hs with sentMsgCount := hs.sentMsgCount + 1 }
          if sess.wCurr ≥ (data w).len then finishNode hs sess w (bytes.take r)
          else pure (keepNode fdSet hs sess (bytes.take r))

/-! ## Runs -/

/-- A call of HTTP_sess_write, with what the outside does during it. -/
structure WriteCall where
  send : Sent
  fdSet : Option Int := none
  now : Int := 0

/-- The server and the session, the bytes sent and the nodes freed so far, and the last result. -/
structure Line (α : Type) where
  hs : WriteHs
  sess : WriteSess α
  out : List UInt8 := []
  freed : List α := []
  last : RetCode := .ok

def step (s : Line α) (c : WriteCall) : Except Fault (Line α) := do
  let (reply, hs, sess, did) ← httpSessWrite data c.send c.fdSet c.now s.hs s.sess
  pure { hs, sess, out := s.out ++ did.taken, freed := s.freed ++ did.freed.toList
         last := reply.code }

/-- `send` takes between one byte and what it is offered, or fails. -/
def Legal (s : Line α) (c : WriteCall) : Prop :=
  ∀ w, s.sess.wBuffer = some w →
    match c.send with
    | .failed _ => True
    | .took r => 1 ≤ r ∧ (r : Int) ≤ offered s.hs s.sess.wCurr (data w)

/-- The bytes of the nodes in their order. -/
def queued (xs : List α) : List UInt8 := xs.flatMap fun a => contents (data a)

/-- Where a run that began with the nodes `xs` is: the freed nodes are the first ones, what was sent
are their bytes and the first ones of the next node, and freed nodes are not allocated. -/
structure Progress (xs : List α) (s : Line α) (left : List α) : Prop where
  nodes : s.freed ++ left = xs
  ring : IsRing s.sess.heap s.sess.wBuffer left
  sent : s.out = queued data s.freed ++ (queued data left).take s.sess.wCurr.toNat
  freed : ∀ a ∈ s.freed, s.sess.heap a = none
  within : ∀ a, left.head? = some a → s.sess.wCurr ≤ (data a).len
  fresh : 0 ≤ s.sess.wCurr

/-- What is to be shown of a queue: every run goes through, sends the bytes in order, frees each
node after its last byte, and returns HTTP_RET_SENT_CLOSE when everything is sent. -/
def WritesOut (hs : WriteHs) (sess : WriteSess α) (xs : List α) : Prop :=
  ∀ calls : List WriteCall, Along (step data) (fun _ => Legal data) { hs, sess } calls →
    ∃ s, run (step data) { hs, sess } calls = .ok s ∧
      (∃ left, Progress data xs s left) ∧
      (s.sess.wBuffer = none → s.out = queued data xs) ∧
      (s.last = .sentClose → s.out = queued data xs)

/-- The connection is not closed after a response, or nothing is queued behind the first one.  With
an empty first node `send` is offered nothing. -/
def ClosesLate (hs : WriteHs) : List α → Prop
  | [] => True
  | a :: rest => hs.idleTimeout ≠ 0 ∨ contents (data a) = [] ∨ queued data rest = []

/-- A node whose length is that of bytes in its block. -/
structure Stored (d : HSDATA) : Prop where
  low : 0 ≤ d.len
  inside : d.len ≤ d.data.size
  small : d.len < 2 ^ 31

/-! ## One call -/

variable {data} {hs : WriteHs} {sess : WriteSess α} {d : HSDATA} {xs left rest : List α}
  {s s' : Line α} {w : α}

theorem contents_length (h : Stored d) : ((contents d).length : Int) = d.len := by
  have := h.low
  rw [contents, Block.slice_length]
  omega

theorem offered_range (h : Stored d) {c : Int} (h0 : 0 ≤ c) (hle : c ≤ d.len) :
    0 ≤ offered hs c d ∧ c + offered hs c d ≤ d.len := by
  have hsmall := h.small
  simp only [offered, int32_of_range (show -2 ^ 31 ≤ d.len - c by omega)
    (show d.len - c < 2 ^ 31 by omega)]
  split <;> omega

/-- More of the node, from where the session is. -/
theorem contents_take_add {c r : Nat} (h : c + r ≤ d.len.toNat) :
    (contents d).take (c + r) = (contents d).take c ++ d.data.slice c r := by
  obtain ⟨m, hm⟩ := Nat.exists_eq_add_of_le h
  have hall : contents d = d.data.slice 0 c ++ (d.data.slice c r ++ d.data.slice (c + r) m) := by
    rw [contents, hm, Block.slice_add, Block.slice_add, List.append_assoc, Nat.zero_add,
      Nat.zero_add]
  rw [hall, List.take_left' (Block.slice_length ..), ← List.append_assoc, List.take_left']
  rw [List.length_append, Block.slice_length, Block.slice_length]

/-- What `send` takes of what it is offered. -/
theorem load_offered (h : Stored d) {c : Int} (h0 : 0 ≤ c) (hle : c ≤ d.len) :
    d.data.load c (offered hs c d) = .ok (d.data.slice c.toNat (offered hs c d).toNat) := by
  obtain ⟨hlow, hhigh⟩ := @offered_range hs d h c h0 hle
  have := h.inside
  rw [Block.load, if_neg (by omega), if_pos (by omega)]

theorem slice_take {b : Block} {i n r : Nat} (h : r ≤ n) : (b.slice i n).take r = b.slice i r := by
  obtain ⟨m, rfl⟩ := Nat.exists_eq_add_of_le h
  rw [Block.slice_add, List.take_left' (Block.slice_length ..)]

omit [DecidableEq α] in
/-- Going on with a node leaves the queue as it is, and the connection open. -/
theorem keepNode_spec (fdSet : Option Int) (hs : WriteHs) (sess : WriteSess α)
    (taken : List UInt8) :
    ∃ reply sess', keepNode fdSet hs sess taken = (reply, hs, sess', ⟨taken, none⟩) ∧
      sess'.wCurr = sess.wCurr ∧ sess'.heap = sess.heap ∧ sess'.wBuffer = sess.wBuffer ∧
      reply.code ≠ .sentClose := by
  unfold keepNode
  split
  · exact ⟨_, _, rfl, rfl, rfl, rfl, by simp⟩
  · exact ⟨_, _, rfl, rfl, rfl, rfl, by simp⟩

/-- What freeing the first node leaves. -/
theorem finishNode_ring (hs : WriteHs) (sess : WriteSess α)
    (h : IsRing sess.heap (some w) (w :: rest)) (taken : List UInt8) :
    ∃ sess', finishNode hs sess w taken =
        .ok (⟨if hs.idleTimeout = 0 then .sentClose else .sent, none⟩, hs, sess',
          ⟨taken, some w⟩) ∧
      IsRing sess'.heap sess'.wBuffer rest ∧ sess'.wCurr = 0 ∧ sess'.heap w = none ∧
      ∀ a, a ∉ w :: rest → sess'.heap a = sess.heap a := by
  obtain ⟨first, heap, hremove, hring, helse, -⟩ :=
    linkedlistRemove_ring h (List.mem_cons_self (a := w) (l := rest))
  rw [List.erase_cons_head] at hring
  have hnot : w ∉ rest := (List.nodup_cons.1 h.nodup).1
  refine ⟨_, by simp only [finishNode, hremove, ok_bind, pure_eq_ok]; rfl, ?_, rfl, ?_, ?_⟩
  · refine hring.congr fun y hy => ?_
    have hne : y ≠ w := fun heq => hnot (heq ▸ hy)
    exact Function.update_of_ne hne ..
  · exact Function.update_self ..
  · intro a ha
    have hne : a ≠ w := fun heq => ha (heq ▸ List.mem_cons_self)
    exact (Function.update_of_ne hne ..).trans (helse.outside a ha)

omit [DecidableEq α] in
/-- The first bytes of a queue are those of its first node. -/
theorem queued_take (h : Stored (data w)) {c : Nat} (hle : (c : Int) ≤ (data w).len) :
    (queued data (w :: rest)).take c = (contents (data w)).take c := by
  have hlen := contents_length h
  have hcons : queued data (w :: rest) = contents (data w) ++ queued data rest := List.flatMap_cons
  rw [hcons, List.take_append_of_le_length (by omega)]

omit [DecidableEq α] in
/-- The bytes sent after `send` has taken `r` more. -/
theorem Progress.taken (h : Progress data xs s (w :: rest)) (hstored : Stored (data w)) {r : Nat}
    (hr : s.sess.wCurr + r ≤ (data w).len) :
    s.out ++ (data w).data.slice s.sess.wCurr.toNat r =
      queued data s.freed ++ (contents (data w)).take (s.sess.wCurr.toNat + r) := by
  have hfresh := h.fresh
  rw [h.sent, queued_take hstored (by omega), contents_take_add (by omega), List.append_assoc]

/-- A call with nothing in the queue. -/
theorem Progress.idle (h : Progress data xs s left) (hnone : s.sess.wBuffer = none)
    (c : WriteCall) :
    step data s c = .ok { s with sess := { s.sess with writeTime := 0 }, last := .ok } ∧
      Progress data xs { s with sess := { s.sess with writeTime := 0 }, last := .ok } left := by
  refine ⟨?_, h.nodes, h.ring, h.sent, h.freed, h.within, h.fresh⟩
  simp only [step, httpSessWrite, hnone, ok_bind, pure_eq_ok, List.append_nil, Option.toList_none]

/-- A call in which `send` has taken `r` bytes, up to the test whether the node is done. -/
theorem step_took {hs : WriteHs} (h : Progress data xs s (w :: rest)) (hw : s.sess.wBuffer = some w)
    (hstored : Stored (data w)) {c : WriteCall} {r : Nat} (hc : c.send = .took r)
    (hle : (r : Int) ≤ offered s.hs s.sess.wCurr (data w))
    (hhs : hs = { s.hs with sentMsgCount := s.hs.sentMsgCount + 1 })
    {sess : WriteSess α} (hsess : sess = { s.sess with
      wCurr := s.sess.wCurr + r, activeTime := c.now, writeTime := c.now }) :
    httpSessWrite data c.send c.fdSet c.now s.hs s.sess =
      if s.sess.wCurr + r ≥ (data w).len then
        finishNode hs sess w ((data w).data.slice s.sess.wCurr.toNat r)
      else .ok (keepNode c.fdSet hs sess ((data w).data.slice s.sess.wCurr.toNat r)) := by
  subst hhs hsess
  have hwithin := h.within w rfl
  have hfresh := h.fresh
  have hsmall := hstored.small
  obtain ⟨-, hhigh⟩ := @offered_range s.hs (data w) hstored s.sess.wCurr hfresh hwithin
  obtain ⟨it, hit⟩ := ring_node h.ring
  have hload := @load_offered s.hs (data w) hstored s.sess.wCurr hfresh hwithin
  have hint : int32 (s.sess.wCurr + r) = s.sess.wCurr + r := int32_of_range (by omega) (by omega)
  simp only [httpSessWrite, hw, hit, ok_bind, hload, hc, hint, pure_eq_ok,
    slice_take (show r ≤ (offered s.hs s.sess.wCurr (data w)).toNat by omega)]

theorem step_eq {c : WriteCall} {reply : Outcome} {hs : WriteHs} {sess : WriteSess α} {did : Did α}
    (h : httpSessWrite data c.send c.fdSet c.now s.hs s.sess = .ok (reply, hs, sess, did)) :
    step data s c = .ok { hs, sess, out := s.out ++ did.taken, freed := s.freed ++ did.freed.toList
                          last := reply.code } := by
  simp only [step, h, ok_bind, pure_eq_ok]

/-- What every call keeps. -/
structure Inv (data : α → HSDATA) (xs : List α) (idleTimeout : Int) (s : Line α) : Prop where
  progress : ∃ left, Progress data xs s left
  idle : s.hs.idleTimeout = idleTimeout
  filled : ∀ a ∈ s.freed, contents (data a) ≠ []
  close : s.last = .sentClose → idleTimeout = 0 ∧ s.freed ≠ [] ∧ s.sess.wCurr = 0

/-- Nothing is sent: the node stays as it was. -/
theorem Inv.step_failed {idleTimeout : Int} (h : Inv data xs idleTimeout s)
    (hprogress : Progress data xs s (w :: rest)) (hw : s.sess.wBuffer = some w)
    (hstored : Stored (data w)) {c : WriteCall} {e : String} (hc : c.send = .failed e) :
    ∃ s', step data s c = .ok s' ∧ Inv data xs idleTimeout s' := by
  have hfresh := hprogress.fresh
  obtain ⟨it, hit⟩ := ring_node hprogress.ring
  have hload := @load_offered s.hs (data w) hstored s.sess.wCurr hfresh (hprogress.within w rfl)
  refine ⟨{ s with last := .errSend }, ?_, ⟨_, hprogress.nodes, hprogress.ring,
    hprogress.sent, hprogress.freed, hprogress.within, hfresh⟩, h.idle, h.filled,
    fun hlast => by cases hlast⟩
  simp only [step, httpSessWrite, hw, hc, hit, hload, ok_bind, pure_eq_ok, List.append_nil,
    Option.toList_none]

/-- The last bytes of the node are taken: it is freed, and the next one is first. -/
theorem Inv.step_finished {idleTimeout : Int} (hnodup : xs.Nodup)
    (hstored : ∀ a ∈ xs, Stored (data a)) (h : Inv data xs idleTimeout s)
    (hprogress : Progress data xs s (w :: rest)) (hw : s.sess.wBuffer = some w) {c : WriteCall}
    {r : Nat} (hc : c.send = .took r) (hpos : 1 ≤ r)
    (hle : (r : Int) ≤ offered s.hs s.sess.wCurr (data w))
    (hdone : s.sess.wCurr + r ≥ (data w).len) :
    ∃ s', step data s c = .ok s' ∧ Inv data xs idleTimeout s' := by
  have hmem : ∀ a ∈ w :: rest, a ∈ xs := by
    rw [← hprogress.nodes]
    exact fun a ha => List.mem_append_right _ ha
  have hwstored := hstored w (hmem w List.mem_cons_self)
  have hfresh := hprogress.fresh
  have hlow := hwstored.low
  have hlen := contents_length hwstored
  obtain ⟨-, hhigh⟩ :=
    @offered_range s.hs (data w) hwstored s.sess.wCurr hfresh (hprogress.within w rfl)
  have hwrite := step_took hprogress hw hwstored hc hle rfl rfl
  have htaken := hprogress.taken hwstored (show s.sess.wCurr + r ≤ (data w).len by omega)
  have hall : (contents (data w)).take (s.sess.wCurr.toNat + r) = contents (data w) :=
    List.take_of_length_le (by omega)
  rw [if_pos hdone] at hwrite
  rw [hall] at htaken
  obtain ⟨sess', hfinish, hring, hcurr, hfree, hother⟩ :=
    finishNode_ring { s.hs with sentMsgCount := s.hs.sentMsgCount + 1 }
      { s.sess with
        wCurr := s.sess.wCurr + r, activeTime := c.now, writeTime := c.now }
      (hw ▸ hprogress.ring) ((data w).data.slice s.sess.wCurr.toNat r)
  refine ⟨_, step_eq (hwrite.trans hfinish),
    ⟨rest, ?nodes, hring, ?sent, ?freed, ?within, ?fresh⟩, h.idle, ?filled, ?close⟩
  case nodes =>
    rw [← hprogress.nodes, List.append_assoc]
    rfl
  case sent =>
    simp only [Option.toList_some, hcurr]
    rw [htaken]
    simp [queued]
  case freed =>
    intro a ha
    rcases List.mem_append.1 ha with hold | hnew
    · have hout : a ∉ w :: rest := by
        rw [← hprogress.nodes] at hnodup
        exact fun hin => List.disjoint_of_nodup_append hnodup hold hin
      exact (hother a hout).trans (hprogress.freed a hold)
    · obtain rfl : a = w := by simpa using hnew
      exact hfree
  case within =>
    intro a ha
    rw [hcurr]
    exact (hstored a (hmem a (List.mem_cons_of_mem _ (List.mem_of_mem_head? ha)))).low
  case fresh => rw [hcurr]
  case filled =>
    intro a ha
    rcases List.mem_append.1 ha with hold | hnew
    · exact h.filled a hold
    · obtain rfl : a = w := by simpa using hnew
      intro hempty
      rw [hempty, List.length_nil] at hlen
      omega
  case close =>
    intro hlast
    refine ⟨?_, by simp, hcurr⟩
    by_contra hidle
    have hne : ¬ s.hs.idleTimeout = 0 := by rwa [h.idle]
    simp [hne] at hlast

/-- Some bytes of the node are taken, and more are left: it stays first. -/
theorem Inv.step_kept {idleTimeout : Int} (h : Inv data xs idleTimeout s)
    (hprogress : Progress data xs s (w :: rest)) (hw : s.sess.wBuffer = some w)
    (hstored : Stored (data w)) {c : WriteCall} {r : Nat} (hc : c.send = .took r)
    (hle : (r : Int) ≤ offered s.hs s.sess.wCurr (data w))
    (hmore : ¬ s.sess.wCurr + r ≥ (data w).len) :
    ∃ s', step data s c = .ok s' ∧ Inv data xs idleTimeout s' := by
  have hfresh := hprogress.fresh
  have hwrite := step_took hprogress hw hstored hc hle rfl rfl
  have htaken := hprogress.taken hstored (show s.sess.wCurr + r ≤ (data w).len by omega)
  rw [if_neg hmore] at hwrite
  obtain ⟨reply, sess', hkeep, hcurr, hheap, hbuffer, hcode⟩ :=
    keepNode_spec c.fdSet { s.hs with sentMsgCount := s.hs.sentMsgCount + 1 }
      { s.sess with wCurr := s.sess.wCurr + r, activeTime := c.now, writeTime := c.now }
      ((data w).data.slice s.sess.wCurr.toNat r)
  rw [hkeep] at hwrite
  refine ⟨_, step_eq hwrite, ⟨w :: rest, ?nodes, ?ring, ?sent, ?freed, ?within, ?fresh⟩, h.idle,
    ?filled, fun hlast => absurd hlast hcode⟩
  case nodes =>
    rw [Option.toList_none, List.append_nil]
    exact hprogress.nodes
  case ring =>
    rw [hheap, hbuffer]
    exact hprogress.ring
  case sent =>
    simp only [Option.toList_none, List.append_nil, hcurr]
    rw [queued_take hstored (by omega), htaken]
    congr 2
    omega
  case freed =>
    simp only [Option.toList_none, List.append_nil, hheap]
    exact hprogress.freed
  case within =>
    intro a ha
    cases ha
    rw [hcurr]
    exact (lt_of_not_ge hmore).le
  case fresh =>
    rw [hcurr]
    exact add_nonneg hfresh (Int.natCast_nonneg r)
  case filled =>
    rw [Option.toList_none, List.append_nil]
    exact h.filled

theorem step_inv {idleTimeout : Int} (hnodup : xs.Nodup) (hstored : ∀ a ∈ xs, Stored (data a))
    (h : Inv data xs idleTimeout s) {c : WriteCall} (legal : Legal data s c) :
    ∃ s', step data s c = .ok s' ∧ Inv data xs idleTimeout s' := by
  obtain ⟨left, hprogress⟩ := h.progress
  cases hw : s.sess.wBuffer with
  | none =>
    obtain ⟨hstep, hkept⟩ := hprogress.idle hw c
    exact ⟨_, hstep, ⟨left, hkept⟩, h.idle, h.filled, fun hlast => by cases hlast⟩
  | some w =>
    obtain ⟨rest, rfl⟩ := ring_first (hw ▸ hprogress.ring)
    have hmem : w ∈ xs := by
      rw [← hprogress.nodes]
      exact List.mem_append_right _ List.mem_cons_self
    have hlegal := legal w hw
    cases hc : c.send with
    | failed e => exact h.step_failed hprogress hw (hstored w hmem) hc
    | took r =>
      rw [hc] at hlegal
      obtain ⟨hpos, hle⟩ := hlegal
      by_cases hdone : s.sess.wCurr + r ≥ (data w).len
      · exact h.step_finished hnodup hstored hprogress hw hc hpos hle hdone
      · exact h.step_kept hprogress hw (hstored w hmem) hc hle hdone

/-! ## The whole queue -/

theorem Inv.run {idleTimeout : Int} (hnodup : xs.Nodup) (hstored : ∀ a ∈ xs, Stored (data a))
    (h : Inv data xs idleTimeout s) {calls : List WriteCall}
    (legal : Along (step data) (fun _ => Legal data) s calls) :
    ∃ s', run (step data) s calls = .ok s' ∧ Inv data xs idleTimeout s' :=
  run_total h (fun _ _ hinv hlegal => step_inv hnodup hstored hinv hlegal) legal

omit [DecidableEq α] in
theorem start_inv (hring : IsRing sess.heap sess.wBuffer xs) (hcurr : sess.wCurr = 0)
    (hstored : ∀ a ∈ xs, Stored (data a)) : Inv data xs hs.idleTimeout { hs, sess } := by
  refine ⟨⟨xs, rfl, hring, ?_, fun a ha => absurd ha List.not_mem_nil, fun a ha => ?_, ?_⟩, rfl,
    fun a ha => absurd ha List.not_mem_nil, fun hlast => by cases hlast⟩
  · simp [hcurr, queued]
  · rw [hcurr]
    exact (hstored a (List.mem_of_mem_head? ha)).low
  · rw [hcurr]

omit [DecidableEq α] in
/-- When the queue is empty everything was sent. -/
theorem Progress.all_sent (h : Progress data xs s left) (hnone : s.sess.wBuffer = none) :
    s.out = queued data xs := by
  have hnil : left = [] := by
    have hhead := h.ring.head
    rw [hnone] at hhead
    exact List.head?_eq_none_iff.1 hhead.symm
  subst hnil
  rw [← h.nodes, List.append_nil, h.sent]
  simp [queued]

omit [DecidableEq α] in
/-- When HTTP_RET_SENT_CLOSE is returned, the bytes of the freed nodes were sent.  These are all when
no byte is behind the first node. -/
theorem Inv.close_sent {a : α} (h : Inv data (a :: rest) hs.idleTimeout s)
    (hlate : ClosesLate data hs (a :: rest)) (hlast : s.last = .sentClose) :
    s.out = queued data (a :: rest) := by
  obtain ⟨hidle, hfreed, hcurr⟩ := h.close hlast
  obtain ⟨left, hprogress⟩ := h.progress
  cases hs' : s.freed with
  | nil => exact absurd hs' hfreed
  | cons b freed =>
    have hnodes := hprogress.nodes
    rw [hs', List.cons_append, List.cons.injEq] at hnodes
    obtain ⟨rfl, rfl⟩ := hnodes
    have hfilled := h.filled b (by rw [hs']; exact List.mem_cons_self)
    rcases hlate with hne | hempty | hrest
    · exact absurd hidle hne
    · exact absurd hempty hfilled
    · rw [queued, List.flatMap_append, List.append_eq_nil_iff] at hrest
      rw [hprogress.sent, hcurr, hs']
      simp [queued, hrest.1, hrest.2]

/-- `send` takes one byte of a node that has one. -/
def oneByte : WriteCall := { send := .took 1 }

theorem step_oneByte {idleTimeout : Int} (hnodup : xs.Nodup) (hstored : ∀ a ∈ xs, Stored (data a))
    (h : Inv data xs idleTimeout s) (hw : s.sess.wBuffer = some w)
    (hlt : s.sess.wCurr < (data w).len) :
    Legal data s oneByte ∧ ∃ s', step data s oneByte = .ok s' ∧ Inv data xs idleTimeout s' ∧
      (s.sess.wCurr + 1 < (data w).len →
        s'.sess.wBuffer = some w ∧ s'.sess.wCurr = s.sess.wCurr + 1 ∧ s'.freed = s.freed) ∧
      (¬ s.sess.wCurr + 1 < (data w).len →
        s'.freed = s.freed ++ [w] ∧ (idleTimeout = 0 → s'.last = .sentClose)) := by
  obtain ⟨left, hprogress⟩ := h.progress
  obtain ⟨rest, rfl⟩ := ring_first (hw ▸ hprogress.ring)
  have hwstored : Stored (data w) := by
    refine hstored w ?_
    rw [← hprogress.nodes]
    exact List.mem_append_right _ List.mem_cons_self
  have hfresh := hprogress.fresh
  have hone : (1 : Int) ≤ offered s.hs s.sess.wCurr (data w) := by
    have hsmall := hwstored.small
    simp only [offered, int32_of_range (show -2 ^ 31 ≤ (data w).len - s.sess.wCurr by omega)
      (show (data w).len - s.sess.wCurr < 2 ^ 31 by omega)]
    split <;> omega
  have hlegal : Legal data s oneByte := by
    intro w' hw'
    rw [hw] at hw'
    cases hw'
    exact ⟨le_refl 1, hone⟩
  obtain ⟨s', hstep, hinv⟩ := step_inv hnodup hstored h hlegal
  refine ⟨hlegal, s', hstep, hinv, ?_⟩
  have hwrite := step_took hprogress hw hwstored (c := oneByte) (r := 1) rfl hone rfl rfl
  by_cases hdone : s.sess.wCurr + 1 < (data w).len
  · rw [if_neg (show ¬ s.sess.wCurr + (1 : Nat) ≥ (data w).len from not_le.2 hdone)] at hwrite
    obtain ⟨reply, sess', hkeep, hcurr, -, hbuffer, -⟩ :=
      keepNode_spec oneByte.fdSet { s.hs with sentMsgCount := s.hs.sentMsgCount + 1 }
        { s.sess with
          wCurr := s.sess.wCurr + (1 : Nat), activeTime := oneByte.now, writeTime := oneByte.now }
        ((data w).data.slice s.sess.wCurr.toNat 1)
    rw [hkeep] at hwrite
    have heq := hstep.symm.trans (step_eq hwrite)
    cases heq
    exact ⟨fun _ => ⟨hbuffer.trans hw, hcurr, List.append_nil _⟩, fun hnot => absurd hdone hnot⟩
  · rw [if_pos (show s.sess.wCurr + (1 : Nat) ≥ (data w).len from not_lt.1 hdone)] at hwrite
    obtain ⟨sess', hfinish, -⟩ :=
      finishNode_ring { s.hs with sentMsgCount := s.hs.sentMsgCount + 1 }
        { s.sess with
          wCurr := s.sess.wCurr + (1 : Nat), activeTime := oneByte.now, writeTime := oneByte.now }
        (hw ▸ hprogress.ring) ((data w).data.slice s.sess.wCurr.toNat 1)
    have heq := hstep.symm.trans (step_eq (hwrite.trans hfinish))
    cases heq
    exact ⟨fun h' => absurd h' hdone, fun _ => ⟨rfl, fun hzero => if_pos (h.idle.trans hzero)⟩⟩

/-- Byte by byte the first node is finished. -/
theorem node_finishes {idleTimeout : Int} (hnodup : xs.Nodup)
    (hstored : ∀ a ∈ xs, Stored (data a)) {k : Nat} (h : Inv data xs idleTimeout s)
    (hw : s.sess.wBuffer = some w) (hk : s.sess.wCurr + (k + 1 : Nat) = (data w).len) :
    ∃ calls s', Along (step data) (fun _ => Legal data) s calls ∧
      run (step data) s calls = .ok s' ∧ Inv data xs idleTimeout s' ∧ s'.freed = s.freed ++ [w] ∧
      (idleTimeout = 0 → s'.last = .sentClose) := by
  induction k generalizing s with
  | zero =>
    obtain ⟨hlegal, s', hstep, hinv, -, hdone⟩ := step_oneByte hnodup hstored h hw (by omega)
    obtain ⟨hfreed, hclose⟩ := hdone (by omega)
    exact ⟨[oneByte], s', along_cons hlegal fun s _ => along_nil s, run_single hstep, hinv, hfreed,
      hclose⟩
  | succ k ih =>
    obtain ⟨hlegal, s₁, hstep, hinv, hmore, -⟩ := step_oneByte hnodup hstored h hw (by omega)
    obtain ⟨hw₁, hcurr₁, hfreed₁⟩ := hmore (by omega)
    obtain ⟨calls, s', halong, hrun, hinv', hfreed, hclose⟩ := ih hinv hw₁ (by omega)
    refine ⟨oneByte :: calls, s', along_cons hlegal fun s₂ hs₂ => ?_, run_cons_ok hstep hrun, hinv',
      hfreed.trans (by rw [hfreed₁]), hclose⟩
    cases hstep.symm.trans hs₂
    exact halong

/-- The queue is written out as it should be exactly when the connection is not closed after a
response with others queued behind it. -/
theorem responses_in_order_iff (hring : IsRing sess.heap sess.wBuffer xs)
    (hcurr : sess.wCurr = 0) (hstored : ∀ a ∈ xs, Stored (data a)) :
    WritesOut data hs sess xs ↔ ClosesLate data hs xs := by
  have hstart := @start_inv α data hs sess xs hring hcurr hstored
  cases xs with
  | nil =>
    refine ⟨fun _ => trivial, fun _ calls legal => ?_⟩
    obtain ⟨s, hrun, hinv⟩ := hstart.run hring.nodup hstored legal
    obtain ⟨left, hprogress⟩ := hinv.progress
    refine ⟨s, hrun, ⟨left, hprogress⟩, hprogress.all_sent, fun hlast => ?_⟩
    have hnodes := List.append_eq_nil_iff.1 hprogress.nodes
    exact absurd hnodes.1 (hinv.close hlast).2.1
  | cons a rest =>
    constructor
    · intro hout
      by_contra hlate
      simp only [ClosesLate, not_or, not_not] at hlate
      obtain ⟨hidle, hfirst, hrest⟩ := hlate
      have hlen := contents_length (hstored a List.mem_cons_self)
      have hpos := List.length_pos_iff.2 hfirst
      obtain ⟨calls, s, halong, hrun, hinv, hfreed, hclose⟩ := node_finishes hring.nodup hstored
        (k := (contents (data a)).length - 1) hstart hring.head (by simp only [hcurr]; omega)
      obtain ⟨s', hrun', -, -, hsent⟩ := hout calls halong
      cases hrun.symm.trans hrun'
      have hall := hsent (hclose hidle)
      obtain ⟨left, hprogress⟩ := hinv.progress
      obtain ⟨-, -, hcurr'⟩ := hinv.close (hclose hidle)
      rw [hprogress.sent, hcurr', hfreed] at hall
      simp [queued] at hall
      exact hrest (by simpa [queued] using hall)
    · intro hlate calls legal
      obtain ⟨s, hrun, hinv⟩ := hstart.run hring.nodup hstored legal
      obtain ⟨left, hprogress⟩ := hinv.progress
      exact ⟨s, hrun, ⟨left, hprogress⟩, hprogress.all_sent, hinv.close_sent hlate⟩

end Write

/-! ## Two responses -/

/-- Two nodes of one byte each, in a ring. -/
def twoNodes : Heap Bool := fun b => some ⟨some !b, some !b⟩

def twoData (b : Bool) : HSDATA := ⟨1, 1, ⟨9, fun _ => if b then 66 else 65⟩⟩

def twoQueued : WriteSess Bool := { wBuffer := some false, heap := twoNodes }

theorem twoNodes_ring : IsRing twoQueued.heap twoQueued.wBuffer [false, true] :=
  ⟨rfl, by decide, rfl, rfl, rfl, rfl⟩

theorem twoData_stored (b : Bool) : Stored (twoData b) := by
  cases b <;> exact ⟨by decide, by decide, by decide⟩

theorem responses_in_order_iff_two :
    WritesOut twoData ⟨0, 5, 0⟩ twoQueued [false, true] ↔
      ClosesLate twoData ⟨0, 5, 0⟩ [false, true] :=
  responses_in_order_iff twoNodes_ring rfl fun b _ => twoData_stored b

/-- Without an idle timeout the connection is to be closed after the first of them. -/
theorem second_response_cut : ¬ WritesOut twoData ⟨0, 0, 0⟩ twoQueued [false, true] := by
  intro hout
  have hlegal : Along (step twoData) (fun _ => Legal twoData) { hs := ⟨0, 0, 0⟩, sess := twoQueued }
      [⟨.took 1, none, 0⟩] := by
    refine along_cons (fun w hw => ?_) fun s _ => along_nil s
    cases hw
    exact ⟨le_refl 1, by decide⟩
  obtain ⟨s, hrun, -, -, hclose⟩ := hout _ hlegal
  cases hrun
  exact absurd (hclose (by decide)) (by decide)

end CassandraApi.Http.Writing
