/-
# `Sdf.Trace` — the traced sessions of sdftrace.c

SDF_trace_message logs a message that contains a traced number and keeps the id of
its session.  A message without a number is logged when it contains one of the ids
kept.  They are in a list of 32 rows that is filled round and round:

    row  =  id, then zeros            (`Padded`)

An id is copied over a row without a terminator, and it counts as known when some
row starts with it.  So the rows are the last 32 ids seen as long as an id is a
prefix of a kept one if and only if it was seen before, and no id is shorter than
the one it replaces (`remembers`).
-/
import CassandraApi.C.CString
import CassandraApi.Lib.Circular
import CassandraApi.Lib.Machine

namespace CassandraApi.Sdf.Trace

open C Lib

/-! ## The data -/

/-- SDFTRACE_NUMBER_SIZE and SDFTRACE_SESSION_SIZE -/
abbrev rowSize : Nat := 256

theorem rowSize_pos : 0 < rowSize := by decide

def sdftraceMaxNumberList : Nat := 10

def sdftraceMaxSessionList : Nat := 32

/-- A row of zeros. -/
def emptyRow : Block := ⟨rowSize, fun _ => 0⟩

/-- MY_TRACE; `session_index` is the index of the session list. -/
structure MyTrace where
  numSize : Nat
  numberList : List Block
  sessionList : Circular Block

/-- `memset(&mtrace, 0, sizeof(MY_TRACE))` -/
def cleared : MyTrace where
  numSize := 0
  numberList := List.replicate sdftraceMaxNumberList emptyRow
  sessionList := .fresh sdftraceMaxSessionList emptyRow (by decide)

/-- SDF_trace_init -/
def sdfTraceInit : MyTrace := cleared

/-! ## SDF_trace_set_option -/

def sdftraceRetErrOption : Int := 0

def sdftraceRetSuccess : Int := 0

inductive TraceOption where
  | set
  | remove
  | reset
  | other

/-- `strncpy(row, number, SDFTRACE_NUMBER_SIZE)`: cut there, or filled up with zeros. -/
def strncpyRow (number : List UInt8) : Block := ⟨rowSize, fun k => number.getD k 0⟩

/-- The loop for a free row: the list with the number in it. -/
def setNumber (number : List UInt8) : List Block → Option (List Block)
  | [] => none
  | row :: rows =>
      if row.byte 0 = 0 then some (strncpyRow number :: rows)
      else (row :: ·) <$> setNumber number rows

/-- SDF_trace_set_option -/
def sdfTraceSetOption (m : MyTrace) (option : TraceOption) (number : List UInt8) :
    Reply Int × MyTrace :=
  match option with
  | .set =>
      match setNumber number m.numberList with
      | some rows =>
          ({ code := sdftraceRetSuccess }, { m with numSize := m.numSize + 1, numberList := rows })
      | none => ({ code := sdftraceRetErrOption, error := some "Number list exceeds" }, m)
  | .remove => ({ code := sdftraceRetErrOption, error := some "Not implement yet" }, m)
  | .reset => ({ code := sdftraceRetSuccess }, cleared)
  | .other => ({ code := sdftraceRetErrOption, error := some "Unknown option" }, m)

/-- A trace with these numbers set. -/
def traceOf (numbers : List (List UInt8)) : MyTrace :=
  numbers.foldl (fun m number => (sdfTraceSetOption m .set number).2) sdfTraceInit

/-! ## SDF_trace_message -/

/-- The loop over a list: the string of the first row in use that the message contains. -/
def firstIn (msg : List UInt8) : List Block → Except Fault (Option (List UInt8))
  | [] => .ok none
  | row :: rows =>
      if row.byte 0 = 0 then firstIn msg rows
      else do
        let s ← row.cstr 0
        if (strstr msg s).isSome then .ok (some s) else firstIn msg rows

def sessionMark : List UInt8 := ascii " session=\""

/-- From the mark to the next quote.  Without that quote `_ptr - ptr` is computed from NULL. -/
def findSessionId (msg : List UInt8) : Except Fault (Option (List UInt8)) :=
  match strstr msg sessionMark with
  | none => .ok none
  | some at_ =>
      let ptr := msg.drop (at_ + sessionMark.length)
      match strstr ptr (ascii "\"") with
      | none => .error .null
      | some n => .ok (some (ptr.take n))

/-- `strncmp(row + i, id, |id|) == 0`; no byte of an id is NUL. -/
def startsWith (row : Block) (i : Nat) : List UInt8 → Except Fault Bool
  | [] => .ok true
  | c :: id => do
      if (← row.rd i) = c then startsWith row (i + 1) id else .ok false

/-- The loop over the session list. -/
def isKnown (id : List UInt8) : List Block → Except Fault Bool
  | [] => .ok false
  | row :: rows => do
      if ← startsWith row 0 id then .ok true else isKnown id rows

/-- What a message matched: `logging`, `matched_number` and `matched_session`. -/
structure Match where
  logging : Bool
  number : List UInt8
  session : List UInt8

/-- A new id goes over the row at `session_index`. -/
def keepSession (m : MyTrace) (id : List UInt8) : Except Fault (List UInt8 × MyTrace) := do
  if ← isKnown id m.sessionList.cells then .ok ([], m)
  else
    let row ← m.sessionList.current.write 0 id
    let matchedSession ← row.cstr 0
    .ok (matchedSession, { m with sessionList := m.sessionList.push row })

def matchMessage (m : MyTrace) (msg : List UInt8) : Except Fault (Match × MyTrace) := do
  match ← firstIn msg m.numberList with
  | some number =>
      match ← findSessionId msg with
      | none => .ok (⟨true, number, []⟩, m)
      | some id =>
          let (session, m) ← keepSession m id
          .ok (⟨true, number, session⟩, m)
  | none =>
      match ← firstIn msg m.sessionList.cells with
      | some session => .ok (⟨true, [], session⟩, m)
      | none => .ok (⟨false, [], []⟩, m)

/-- A date and a time, as `%02d.%02d.%04d %02d:%02d:%02d.%06d` prints seven ints. -/
structure Stamp where
  text : List UInt8
  short : text.length ≤ 83

/-- The text made of a message; `input` says which of the two frames it gets. -/
def entryText (now : Stamp) (input : Bool) (found : Match) (size : Int) (msg : List UInt8) :
    List UInt8 :=
  let bar := List.replicate 56 (if input then 0x3c else 0x3e) ++ ascii "\n"
  bar ++ (if input then ascii " INPUT MESSAGE\n" else ascii " OUTPUT MESSAGE\n") ++
    ascii "        : Time " ++ now.text ++ ascii "\n        : Number " ++ found.number ++
    ascii "\n        : Session " ++ found.session ++
    ascii "\n        : Size " ++ ascii (toString size) ++ ascii "\n" ++ bar ++
    ascii "[" ++ msg ++ ascii "]\n\n"

/-- The buffer of `n` bytes and the sprintf into it.  `malloc` of a negative `n` gives NULL, as
no memory is that large. -/
def messageBuffer (now : Stamp) (direction : Int) (found : Match) (msg : List UInt8) :
    Except Fault (List UInt8) :=
  let n := int32 (int32 msg.length + 1024)
  if n < 0 then .error .null
  else
    let buff := entryText now (direction = 0) found (n - 1024) msg
    if buff.length + 1 ≤ n then .ok buff else .error .overrun

/-- SDF_trace_message: what is written to the trace file, if anything. -/
def sdfTraceMessage (m : MyTrace) (now : Stamp) (direction : Int) :
    Option (List UInt8) → Except Fault (Option (List UInt8) × MyTrace)
  | none => .ok (none, m)
  | some msg => do
      if m.numSize = 0 then .ok (none, m)
      else
        let (found, m) ← matchMessage m msg
        let buff ← messageBuffer now direction found msg
        .ok (if found.logging then some buff else none, m)

/-- A call with a message. -/
structure Call where
  now : Stamp
  direction : Int
  msg : List UInt8
  noNul : 0 ∉ msg

def traceStep (m : MyTrace) (c : Call) : Except Fault MyTrace :=
  Prod.snd <$> sdfTraceMessage m c.now c.direction (some c.msg)

/-! ## The ids to be remembered -/

/-- An empty number takes no row, and there are ten of them. -/
def tracedNumbers (numbers : List (List UInt8)) : List (List UInt8) :=
  (numbers.filter (· ≠ [])).take sdftraceMaxNumberList

/-- The message contains a traced number. -/
def Traced (numbers : List (List UInt8)) (msg : List UInt8) : Prop :=
  ∃ number ∈ tracedNumbers numbers, number <:+: msg

instance (numbers : List (List UInt8)) (msg : List UInt8) : Decidable (Traced numbers msg) :=
  inferInstanceAs (Decidable (∃ number ∈ tracedNumbers numbers, number <:+: msg))

/-- The value of the first session attribute. -/
def sessionId (msg : List UInt8) : Option (List UInt8) :=
  (strstr msg sessionMark).bind fun at_ =>
    let value := msg.drop (at_ + sessionMark.length)
    if 0x22 ∈ value then some (value.takeWhile (· ≠ 0x22)) else none

local instance lawfulId : LawfulBEq (List UInt8) := inferInstance

/-- The ids seen, with a message behind the others. -/
def see (numbers seen : List (List UInt8)) (msg : List UInt8) : List (List UInt8) :=
  match sessionId msg with
  | some id => if Traced numbers msg ∧ id ∉ seen then seen ++ [id] else seen
  | none => seen

/-- The distinct ids of the messages with a traced number, in the order in which each came
first. -/
def seenIds (numbers : List (List UInt8)) (calls : List Call) : List (List UInt8) :=
  (calls.map Call.msg).foldl (see numbers) []

/-- The last 32 ids. -/
def lastIds (seen : List (List UInt8)) : List (List UInt8) := seen.rtake sdftraceMaxSessionList

/-- A message with a traced number has a session attribute whose value is not empty and fits a
row. -/
def WellFormed (numbers : List (List UInt8)) (msg : List UInt8) : Prop :=
  Traced numbers msg → ∃ id, sessionId msg = some id ∧ id ≠ [] ∧ id.length < rowSize

/-- The length of the message and of its frame is an int. -/
def Fits (msg : List UInt8) : Prop := msg.length < 2 ^ 31 - 1024

instance (msg : List UInt8) : Decidable (Fits msg) :=
  inferInstanceAs (Decidable (msg.length < 2 ^ 31 - 1024))

/-- What the ids seen before must be like for an id to be treated rightly. -/
structure Treated (seen : List (List UInt8)) (id : List UInt8) : Prop where
  known : id ∈ seen ↔ ∃ r ∈ lastIds seen, id <+: r
  room : id ∉ seen → sdftraceMaxSessionList ≤ seen.length →
    ∀ oldest ∈ (lastIds seen).head?, oldest.length ≤ id.length

/-- The condition on a call. -/
def Kept (numbers : List (List UInt8)) (before : List Call) (c : Call) : Prop :=
  Fits c.msg ∧ ∀ id, Traced numbers c.msg → sessionId c.msg = some id →
    Treated (seenIds numbers before) id

/-- The entries of session_list are the ids to be remembered, and a message without a traced
number is logged if and only if it contains one of them. -/
structure Remembers (numbers : List (List UInt8)) (calls : List Call) (m : MyTrace) : Prop where
  entries : ∃ rows, m.sessionList.cells.mapM (·.cstr 0) = .ok rows ∧
    (rows.filter (· ≠ [])).Perm (lastIds (seenIds numbers calls))
  logged : ∀ c : Call, Fits c.msg → ¬ Traced numbers c.msg →
    ∃ text, sdfTraceMessage m c.now c.direction (some c.msg) = .ok (text, m) ∧
      (text.isSome ↔ ∃ id ∈ lastIds (seenIds numbers calls), id <:+: c.msg)

/-! ## Rows -/

/-- The string, then zeros. -/
structure Padded (row : Block) (s : List UInt8) : Prop where
  size : row.size = rowSize
  short : s.length < rowSize
  bytes : ∀ k < rowSize, row.byte k = s.getD k 0
  noNul : 0 ∉ s

theorem strncpyRow_padded {number : List UInt8} (hlen : number.length < rowSize)
    (h0 : 0 ∉ number) : Padded (strncpyRow number) number :=
  ⟨rfl, hlen, fun _ _ => rfl, h0⟩

theorem emptyRow_padded : Padded emptyRow [] :=
  ⟨rfl, rowSize_pos, fun _ _ => by simp [emptyRow], by simp⟩

namespace Padded

variable {row : Block} {s id : List UInt8}

theorem holds (h : Padded row s) : Holds row 0 (s ++ [0]) := by
  have hshort := h.short
  refine Holds.iff_get.2 ⟨?_, fun k hk => ?_⟩
  · rw [h.size, List.length_append, List.length_singleton]
    omega
  · rw [List.length_append, List.length_singleton] at hk
    rw [Nat.zero_add, h.bytes k (by omega), List.getElem_append, List.getD_eq_getElem?_getD]
    split_ifs with hin
    · rw [List.getElem?_eq_getElem hin]
      rfl
    · rw [List.getElem?_eq_none (by omega)]
      simp

theorem cstr (h : Padded row s) : row.cstr 0 = .ok s := Block.cstr_eq h.holds h.noNul

/-- A row is in use if and only if its first byte is not NUL. -/
theorem first (h : Padded row s) : row.byte 0 = 0 ↔ s = [] := by
  rw [h.bytes 0 (by decide)]
  cases s with
  | nil => simp
  | cons c s =>
    have hc : c ≠ 0 := fun hc => h.noNul (hc ▸ List.mem_cons_self)
    simp [hc]

/-- A string that is no shorter covers the one that was there. -/
theorem covered (h : Padded row s) (hlong : s.length ≤ id.length) (hfit : id.length < rowSize)
    (h0 : 0 ∉ id) : ∃ row', row.write 0 id = .ok row' ∧ Padded row' id := by
  have hin : 0 ≤ (0 : Int) ∧ 0 + (id.length : Int) ≤ row.size := by
    rw [h.size]
    omega
  refine ⟨_, if_pos hin, ⟨h.size, hfit, fun k hk => ?_, h0⟩⟩
  simp only [Int.toNat_zero, Nat.zero_le, Nat.zero_add, true_and, Nat.sub_zero]
  split_ifs with hk'
  · rfl
  · rw [h.bytes k hk, List.getD_eq_getElem?_getD, List.getD_eq_getElem?_getD,
      List.getElem?_eq_none (by omega), List.getElem?_eq_none (by omega)]

end Padded

theorem startsWith_eq {row : Block} {id : List UInt8} (h0 : 0 ∉ id) :
    ∀ {i : Nat} {t : List UInt8}, Holds row i (t ++ [0]) →
      startsWith row i id = .ok (decide (id <+: t)) := by
  induction id with
  | nil =>
    intro i t _
    simp [startsWith]
  | cons c id ih =>
    rw [List.mem_cons, not_or] at h0
    intro i t ht
    cases t with
    | nil =>
      rw [startsWith, Holds.rd ht, ok_bind, if_neg h0.1]
      simp
    | cons d t =>
      rw [startsWith, Holds.rd ht, ok_bind]
      split_ifs with hd
      · rw [ih h0.2 ht.tail]
        simp [List.cons_prefix_cons, hd]
      · have hne : c ≠ d := fun h => hd h.symm
        simp [List.cons_prefix_cons, hne]

/-! ## Lists of rows -/

section Lists

variable {rows : List Block} {ss : List (List UInt8)}

theorem padded_short (h : List.Forall₂ Padded rows ss) : ∀ s ∈ ss, s.length < rowSize := by
  induction h with
  | nil => simp
  | cons hp _ ih => exact List.forall_mem_cons.2 ⟨hp.short, ih⟩

theorem mapM_cstr (h : List.Forall₂ Padded rows ss) : rows.mapM (·.cstr 0) = .ok ss := by
  induction h with
  | nil => rfl
  | cons hp _ ih =>
    rw [List.mapM_cons, hp.cstr, ok_bind, ih]
    rfl

theorem firstIn_eq (h : List.Forall₂ Padded rows ss) (msg : List UInt8) :
    firstIn msg rows = .ok (ss.find? fun s => s ≠ [] ∧ s <:+: msg) := by
  induction h with
  | nil => rfl
  | @cons row s rows ss hp _ ih =>
    rw [firstIn, List.find?_cons]
    by_cases hs : s = []
    · rw [if_pos (hp.first.2 hs), ih]
      simp [hs]
    · rw [if_neg (fun h0 => hs (hp.first.1 h0)), hp.cstr, ok_bind]
      by_cases hin : s <:+: msg
      · have hfound : (strstr msg s).isSome := by
          rw [Option.isSome_iff_ne_none]
          exact fun hnone => (strstr_none_iff hs).1 hnone hin
        rw [if_pos hfound]
        simp [hs, hin]
      · rw [(strstr_none_iff hs).2 hin, Option.isSome_none, if_neg (by decide), ih]
        simp [hin]

theorem isKnown_eq (h : List.Forall₂ Padded rows ss) {id : List UInt8} (h0 : 0 ∉ id) :
    isKnown id rows = .ok (decide (∃ s ∈ ss, id <+: s)) := by
  induction h with
  | nil => simp [isKnown]
  | @cons row s rows ss hp _ ih =>
    rw [isKnown, startsWith_eq h0 hp.holds, ok_bind, ih]
    by_cases hs : id <+: s <;> simp [hs]

end Lists

/-! ## The number list -/

theorem setNumber_free {number : List UInt8} (hlen : number.length < rowSize) (h0 : 0 ∉ number)
    {k : Nat} : ∀ {used : List (List UInt8)} {rows : List Block}, [] ∉ used →
      List.Forall₂ Padded rows (used ++ List.replicate (k + 1) []) →
      ∃ rows', setNumber number rows = some rows' ∧
        List.Forall₂ Padded rows' (used ++ number :: List.replicate k [])
  | [], row :: rows, _, h => by
    rw [List.nil_append, List.replicate_succ, List.forall₂_cons] at h
    refine ⟨strncpyRow number :: rows, by rw [setNumber, if_pos (h.1.first.2 rfl)], ?_⟩
    exact .cons (strncpyRow_padded hlen h0) h.2
  | s :: used, row :: rows, hused, h => by
    rw [List.mem_cons, not_or] at hused
    rw [List.cons_append, List.forall₂_cons] at h
    obtain ⟨rows', hset, hrows⟩ := setNumber_free hlen h0 hused.2 h.2
    refine ⟨row :: rows', ?_, .cons h.1 hrows⟩
    rw [setNumber, if_neg fun h0 => hused.1 (h.1.first.1 h0).symm, hset]
    rfl

theorem setNumber_full {number : List UInt8} {used : List (List UInt8)} {rows : List Block}
    (hused : [] ∉ used) (h : List.Forall₂ Padded rows used) : setNumber number rows = none := by
  induction h with
  | nil => rfl
  | cons hp _ ih =>
    rw [List.mem_cons, not_or] at hused
    rw [setNumber, if_neg fun h0 => hused.1 (hp.first.1 h0).symm, ih hused.2]
    rfl

theorem nil_not_mem_tracedNumbers (numbers : List (List UInt8)) : [] ∉ tracedNumbers numbers := by
  intro h
  simpa using (List.mem_filter.1 (List.mem_of_mem_take h)).2

theorem tracedNumbers_snoc (numbers : List (List UInt8)) (number : List UInt8) :
    tracedNumbers (numbers ++ [number]) =
      if number ≠ [] ∧ (tracedNumbers numbers).length < sdftraceMaxNumberList then
        tracedNumbers numbers ++ [number]
      else tracedNumbers numbers := by
  unfold tracedNumbers
  rw [List.filter_append, List.take_append, List.length_take]
  by_cases hn : number = []
  · simp [hn]
  · have hfilter : [number].filter (· ≠ []) = [number] := by simp [hn]
    rw [hfilter]
    split_ifs with hroom
    · have hlt := hroom.2
      rw [List.take_of_length_le (l := [number]) (by rw [List.length_singleton]; omega)]
    · have hfull := not_lt.1 fun hlt => hroom ⟨hn, hlt⟩
      rw [Nat.sub_eq_zero_of_le (by omega), List.take_zero, List.append_nil]

/-- A trace with its numbers set, before any message. -/
structure NumbersSet (numbers : List (List UInt8)) (m : MyTrace) : Prop where
  counted : numbers ≠ [] → m.numSize ≠ 0
  rows : List.Forall₂ Padded m.numberList (tracedNumbers numbers ++
    List.replicate (sdftraceMaxNumberList - (tracedNumbers numbers).length) [])
  fresh : m.sessionList = cleared.sessionList

theorem forall₂_replicate {α β : Type} {R : α → β → Prop} {a : α} {b : β} (h : R a b) (n : Nat) :
    List.Forall₂ R (List.replicate n a) (List.replicate n b) := by
  induction n with
  | zero => exact .nil
  | succ n ih => exact .cons h ih

theorem traceOf_set {numbers : List (List UInt8)}
    (hn : ∀ number ∈ numbers, number.length < rowSize ∧ 0 ∉ number) :
    NumbersSet numbers (traceOf numbers) := by
  induction numbers using List.reverseRecOn with
  | nil => exact ⟨fun h => absurd rfl h, forall₂_replicate emptyRow_padded _, rfl⟩
  | append_singleton numbers number ih =>
    obtain ⟨counted, hrows, fresh⟩ :=
      ih fun x hx => hn x (List.mem_append_left _ hx)
    obtain ⟨hlen, h0⟩ := hn number (by simp)
    have hstep : traceOf (numbers ++ [number]) =
        (sdfTraceSetOption (traceOf numbers) .set number).2 := by
      rw [traceOf, List.foldl_append]
      rfl
    have hused := nil_not_mem_tracedNumbers numbers
    rw [hstep, sdfTraceSetOption]
    cases hk : sdftraceMaxNumberList - (tracedNumbers numbers).length with
    | zero =>
      -- the list is full
      rw [hk, List.replicate_zero, List.append_nil] at hrows
      rw [setNumber_full hused hrows]
      have hsame : tracedNumbers (numbers ++ [number]) = tracedNumbers numbers := by
        rw [tracedNumbers_snoc, if_neg (by omega)]
      refine ⟨fun _ => counted ?_, ?_, fresh⟩
      · rintro rfl
        exact absurd hk (by decide)
      · rw [hsame, hk, List.replicate_zero, List.append_nil]
        exact hrows
    | succ k =>
      rw [hk] at hrows
      obtain ⟨rows', hset, hrows'⟩ := setNumber_free hlen h0 hused hrows
      rw [hset]
      refine ⟨fun _ => Nat.succ_ne_zero _, ?_, fresh⟩
      rw [tracedNumbers_snoc]
      split_ifs with hroom
      · rw [List.length_append, List.length_singleton, ← Nat.sub_sub, hk, Nat.add_sub_cancel,
          List.append_assoc]
        exact hrows'
      · -- an empty number leaves its row free
        have hempty : number = [] := by
          by_contra hne
          exact hroom ⟨hne, by omega⟩
        rw [hempty] at hrows'
        rw [hk]
        exact hrows'

/-! ## The session list -/

/-- The rows by age: free ones, and the ids. -/
def slots (seen : List (List UInt8)) : List (List UInt8) :=
  (List.replicate sdftraceMaxSessionList [] ++ seen).drop seen.length

theorem slots_eq (seen : List (List UInt8)) :
    slots seen = List.replicate (sdftraceMaxSessionList - seen.length) [] ++ lastIds seen := by
  rw [slots, List.drop_append, List.drop_replicate, List.length_replicate]
  rfl

/-- A new id takes the place of the oldest one. -/
theorem slots_snoc (seen : List (List UInt8)) (id : List UInt8) :
    slots (seen ++ [id]) = (slots seen).tail ++ [id] := by
  have hin :
      seen.length < (List.replicate sdftraceMaxSessionList ([] : List UInt8) ++ seen).length := by
    rw [List.length_append, List.length_replicate]
    exact Nat.lt_add_of_pos_left (by decide)
  rw [slots, slots, ← List.append_assoc, List.length_append, List.length_singleton,
    List.drop_append_of_le_length hin, List.tail_drop]

/-- The state: the numbers set, and the ids seen in the session list. -/
structure Rows (numbers seen : List (List UInt8)) (m : MyTrace) : Prop where
  counted : m.numSize ≠ 0
  numberRows : List.Forall₂ Padded m.numberList (tracedNumbers numbers ++
    List.replicate (sdftraceMaxNumberList - (tracedNumbers numbers).length) [])
  sessionRows : List.Forall₂ Padded m.sessionList.view (slots seen)
  named : [] ∉ seen

theorem Rows.start {numbers : List (List UInt8)} (hne : numbers ≠ [])
    (hn : ∀ number ∈ numbers, number.length < rowSize ∧ 0 ∉ number) :
    Rows numbers [] (traceOf numbers) := by
  have hset := traceOf_set hn
  refine ⟨hset.counted hne, hset.rows, ?_, by simp⟩
  have hslots : slots [] = List.replicate sdftraceMaxSessionList [] := by simp [slots]
  rw [hset.fresh, hslots, cleared, Circular.fresh_view]
  exact forall₂_replicate emptyRow_padded _

/-- The rows in the order of the array. -/
theorem Rows.cells {numbers seen : List (List UInt8)} {m : MyTrace} (h : Rows numbers seen m) :
    ∃ ss, List.Forall₂ Padded m.sessionList.cells ss ∧ ss.Perm (slots seen) :=
  List.perm_comp_forall₂ m.sessionList.view_perm.symm h.sessionRows

theorem nil_not_mem_lastIds {seen : List (List UInt8)} (h : [] ∉ seen) : [] ∉ lastIds seen :=
  fun hin => h (List.mem_of_mem_drop hin)

/-- The rows in use hold the last ids. -/
theorem mem_slots {seen : List (List UInt8)} (h : [] ∉ seen) {s : List UInt8} :
    (s ∈ slots seen ∧ s ≠ []) ↔ s ∈ lastIds seen := by
  rw [slots_eq, List.mem_append, List.mem_replicate]
  have hne := nil_not_mem_lastIds h
  constructor
  · rintro ⟨hin | hin, hs⟩
    · exact absurd hin.2 hs
    · exact hin
  · exact fun hin => ⟨.inr hin, fun hs => hne (hs ▸ hin)⟩

/-! ## A message -/

/-- The strings found fit a row. -/
structure Match.Short (found : Match) : Prop where
  number : found.number.length < rowSize
  session : found.session.length < rowSize

theorem messageBuffer_ok {msg : List UInt8} (hfits : Fits msg) (now : Stamp) (direction : Int)
    {found : Match} (hshort : found.Short) :
    ∃ buff, messageBuffer now direction found msg = .ok buff := by
  have hlen : msg.length < 2 ^ 31 - 1024 := hfits
  have hint : int32 msg.length = msg.length := int32_natCast (by omega)
  have hn : int32 (msg.length + 1024) = msg.length + 1024 := int32_of_range (by omega) (by omega)
  have hsize : (msg.length + 1024 - 1024 : Int) = (msg.length : Nat) := by omega
  have hdigits : (Nat.toDigits 10 msg.length).length ≤ 10 :=
    (Nat.length_toDigits_le_iff (by decide) (by decide)).2 (by omega)
  have hbuff : (entryText now (direction = 0) found msg.length msg).length ≤ msg.length + 900 := by
    have hrow : rowSize = 256 := rfl
    have hnumber := hshort.number
    have hsession := hshort.session
    have hnow := now.short
    simp only [entryText, ascii_repr, List.length_append, List.length_map, List.length_replicate]
    split_ifs <;> simp [ascii] <;> omega
  refine ⟨entryText now (direction = 0) found msg.length msg, ?_⟩
  rw [messageBuffer]
  simp only [hint, hn, hsize]
  rw [if_neg (by omega), if_pos (by omega)]

/-- What a loop over the rows finds. -/
theorem firstIn_cases {rows : List Block} {ss : List (List UInt8)}
    (h : List.Forall₂ Padded rows ss) (msg : List UInt8) :
    (∃ s, firstIn msg rows = .ok (some s) ∧ s ∈ ss ∧ s ≠ [] ∧ s <:+: msg ∧ s.length < rowSize) ∨
      (firstIn msg rows = .ok none ∧ ∀ s ∈ ss, s ≠ [] → ¬ s <:+: msg) := by
  rw [firstIn_eq h]
  cases hfound : ss.find? fun s => s ≠ [] ∧ s <:+: msg with
  | none =>
    refine .inr ⟨rfl, fun s hs hne hin => ?_⟩
    have := List.find?_eq_none.1 hfound s hs
    simp [hne, hin] at this
  | some s =>
    have hs := List.find?_some hfound
    rw [decide_eq_true_iff] at hs
    have hmem := List.mem_of_find?_eq_some hfound
    exact .inl ⟨s, rfl, hmem, hs.1, hs.2, padded_short h s hmem⟩

theorem strstr_singleton {s : List UInt8} {c : UInt8} (hc : c ∈ s) :
    strstr s [c] = some (s.takeWhile (· ≠ c)).length := by
  induction s with
  | nil => cases hc
  | cons d s ih =>
    rw [strstr, List.takeWhile_cons]
    by_cases hd : d = c
    · simp [hd]
    · have hs : c ∈ s := (List.mem_cons.1 hc).resolve_left fun h => hd h.symm
      have hnot : ¬ [c] <+: d :: s := by
        rw [List.cons_prefix_cons]
        exact fun h => hd h.1.symm
      rw [if_neg hnot, ih hs]
      simp [hd]

theorem findSessionId_eq {msg id : List UInt8} (h : sessionId msg = some id) :
    findSessionId msg = .ok (some id) := by
  obtain ⟨at_, hmark, hvalue⟩ := Option.bind_eq_some_iff.1 h
  dsimp only at hvalue
  split_ifs at hvalue with hquote
  cases hvalue
  have hascii : ascii "\"" = [0x22] := rfl
  rw [findSessionId, hmark]
  dsimp only
  rw [hascii, strstr_singleton hquote]
  dsimp only
  rw [← List.prefix_iff_eq_take.1 (List.takeWhile_prefix _)]

theorem sessionId_noNul {msg id : List UInt8} (h0 : 0 ∉ msg) (h : sessionId msg = some id) :
    0 ∉ id := by
  obtain ⟨at_, -, hvalue⟩ := Option.bind_eq_some_iff.1 h
  dsimp only at hvalue
  split_ifs at hvalue
  cases hvalue
  exact fun hin => h0 (List.mem_of_mem_drop ((List.takeWhile_sublist _).subset hin))

variable {numbers seen : List (List UInt8)} {m : MyTrace} {msg id : List UInt8}

/-- Known are the ids that a remembered one starts with. -/
theorem isKnown_cells (h : Rows numbers seen m) (hid : id ≠ []) (h0 : 0 ∉ id) :
    isKnown id m.sessionList.cells = .ok (decide (∃ r ∈ lastIds seen, id <+: r)) := by
  obtain ⟨ss, hcells, hperm⟩ := h.cells
  have hsame : (∃ s ∈ ss, id <+: s) ↔ ∃ r ∈ lastIds seen, id <+: r := by
    constructor
    · rintro ⟨s, hs, hpre⟩
      refine ⟨s, (mem_slots h.named).1 ⟨hperm.mem_iff.1 hs, ?_⟩, hpre⟩
      rintro rfl
      exact hid (List.prefix_nil.1 hpre)
    · rintro ⟨r, hr, hpre⟩
      exact ⟨r, hperm.mem_iff.2 ((mem_slots h.named).2 hr).1, hpre⟩
  rw [isKnown_eq hcells h0, decide_eq_decide.2 hsame]

theorem keepSession_known (h : Rows numbers seen m) (hid : id ≠ []) (h0 : 0 ∉ id)
    (known : ∃ r ∈ lastIds seen, id <+: r) : keepSession m id = .ok ([], m) := by
  rw [keepSession, isKnown_cells h hid h0, ok_bind, decide_eq_true known, if_pos rfl]

/-- An id that is new goes over the oldest row, one that is not leaves the list as it is. -/
theorem keepSession_eq (h : Rows numbers seen m) (ht : Treated seen id) (hid : id ≠ [])
    (hlen : id.length < rowSize) (h0 : 0 ∉ id) :
    ∃ session m', keepSession m id = .ok (session, m') ∧ session.length < rowSize ∧
      Rows numbers (if id ∈ seen then seen else seen ++ [id]) m' := by
  by_cases hnew : id ∈ seen
  · rw [if_pos hnew]
    exact ⟨[], m, keepSession_known h hid h0 (ht.known.1 hnew), rowSize_pos, h⟩
  · have hunknown : ¬ ∃ r ∈ lastIds seen, id <+: r := fun known => hnew (ht.known.2 known)
    rw [keepSession, isKnown_cells h hid h0, ok_bind, decide_eq_false hunknown,
      if_neg Bool.false_ne_true, if_neg hnew]
    -- the oldest row is free, or holds an id that is no longer
    have hsplit := h.sessionRows
    rw [Circular.view_eq_cons] at hsplit
    obtain ⟨oldest, rest, hcur, hrest, hslots⟩ := List.forall₂_cons_left_iff.1 hsplit
    have hlong : oldest.length ≤ id.length := by
      have hhead : oldest ∈ (slots seen).head? := by
        rw [hslots]
        rfl
      by_cases hfull : sdftraceMaxSessionList ≤ seen.length
      · refine ht.room hnew hfull oldest ?_
        rwa [slots_eq, Nat.sub_eq_zero_of_le hfull, List.replicate_zero, List.nil_append] at hhead
      · obtain ⟨k, hk⟩ : ∃ k, sdftraceMaxSessionList - seen.length = k + 1 :=
          ⟨sdftraceMaxSessionList - seen.length - 1, by omega⟩
        rw [slots_eq, hk, List.replicate_succ] at hhead
        cases hhead
        exact Nat.zero_le _
    obtain ⟨row, hrow, hpadded⟩ := hcur.covered hlong hlen h0
    rw [hrow, ok_bind, hpadded.cstr, ok_bind]
    refine ⟨id, _, rfl, hlen, h.counted, h.numberRows, ?_, ?_⟩
    · rw [Circular.view_push, slots_snoc, hslots]
      exact List.rel_append hrest (.cons hpadded .nil)
    · simpa [Ne.symm hid] using h.named

/-- A message with a traced number. -/
theorem matchMessage_traced (h : Rows numbers seen m) (traced : Traced numbers msg)
    (hid : sessionId msg = some id) {session : List UInt8} {m' : MyTrace}
    (hkeep : keepSession m id = .ok (session, m')) (hsession : session.length < rowSize) :
    ∃ found, matchMessage m msg = .ok (found, m') ∧ found.Short := by
  obtain ⟨number, hfirst, -, -, -, hnumber⟩ | ⟨-, hnone⟩ := firstIn_cases h.numberRows msg
  · refine ⟨⟨true, number, session⟩, ?_, ⟨hnumber, hsession⟩⟩
    rw [matchMessage, hfirst, ok_bind]
    dsimp only
    rw [findSessionId_eq hid, ok_bind]
    dsimp only
    rw [hkeep, ok_bind]
  · obtain ⟨number, hnumber, hin⟩ := traced
    refine absurd hin (hnone number (List.mem_append_left _ hnumber) ?_)
    exact fun hnil => nil_not_mem_tracedNumbers numbers (hnil ▸ hnumber)

/-- A message without one. -/
theorem matchMessage_untraced (h : Rows numbers seen m) (traced : ¬ Traced numbers msg) :
    ∃ found, matchMessage m msg = .ok (found, m) ∧ found.Short ∧
      (found.logging ↔ ∃ id ∈ lastIds seen, id <:+: msg) := by
  obtain ⟨ss, hcells, hperm⟩ := h.cells
  have hnumbers : firstIn msg m.numberList = .ok none := by
    obtain ⟨number, -, hmem, hne, hin, -⟩ | ⟨hnone, -⟩ := firstIn_cases h.numberRows msg
    · refine absurd ⟨number, (List.mem_append.1 hmem).resolve_right fun hfree => ?_, hin⟩ traced
      exact hne (List.eq_of_mem_replicate hfree)
    · exact hnone
  rw [matchMessage, hnumbers, ok_bind]
  dsimp only
  obtain ⟨session, hfirst, hmem, hne, hin, hlen⟩ | ⟨hfirst, hnone⟩ := firstIn_cases hcells msg
  · rw [hfirst, ok_bind]
    have hlast := (mem_slots h.named).1 ⟨hperm.mem_iff.1 hmem, hne⟩
    exact ⟨_, rfl, ⟨rowSize_pos, hlen⟩, iff_of_true rfl ⟨session, hlast, hin⟩⟩
  · rw [hfirst, ok_bind]
    refine ⟨_, rfl, ⟨rowSize_pos, rowSize_pos⟩, iff_of_false Bool.false_ne_true ?_⟩
    rintro ⟨id, hid, hin⟩
    obtain ⟨hslot, hne⟩ := (mem_slots h.named).2 hid
    exact hnone id (hperm.mem_iff.2 hslot) hne hin

theorem see_traced (traced : Traced numbers msg) (hid : sessionId msg = some id) :
    see numbers seen msg = if id ∈ seen then seen else seen ++ [id] := by
  by_cases hin : id ∈ seen <;> simp [see, hid, traced, hin]

theorem see_untraced (traced : ¬ Traced numbers msg) : see numbers seen msg = seen := by
  unfold see
  split
  · exact if_neg fun h => traced h.1
  · rfl

/-! ## A run -/

theorem seenIds_snoc (numbers : List (List UInt8)) (calls : List Call) (c : Call) :
    seenIds numbers (calls ++ [c]) = see numbers (seenIds numbers calls) c.msg := by
  rw [seenIds, List.map_append, List.foldl_append]
  rfl

theorem traceStep_eq {c : Call} {found : Match} {m' : MyTrace} (h : Rows numbers seen m)
    (fits : Fits c.msg) (hmatch : matchMessage m c.msg = .ok (found, m')) (hshort : found.Short) :
    traceStep m c = .ok m' := by
  obtain ⟨buff, hbuff⟩ := messageBuffer_ok fits c.now c.direction hshort
  rw [traceStep, sdfTraceMessage, if_neg h.counted, hmatch, ok_bind]
  dsimp only
  rw [hbuff]
  rfl

theorem traceStep_keeps {calls : List Call} {c : Call} (h : Rows numbers (seenIds numbers calls) m)
    (wf : WellFormed numbers c.msg) (kept : Kept numbers calls c) :
    ∃ m', traceStep m c = .ok m' ∧ Rows numbers (seenIds numbers (calls ++ [c])) m' := by
  obtain ⟨fits, treated⟩ := kept
  rw [seenIds_snoc]
  by_cases traced : Traced numbers c.msg
  · obtain ⟨id, hid, hne, hlen⟩ := wf traced
    obtain ⟨session, m', hkeep, hsession, hrows⟩ :=
      keepSession_eq h (treated id traced hid) hne hlen (sessionId_noNul c.noNul hid)
    obtain ⟨found, hmatch, hshort⟩ := matchMessage_traced h traced hid hkeep hsession
    exact ⟨m', traceStep_eq h fits hmatch hshort, by rwa [see_traced traced hid]⟩
  · obtain ⟨found, hmatch, hshort, -⟩ := matchMessage_untraced h traced
    exact ⟨m, traceStep_eq h fits hmatch hshort, by rwa [see_untraced traced]⟩

/-- What the state says about the entries and about the next message. -/
theorem Rows.idsKept {calls : List Call} (h : Rows numbers (seenIds numbers calls) m) :
    Remembers numbers calls m where
  entries := by
    obtain ⟨ss, hcells, hperm⟩ := h.cells
    refine ⟨ss, mapM_cstr hcells, (hperm.filter _).trans (.of_eq ?_)⟩
    have hfree : (List.replicate (sdftraceMaxSessionList - (seenIds numbers calls).length)
        ([] : List UInt8)).filter (· ≠ []) = [] := by
      simp
    have hids : (lastIds (seenIds numbers calls)).filter (· ≠ []) =
        lastIds (seenIds numbers calls) := by
      refine List.filter_eq_self.2 fun s hs => decide_eq_true ?_
      exact fun hnil => nil_not_mem_lastIds h.named (hnil ▸ hs)
    rw [slots_eq, List.filter_append, hfree, hids, List.nil_append]
  logged := by
    intro c fits traced
    obtain ⟨found, hmatch, hshort, hlogging⟩ := matchMessage_untraced h traced
    obtain ⟨buff, hbuff⟩ := messageBuffer_ok fits c.now c.direction hshort
    refine ⟨if found.logging then some buff else none, ?_, ?_⟩
    · rw [sdfTraceMessage, if_neg h.counted, hmatch, ok_bind]
      dsimp only
      rw [hbuff]
      rfl
    · rw [← hlogging]
      cases found.logging <;> simp

/-- With numbers that fit their rows, the right ids are remembered after each message of a run
whose calls all meet the condition. -/
theorem remembers {numbers : List (List UInt8)} {calls : List Call} (hne : numbers ≠ [])
    (hn : ∀ number ∈ numbers, number.length < rowSize ∧ 0 ∉ number)
    (wf : ∀ c ∈ calls, WellFormed numbers c.msg)
    (kept : Along traceStep (fun before _ c => Kept numbers before c) (traceOf numbers) calls)
    {before after : List Call} (hcalls : calls = before ++ after) :
    ∃ m, run traceStep (traceOf numbers) before = .ok m ∧ Remembers numbers before m := by
  subst hcalls
  have hwf : Along traceStep (fun _ _ c => WellFormed numbers c.msg) (traceOf numbers) before := by
    rintro front c back m rfl -
    exact wf c (by simp)
  obtain ⟨m, hrun, hrows⟩ :=
    run_total_along (I := fun calls m => Rows numbers (seenIds numbers calls) m) (Rows.start hne hn)
      (fun calls m c h hok => traceStep_keeps h hok.1 hok.2) (hwf.and kept.left)
  exact ⟨m, hrun, hrows.idsKept⟩

/-! ## Runs of two calls -/

def midnight : Stamp := ⟨ascii "01.01.2016 00:00:00.000000", by decide⟩

/-- A message with the number `1` and this id. -/
def numbered (id : String) (h0 : 0 ∉ ascii ("1 session=\"" ++ id ++ "\"")) : Call :=
  ⟨midnight, 0, ascii ("1 session=\"" ++ id ++ "\""), h0⟩

def withAb : Call := numbered "ab" (by decide)

def withCd : Call := numbered "cd" (by decide)

def withA : Call := numbered "a" (by decide)

theorem withAb_id : sessionId withAb.msg = some (ascii "ab") := by decide

theorem withCd_id : sessionId withCd.msg = some (ascii "cd") := by decide

theorem withA_id : sessionId withA.msg = some (ascii "a") := by decide

theorem seenIds_withAb : seenIds [ascii "1"] [withAb] = [ascii "ab"] := by decide

theorem withAb_kept : Kept [ascii "1"] [] withAb := by
  refine ⟨by decide, fun id _ hid => ?_⟩
  obtain rfl := Option.some.inj (withAb_id.symm.trans hid)
  exact ⟨by decide, fun _ hfull => absurd hfull (by decide)⟩

theorem remembers_two : ∃ m, run traceStep (traceOf [ascii "1"]) [withAb, withCd] = .ok m ∧
    Remembers [ascii "1"] [withAb, withCd] m := by
  refine remembers (by decide) (by decide) ?_ ?_ (List.append_nil _).symm
  · simp only [List.forall_mem_cons]
    exact ⟨fun _ => ⟨_, withAb_id, by decide, by decide⟩,
      fun _ => ⟨_, withCd_id, by decide, by decide⟩, by simp⟩
  · rintro before c after m hsplit -
    obtain _ | ⟨b, _ | ⟨b', before⟩⟩ := before
    · cases hsplit
      exact withAb_kept
    · cases hsplit
      refine ⟨by decide, fun id _ hid => ?_⟩
      obtain rfl := Option.some.inj (withCd_id.symm.trans hid)
      rw [seenIds_withAb]
      exact ⟨by decide, fun _ hfull => absurd hfull (by decide)⟩
    · simp at hsplit

/-- The id `a` starts the id `ab`, and is not remembered. -/
theorem prefix_not_remembered : (∀ c ∈ [withAb, withA], WellFormed [ascii "1"] c.msg) ∧
    ∃ m, run traceStep (traceOf [ascii "1"]) [withAb, withA] = .ok m ∧
      ¬ Remembers [ascii "1"] [withAb, withA] m := by
  have wf : WellFormed [ascii "1"] withAb.msg := fun _ => ⟨_, withAb_id, by decide, by decide⟩
  have wf' : WellFormed [ascii "1"] withA.msg := fun _ => ⟨_, withA_id, by decide, by decide⟩
  refine ⟨by simp only [List.forall_mem_cons]; exact ⟨wf, wf', by simp⟩, ?_⟩
  have hstart : Rows [ascii "1"] (seenIds [ascii "1"] []) (traceOf [ascii "1"]) :=
    Rows.start (by decide) (by decide)
  obtain ⟨m, hstep, hrows⟩ := traceStep_keeps hstart wf withAb_kept
  have hknown : keepSession m (ascii "a") = .ok ([], m) := by
    refine keepSession_known hrows (by decide) (by decide) ?_
    rw [List.nil_append, seenIds_withAb]
    decide
  obtain ⟨found, hmatch, hshort⟩ :=
    matchMessage_traced hrows (by decide) withA_id hknown rowSize_pos
  refine ⟨m, run_cons_ok hstep (run_single (traceStep_eq hrows (by decide) hmatch hshort)), ?_⟩
  intro h
  obtain ⟨rows, hrow, hperm⟩ := h.entries
  obtain ⟨rows', hrow', hperm'⟩ := hrows.idsKept.entries
  obtain rfl := Except.ok.inj (hrow.symm.trans hrow')
  exact absurd (hperm.symm.trans hperm').length_eq (by decide)

end CassandraApi.Sdf.Trace
