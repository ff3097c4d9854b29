/-
# `Rhosts` — rauthen_init, which reads the hosts that may connect

A file as in hosts.equiv: a host a line, in lower case up to the first white
space, without blank lines and comments.  fgets reads a line into a buffer of
256, so that one of 255 characters or more comes in pieces:

    the rest of a line is read over when a piece of it is no line,
    but a piece that is blank or a comment is skipped before that is seen

Then the rest is read as a line of its own.  A blank before a host is skipped in
the test for blank lines and not in what is kept (`hosts_read_iff`).
-/
import CassandraApi.Rauthen

namespace CassandraApi.Rauthen

open C Lib

/-! ## The list -/

/-- RAUTHEN_MAX_LINE_LENGTH -/
def rauthenMaxLineLength : Nat := 64

/-- INIT_RHOST_BUFFER -/
def initRhostBuffer : Nat := 256

/-- The memory of the entries: `data` is the string in `he->data`, and from `brk` on there is
nothing yet. -/
structure Hosts where
  hl : Option Nat
  heap : Heap Nat
  data : Nat → List UInt8
  brk : Nat

/-- A new entry at the end: malloc, strcpy and LINKEDLIST_APPEND, which sets the links before it
reads them. -/
def Hosts.append (l : Hosts) (pbuf : List UInt8) : Except Fault Hosts :=
  if rauthenMaxLineLength ≤ pbuf.length then .error .overrun
  else do
    let (hl, heap) ← linkedlistAppend l.hl l.brk (Function.update l.heap l.brk (some ⟨none, none⟩))
    pure ⟨hl, heap, Function.update l.data l.brk pbuf, l.brk + 1⟩

/-- `while ((he = *hl) != NULL)`, with room for `turns` entries. -/
def Hosts.clear : Nat → Hosts → Except Fault Hosts
  | 0, _ => .error .stuck
  | turns + 1, l =>
      match l.hl with
      | none => .ok l
      | some he => do
          let (hl, heap) ← linkedlistRemove l.hl he l.heap
          Hosts.clear turns { l with hl, heap := Function.update heap he none }

/-! ## The lines -/

/-- _IS_EMPTY -/
def isEmpty (p : List UInt8) : Bool :=
  match p.dropWhile isSpace with
  | [] => true
  | c :: _ => c = 0x23

/-- `fgets(pbuf, size, hostf)`: what is read, and what is left of the file. -/
def fgets (size : Nat) (file : List UInt8) : Option (List UInt8 × List UInt8) :=
  if file = [] then none
  else
    let n := min (size - 1) ((file.takeWhile (· ≠ 0x0a)).length + 1)
    some (file.take n, file.drop n)

/-- `while (ch != '\n' && ch != EOF)` -/
def skipLine (file : List UInt8) : List UInt8 := (file.dropWhile (· ≠ 0x0a)).drop 1

/-- The string that is left in `pbuf`: there is a NUL behind the host, whether a user follows it
or not. -/
def hostOf (p : List UInt8) : List UInt8 := (p.takeWhile fun c => !isSpace c).map toLower

/-- `while (fgets (pbuf, sizeof(pbuf), hostf) != NULL)` -/
def readHosts : Nat → List UInt8 → Hosts → Except Fault Hosts
  | 0, _, _ => .error .stuck
  | turns + 1, file, l =>
      match fgets initRhostBuffer file with
      | none => .ok l
      | some (pbuf, file) =>
          let p := beforeNul pbuf
          if isEmpty p then readHosts turns file l
          else if 0x0a ∉ p then readHosts turns (skipLine file) l
          else do
            let l ← l.append (hostOf p)
            readHosts turns file l

/-! ## The file -/

structure Passwd where
  name : List UInt8
  dir : List UInt8
  uid : Nat

structure Stat where
  regular : Bool
  uid : Nat
  gid : Nat
  mode : Nat

/-- A group: gr_name, and gr_mem, each of which may be NULL. -/
structure Group where
  name : Option (List UInt8)
  mem : Option (List (List UInt8))

/-- A file that opens: its text, and what lstat and fstat say of it. -/
structure RhostsFile where
  text : List UInt8
  lstat : Option Stat
  fstat : Option Stat

/-- What the process finds: hosts.equiv, if it opens, its own entry in passwd, other files by
their paths, and the groups. -/
structure HostEnv where
  equiv : Option (List UInt8)
  pwd : Option Passwd
  file : List UInt8 → Option RhostsFile
  group : Nat → Option Group

/-- S_IWOTH -/
def sIwoth : Nat := 0o002

/-- S_IWGRP -/
def sIwgrp : Nat := 0o020

/-- Whether a file that its group may write to is the user's own. -/
def checkGroup (env : HostEnv) (pwd : Passwd) (sbuf : Stat) : Except String Unit :=
  match env.group sbuf.gid with
  | none => .error ".rhosts writable by public group"
  | some grp =>
      if grp.name ≠ some pwd.name then .error ".rhosts writable by public group"
      else if (grp.mem.getD []).any (· ≠ pwd.name) then
        .error ".rhosts writable by other members of group"
      else .ok ()

/-- The checks of an open .rhosts. -/
def checkRhosts (env : HostEnv) (pwd : Passwd) (file : RhostsFile) : Except String Unit :=
  if ¬ file.lstat.any Stat.regular then .error ".rhosts not regular file"
  else
    match file.fstat with
    | none => .error ".rhosts fstat failed"
    | some sbuf =>
        if sbuf.uid ≠ 0 ∧ sbuf.uid ≠ pwd.uid then .error "bad .rhosts owner"
        else if sbuf.mode &&& sIwoth ≠ 0 then .error ".rhosts writable by other!"
        else if sbuf.mode &&& sIwgrp ≠ 0 then checkGroup env pwd sbuf
        else .ok ()

/-- hosts.equiv, or else .rhosts of the user: its text, if there is one. -/
def openHosts (env : HostEnv) : Except String (Option (List UInt8)) :=
  match env.equiv, env.pwd with
  | some file, _ => .ok (some file)
  | none, none => .ok none
  | none, some pwd =>
      if pwd.dir.length + ((ascii "/.rhosts").length + 1) + 2 ≥ initRhostBuffer then
        .error s!"home directory for `{text pwd.name}' is too long"
      else
        match env.file (pwd.dir ++ ascii "/.rhosts") with
        | none => .ok none
        | some file => do
            checkRhosts env pwd file
            pure (some file.text)

/-- rauthen_init: always 1, with what it writes to `error`, and the list.  The effective user is
not modelled. -/
def rauthenInit (env : HostEnv) (turns : Nat) (l : Hosts) : Except Fault (Reply Int × Hosts) := do
  let l ← l.clear turns
  match openHosts env with
  | .error e => pure (⟨1, some e⟩, l)
  | .ok none => pure (⟨1, none⟩, l)
  | .ok (some file) => do
      let l ← readHosts (file.length + 1) file l
      pure (⟨1, none⟩, l)

/-! ## The text -/

/-- The lines of a text that end in a newline. -/
def lines (text : List UInt8) : List (List UInt8) := (text.splitOn 0x0a).dropLast

/-- The line is kept: it fits, is not blank and no comment. -/
def Kept (line : List UInt8) : Prop := line.length ≤ 254 ∧ isEmpty line = false

instance (line : List UInt8) : Decidable (Kept line) := inferInstanceAs (Decidable (_ ∧ _))

/-- The first token of a line, in lower case. -/
def token (line : List UInt8) : List UInt8 :=
  ((line.dropWhile isSpace).takeWhile fun c => !isSpace c).map toLower

/-- The hosts that are written in a text. -/
def written (text : List UInt8) : List (List UInt8) := ((lines text).filter Kept).map token

/-- The list is that of the hosts written in the text: entries that are not empty and end in
`data`. -/
def ReadAsWritten (text : List UInt8) (l : Hosts) : Prop :=
  ∃ xs, IsRing l.heap l.hl xs ∧ xs.map l.data = written text ∧
    ∀ x ∈ xs, l.data x ≠ [] ∧ (l.data x).length < rauthenMaxLineLength

/-- The `k`th piece that fgets makes of a long line. -/
def piece (line : List UInt8) (k : Nat) : List UInt8 := (line.drop (255 * k)).take 255

/-- A line that fits starts with a host that fits, or is skipped.  Of a longer one the last piece
is skipped, if the pieces before it are. -/
def ReadRight (line : List UInt8) : Prop :=
  if line.length ≤ 254 then
    isEmpty line = false → (∀ c ∈ line.head?, isSpace c = false) ∧ (token line).length ≤ 63
  else
    (∀ k < line.length / 255, isEmpty (piece line k) = true) →
      isEmpty (piece line (line.length / 255)) = true

instance (line : List UInt8) : Decidable (ReadRight line) :=
  if h : line.length ≤ 254 then decidable_of_iff _ (by rw [ReadRight, if_pos h])
  else decidable_of_iff _ (by rw [ReadRight, if_neg h])

theorem lines_cons {line : List UInt8} (h : 0x0a ∉ line) (rest : List UInt8) :
    lines (line ++ 0x0a :: rest) = line :: lines rest := by
  have hne : rest.splitOn 0x0a ≠ [] := List.splitOn_ne_nil _ _
  have hline : ∀ c ∈ line, (c == 0x0a) = false := fun c hc => beq_false_of_ne fun he => h (he ▸ hc)
  rw [lines, List.splitOn_eq_splitOnP,
    List.splitOnP_append_cons_of_forall_mem hline 0x0a (beq_self_eq_true _),
    ← List.splitOn_eq_splitOnP, List.dropLast_cons_of_ne_nil hne, lines]

theorem lines_last {line : List UInt8} (h : 0x0a ∉ line) : lines line = [] := by
  have hline : ∀ c ∈ line, (c == 0x0a) = false := fun c hc => beq_false_of_ne fun he => h (he ▸ hc)
  rw [lines, List.splitOn_eq_splitOnP, List.splitOnP_eq_singleton hline]
  rfl

/-- A text is read line by line. -/
theorem line_induction {P : List UInt8 → Prop} (last : ∀ line, 0x0a ∉ line → P line)
    (cons : ∀ line rest, 0x0a ∉ line → P rest → P (line ++ 0x0a :: rest)) : ∀ text, P text := by
  intro text
  induction hn : text.length using Nat.strong_induction_on generalizing text with
  | _ n ih =>
    subst hn
    by_cases h : 0x0a ∈ text
    · obtain ⟨line, rest, rfl, hline⟩ := List.eq_append_cons_of_mem h
      refine cons line rest hline (ih rest.length ?_ rest rfl)
      rw [List.length_append, List.length_cons]
      omega
    · exact last text h

/-! ## The pieces of a line -/

/-- What is kept of a line: a host, if there is one in the piece that ends it and the pieces before
are skipped. -/
def lineHosts (line : List UInt8) : List (List UInt8) :=
  if (∀ k < line.length / 255, isEmpty (piece line k) = true) ∧
      isEmpty (piece line (line.length / 255)) = false then
    [hostOf (piece line (line.length / 255))]
  else []

theorem lineHosts_short {line : List UInt8} (h : line.length ≤ 254) :
    lineHosts line = if isEmpty line then [] else [hostOf line] := by
  have hzero : line.length / 255 = 0 := Nat.div_eq_of_lt (by omega)
  have hpiece : piece line 0 = line := List.take_of_length_le (by rw [List.drop_zero]; omega)
  have hnone : ∀ k < 0, isEmpty (piece line k) = true := fun k hk => absurd hk (Nat.not_lt_zero k)
  rw [lineHosts, hzero, hpiece]
  cases isEmpty line with
  | true => exact if_neg fun h => Bool.noConfusion h.2
  | false => exact if_pos ⟨hnone, rfl⟩

theorem piece_succ (line : List UInt8) (k : Nat) :
    piece line (k + 1) = piece (line.drop 255) k := by
  rw [piece, piece, List.drop_drop, Nat.mul_succ, Nat.add_comm]

theorem lineHosts_long {line : List UInt8} (h : 255 ≤ line.length) :
    lineHosts line = if isEmpty (line.take 255) then lineHosts (line.drop 255) else [] := by
  have hpieces : line.length / 255 = (line.drop 255).length / 255 + 1 := by
    rw [List.length_drop]
    omega
  have hfirst : piece line 0 = line.take 255 := rfl
  rw [lineHosts, hpieces, piece_succ, lineHosts]
  have hall : (∀ k < (line.drop 255).length / 255 + 1, isEmpty (piece line k) = true) ↔
      isEmpty (line.take 255) = true ∧
        ∀ k < (line.drop 255).length / 255, isEmpty (piece (line.drop 255) k) = true := by
    rw [Nat.forall_lt_succ_left]
    exact and_congr_right fun _ => forall₂_congr fun k _ => by rw [piece_succ]
  by_cases hempty : isEmpty (line.take 255) = true
  · simp only [hall, hempty, true_and, if_true]
  · rw [if_neg hempty, if_neg fun h => hempty (hall.1 h.1).1]

/-- A long line is read right if nothing is kept of it. -/
theorem readRight_long {line : List UInt8} (h : 255 ≤ line.length) :
    ReadRight line ↔ lineHosts line = [] := by
  rw [ReadRight, if_neg (by omega), lineHosts]
  split_ifs with hkept
  · refine iff_of_false (fun hright => ?_) not_false
    rw [hright hkept.1] at hkept
    exact Bool.noConfusion hkept.2
  · refine iff_of_true (fun hpieces => ?_) rfl
    by_contra hlast
    exact hkept ⟨hpieces, Bool.eq_false_iff.2 hlast⟩

/-! ## The loop -/

/-- The hosts that are kept of a text. -/
def hostsOf (text : List UInt8) : List (List UInt8) := (lines text).flatMap lineHosts

def Hosts.appendAll (l : Hosts) (hosts : List (List UInt8)) : Except Fault Hosts :=
  hosts.foldlM Hosts.append l

theorem not_newline {line : List UInt8} (h : 0x0a ∉ line) :
    ∀ c ∈ line, decide (c ≠ 0x0a) = true := fun _ hc => decide_eq_true fun he => h (he ▸ hc)

theorem takeWhile_line {line : List UInt8} (h : 0x0a ∉ line) (rest : List UInt8) :
    (line ++ 0x0a :: rest).takeWhile (· ≠ 0x0a) = line := by
  rw [List.takeWhile_append_of_pos (not_newline h)]
  simp

theorem takeWhile_last {line : List UInt8} (h : 0x0a ∉ line) :
    line.takeWhile (· ≠ 0x0a) = line := List.takeWhile_eq_self_iff.2 (not_newline h)

theorem skipLine_line {line : List UInt8} (h : 0x0a ∉ line) (rest : List UInt8) :
    skipLine (line ++ 0x0a :: rest) = rest := by
  rw [skipLine, List.dropWhile_append_of_pos (not_newline h)]
  simp

theorem skipLine_last {line : List UInt8} (h : 0x0a ∉ line) : skipLine line = [] := by
  rw [skipLine, List.dropWhile_eq_nil_iff.2 (not_newline h)]
  rfl

theorem isEmpty_newline (line : List UInt8) : isEmpty (line ++ [0x0a]) = isEmpty line := by
  rw [isEmpty, isEmpty, List.dropWhile_append]
  cases hd : line.dropWhile isSpace with
  | nil => rfl
  | cons c cs => rfl

theorem hostOf_newline (line : List UInt8) : hostOf (line ++ [0x0a]) = hostOf line := by
  have hstop : ([0x0a] : List UInt8).takeWhile (fun c => !isSpace c) = [] := rfl
  rw [hostOf, hostOf, List.takeWhile_append, hstop]
  split_ifs with h
  · rw [List.append_nil, (List.takeWhile_prefix (l := line) _).eq_of_length h]
  · rfl

theorem fgets_line {line : List UInt8} (h : 0x0a ∉ line) (hshort : line.length ≤ 254)
    (rest : List UInt8) :
    fgets initRhostBuffer (line ++ 0x0a :: rest) = some (line ++ [0x0a], rest) := by
  have hmin : min (initRhostBuffer - 1) (line.length + 1) = (line ++ [0x0a]).length := by
    rw [List.length_append, List.length_singleton, initRhostBuffer]
    omega
  have hsplit : line ++ 0x0a :: rest = (line ++ [0x0a]) ++ rest := by simp
  rw [fgets, if_neg (by simp), takeWhile_line h, hmin, hsplit]
  simp only [List.take_left, List.drop_left]

theorem fgets_piece {file : List UInt8} (h : 255 ≤ (file.takeWhile (· ≠ 0x0a)).length) :
    fgets initRhostBuffer file = some (file.take 255, file.drop 255) := by
  have hne : file ≠ [] := by
    rintro rfl
    exact absurd h (by decide)
  have hmin : min (initRhostBuffer - 1) ((file.takeWhile (· ≠ 0x0a)).length + 1) = 255 := by
    rw [initRhostBuffer]
    omega
  rw [fgets, if_neg hne]
  simp only [hmin]

theorem fgets_last {line : List UInt8} (h : 0x0a ∉ line) (hshort : line.length ≤ 254)
    (hne : line ≠ []) : fgets initRhostBuffer line = some (line, []) := by
  have hmin : line.length ≤ min (initRhostBuffer - 1) (line.length + 1) := by
    rw [initRhostBuffer]
    omega
  rw [fgets, if_neg hne, takeWhile_last h]
  simp only [List.take_of_length_le hmin, List.drop_of_length_le hmin]

/-- Of a text without a newline nothing is kept. -/
theorem readHosts_last {turns : Nat} {text : List UInt8} (h0 : 0 ∉ text) (hnl : 0x0a ∉ text)
    (hturns : text.length < turns) (l : Hosts) : readHosts turns text l = .ok l := by
  induction turns generalizing text with
  | zero => exact absurd hturns (Nat.not_lt_zero _)
  | succ turns ih =>
    by_cases hnil : text = []
    · subst hnil
      rfl
    have hpos := List.length_pos_of_ne_nil hnil
    have hnext : readHosts turns [] l = .ok l :=
      ih List.not_mem_nil List.not_mem_nil (by rw [List.length_nil]; omega)
    rw [readHosts]
    by_cases hshort : text.length ≤ 254
    · rw [fgets_last hnl hshort hnil]
      simp only [beforeNul_eq_self.2 h0, if_pos hnl]
      rw [skipLine_last List.not_mem_nil, hnext, ite_self]
    · have hsub : ∀ c ∈ text.take 255, c ∈ text := fun c hc => List.mem_of_mem_take hc
      have hdrop : ∀ c ∈ text.drop 255, c ∈ text := fun c hc => List.mem_of_mem_drop hc
      have hnl' : 0x0a ∉ text.drop 255 := fun h => hnl (hdrop _ h)
      have hrest : readHosts turns (text.drop 255) l = .ok l :=
        ih (fun h => h0 (hdrop _ h)) hnl' (by rw [List.length_drop]; omega)
      rw [fgets_piece (by rw [takeWhile_last hnl]; omega)]
      simp only [beforeNul_eq_self.2 fun h => h0 (hsub 0 h), if_pos fun h => hnl (hsub _ h)]
      rw [skipLine_last hnl', hnext, hrest, ite_self]

theorem readHosts_eq {turns : Nat} {text : List UInt8} (h0 : 0 ∉ text)
    (hturns : text.length < turns) (l : Hosts) :
    readHosts turns text l = l.appendAll (hostsOf text) := by
  induction turns generalizing text l with
  | zero => exact absurd hturns (Nat.not_lt_zero _)
  | succ turns ih =>
    rw [readHosts]
    by_cases hnl : 0x0a ∈ text
    · obtain ⟨line, rest, rfl, hline⟩ := List.eq_append_cons_of_mem hnl
      rw [List.mem_append, List.mem_cons, not_or, not_or] at h0
      rw [List.length_append, List.length_cons] at hturns
      have hkept : hostsOf (line ++ 0x0a :: rest) = lineHosts line ++ hostsOf rest := by
        rw [hostsOf, lines_cons hline, List.flatMap_cons, hostsOf]
      by_cases hshort : line.length ≤ 254
      · have hnul : 0 ∉ line ++ [0x0a] := by
          rw [List.mem_append, not_or]
          exact ⟨h0.1, by decide⟩
        have hmem : ¬ 0x0a ∉ line ++ [0x0a] := not_not.2 (by simp)
        rw [fgets_line hline hshort, hkept, lineHosts_short hshort]
        simp only [beforeNul_eq_self.2 hnul, isEmpty_newline, hostOf_newline]
        rw [if_neg hmem]
        cases isEmpty line with
        | true => exact ih h0.2.2 (by omega) l
        | false =>
          have hrest : ∀ l, readHosts turns rest l = l.appendAll (hostsOf rest) :=
            ih h0.2.2 (by omega)
          simp only [hrest]
          rfl
      · have hlong : 255 ≤ line.length := by omega
        have hsub : ∀ c ∈ line.take 255, c ∈ line := fun c hc => List.mem_of_mem_take hc
        have hdrop : ∀ c ∈ line.drop 255, c ∈ line := fun c hc => List.mem_of_mem_drop hc
        have hnul : 0 ∉ line.take 255 := fun h => h0.1 (hsub 0 h)
        have hline' : 0x0a ∉ line.drop 255 := fun h => hline (hdrop _ h)
        rw [fgets_piece (by rw [takeWhile_line hline]; exact hlong), hkept, lineHosts_long hlong,
          List.take_append_of_le_length hlong, List.drop_append_of_le_length hlong]
        simp only [beforeNul_eq_self.2 hnul]
        cases isEmpty (line.take 255) with
        | true =>
          have hrest : 0 ∉ line.drop 255 ++ 0x0a :: rest := by
            rw [List.mem_append, List.mem_cons, not_or, not_or]
            exact ⟨fun h => h0.1 (hdrop _ h), h0.2⟩
          have hlt : (line.drop 255 ++ 0x0a :: rest).length < turns := by
            rw [List.length_append, List.length_cons, List.length_drop]
            omega
          rw [if_pos rfl, ih hrest hlt, hostsOf, lines_cons hline', List.flatMap_cons, hostsOf]
          rfl
        | false =>
          rw [if_neg Bool.false_ne_true, if_pos fun h => hline (hsub _ h), skipLine_line hline']
          exact ih h0.2.2 (by omega) l
    · rw [← readHosts, hostsOf, lines_last hnl, readHosts_last h0 hnl hturns]
      rfl

/-! ## The ring -/

/-- The list holds these strings, in memory that malloc has given. -/
def Hosts.Holds (l : Hosts) (hosts : List (List UInt8)) : Prop :=
  ∃ xs, IsRing l.heap l.hl xs ∧ xs.map l.data = hosts ∧ ∀ x ∈ xs, x < l.brk

theorem append_holds {l : Hosts} {hosts : List (List UInt8)} {host : List UInt8}
    (h : l.Holds hosts) (hlen : host.length < rauthenMaxLineLength) :
    ∃ l', l.append host = .ok l' ∧ l'.Holds (hosts ++ [host]) := by
  obtain ⟨xs, hring, rfl, hbrk⟩ := h
  have hnew : l.brk ∉ xs := fun hmem => absurd (hbrk _ hmem) (lt_irrefl _)
  have hother : ∀ x ∈ xs, x ≠ l.brk := fun x hx => (hbrk x hx).ne
  have hring' : IsRing (Function.update l.heap l.brk (some ⟨none, none⟩)) l.hl xs :=
    hring.congr fun y hy => Function.update_of_ne (hother y hy) _ _
  obtain ⟨hl, heap, happend, hring'', -⟩ :=
    linkedlistAppend_ring hring' hnew (by rw [Function.update_self]; rfl)
  refine ⟨⟨hl, heap, Function.update l.data l.brk host, l.brk + 1⟩, ?_, xs ++ [l.brk], hring'', ?_,
    ?_⟩
  · rw [Hosts.append, if_neg hlen.not_ge, happend]
    rfl
  · have hsame : xs.map (Function.update l.data l.brk host) = xs.map l.data :=
      List.map_congr_left fun x hx => Function.update_of_ne (hother x hx) _ _
    rw [List.map_append, hsame, List.map_singleton]
    simp only [Function.update_self]
  · intro x hx
    rcases List.mem_append.1 hx with hx | hx
    · exact Nat.lt_succ_of_lt (hbrk x hx)
    · rw [List.mem_singleton.1 hx]
      exact Nat.lt_succ_self _

/-- Hosts that fit are appended; another one is a write behind the entry. -/
theorem appendAll_holds {l : Hosts} {hosts new : List (List UInt8)} (h : l.Holds hosts)
    (hlen : ∀ host ∈ new, host.length < rauthenMaxLineLength) :
    ∃ l', l.appendAll new = .ok l' ∧ l'.Holds (hosts ++ new) := by
  induction new generalizing l hosts with
  | nil => exact ⟨l, rfl, by rwa [List.append_nil]⟩
  | cons host new ih =>
    obtain ⟨hhost, hnew⟩ := List.forall_mem_cons.1 hlen
    obtain ⟨l', happend, hl'⟩ := append_holds h hhost
    obtain ⟨l'', hall, hl''⟩ := ih hl' hnew
    refine ⟨l'', ?_, by rwa [List.append_cons]⟩
    rw [Hosts.appendAll, List.foldlM_cons, happend]
    exact hall

theorem appendAll_fits {l l' : Hosts} {new : List (List UInt8)} (h : l.appendAll new = .ok l') :
    ∀ host ∈ new, host.length < rauthenMaxLineLength := by
  induction new generalizing l with
  | nil => exact fun _ h => absurd h List.not_mem_nil
  | cons host new ih =>
    rw [Hosts.appendAll, List.foldlM_cons] at h
    obtain ⟨l₁, happend, hrest⟩ := bind_eq_ok.1 h
    refine List.forall_mem_cons.2 ⟨?_, ih hrest⟩
    rw [Hosts.append] at happend
    split_ifs at happend with hlen
    exact Nat.lt_of_not_le hlen

theorem clear_ring {turns : Nat} {l : Hosts} {xs : List Nat} (hr : IsRing l.heap l.hl xs)
    (hturns : xs.length < turns) : ∃ l', l.clear turns = .ok l' ∧ l'.Holds [] := by
  induction turns generalizing l xs with
  | zero => exact absurd hturns (Nat.not_lt_zero _)
  | succ turns ih =>
    cases xs with
    | nil =>
      have hnone : l.hl = none := hr.head
      refine ⟨l, ?_, [], hr, rfl, fun _ h => absurd h List.not_mem_nil⟩
      rw [Hosts.clear, hnone]
    | cons he xs =>
      have hsome : l.hl = some he := hr.head
      obtain ⟨hnot, -⟩ := List.nodup_cons.1 hr.nodup
      obtain ⟨hl, heap, hremove, hring, -⟩ := linkedlistRemove_ring hr List.mem_cons_self
      rw [List.erase_cons_head] at hring
      rw [hsome] at hremove
      have hother : ∀ x ∈ xs, x ≠ he := fun x hx e => hnot (e ▸ hx)
      have hfreed : IsRing (Function.update heap he none) hl xs :=
        hring.congr fun y hy => Function.update_of_ne (hother y hy) _ _
      obtain ⟨l', hclear, hl'⟩ := ih (l := { l with hl, heap := Function.update heap he none })
        hfreed (Nat.lt_of_succ_lt_succ hturns)
      refine ⟨l', ?_, hl'⟩
      rw [Hosts.clear, hsome]
      simp only [hremove, ok_bind, hclear]

/-! ## What is written and what is kept -/

/-- The hosts of one line. -/
def lineWritten (line : List UInt8) : List (List UInt8) := if Kept line then [token line] else []

theorem written_eq (text : List UInt8) : written text = (lines text).flatMap lineWritten := by
  rw [written]
  induction lines text with
  | nil => rfl
  | cons line ls ih =>
    rw [List.flatMap_cons, ← ih, lineWritten, List.filter_cons]
    by_cases h : Kept line
    · simp [h]
    · simp [h]

theorem hostOf_eq_token {line : List UInt8} (h : ∀ c ∈ line.head?, isSpace c = false) :
    hostOf line = token line := by
  have hstart : line.dropWhile isSpace = line := by
    cases line with
    | nil => rfl
    | cons c line => exact List.dropWhile_cons_of_neg (by rw [h c rfl]; decide)
  rw [hostOf, token, hstart]

theorem hostOf_ne_nil {line : List UInt8} (h : hostOf line ≠ []) :
    ∀ c ∈ line.head?, isSpace c = false := by
  intro c hc
  cases line with
  | nil => cases hc
  | cons d line =>
    cases hc
    cases hspace : isSpace c with
    | false => rfl
    | true =>
      refine absurd ?_ h
      rw [hostOf, List.takeWhile_cons_of_neg (by rw [hspace]; decide), List.map_nil]

/-- A line is read right if what is kept of it is what is written, and fits. -/
theorem readRight_iff (line : List UInt8) : ReadRight line ↔ lineHosts line = lineWritten line ∧
    ∀ host ∈ lineHosts line, host ≠ [] ∧ host.length < rauthenMaxLineLength := by
  by_cases hshort : line.length ≤ 254
  · rw [ReadRight, if_pos hshort, lineHosts_short hshort, lineWritten]
    cases hempty : isEmpty line with
    | true =>
      have hkept : ¬ Kept line := fun h => Bool.noConfusion (hempty.symm.trans h.2)
      rw [if_neg hkept]
      exact iff_of_true (fun h => Bool.noConfusion h) ⟨rfl, fun _ h => absurd h List.not_mem_nil⟩
    | false =>
      have hkept : Kept line := ⟨hshort, hempty⟩
      rw [if_pos hkept, if_neg Bool.false_ne_true, List.forall_mem_singleton,
        rauthenMaxLineLength]
      constructor
      · intro h
        obtain ⟨hhead, hlen⟩ := h rfl
        rw [hostOf_eq_token hhead]
        refine ⟨rfl, ?_, by omega⟩
        cases line with
        | nil => exact absurd hempty (by decide)
        | cons c line =>
          rw [← hostOf_eq_token hhead, hostOf, List.takeWhile_cons_of_pos (by rw [hhead c rfl]; rfl)]
          exact List.cons_ne_nil _ _
      · rintro ⟨heq, hne, hlen⟩ -
        have hhead := hostOf_ne_nil hne
        rw [hostOf_eq_token hhead] at hlen
        exact ⟨hhead, by omega⟩
  · have hkept : ¬ Kept line := fun h => hshort h.1
    rw [readRight_long (by omega), lineWritten, if_neg hkept]
    constructor
    · intro h
      rw [h]
      exact ⟨rfl, fun _ h => absurd h List.not_mem_nil⟩
    · exact And.left

theorem lineWritten_length_le (line : List UInt8) :
    (lineWritten line).length ≤ (lineHosts line).length := by
  rw [lineWritten]
  split_ifs with h
  · rw [lineHosts_short h.1, h.2]
    exact le_rfl
  · exact Nat.zero_le _

/-- Two ways to take lists apart, of which one never gives more, agree on the whole only if they
agree on each part. -/
theorem flatMap_eq_iff {α β : Type} {f g : α → List β} (h : ∀ a, (g a).length ≤ (f a).length)
    (as : List α) : as.flatMap f = as.flatMap g ↔ ∀ a ∈ as, f a = g a := by
  have hle : ∀ as : List α, (as.flatMap g).length ≤ (as.flatMap f).length := by
    intro as
    rw [List.length_flatMap, List.length_flatMap]
    exact List.sum_le_sum fun a _ => h a
  induction as with
  | nil => simp
  | cons a as ih =>
    rw [List.flatMap_cons, List.flatMap_cons, List.forall_mem_cons]
    refine ⟨fun heq => ?_, fun heq => by rw [heq.1, ih.2 heq.2]⟩
    have hlen := congrArg List.length heq
    rw [List.length_append, List.length_append] at hlen
    have := h a
    have := hle as
    obtain ⟨ha, has⟩ := List.append_inj heq (by omega)
    exact ⟨ha, ih.1 has⟩

section

variable {env : HostEnv} {text : List UInt8} {l l' : Hosts} {xs : List Nat} {turns : Nat}

theorem rauthenInit_eq (hfile : openHosts env = .ok (some text)) (h0 : 0 ∉ text)
    (hr : IsRing l.heap l.hl xs) (hturns : xs.length < turns) :
    ∃ l₀ : Hosts, l₀.Holds [] ∧ rauthenInit env turns l =
      (l₀.appendAll (hostsOf text)).map fun l' => (⟨1, none⟩, l') := by
  obtain ⟨l₀, hclear, hl₀⟩ := clear_ring hr hturns
  refine ⟨l₀, hl₀, ?_⟩
  rw [rauthenInit, hclear, ok_bind, hfile, ← readHosts_eq h0 (Nat.lt_succ_self _)]
  simp only
  cases readHosts (text.length + 1) text l₀ <;> rfl

/-- The list that is left holds what is kept of the text, which fits. -/
theorem rauthenInit_holds (hfile : openHosts env = .ok (some text)) (h0 : 0 ∉ text)
    (hr : IsRing l.heap l.hl xs) (hturns : xs.length < turns)
    (hinit : rauthenInit env turns l = .ok (⟨1, none⟩, l')) : l'.Holds (hostsOf text) := by
  obtain ⟨l₀, hl₀, heq⟩ := rauthenInit_eq hfile h0 hr hturns
  rw [heq] at hinit
  cases hall : l₀.appendAll (hostsOf text) with
  | error f =>
    rw [hall] at hinit
    cases hinit
  | ok l₁ =>
    rw [hall] at hinit
    cases hinit
    obtain ⟨l₂, hall', hholds⟩ := appendAll_holds hl₀ (appendAll_fits hall)
    rwa [Except.ok.inj (hall.symm.trans hall')]

/-- The list is read as it is written if and only if no line that is kept starts with a blank or
has a token of more than 63 characters, and no piece that fgets makes of a longer line is taken for
a host. -/
theorem hosts_read_iff (hfile : openHosts env = .ok (some text)) (h0 : 0 ∉ text)
    (hr : IsRing l.heap l.hl xs) (hturns : xs.length < turns) :
    (∃ l', rauthenInit env turns l = .ok (⟨1, none⟩, l') ∧ ReadAsWritten text l') ↔
      ∀ line ∈ lines text, ReadRight line := by
  have hlines : (∀ line ∈ lines text, ReadRight line) ↔ hostsOf text = written text ∧
      ∀ host ∈ hostsOf text, host ≠ [] ∧ host.length < rauthenMaxLineLength := by
    rw [written_eq, hostsOf, flatMap_eq_iff lineWritten_length_le, List.forall_mem_flatMap,
      ← forall₂_and]
    exact forall₂_congr fun line _ => readRight_iff line
  rw [hlines]
  constructor
  · rintro ⟨l', hinit, xs', hring, hdata, hfit⟩
    obtain ⟨xs₁, hring₁, hdata₁, -⟩ := rauthenInit_holds hfile h0 hr hturns hinit
    obtain rfl := hring₁.unique hring
    have hsame : hostsOf text = written text := hdata₁.symm.trans hdata
    refine ⟨hsame, fun host hhost => ?_⟩
    rw [hsame, ← hdata] at hhost
    obtain ⟨x, hx, rfl⟩ := List.mem_map.1 hhost
    exact hfit x hx
  · rintro ⟨heq, hfit⟩
    obtain ⟨l₀, hl₀, hinit⟩ := rauthenInit_eq hfile h0 hr hturns
    obtain ⟨l', hall, xs', hring, hdata, -⟩ := appendAll_holds hl₀ fun host h => (hfit host h).2
    rw [List.nil_append] at hdata
    refine ⟨l', by rw [hinit, hall]; rfl, xs', hring, hdata.trans heq, fun x hx => hfit _ ?_⟩
    rw [← hdata]
    exact List.mem_map_of_mem hx

end

/-- A process whose hosts.equiv is the text. -/
def equivOf (text : List UInt8) : HostEnv := ⟨some text, none, fun _ => none, fun _ => none⟩

def noHosts : Hosts := ⟨none, fun _ => none, fun _ => [], 0⟩

/-- A comment, a host with a user, and a line that does not end. -/
def someHosts : List UInt8 :=
  ascii "# hosts" ++ 0x0a :: (ascii "Host2 joe" ++ 0x0a :: ascii "last")

theorem lines_someHosts : lines someHosts = [ascii "# hosts", ascii "Host2 joe"] := by
  rw [someHosts, lines_cons (by decide), lines_cons (by decide), lines_last (by decide)]

set_option maxRecDepth 2000 in
theorem hosts_read_someHosts :
    ∃ l', rauthenInit (equivOf someHosts) 1 noHosts = .ok (⟨1, none⟩, l') ∧
      ReadAsWritten someHosts l' :=
  (hosts_read_iff rfl (by decide) IsRing.empty (by decide)).2 (by
    rw [lines_someHosts]
    decide)

/-- A host behind a blank. -/
def blankHost : List UInt8 := ascii " host" ++ [0x0a]

theorem hostsOf_blankHost : hostsOf blankHost = [[]] := by
  rw [hostsOf, blankHost, lines_cons (by decide), lines_last List.not_mem_nil,
    List.flatMap_singleton, lineHosts_short (by decide)]
  decide

set_option maxRecDepth 2000 in
/-- Behind a blank the host is lost. -/
theorem blank_before_host : ¬ ∀ (env : HostEnv) (text : List UInt8) (l : Hosts) (xs : List Nat)
    (turns : Nat), openHosts env = .ok (some text) → (∀ c ∈ text, c ≠ 0 ∧ c < 0x80) →
      IsRing l.heap l.hl xs → xs.length < turns →
        ∃ l', rauthenInit env turns l = .ok (⟨1, none⟩, l') ∧ ReadAsWritten text l' := by
  intro h
  obtain ⟨l', hinit, xs, hring, hdata, hfit⟩ := h (equivOf blankHost) blankHost noHosts [] 1 rfl
    (by decide) IsRing.empty (by decide)
  obtain ⟨xs', hring', hdata', -⟩ :=
    rauthenInit_holds rfl (by decide) IsRing.empty (by decide) hinit
  obtain rfl := hring'.unique hring
  rw [hostsOf_blankHost, List.map_eq_singleton_iff] at hdata'
  obtain ⟨x, rfl, hx⟩ := hdata'
  exact (hfit x (List.mem_singleton_self x)).1 hx

end CassandraApi.Rauthen
