/-
# `ResultColumns` — cass_api_get_result_column

The rows of a result are written one after another, each column with the name that
the schema of the table has at its place:

    {
    {"name":"value",
    "name":["value","value"],
    },
    {…},
    }

The outer brackets are those of an object, but a row has no label.  As soon as
there is one, the text is no JSON (`written_starts`), whatever the columns hold.
-/
import CassandraApi.C.CString
import CassandraApi.Lib.Json

namespace CassandraApi.ResultColumns

open C Lib

/-! ## Values -/

/-- A value with its CassValueType; `none` where cass_value_is_null holds.  The other types are
those that the switch has no case for. -/
inductive Cell (Double Uuid : Type) where
  | int (value : Option Int)
  | boolean (value : Option Bool)
  | double (value : Option Double)
  | text (value : Option (List UInt8))
  | uuid (value : Option Uuid)
  | timestamp (value : Option Int)
  | list (values : Option (List (List UInt8)))
  | map
  | blob
  | other (null : Bool)

/-- What the driver and the C library do with a value. -/
structure Library (Double Uuid : Type) where
  /-- `%f` -/
  double : Double → List UInt8
  /-- cass_uuid_string -/
  uuid : Uuid → List UInt8
  /-- `localtime` and `strftime` for a time in seconds. -/
  time : Int → List UInt8
  /-- What comes of the iterator of a list that is null. -/
  nullList : Except Fault (List (List UInt8))

variable {Double Uuid : Type}

/-! ## The buffer -/

/-- `i += sprintf(&buffer->data[i], …)`: `out` are the bytes before the NUL, and the buffer has
room for `size`. -/
def sprintf (size : Nat) (out text : List UInt8) : Except Fault (List UInt8) :=
  if (out ++ text).length + 1 ≤ size then pure (out ++ text) else throw .overrun

/-- `"\"%.*s\":"` -/
def label (name : List UInt8) : List UInt8 := ascii "\"" ++ beforeNul name ++ ascii "\":"

/-- `"\"%s\",\n"` -/
def entry (text : List UInt8) : List UInt8 := ascii "\"" ++ beforeNul text ++ ascii "\",\n"

/-- A label, and what is printed behind it. -/
def writeLabelled (size : Nat) (name out text : List UInt8) : Except Fault (List UInt8) := do
  let out ← sprintf size out (label name)
  sprintf size out text

/-- The value of a list that is number `count_row`; the first comes with the label. -/
def writeItem (size : Nat) (name : List UInt8) (countRow : Nat) (value out : List UInt8) :
    Except Fault (List UInt8) :=
  if countRow = 1 then writeLabelled size name out (ascii "[\"" ++ beforeNul value ++ ascii "\"")
  else sprintf size out (ascii ",\"" ++ beforeNul value ++ ascii "\"")

/-- `while (cass_iterator_next(iterator_list))` -/
def writeItems (size : Nat) (name : List UInt8) :
    Nat → List (List UInt8) → List UInt8 → Except Fault (List UInt8)
  | _, [], out => pure out
  | countRow, value :: values, out => do
      let out ← writeItem size name (countRow + 1) value out
      writeItems size name (countRow + 1) values out

/-- `switch (type)` -/
def writeCell (lib : Library Double Uuid) (size : Nat) (name out : List UInt8) :
    Cell Double Uuid → Except Fault (List UInt8)
  | .int none => writeLabelled size name out (entry (ascii "NULL"))
  | .int (some it) => writeLabelled size name out (entry (ascii (toString it)))
  | .boolean none => writeLabelled size name out (entry (ascii "NULL"))
  | .boolean (some b) => writeLabelled size name out (ascii (if b then "true" else "false"))
  | .double none => writeLabelled size name out (entry (ascii "NULL"))
  | .double (some d) => writeLabelled size name out (entry (lib.double d))
  | .text none => writeLabelled size name out (entry (ascii "NULL"))
  | .text (some value) => writeLabelled size name out (entry value)
  | .uuid none => writeLabelled size name out (entry (ascii "NULL"))
  | .uuid (some u) => writeLabelled size name out (entry (lib.uuid u))
  | .timestamp none => writeLabelled size name out (entry (ascii "NULL"))
  -- `(time_t)t/1000`
  | .timestamp (some t) => writeLabelled size name out (entry (lib.time (t.tdiv 1000)))
  | .list none => do
      let values ← lib.nullList
      let out ← writeItems size name 0 values out
      sprintf size out (ascii "],\n")
  | .list (some values) => do
      let out ← writeItems size name 0 values out
      sprintf size out (ascii "],\n")
  | .map => pure out
  | .blob => pure out
  | .other true => writeLabelled size name out (entry (ascii "NULL"))
  | .other false => writeLabelled size name out (entry (ascii "<unhandled type>"))

/-! ## Rows -/

/-- The columns of a row: the iterator goes through the names, and `col` through the values. -/
def writeColumns (lib : Library Double Uuid) (size : Nat) (row : List (Cell Double Uuid)) :
    Nat → List (List UInt8) → List UInt8 → Except Fault (List UInt8)
  | _, [], out => pure out
  | col, name :: names, out =>
      match row[col]? with
      | none => pure out
      | some value => do
          let out ← writeCell lib size name out value
          writeColumns lib size row (col + 1) names out

def writeRow (lib : Library Double Uuid) (size : Nat) (schema : List (List UInt8))
    (out : List UInt8) (row : List (Cell Double Uuid)) : Except Fault (List UInt8) := do
  let out ← sprintf size out (ascii "\x7b")
  let out ← writeColumns lib size row 0 schema out
  sprintf size out (ascii "\x7d,\n")

/-- cass_api_get_result_column: the string in `buffer->data`, when the buffer has room for `size`
bytes and `schema` are the columns of the table. -/
def cassApiGetResultColumn (lib : Library Double Uuid) (size : Nat) (schema : List (List UInt8))
    (result : List (List (Cell Double Uuid))) : Except Fault (List UInt8) := do
  let out ← sprintf size [] (ascii "\x7b\n")
  let out ← result.foldlM (writeRow lib size schema) out
  sprintf size out (ascii "\x7d")

/-! ## What should be written -/

/-- A value without brackets, as itself or in quotes. -/
def scalar (text : List UInt8) : Json.Value := {t | t = text ∨ t ∈ Json.str text}

/-- The texts for a value, or for null.  Nothing is said of the types that have no case. -/
def Cell.json (lib : Library Double Uuid) : Cell Double Uuid → Json.Value
  | .int (some it) => scalar (ascii (toString it))
  | .boolean (some b) => scalar (ascii (if b then "true" else "false"))
  | .double (some d) => scalar (lib.double d)
  | .text (some value) => Json.str value
  | .uuid (some u) => Json.str (lib.uuid u)
  | .timestamp (some t) => Json.str (lib.time (t.tdiv 1000))
  | .list (some values) => Json.arr (values.map Json.str)
  | .int none | .boolean none | .double none | .text none | .uuid none | .timestamp none
  | .list none => {t | t = ascii "null" ∨ t ∈ Json.str (ascii "NULL")}
  | .map | .blob | .other _ => Set.univ

/-- An object with one member for each column, in any order. -/
def rowJson (lib : Library Double Uuid) (names : List (List UInt8))
    (row : List (Cell Double Uuid)) : Json.Value :=
  {t | ∃ ms, ms.Perm (names.zip (row.map (Cell.json lib))) ∧ t ∈ Json.obj ms}

/-- One JSON text with an object for each row in order: an array, or an object with any labels. -/
def resultJson (lib : Library Double Uuid) (names : List (List UInt8))
    (result : List (List (Cell Double Uuid))) : Json.Value :=
  {t | t ∈ Json.arr (result.map (rowJson lib names)) ∨
    ∃ labels : List (List UInt8), labels.length = result.length ∧
      t ∈ Json.obj (labels.zip (result.map (rowJson lib names)))}

/-! ## What is written -/

section

variable {lib : Library Double Uuid} {size : Nat} {name out out' text : List UInt8}
  {schema : List (List UInt8)} {row : List (Cell Double Uuid)}
  {result : List (List (Cell Double Uuid))}

theorem sprintf_eq_ok : sprintf size out text = .ok out' ↔
    (out ++ text).length + 1 ≤ size ∧ out' = out ++ text := by
  rw [sprintf]
  split_ifs with h
  · rw [pure_eq_ok, Except.ok.injEq, eq_comm]
    exact (and_iff_right h).symm
  · exact iff_of_false (fun h => nomatch h) fun h' => h h'.1

theorem sprintf_adds (h : sprintf size out text = .ok out') : out <+: out' := by
  rw [(sprintf_eq_ok.1 h).2]
  exact List.prefix_append ..

theorem writeLabelled_adds (h : writeLabelled size name out text = .ok out') : out <+: out' := by
  obtain ⟨out₁, hlabel, htext⟩ := bind_eq_ok.1 h
  exact (sprintf_adds hlabel).trans (sprintf_adds htext)

theorem writeItems_adds {values : List (List UInt8)} {countRow : Nat}
    (h : writeItems size name countRow values out = .ok out') : out <+: out' := by
  induction values generalizing countRow out with
  | nil =>
    cases h
    exact List.prefix_rfl
  | cons value values ih =>
    obtain ⟨out₁, hvalue, hvalues⟩ := bind_eq_ok.1 h
    refine List.IsPrefix.trans ?_ (ih hvalues)
    rw [writeItem] at hvalue
    split_ifs at hvalue
    · exact writeLabelled_adds hvalue
    · exact sprintf_adds hvalue

/-- A value adds to what is there. -/
theorem writeCell_adds {value : Cell Double Uuid}
    (h : writeCell lib size name out value = .ok out') : out <+: out' := by
  have hlist : ∀ {values : List (List UInt8)}, (do
      let out ← writeItems size name 0 values out
      sprintf size out (ascii "],\n")) = .ok out' → out <+: out' := by
    intro values h
    obtain ⟨out₁, hitems, hend⟩ := bind_eq_ok.1 h
    exact (writeItems_adds hitems).trans (sprintf_adds hend)
  cases value with
  | int value => cases value <;> exact writeLabelled_adds h
  | boolean value => cases value <;> exact writeLabelled_adds h
  | double value => cases value <;> exact writeLabelled_adds h
  | text value => cases value <;> exact writeLabelled_adds h
  | uuid value => cases value <;> exact writeLabelled_adds h
  | timestamp value => cases value <;> exact writeLabelled_adds h
  | list values =>
    cases values with
    | none =>
      obtain ⟨values, -, hrest⟩ := bind_eq_ok.1 h
      exact hlist hrest
    | some values => exact hlist h
  | map =>
    cases h
    exact List.prefix_rfl
  | blob =>
    cases h
    exact List.prefix_rfl
  | other null => cases null <;> exact writeLabelled_adds h

theorem writeColumns_adds {names : List (List UInt8)} {col : Nat}
    (h : writeColumns lib size row col names out = .ok out') : out <+: out' := by
  induction names generalizing col out with
  | nil =>
    cases h
    exact List.prefix_rfl
  | cons name names ih =>
    rw [writeColumns] at h
    cases hcell : row[col]? with
    | none =>
      rw [hcell] at h
      cases h
      exact List.prefix_rfl
    | some value =>
      rw [hcell] at h
      obtain ⟨out₁, hvalue, hrest⟩ := bind_eq_ok.1 h
      exact (writeCell_adds hvalue).trans (ih hrest)

/-- A row starts with a brace. -/
theorem writeRow_adds (h : writeRow lib size schema out row = .ok out') :
    out ++ ascii "\x7b" <+: out' := by
  obtain ⟨out₁, hopen, hrest⟩ := bind_eq_ok.1 h
  obtain ⟨out₂, hcolumns, hclose⟩ := bind_eq_ok.1 hrest
  rw [← (sprintf_eq_ok.1 hopen).2]
  exact (writeColumns_adds hcolumns).trans (sprintf_adds hclose)

theorem writeRows_adds (h : result.foldlM (writeRow lib size schema) out = .ok out') :
    out <+: out' := by
  induction result generalizing out with
  | nil =>
    cases h
    exact List.prefix_rfl
  | cons row result ih =>
    rw [List.foldlM_cons] at h
    obtain ⟨out₁, hrow, hrest⟩ := bind_eq_ok.1 h
    exact ((List.prefix_append ..).trans (writeRow_adds hrow)).trans (ih hrest)

/-- With a row there is a brace behind the first brace. -/
theorem written_starts (h : cassApiGetResultColumn lib size schema (row :: result) = .ok out) :
    ascii "\x7b\n\x7b" <+: out := by
  obtain ⟨out₁, hopen, hrest⟩ := bind_eq_ok.1 h
  obtain ⟨out₂, hrows, hclose⟩ := bind_eq_ok.1 hrest
  obtain ⟨-, rfl⟩ := sprintf_eq_ok.1 hopen
  rw [List.foldlM_cons] at hrows
  obtain ⟨out₃, hrow, hothers⟩ := bind_eq_ok.1 hrows
  exact ((writeRow_adds hrow).trans (writeRows_adds hothers)).trans (sprintf_adds hclose)

theorem not_space_brace : ¬ Json.Space [(0x7b : UInt8)] := by
  simp [Json.Space]

theorem not_arr (h : ascii "\x7b\n\x7b" <+: out) (vs : List Json.Value) : out ∉ Json.arr vs := by
  obtain ⟨t, rfl⟩ := h
  intro harr
  have houter : Json.Starts 0x7b (ascii "\x7b\n\x7b" ++ t) :=
    ⟨not_space_brace, [], 0x0a :: 0x7b :: t, by simp [Json.Space], rfl⟩
  exact absurd ((Json.arr_starts harr).unique houter) (by decide)

theorem not_obj (h : ascii "\x7b\n\x7b" <+: out) (ms : List (List UInt8 × Json.Value)) :
    out ∉ Json.obj ms := by
  obtain ⟨t, rfl⟩ := h
  intro hobj
  have hinner : Json.Starts 0x7b (0x0a :: 0x7b :: t) :=
    ⟨not_space_brace, [0x0a], t, by simp [Json.Space], rfl⟩
  have hbehind : 0x7b :: (0x0a :: 0x7b :: t) ∈ Json.obj ms := hobj
  rcases Json.obj_starts hbehind with hstarts | hstarts
  · exact absurd (hstarts.unique hinner) (by decide)
  · exact absurd (hstarts.unique hinner) (by decide)

theorem not_resultJson (names : List (List UInt8))
    (h : cassApiGetResultColumn lib size schema (row :: result) = .ok out) :
    out ∉ resultJson lib names (row :: result) := by
  have hstarts := written_starts h
  rintro (harr | ⟨labels, -, hobj⟩)
  · exact not_arr hstarts _ harr
  · exact not_obj hstarts _ hobj

end

/-! ## The result -/

theorem written_empty (lib : Library Double Uuid) (size : Nat) (schema : List (List UInt8)) :
    cassApiGetResultColumn lib size schema [] =
      if 4 ≤ size then .ok (ascii "\x7b\n\x7d") else .error .overrun := by
  have hfirst : (([] : List UInt8) ++ ascii "\x7b\n").length = 2 := rfl
  have hboth : (ascii "\x7b\n" ++ ascii "\x7d").length = 3 := rfl
  rw [cassApiGetResultColumn, sprintf, hfirst]
  by_cases h4 : 4 ≤ size
  · rw [if_pos (by omega), if_pos h4]
    change sprintf size (ascii "\x7b\n") (ascii "\x7d") = _
    rw [sprintf, hboth, if_pos h4]
    rfl
  · rw [if_neg h4]
    by_cases h3 : 3 ≤ size
    · rw [if_pos h3]
      change sprintf size (ascii "\x7b\n") (ascii "\x7d") = _
      rw [sprintf, hboth, if_neg h4]
      rfl
    · rw [if_neg h3]
      rfl

/-- The buffer gets a JSON text if and only if the result has no row, and four bytes have room. -/
theorem result_json_iff (lib : Library Double Uuid) (size : Nat)
    (names schema : List (List UInt8)) (result : List (List (Cell Double Uuid))) :
    (∃ out, cassApiGetResultColumn lib size schema result = .ok out ∧
      out ∈ resultJson lib names result) ↔ result = [] ∧ 4 ≤ size := by
  cases result with
  | cons row result =>
    refine iff_of_false ?_ fun h => List.cons_ne_nil _ _ h.1
    rintro ⟨out, hrun, hjson⟩
    exact not_resultJson names hrun hjson
  | nil =>
    rw [written_empty]
    have hempty : ascii "\x7b\n\x7d" ∈ resultJson lib names [] := by
      refine .inr ⟨[], rfl, ascii "\x7b\n", [], ascii "\x7d", ⟨[], [0x0a], ?_, ?_, rfl⟩,
        Json.Token.compact _, .inl ⟨rfl, rfl⟩, rfl⟩
      · simp [Json.Space]
      · simp [Json.Space]
    by_cases h4 : 4 ≤ size
    · rw [if_pos h4]
      exact iff_of_true ⟨_, rfl, hempty⟩ ⟨rfl, h4⟩
    · rw [if_neg h4]
      refine iff_of_false ?_ fun h => h4 h.2
      rintro ⟨out, ⟨⟩, -⟩

/-- One row, with the text `x` in its one column. -/
theorem one_row_no_json :
    ¬ ∀ (lib : Library Unit Unit) (size : Nat) (names : List (List UInt8))
      (result : List (List (Cell Unit Unit))),
      (∀ row ∈ result, row.length = names.length) →
      (∃ out, cassApiGetResultColumn lib size names result = .ok out) →
      ∃ out, cassApiGetResultColumn lib size names result = .ok out ∧
        out ∈ resultJson lib names result := by
  intro h
  have hlib := h ⟨fun _ => [], fun _ => [], fun _ => [], .ok []⟩ 4096 [ascii "a"]
    [[.text (some (ascii "x"))]] (by simp) ⟨ascii "\x7b\n\x7b\"a\":\"x\",\n\x7d,\n\x7d", rfl⟩
  obtain ⟨out, hrun, hjson⟩ := hlib
  exact not_resultJson [ascii "a"] hrun hjson

end CassandraApi.ResultColumns
