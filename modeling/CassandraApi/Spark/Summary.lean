/-
# `Spark.Summary` — the usage of each application by day

AggregationExhibition reads the table exhibition_by_app, puts every row under the key

    application name + formatted date

and reduces the values of each key by adding up their usage, in an `int`.  A time
that cannot be read is formatted as null, and null is "null" in a key.

There is one row for each pair of a name and a date, with their sum, if and only if
no two pairs of the table have one key and no sum leaves the `int`s
(`usage_adds_up_iff`).
-/
import CassandraApi.Lib.Reduce
import CassandraApi.Spark.Reports

namespace CassandraApi.Summary

open Lib

open Reports (JString)

/-! ## Spark and Java -/

/-- Spark, whose reduceByKey has an order and a grouping of its own. -/
structure Spark where
  reduceByKey {β : Type} : (β → β → β) → List (String × β) → List (String × β)
  reduces {β : Type} (f : β → β → β) (rdd : List (String × β)) :
    ReducesByKey f rdd (reduceByKey f rdd)

/-- What a formatter does; `none` is an exception. -/
structure SimpleDateFormat (Date : Type) where
  parse : JString → Option Date
  format : Date → String

/-- The formatters, by their patterns, of the default locale and time zone. -/
structure Formats where
  Date : Type
  simpleDateFormat : String → SimpleDateFormat Date

/-- A row of a Cassandra table: getString and getInt by the column. -/
structure CassandraRow where
  getString : Nat → JString
  getInt : Nat → Int32

/-- A reference in a concatenation. -/
def valueOf : JString → String
  | none => "null"
  | some s => s

/-! ## The pipeline -/

structure SummaryByApp where
  user : JString
  date : JString
  usage : Int32

/-- `format_date` -/
def formatDate (formats : Formats) (date : JString) : JString :=
  let inFormatter := formats.simpleDateFormat "yyyy-MM-dd HH:mm:ssZ"
  match inFormatter.parse date with
  | none => none
  | some date2 =>
      let outFormatter := formats.simpleDateFormat "yyyy-MM-dd"
      some (outFormatter.format date2)

/-- What reduceByKey is given. -/
def merge (a b : SummaryByApp) : SummaryByApp := { a with usage := a.usage + b.usage }

/-- What mapToPair is given. -/
def toPair (formats : Formats) (f : CassandraRow) : String × SummaryByApp :=
  (valueOf (f.getString 0) ++ valueOf (formatDate formats (f.getString 1)),
    ⟨f.getString 0, formatDate formats (f.getString 1), f.getInt 3⟩)

/-- `AggregateUsage`, up to the rows that are saved. -/
def aggregateUsage (spark : Spark) (formats : Formats) (allUsage : List CassandraRow) :
    List SummaryByApp :=
  let flatMappedUsage := allUsage.map (toPair formats)
  let reducedUsageByUser := spark.reduceByKey merge flatMappedUsage
  reducedUsageByUser.map Prod.snd

/-! ## What it should yield -/

/-- The application name and the formatted date of a row. -/
def pairOf (formats : Formats) (f : CassandraRow) : JString × JString :=
  (f.getString 0, formatDate formats (f.getString 1))

def SummaryByApp.pair (s : SummaryByApp) : JString × JString := (s.user, s.date)

/-- The mathematical sum of the usages with this pair. -/
def total (formats : Formats) (table : List CassandraRow) (p : JString × JString) : Int :=
  ((table.filter (pairOf formats · = p)).map fun f => (f.getInt 3).toInt).sum

/-- One row for each pair of the table, with its sum. -/
structure AddsUp (formats : Formats) (table : List CassandraRow) (rows : List SummaryByApp) :
    Prop where
  once : (rows.map SummaryByApp.pair).Nodup
  pairs : ∀ p, p ∈ rows.map SummaryByApp.pair ↔ p ∈ table.map (pairOf formats)
  sums : ∀ r ∈ rows, r.usage.toInt = total formats table r.pair

def keyOf (p : JString × JString) : String := valueOf p.1 ++ valueOf p.2

/-- Different pairs have different keys. -/
def KeysApart (formats : Formats) (table : List CassandraRow) : Prop :=
  ∀ p ∈ table.map (pairOf formats), ∀ q ∈ table.map (pairOf formats), keyOf p = keyOf q → p = q

/-- The sum of every pair is an `int`. -/
def SumsFit (formats : Formats) (table : List CassandraRow) : Prop :=
  ∀ p ∈ table.map (pairOf formats), -2 ^ 31 ≤ total formats table p ∧ total formats table p < 2 ^ 31

/-! ## What is in a row -/

section

variable {spark : Spark} {formats : Formats} {table : List CassandraRow} {k : String}
  {v : SummaryByApp}

/-- The rows of the table with this key. -/
def withKey (formats : Formats) (table : List CassandraRow) (k : String) : List CassandraRow :=
  table.filter fun f => keyOf (pairOf formats f) = k

theorem partners_toPair (k : String) : partners (table.map (toPair formats)) k =
    (withKey formats table k).map fun f => (toPair formats f).2 := by
  rw [partners, List.filter_map, List.map_map]
  rfl

/-- The pair of a row of the summary is one of the table, and its key is the row's. -/
theorem entry_pair (h : (k, v) ∈ spark.reduceByKey merge (table.map (toPair formats))) :
    v.pair ∈ table.map (pairOf formats) ∧ keyOf v.pair = k := by
  have hr := (spark.reduces merge _).values _ h
  rw [partners_toPair] at hr
  have hg : ∀ a b : SummaryByApp, (merge a b).pair = a.pair := fun _ _ => rfl
  obtain ⟨x, hx, hpair⟩ := hr.kept hg
  obtain ⟨f, hf, rfl⟩ := List.mem_map.1 hx
  obtain ⟨hmem, hkey⟩ := List.mem_filter.1 hf
  have heq : v.pair = pairOf formats f := hpair
  rw [heq]
  exact ⟨List.mem_map_of_mem hmem, of_decide_eq_true hkey⟩

theorem cast_toInt_add (a b : Int32) :
    ((a + b).toInt : ZMod (2 ^ 32)) = (a.toInt : ZMod (2 ^ 32)) + (b.toInt : ZMod (2 ^ 32)) := by
  rw [Int32.toInt_add, ← Int.cast_add]
  exact (ZMod.intCast_eq_intCast_iff _ _ _).2 (Int.bmod_emod ..)

/-- The usage of a row is the sum of the usages with its key, but for multiples of `2 ^ 32`. -/
theorem entry_usage (h : (k, v) ∈ spark.reduceByKey merge (table.map (toPair formats))) :
    v.usage.toInt ≡ ((withKey formats table k).map fun f => (f.getInt 3).toInt).sum
      [ZMOD 2 ^ 32] := by
  have hr := (spark.reduces merge _).values _ h
  rw [partners_toPair] at hr
  have hg : ∀ a b : SummaryByApp, ((merge a b).usage.toInt : ZMod (2 ^ 32)) =
      (a.usage.toInt : ZMod (2 ^ 32)) + (b.usage.toInt : ZMod (2 ^ 32)) :=
    fun a b => cast_toInt_add a.usage b.usage
  have hsum := hr.sum (g := fun s : SummaryByApp => (s.usage.toInt : ZMod (2 ^ 32))) hg
  refine (ZMod.intCast_eq_intCast_iff _ _ (2 ^ 32)).1 (hsum.trans ?_)
  simp only [Int.cast_list_sum, List.map_map, Function.comp_def, toPair]

theorem mem_aggregateUsage {r : SummaryByApp} (h : r ∈ aggregateUsage spark formats table) :
    ∃ k, (k, r) ∈ spark.reduceByKey merge (table.map (toPair formats)) := by
  obtain ⟨⟨k, v⟩, hp, rfl⟩ := List.mem_map.1 h
  exact ⟨k, hp⟩

/-- No pair has two rows. -/
theorem aggregateUsage_once :
    ((aggregateUsage spark formats table).map SummaryByApp.pair).Nodup := by
  have hkeys : ((aggregateUsage spark formats table).map SummaryByApp.pair).map keyOf =
      (spark.reduceByKey merge (table.map (toPair formats))).map Prod.fst := by
    rw [aggregateUsage, List.map_map, List.map_map]
    exact List.map_congr_left fun p hp => (entry_pair hp).2
  refine List.Nodup.of_map keyOf ?_
  rw [hkeys]
  exact (spark.reduces merge _).nodup

/-! ## When they add up -/

theorem AddsUp.keysApart (h : AddsUp formats table (aggregateUsage spark formats table)) :
    KeysApart formats table := by
  intro p hp q hq heq
  obtain ⟨r, hr, rfl⟩ := List.mem_map.1 ((h.pairs p).2 hp)
  obtain ⟨r', hr', rfl⟩ := List.mem_map.1 ((h.pairs q).2 hq)
  obtain ⟨k, hk⟩ := mem_aggregateUsage hr
  obtain ⟨k', hk'⟩ := mem_aggregateUsage hr'
  have hkk : k = k' := (entry_pair hk).2.symm.trans (heq.trans (entry_pair hk').2)
  have hsame := List.inj_on_of_nodup_map (spark.reduces merge _).nodup hk hk' hkk
  rw [(Prod.mk.inj hsame).2]

theorem AddsUp.sumsFit {rows : List SummaryByApp} (h : AddsUp formats table rows) :
    SumsFit formats table := by
  intro p hp
  obtain ⟨r, hr, rfl⟩ := List.mem_map.1 ((h.pairs p).2 hp)
  rw [← h.sums r hr]
  exact ⟨Int32.le_toInt _, Int32.toInt_lt _⟩

/-- The rows with the key of a pair are those with the pair. -/
theorem withKey_eq (apart : KeysApart formats table) {p : JString × JString}
    (hp : p ∈ table.map (pairOf formats)) :
    withKey formats table (keyOf p) = table.filter (pairOf formats · = p) := by
  refine List.filter_congr fun f hf => ?_
  have hiff : keyOf (pairOf formats f) = keyOf p ↔ pairOf formats f = p :=
    ⟨apart _ (List.mem_map_of_mem hf) p hp, congrArg keyOf⟩
  simp only [hiff]

theorem addsUp (apart : KeysApart formats table) (fit : SumsFit formats table) :
    AddsUp formats table (aggregateUsage spark formats table) where
  once := aggregateUsage_once
  pairs p := by
    constructor
    · intro hp
      obtain ⟨r, hr, rfl⟩ := List.mem_map.1 hp
      obtain ⟨k, hk⟩ := mem_aggregateUsage hr
      exact (entry_pair hk).1
    · intro hp
      obtain ⟨f, hf, rfl⟩ := List.mem_map.1 hp
      have hkey : keyOf (pairOf formats f) ∈ (table.map (toPair formats)).map Prod.fst :=
        List.mem_map.2 ⟨_, List.mem_map_of_mem hf, rfl⟩
      obtain ⟨⟨k, v⟩, hv, rfl⟩ :=
        List.mem_map.1 (((spark.reduces merge _).keys _).2 hkey)
      obtain ⟨hpair, hk⟩ := entry_pair hv
      exact List.mem_map.2 ⟨v, List.mem_map_of_mem hv, apart _ hpair _ hp hk⟩
  sums r hr := by
    obtain ⟨k, hk⟩ := mem_aggregateUsage hr
    obtain ⟨hpair, rfl⟩ := entry_pair hk
    have husage := entry_usage hk
    rw [withKey_eq apart hpair] at husage
    have hrange := fit r.pair hpair
    have hlow := r.usage.le_toInt
    have hhigh := r.usage.toInt_lt
    unfold Int.ModEq total at *
    omega

/-- The summary adds up if and only if the keys tell the pairs of the table apart and their sums
fit. -/
theorem usage_adds_up_iff (spark : Spark) (formats : Formats) (table : List CassandraRow) :
    AddsUp formats table (aggregateUsage spark formats table) ↔
      KeysApart formats table ∧ SumsFit formats table :=
  ⟨fun h => ⟨h.keysApart, h.sumsFit⟩, fun h => addsUp h.1 h.2⟩

end

/-! ## Where they do not -/

/-- A Spark that reduces the values of a key as they come. -/
def inOrder : Spark := ⟨reduceInOrder, fun _ rdd => reduceInOrder_reduces rdd⟩

/-- The formatters in the zone +0700, as far as they are used below. -/
def formats0700 : Formats where
  Date := String
  simpleDateFormat _ :=
    { parse := fun s =>
        if s = some "2015-06-01 10:00:00+0700" then some "2015-06-01"
        else if s = some "12015-06-01 10:00:00+0700" then some "12015-06-01"
        else none
      format := id }

def exhibition (appName timeEvent : String) (usage : Int32) : CassandraRow where
  getString i := if i = 0 then some appName else some timeEvent
  getInt _ := usage

/-- Two usages of one day, `2 ^ 31` together. -/
def tooMuch : List CassandraRow :=
  [exhibition "AMF" "2015-06-01 10:00:00+0700" 2147483647,
    exhibition "AMF" "2015-06-01 10:00:00+0700" 1]

/-- A name that ends where a year begins: both keys are A12015-06-01. -/
def oneKey : List CassandraRow :=
  [exhibition "A1" "2015-06-01 10:00:00+0700" 100,
    exhibition "A" "12015-06-01 10:00:00+0700" 300]

theorem usage_adds_up_fails :
    ¬ AddsUp formats0700 tooMuch (aggregateUsage inOrder formats0700 tooMuch) ∧
      ¬ AddsUp formats0700 oneKey (aggregateUsage inOrder formats0700 oneKey) := by
  constructor
  · intro h
    have hfit := (h.sumsFit (some "AMF", some "2015-06-01") (by decide)).2
    exact absurd hfit (by decide)
  · intro h
    have hsame := h.keysApart (some "A1", some "2015-06-01") (by decide)
      (some "A", some "12015-06-01") (by decide) (by decide)
    exact absurd hsame (by decide)

end CassandraApi.Summary
