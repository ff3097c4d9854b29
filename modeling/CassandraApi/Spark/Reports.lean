/-
# `Spark.Reports` — the transfer and request-goods reports

Three pipelines join a left table with two others, each time through Spark's
leftOuterJoin, with a new key in between:

    summary          transfer-out   ⟕ request-goods   ⟕ transfer-in
    transfer detail  request-goods  ⟕ transfer-out    ⟕ transfer-in
    request detail   request-goods  ⟕ transfer-out    ⟕ transfer-in

What the first join leaves empty is read without a test, so a row of the left table
without a partner there ends the pipeline.  What the second leaves empty is tested
for, but the transfer detail puts the text "null" in the field (`reports_iff`).

An RDD is the list of its rows, a reference that may be null is an `Option`, and of
what is printed only the exceptions are kept.
-/
import CassandraApi.Lib.Join

namespace CassandraApi.Reports

open Lib

/-! ## Spark and Java -/

inductive JavaException where
  | illegalState

/-- A reference to a String. -/
abbrev JString := Option String

abbrev JList := Option (List String)

/-- JavaPairRDD<String, α> -/
abbrev PairRDD (α : Type) := List (JString × α)

/-- No key of the RDD is null. -/
def NonNull {α : Type} (rdd : PairRDD α) : Prop := ∀ p ∈ rdd, p.1 ≠ none

/-- Spark, whose leftOuterJoin is the relational one in an order of its own. -/
structure Spark where
  leftOuterJoin {α β : Type} : PairRDD α → PairRDD β → PairRDD (α × Option β)
  relational {α β : Type} (l : PairRDD α) (r : PairRDD β) : NonNull l → NonNull r →
    (leftOuterJoin l r).Perm (Lib.leftOuterJoin l r)

/-- `Optional.get` -/
def get {α : Type} : Option α → Except JavaException α
  | some a => .ok a
  | none => .error .illegalState

/-- `rdd.foreach(f)` -/
def foreach {α : Type} (rdd : List α) (f : α → Except JavaException Unit) :
    Except JavaException Unit := rdd.forM f

/-- `try { … } catch (IllegalStateException ex)` around what is printed. -/
def caught : Except JavaException Unit → Except JavaException Unit
  | .ok _ => .ok ()
  | .error .illegalState => .ok ()

/-- A row of a Cassandra table: getString and getList by the column. -/
structure CassandraRow where
  getString : Nat → JString
  getList : Nat → JList

/-- RequestGoods, as far as a report reads it. -/
structure RequestGoods where
  requestNo : JString := none
  forSubStock : JString := none
  shipToCode : JString := none
  shipToName : JString := none
  shipToProvince : JString := none
  doNo : JString := none
  pickingDateTime : JString := none
  company : JString := none
  toLocationCode : JString := none
  toLocationName : JString := none
  createDateTime : JString := none
  createBy : JString := none
  requestStatus : JString := none
  reservedNo : JString := none
  brand_key : JList := none
  model_key : JList := none
  matCode_key : JList := none
  commercialName_key : JList := none
  remark : JString := none

/-- OrderTransfer, as far as a report reads it. -/
structure OrderTransfer where
  company : JString := none
  fromLocationCode : JString := none
  fromLocationName : JString := none
  toLocationCode : JString := none
  toLocationName : JString := none
  transferDateTime : JString := none
  transferNo : JString := none
  transferStatus : JString := none
  brand_key : JList := none
  model_key : JList := none
  matCode_key : JList := none
  fromSubStock : JString := none
  toSubStock : JString := none
  createBy : JString := none
  updateBy : JString := none
  remark : JString := none
  vendorCode : JString := none
  vendorName : JString := none
  docRef : JString := none

/-- `cassandraTable(DAMOCLES_KEYSPACE, ORDERTRANSFER_TABLE).where("transactionType=?", type)` -/
def whereTransactionType (ordertransfer : List CassandraRow) (type : String) : List CassandraRow :=
  ordertransfer.filter fun f => f.getString 1 = some type

def byRequestNo (requestGoods : RequestGoods) : JString × RequestGoods :=
  (requestGoods.requestNo, requestGoods)

def byDocRef (orderTransfer : OrderTransfer) : JString × OrderTransfer :=
  (orderTransfer.docRef, orderTransfer)

/-! ## The pipelines -/

/-- What the pipelines share.  The first two foreach catch what `get` throws, the third does
not. -/
def aggregate {α β γ ρ : Type} (spark : Spark) (left : PairRDD α) (first : PairRDD β)
    (second : PairRDD γ) (key : α × Option β → Except JavaException JString)
    (report : (α × Option β) × Option γ → Except JavaException ρ) :
    Except JavaException (List ρ) := do
  let joined := spark.leftOuterJoin left first
  foreach joined fun f => caught (discard (get f.2.2))
  let rekeyed ← joined.mapM fun f => return (← key f.2, f.2)
  foreach rekeyed fun f => caught (discard (get f.2.2))
  let allAggregation := spark.leftOuterJoin rekeyed second
  foreach allAggregation fun f => discard (get f.2.1.2)
  allAggregation.mapM fun f => report f.2

/-- `f._2()._2().get().getTransferNo()` -/
def keyOfTransferOut (f : RequestGoods × Option OrderTransfer) : Except JavaException JString := do
  return (← get f.2).transferNo

/-! ### AlltradeTransferSummaryReport -/

namespace TransferSummary

def requestGoods (f : CassandraRow) : RequestGoods where
  requestNo := f.getString 1
  forSubStock := f.getString 17
  shipToCode := f.getString 36
  shipToName := f.getString 38
  doNo := f.getString 16
  pickingDateTime := f.getString 27
  company := f.getString 11
  toLocationCode := f.getString 43
  toLocationName := f.getString 44
  createDateTime := f.getString 13
  requestStatus := f.getString 2
  reservedNo := f.getString 32
  brand_key := f.getList 4
  model_key := f.getList 5
  matCode_key := f.getList 3
  commercialName_key := f.getList 8
  remark := f.getString 31
  shipToProvince := f.getString 39
  createBy := f.getString 12

/-- setModel_key is called twice, setMatCode_key is not. -/
def orderTransferIn (f : CassandraRow) : OrderTransfer where
  company := f.getString 10
  fromLocationCode := f.getString 16
  fromLocationName := f.getString 17
  toLocationCode := f.getString 31
  toLocationName := f.getString 32
  transferDateTime := f.getString 38
  transferNo := f.getString 40
  transferStatus := f.getString 2
  brand_key := f.getList 4
  model_key := f.getList 3
  fromSubStock := f.getString 22
  toSubStock := f.getString 37
  createBy := f.getString 11
  updateBy := f.getString 41
  docRef := f.getString 14

def orderTransferOut (f : CassandraRow) : OrderTransfer where
  company := f.getString 10
  fromLocationCode := f.getString 16
  fromLocationName := f.getString 17
  toLocationCode := f.getString 31
  toLocationName := f.getString 32
  transferDateTime := f.getString 38
  transferNo := f.getString 40
  transferStatus := f.getString 2
  brand_key := f.getList 4
  model_key := f.getList 5
  matCode_key := f.getList 3
  fromSubStock := f.getString 22
  toSubStock := f.getString 37
  createBy := f.getString 11
  updateBy := f.getString 41
  docRef := f.getString 14

structure Report where
  company : JString
  fromLocationCode : JString
  fromLocationName : JString
  toLocationCode : JString
  toLocationName : JString
  transferOutDateTime : JString
  transferOutNo : JString
  transferOutStatus : JString
  brand_key : JList
  model_key : JList
  matCode_key : JList
  fromSubStock : JString
  toSubStock : JString
  createBy : JString
  updateBy : JString
  transferInDateTime : JString
  transferInNo : JString
  requestNo : JString
  forSubStock : JString
  shipToCode : JString
  shipToName : JString
  doNo : JString
  pickingDateTime : JString

def report (f : (OrderTransfer × Option RequestGoods) × Option OrderTransfer) :
    Except JavaException Report := do
  let transferInNo := f.2.bind (·.transferNo)
  let transferindatetime := f.2.bind (·.transferDateTime)
  let requestGoods ← get f.1.2
  return {
    company := f.1.1.company
    fromLocationCode := f.1.1.fromLocationCode
    fromLocationName := f.1.1.fromLocationName
    toLocationCode := f.1.1.toLocationCode
    toLocationName := f.1.1.toLocationName
    transferOutDateTime := f.1.1.transferDateTime
    transferOutNo := f.1.1.transferNo
    transferOutStatus := f.1.1.transferStatus
    brand_key := f.1.1.brand_key
    model_key := f.1.1.model_key
    matCode_key := f.1.1.matCode_key
    fromSubStock := f.1.1.fromSubStock
    toSubStock := f.1.1.toSubStock
    createBy := f.1.1.createBy
    updateBy := f.1.1.updateBy
    transferInDateTime := transferindatetime
    transferInNo := transferInNo
    requestNo := requestGoods.requestNo
    forSubStock := requestGoods.forSubStock
    shipToCode := requestGoods.shipToCode
    shipToName := requestGoods.shipToName
    doNo := requestGoods.doNo
    pickingDateTime := requestGoods.pickingDateTime }

/-- AggregateTransfer, up to the rows that are saved. -/
def aggregateTransfer (spark : Spark) (requestgoods ordertransfer : List CassandraRow) :
    Except JavaException (List Report) :=
  aggregate spark
    ((whereTransactionType ordertransfer "TransferOut").map (byDocRef ∘ orderTransferOut))
    (requestgoods.map (byRequestNo ∘ requestGoods))
    ((whereTransactionType ordertransfer "TransferIn").map (byDocRef ∘ orderTransferIn))
    (fun f => .ok f.1.transferNo) report

end TransferSummary

/-! ### AlltradeTransferDetailReport -/

namespace TransferDetail

def requestGoods (f : CassandraRow) : RequestGoods where
  createDateTime := f.getString 13
  requestNo := f.getString 1
  forSubStock := f.getString 15

def orderTransferIn (f : CassandraRow) : OrderTransfer where
  transferDateTime := f.getString 38
  transferNo := f.getString 40
  docRef := f.getString 14

def orderTransferOut (f : CassandraRow) : OrderTransfer where
  company := f.getString 10
  fromLocationCode := f.getString 16
  fromLocationName := f.getString 17
  toLocationCode := f.getString 31
  toLocationName := f.getString 32
  transferDateTime := f.getString 38
  transferNo := f.getString 40
  transferStatus := f.getString 2
  brand_key := f.getList 4
  model_key := f.getList 5
  matCode_key := f.getList 3
  fromSubStock := f.getString 22
  toSubStock := f.getString 37
  createBy := f.getString 11
  updateBy := f.getString 41
  remark := f.getString 26
  vendorCode := f.getString 43
  vendorName := f.getString 44
  docRef := f.getString 14

structure Report where
  company : JString
  fromLocationCode : JString
  fromLocationName : JString
  toLocationCode : JString
  toLocationName : JString
  transferOutDateTime : JString
  transferOutNo : JString
  transferInDateTime : JString
  transferInNo : JString
  requestNo : JString
  forSubStock : JString
  brand_key : JList
  model_key : JList
  matCode_key : JList
  fromSubStock : JString
  toSubStock : JString
  createBy : JString
  updateBy : JString
  remark : JString
  vendorCode : JString
  vendorName : JString

/-- A transfer-in that is missing has the number "null". -/
def report (f : (RequestGoods × Option OrderTransfer) × Option OrderTransfer) :
    Except JavaException Report := do
  let createdBy := match f.1.2 with
    | some transferOut => transferOut.createBy
    | none => some "null"
  let transferInNo := match f.2 with
    | some transferIn => transferIn.transferNo
    | none => some "null"
  let transferInDateTime := f.2.bind (·.transferDateTime)
  let transferOut ← get f.1.2
  return {
    company := transferOut.company
    fromLocationCode := transferOut.fromLocationCode
    fromLocationName := transferOut.fromLocationName
    toLocationCode := transferOut.toLocationCode
    toLocationName := transferOut.toLocationName
    transferOutDateTime := transferOut.transferDateTime
    transferOutNo := transferOut.transferNo
    transferInDateTime := transferInDateTime
    transferInNo := transferInNo
    requestNo := f.1.1.requestNo
    forSubStock := f.1.1.forSubStock
    brand_key := transferOut.brand_key
    model_key := transferOut.model_key
    matCode_key := transferOut.matCode_key
    fromSubStock := transferOut.fromSubStock
    toSubStock := transferOut.toSubStock
    createBy := createdBy
    updateBy := transferOut.updateBy
    remark := transferOut.remark
    vendorCode := transferOut.vendorCode
    vendorName := transferOut.vendorName }

/-- AggregateTransfer, up to the rows that are saved. -/
def aggregateTransfer (spark : Spark) (requestgoods ordertransfer : List CassandraRow) :
    Except JavaException (List Report) :=
  aggregate spark (requestgoods.map (byRequestNo ∘ requestGoods))
    ((whereTransactionType ordertransfer "TransferOut").map (byDocRef ∘ orderTransferOut))
    ((whereTransactionType ordertransfer "TransferIn").map (byDocRef ∘ orderTransferIn))
    keyOfTransferOut report

end TransferDetail

/-! ### AlltradeRequestGoodsDetailReport -/

namespace RequestGoodsDetail

def requestGoods (f : CassandraRow) : RequestGoods where
  company := f.getString 11
  toLocationCode := f.getString 44
  toLocationName := f.getString 45
  forSubStock := f.getString 18
  createDateTime := f.getString 14
  requestNo := f.getString 1
  requestStatus := f.getString 2
  reservedNo := f.getString 33
  doNo := f.getString 17
  pickingDateTime := f.getString 28
  brand_key := f.getList 4
  model_key := f.getList 5
  matCode_key := f.getList 3
  commercialName_key := f.getList 8
  remark := f.getString 32
  shipToCode := f.getString 37
  shipToProvince := f.getString 40

/-- For both kinds of transfers. -/
def orderTransfer (f : CassandraRow) : OrderTransfer where
  transferDateTime := f.getString 38
  createBy := f.getString 11
  transferNo := f.getString 40
  docRef := f.getString 14

structure Report where
  requestNo : JString
  company : JString
  toLocationCode : JString
  toLocationName : JString
  forSubStock : JString
  createDateTime : JString
  requestStatus : JString
  reservedNo : JString
  doNo : JString
  pickingDateTime : JString
  transferOutNo : JString
  transferOutDateTime : JString
  createBy : JString
  transferInNo : JString
  transferindatetime : JString
  matCode_key : JList
  brand_key : JList
  model_key : JList
  commercialName_key : JList
  remark : JString
  shipToCode : JString
  shipToProvince : JString

def report (f : (RequestGoods × Option OrderTransfer) × Option OrderTransfer) :
    Except JavaException Report := do
  let createdBy := f.1.2.bind (·.createBy)
  let transferInNo := f.2.bind (·.transferNo)
  let transferindatetime := f.2.bind (·.transferDateTime)
  let transferOut ← get f.1.2
  return {
    requestNo := f.1.1.requestNo
    company := f.1.1.company
    toLocationCode := f.1.1.toLocationCode
    toLocationName := f.1.1.toLocationName
    forSubStock := f.1.1.forSubStock
    createDateTime := f.1.1.createDateTime
    requestStatus := f.1.1.requestStatus
    reservedNo := f.1.1.reservedNo
    doNo := f.1.1.doNo
    pickingDateTime := f.1.1.pickingDateTime
    transferOutNo := transferOut.transferNo
    transferOutDateTime := transferOut.transferDateTime
    createBy := createdBy
    transferInNo := transferInNo
    transferindatetime := transferindatetime
    matCode_key := f.1.1.matCode_key
    brand_key := f.1.1.brand_key
    model_key := f.1.1.model_key
    commercialName_key := f.1.1.commercialName_key
    remark := f.1.1.remark
    shipToCode := f.1.1.shipToCode
    shipToProvince := f.1.1.shipToProvince }

/-- AggregateRequestGoodsDetail, up to the rows that are saved. -/
def aggregateRequestGoodsDetail (spark : Spark) (requestgoods ordertransfer : List CassandraRow) :
    Except JavaException (List Report) :=
  aggregate spark (requestgoods.map (byRequestNo ∘ requestGoods))
    ((whereTransactionType ordertransfer "TransferOut").map (byDocRef ∘ orderTransfer))
    ((whereTransactionType ordertransfer "TransferIn").map (byDocRef ∘ orderTransfer))
    keyOfTransferOut report

end RequestGoodsDetail

/-! ## The rows to be reported -/

/-- A side that is missing counts as a record whose fields are all null. -/
def withNulls {α β γ : Type} (β₀ : β) (γ₀ : γ) (f : (α × Option β) × Option γ) :
    (α × Option β) × Option γ :=
  ((f.1.1, some (f.1.2.getD β₀)), some (f.2.getD γ₀))

/-- The pipeline completes, and its rows are the expected ones in some order. -/
def Yields {ρ : Type} (result : Except JavaException (List ρ))
    (expected : List (Except JavaException ρ)) : Prop :=
  ∃ rows, result = .ok rows ∧ (rows.map Except.ok).Perm expected

def transferNoOf (f : RequestGoods × Option OrderTransfer) : JString := f.2.bind (·.transferNo)

/-- Every transfer-out with its request-goods, and each time with its transfer-in. -/
def TransferSummary.expected (requestgoods ordertransfer : List CassandraRow) :
    List (Except JavaException Report) :=
  (nestedRows ((whereTransactionType ordertransfer "TransferOut").map (byDocRef ∘ orderTransferOut))
    (requestgoods.map (byRequestNo ∘ requestGoods)) (·.1.transferNo)
    ((whereTransactionType ordertransfer "TransferIn").map (byDocRef ∘ orderTransferIn))).map
      (report ∘ withNulls {} {})

/-- All request-goods with their transfer-out, and each time with their transfer-in. -/
def TransferDetail.expected (requestgoods ordertransfer : List CassandraRow) :
    List (Except JavaException Report) :=
  (nestedRows (requestgoods.map (byRequestNo ∘ requestGoods))
    ((whereTransactionType ordertransfer "TransferOut").map (byDocRef ∘ orderTransferOut))
    transferNoOf
    ((whereTransactionType ordertransfer "TransferIn").map (byDocRef ∘ orderTransferIn))).map
      (report ∘ withNulls {} {})

def RequestGoodsDetail.expected (requestgoods ordertransfer : List CassandraRow) :
    List (Except JavaException Report) :=
  (nestedRows (requestgoods.map (byRequestNo ∘ requestGoods))
    ((whereTransactionType ordertransfer "TransferOut").map (byDocRef ∘ orderTransfer))
    transferNoOf
    ((whereTransactionType ordertransfer "TransferIn").map (byDocRef ∘ orderTransfer))).map
      (report ∘ withNulls {} {})

/-- The columns that are joined on. -/
structure NonNullKeys (requestgoods ordertransfer : List CassandraRow) : Prop where
  requestNo : ∀ f ∈ requestgoods, f.getString 1 ≠ none
  docRef : ∀ f ∈ ordertransfer, f.getString 14 ≠ none
  transferNo : ∀ f ∈ ordertransfer, f.getString 40 ≠ none

/-- No join leaves a side empty. -/
structure AllMatched (requestgoods ordertransfer : List CassandraRow) : Prop where
  outHasRequest : ∀ f ∈ whereTransactionType ordertransfer "TransferOut",
    ∃ g ∈ requestgoods, g.getString 1 = f.getString 14
  requestHasOut : ∀ g ∈ requestgoods,
    ∃ f ∈ whereTransactionType ordertransfer "TransferOut", f.getString 14 = g.getString 1
  outHasIn : ∀ f ∈ whereTransactionType ordertransfer "TransferOut",
    ∃ h ∈ whereTransactionType ordertransfer "TransferIn", h.getString 14 = f.getString 40

/-- The three reports are as expected. -/
structure ReportsRight (spark : Spark) (requestgoods ordertransfer : List CassandraRow) : Prop where
  summary : Yields (TransferSummary.aggregateTransfer spark requestgoods ordertransfer)
    (TransferSummary.expected requestgoods ordertransfer)
  transferDetail : Yields (TransferDetail.aggregateTransfer spark requestgoods ordertransfer)
    (TransferDetail.expected requestgoods ordertransfer)
  requestDetail : Yields
    (RequestGoodsDetail.aggregateRequestGoodsDetail spark requestgoods ordertransfer)
    (RequestGoodsDetail.expected requestgoods ordertransfer)

/-! ## Exceptions -/

section Exceptions

variable {α β γ ρ : Type}

theorem bind_ok_iff {x : Except JavaException α} {f : α → Except JavaException β} {b : β} :
    (x >>= f) = .ok b ↔ ∃ a, x = .ok a ∧ f a = .ok b := by
  cases x with
  | error e =>
    exact iff_of_false (fun h => by cases h) fun ⟨_, h, _⟩ => by cases h
  | ok a =>
    exact ⟨fun h => ⟨a, rfl, h⟩, fun ⟨_, h, h'⟩ => by cases h; exact h'⟩

theorem mapM_eq_ok {f : α → Except JavaException β} {xs : List α} {ys : List β} :
    xs.mapM f = .ok ys ↔ ys.map Except.ok = xs.map f := by
  induction xs generalizing ys with
  | nil =>
    cases ys with
    | nil => exact iff_of_true rfl rfl
    | cons y ys => exact iff_of_false (fun h => by cases h) fun h => by cases h
  | cons x xs ih =>
    rw [List.mapM_cons, bind_ok_iff, List.map_cons]
    constructor
    · rintro ⟨y, hy, hrest⟩
      obtain ⟨zs, hzs, hcons⟩ := bind_ok_iff.1 hrest
      cases hcons
      rw [List.map_cons, hy, ih.1 hzs]
    · intro h
      cases ys with
      | nil => cases h
      | cons y ys =>
        rw [List.map_cons, List.cons.injEq] at h
        exact ⟨y, h.1.symm, bind_ok_iff.2 ⟨ys, ih.2 h.2, rfl⟩⟩

theorem exists_map_ok {f : α → Except JavaException β} {xs : List α}
    (h : ∀ x ∈ xs, ∃ y, f x = .ok y) : ∃ ys : List β, ys.map Except.ok = xs.map f := by
  induction xs with
  | nil => exact ⟨[], rfl⟩
  | cons x xs ih =>
    rw [List.forall_mem_cons] at h
    obtain ⟨y, hy⟩ := h.1
    obtain ⟨ys, hys⟩ := ih h.2
    exact ⟨y :: ys, by rw [List.map_cons, List.map_cons, hy, hys]⟩

/-- Two lists that are the same but for their order, where one has the mark wherever the other
has it, have it in the same places. -/
theorem mark_of_perm {f g : α → β} {q : β → Bool} {xs : List α}
    (hperm : (xs.map f).Perm (xs.map g)) (hle : ∀ x ∈ xs, q (g x) → q (f x)) :
    ∀ x ∈ xs, q (f x) → q (g x) := by
  have hcount : xs.countP (q ∘ f) = xs.countP (q ∘ g) := by
    simpa only [List.countP_map] using hperm.countP_eq q
  clear hperm
  induction xs with
  | nil => simp
  | cons x xs ih =>
    rw [List.forall_mem_cons] at hle ⊢
    have hmono := List.countP_mono_left (p := q ∘ g) (q := q ∘ f) hle.2
    simp only [List.countP_cons, Function.comp_apply] at hcount
    have hx := hle.1
    refine ⟨fun hfx => ?_, ih hle.2 ?_⟩
    · by_contra hgx
      rw [if_pos hfx, if_neg hgx] at hcount
      omega
    · split_ifs at hcount with hfx hgx hgx
      · omega
      · omega
      · exact absurd (hx hgx) hfx
      · omega

theorem mapM_ok {f : α → Except JavaException β} {g : α → β} {xs : List α}
    (h : ∀ x ∈ xs, f x = .ok (g x)) : xs.mapM f = .ok (xs.map g) := by
  rw [mapM_eq_ok, List.map_map]
  exact List.map_congr_left fun x hx => (h x hx).symm

theorem foreach_eq_ok {f : α → Except JavaException Unit} {rdd : List α} :
    foreach rdd f = .ok () ↔ ∀ x ∈ rdd, f x = .ok () := by
  induction rdd with
  | nil => exact iff_of_true rfl fun _ h => absurd h List.not_mem_nil
  | cons x rdd ih =>
    rw [List.forall_mem_cons, ← ih]
    change (f x >>= fun _ => foreach rdd f) = .ok () ↔ _
    rw [bind_ok_iff]
    exact ⟨fun ⟨_, h, h'⟩ => ⟨h, h'⟩, fun ⟨h, h'⟩ => ⟨(), h, h'⟩⟩

theorem caught_ok (x : Except JavaException Unit) : caught x = .ok () := by
  rcases x with ⟨⟨⟩⟩ | _ <;> rfl

theorem discard_get_eq_ok {x : Option α} : discard (get x) = .ok () ↔ x ≠ none := by
  cases x with
  | none => exact iff_of_false (fun h => by cases h) fun h => h rfl
  | some a => exact iff_of_true rfl (Option.some_ne_none a)

end Exceptions

/-! ## The pipelines' runs -/

section Aggregate

variable {α β γ ρ : Type} {spark : Spark} {left : PairRDD α} {first : PairRDD β}
  {second : PairRDD γ} {key : α × Option β → Except JavaException JString}
  {report : (α × Option β) × Option γ → Except JavaException ρ}

/-- Every row of the left table has a partner in the first join. -/
def Matched {α β : Type} (left : PairRDD α) (first : PairRDD β) : Prop :=
  ∀ q ∈ left, ∃ q' ∈ first, q'.1 = q.1

/-- When a pipeline completes, and what it yields. -/
theorem aggregate_eq_ok {rows : List ρ} : aggregate spark left first second key report = .ok rows ↔
    ∃ rekeyed, (spark.leftOuterJoin left first).mapM (fun f => return (← key f.2, f.2)) =
        .ok rekeyed ∧
      (∀ f ∈ spark.leftOuterJoin rekeyed second, f.2.1.2 ≠ none) ∧
      rows.map Except.ok = (spark.leftOuterJoin rekeyed second).map fun f => report f.2 := by
  have hcaught : ∀ rdd : PairRDD (α × Option β),
      foreach rdd (fun f => caught (discard (get f.2.2))) = .ok () :=
    fun rdd => foreach_eq_ok.2 fun f _ => caught_ok _
  rw [aggregate, bind_ok_iff]
  constructor
  · rintro ⟨-, -, h⟩
    obtain ⟨rekeyed, hrekeyed, h⟩ := bind_ok_iff.1 h
    obtain ⟨-, -, h⟩ := bind_ok_iff.1 h
    obtain ⟨⟨⟩, hprinted, h⟩ := bind_ok_iff.1 h
    refine ⟨rekeyed, hrekeyed, fun f hf => ?_, mapM_eq_ok.1 h⟩
    exact discard_get_eq_ok.1 (foreach_eq_ok.1 hprinted f hf)
  · rintro ⟨rekeyed, hrekeyed, hpresent, hrows⟩
    refine ⟨(), hcaught _, bind_ok_iff.2 ⟨rekeyed, hrekeyed, bind_ok_iff.2 ⟨(), hcaught _, ?_⟩⟩⟩
    refine bind_ok_iff.2 ⟨(), foreach_eq_ok.2 fun f hf => ?_, mapM_eq_ok.2 hrows⟩
    exact discard_get_eq_ok.2 (hpresent f hf)

/-- With a new key that is never null, a pipeline only completes when the first join leaves
nothing empty. -/
theorem matched_of_ok (hleft : NonNull left) (hfirst : NonNull first) (hsecond : NonNull second)
    (hkey : ∀ p ∈ Lib.leftOuterJoin left first, ∀ k, key p.2 = .ok k → k ≠ none) {rows : List ρ}
    (h : aggregate spark left first second key report = .ok rows) : Matched left first := by
  obtain ⟨rekeyed, hrekeyed, hpresent, -⟩ := aggregate_eq_ok.1 h
  have hjoin := spark.relational left first hleft hfirst
  rw [mapM_eq_ok] at hrekeyed
  have hsource : ∀ p ∈ rekeyed, ∃ f ∈ Lib.leftOuterJoin left first,
      key f.2 = .ok p.1 ∧ p.2 = f.2 := by
    intro p hp
    have hmem : (Except.ok p : Except JavaException _) ∈ rekeyed.map Except.ok :=
      List.mem_map_of_mem hp
    rw [hrekeyed] at hmem
    obtain ⟨f, hf, hfp⟩ := List.mem_map.1 hmem
    obtain ⟨k, hk, hpair⟩ := bind_ok_iff.1 hfp
    cases hpair
    exact ⟨f, hjoin.mem_iff.1 hf, hk, rfl⟩
  have hrekeyedNonNull : NonNull rekeyed := fun p hp => by
    obtain ⟨f, hf, hk, -⟩ := hsource p hp
    exact hkey f hf p.1 hk
  refine all_present.1 fun f hf => ?_
  -- the row is there after the new key and the second join
  have hmem : (do return (← key f.2, f.2) : Except JavaException _) ∈ rekeyed.map Except.ok := by
    rw [hrekeyed]
    exact List.mem_map_of_mem (hjoin.mem_iff.2 hf)
  obtain ⟨p, hp, hpf⟩ := List.mem_map.1 hmem
  obtain ⟨k, -, hpair⟩ := bind_ok_iff.1 hpf.symm
  cases hpair
  obtain ⟨c, hc⟩ : ∃ c, c ∈ orNull (partners second k) :=
    List.exists_mem_of_ne_nil _ (by cases partners second k <;> simp [orNull])
  have hlast : (k, (f.2, c)) ∈ Lib.leftOuterJoin rekeyed second := mem_leftOuterJoin.2 ⟨hp, hc⟩
  exact hpresent _ ((spark.relational rekeyed second hrekeyedNonNull hsecond).mem_iff.2 hlast)

/-- If it leaves nothing empty, the rows are made of all combinations. -/
theorem aggregate_matched {keyOf : α × Option β → JString} (hleft : NonNull left)
    (hfirst : NonNull first) (hsecond : NonNull second) (matched : Matched left first)
    (hkey : ∀ f : α × Option β, f.2 ≠ none → key f = .ok (keyOf f))
    (hkeys : ∀ p ∈ Lib.leftOuterJoin left first, ∀ k, key p.2 = .ok k → k ≠ none) :
    ∃ all : List ((α × Option β) × Option γ), all.Perm (nestedRows left first keyOf second) ∧
      (∀ f ∈ all, f.1.2 ≠ none) ∧
      ∀ rows, aggregate spark left first second key report = .ok rows ↔
        rows.map Except.ok = all.map report := by
  have hjoin := spark.relational left first hleft hfirst
  have hpresent : ∀ f ∈ spark.leftOuterJoin left first, f.2.2 ≠ none :=
    fun f hf => all_present.2 matched f (hjoin.mem_iff.1 hf)
  have hrekeyed : (spark.leftOuterJoin left first).mapM (fun f => return (← key f.2, f.2)) =
      .ok ((spark.leftOuterJoin left first).map fun f => (keyOf f.2, f.2)) :=
    mapM_ok fun f hf => by rw [hkey f.2 (hpresent f hf)]; rfl
  have hperm : ((spark.leftOuterJoin left first).map fun f => (keyOf f.2, f.2)).Perm
      ((Lib.leftOuterJoin left first).map fun f => (keyOf f.2, f.2)) := hjoin.map _
  have hnonNull : NonNull ((spark.leftOuterJoin left first).map fun f => (keyOf f.2, f.2)) := by
    intro p hp
    obtain ⟨f, hf, rfl⟩ := List.mem_map.1 hp
    exact hkeys f (hjoin.mem_iff.1 hf) _ (hkey f.2 (hpresent f hf))
  have hall := (spark.relational _ second hnonNull hsecond).trans (leftOuterJoin_perm hperm second)
  have hlast : ∀ f ∈ spark.leftOuterJoin
      ((spark.leftOuterJoin left first).map fun f => (keyOf f.2, f.2)) second, f.2.1.2 ≠ none := by
    intro f hf
    obtain ⟨hmem, -⟩ := mem_leftOuterJoin.1 (hall.mem_iff.1 hf)
    obtain ⟨f', hf', heq⟩ := List.mem_map.1 hmem
    have hsnd : f'.2 = f.2.1 := congrArg Prod.snd heq
    rw [← hsnd]
    exact all_present.2 matched f' hf'
  refine ⟨_, by simpa only [join_join] using hall.map Prod.snd, ?_, fun rows => ?_⟩
  · exact List.forall_mem_map.2 hlast
  · rw [aggregate_eq_ok, List.map_map]
    constructor
    · rintro ⟨rekeyed, h, -, hrows⟩
      cases h.symm.trans hrekeyed
      exact hrows
    · exact fun hrows => ⟨_, hrekeyed, hlast, hrows⟩

/-- Rows that are the same with null fields for a missing side. -/
theorem yields_of_same {β₀ : β} {γ₀ : γ} {result : Except JavaException (List ρ)}
    {all rows : List ((α × Option β) × Option γ)} (hall : all.Perm rows)
    (hresult : ∀ out, result = .ok out ↔ out.map Except.ok = all.map report)
    (hok : ∀ f ∈ all, ∃ y, report f = .ok y)
    (hsame : ∀ f ∈ all, report f = report (withNulls β₀ γ₀ f)) :
    Yields result (rows.map (report ∘ withNulls β₀ γ₀)) := by
  obtain ⟨out, hout⟩ := exists_map_ok hok
  have hnulls : all.map report = all.map (report ∘ withNulls β₀ γ₀) := List.map_congr_left hsame
  refine ⟨out, (hresult out).2 hout, ?_⟩
  rw [hout, hnulls]
  exact hall.map _

/-- A report that sees no difference between a missing side and null fields is right if and only
if every row of the left table has a partner in the first join. -/
theorem yields_iff {keyOf : α × Option β → JString} {β₀ : β} {γ₀ : γ} (hleft : NonNull left)
    (hfirst : NonNull first) (hsecond : NonNull second)
    (hkey : ∀ f : α × Option β, f.2 ≠ none → key f = .ok (keyOf f))
    (hkeys : ∀ p ∈ Lib.leftOuterJoin left first, ∀ k, key p.2 = .ok k → k ≠ none)
    (hok : ∀ f, f.1.2 ≠ none → ∃ y, report f = .ok y)
    (hsame : ∀ f, f.1.2 ≠ none → report f = report (withNulls β₀ γ₀ f)) :
    Yields (aggregate spark left first second key report)
      ((nestedRows left first keyOf second).map (report ∘ withNulls β₀ γ₀)) ↔
      Matched left first := by
  constructor
  · rintro ⟨rows, hrows, -⟩
    exact matched_of_ok hleft hfirst hsecond hkeys hrows
  · intro matched
    obtain ⟨all, hperm, hpresent, hresult⟩ :=
      aggregate_matched hleft hfirst hsecond matched hkey hkeys
    exact yields_of_same hperm hresult (fun f hf => hok f (hpresent f hf))
      fun f hf => hsame f (hpresent f hf)

theorem matched_map {σ τ : Type} {f : σ → JString × α} {g : τ → JString × β} {xs : List σ}
    {ys : List τ} : Matched (xs.map f) (ys.map g) ↔ ∀ x ∈ xs, ∃ y ∈ ys, (g y).1 = (f x).1 := by
  simp [Matched]

end Aggregate

/-! ## The reports -/

section Tables

variable {spark : Spark} {requestgoods ordertransfer : List CassandraRow}

theorem byRequestNo_nonNull (keys : NonNullKeys requestgoods ordertransfer)
    (load : CassandraRow → RequestGoods) (hload : ∀ f, (load f).requestNo = f.getString 1) :
    NonNull (requestgoods.map (byRequestNo ∘ load)) := by
  intro p hp
  obtain ⟨f, hf, rfl⟩ := List.mem_map.1 hp
  exact fun hnull => keys.requestNo f hf ((hload f).symm.trans hnull)

theorem byDocRef_nonNull (keys : NonNullKeys requestgoods ordertransfer) (type : String)
    (load : CassandraRow → OrderTransfer) (hload : ∀ f, (load f).docRef = f.getString 14) :
    NonNull ((whereTransactionType ordertransfer type).map (byDocRef ∘ load)) := by
  intro p hp
  obtain ⟨f, hf, rfl⟩ := List.mem_map.1 hp
  exact fun hnull => keys.docRef f (List.mem_of_mem_filter hf) ((hload f).symm.trans hnull)

/-- Every transfer-out has its request-goods. -/
def OutHasRequest (requestgoods ordertransfer : List CassandraRow) : Prop :=
  ∀ f ∈ whereTransactionType ordertransfer "TransferOut",
    ∃ g ∈ requestgoods, g.getString 1 = f.getString 14

/-- All request-goods have a transfer-out. -/
def RequestHasOut (requestgoods ordertransfer : List CassandraRow) : Prop :=
  ∀ g ∈ requestgoods,
    ∃ f ∈ whereTransactionType ordertransfer "TransferOut", f.getString 14 = g.getString 1

theorem summary_iff (spark : Spark) (keys : NonNullKeys requestgoods ordertransfer) :
    Yields (TransferSummary.aggregateTransfer spark requestgoods ordertransfer)
      (TransferSummary.expected requestgoods ordertransfer) ↔
      OutHasRequest requestgoods ordertransfer := by
  refine (yields_iff (byDocRef_nonNull keys _ _ fun _ => rfl)
    (byRequestNo_nonNull keys _ fun _ => rfl) (byDocRef_nonNull keys _ _ fun _ => rfl)
    (fun _ _ => rfl) ?_ ?_ ?_).trans matched_map
  · rintro p hp k ⟨⟩
    obtain ⟨f, hf, heq⟩ := List.mem_map.1 (mem_leftOuterJoin.1 hp).1
    have hsnd : TransferSummary.orderTransferOut f = p.2.1 := congrArg Prod.snd heq
    rw [← hsnd]
    exact keys.transferNo f (List.mem_of_mem_filter hf)
  · rintro ⟨⟨transferOut, _ | requestGoods⟩, transferIn⟩ hpresent
    · exact absurd rfl hpresent
    · exact ⟨_, rfl⟩
  · rintro ⟨⟨transferOut, _ | requestGoods⟩, _ | transferIn⟩ hpresent
    · exact absurd rfl hpresent
    · exact absurd rfl hpresent
    · rfl
    · rfl

/-- The key that is read from the transfer-out is not null. -/
theorem keyOfTransferOut_nonNull (keys : NonNullKeys requestgoods ordertransfer)
    (left : PairRDD RequestGoods) (load : CassandraRow → OrderTransfer)
    (hload : ∀ f, (load f).transferNo = f.getString 40) :
    ∀ p ∈ Lib.leftOuterJoin left
        ((whereTransactionType ordertransfer "TransferOut").map (byDocRef ∘ load)),
      ∀ k, keyOfTransferOut p.2 = .ok k → k ≠ none := by
  rintro ⟨key, requestGoods, transferOut⟩ hp k hk
  obtain ⟨t, ht, hpure⟩ := bind_ok_iff.1 hk
  cases hpure
  cases transferOut with
  | none => cases ht
  | some t' =>
    cases ht
    have hmem := mem_partners.1 (some_mem_orNull.1 (mem_leftOuterJoin.1 hp).2)
    obtain ⟨f, hf, heq⟩ := List.mem_map.1 hmem
    have hsnd : load f = t := congrArg Prod.snd heq
    rw [← hsnd, hload]
    exact keys.transferNo f (List.mem_of_mem_filter hf)

theorem keyOfTransferOut_eq {f : RequestGoods × Option OrderTransfer} (h : f.2 ≠ none) :
    keyOfTransferOut f = .ok (transferNoOf f) := by
  obtain ⟨requestGoods, _ | transferOut⟩ := f
  · exact absurd rfl h
  · rfl

theorem requestDetail_iff (spark : Spark) (keys : NonNullKeys requestgoods ordertransfer) :
    Yields (RequestGoodsDetail.aggregateRequestGoodsDetail spark requestgoods ordertransfer)
      (RequestGoodsDetail.expected requestgoods ordertransfer) ↔
      RequestHasOut requestgoods ordertransfer := by
  refine (yields_iff (byRequestNo_nonNull keys _ fun _ => rfl)
    (byDocRef_nonNull keys _ _ fun _ => rfl) (byDocRef_nonNull keys _ _ fun _ => rfl)
    (fun _ => keyOfTransferOut_eq) (keyOfTransferOut_nonNull keys _ _ fun _ => rfl)
    ?_ ?_).trans matched_map
  · rintro ⟨⟨requestGoods, _ | transferOut⟩, transferIn⟩ hpresent
    · exact absurd rfl hpresent
    · exact ⟨_, rfl⟩
  · rintro ⟨⟨requestGoods, _ | transferOut⟩, _ | transferIn⟩ hpresent
    · exact absurd rfl hpresent
    · exact absurd rfl hpresent
    · rfl
    · rfl

/-- Every transfer-out of some request-goods has its transfer-in. -/
def OutHasIn (requestgoods ordertransfer : List CassandraRow) : Prop :=
  ∀ g ∈ requestgoods, ∀ f ∈ whereTransactionType ordertransfer "TransferOut",
    f.getString 14 = g.getString 1 →
      ∃ h ∈ whereTransactionType ordertransfer "TransferIn", h.getString 14 = f.getString 40

theorem outHasIn_iff (hasOut : RequestHasOut requestgoods ordertransfer) :
    (∀ f ∈ nestedRows (requestgoods.map (byRequestNo ∘ TransferDetail.requestGoods))
        ((whereTransactionType ordertransfer "TransferOut").map
          (byDocRef ∘ TransferDetail.orderTransferOut)) transferNoOf
        ((whereTransactionType ordertransfer "TransferIn").map
          (byDocRef ∘ TransferDetail.orderTransferIn)), f.2 ≠ none) ↔
      OutHasIn requestgoods ordertransfer := by
  have matched : Matched (requestgoods.map (byRequestNo ∘ TransferDetail.requestGoods))
      ((whereTransactionType ordertransfer "TransferOut").map
        (byDocRef ∘ TransferDetail.orderTransferOut)) := matched_map.2 hasOut
  refine (nestedRows_present matched).trans ?_
  simp only [List.forall_mem_map, OutHasIn]
  refine forall₂_congr fun g _ => forall₂_congr fun f _ => imp_congr_right fun _ => ?_
  simp [transferNoOf, byDocRef, TransferDetail.orderTransferIn, TransferDetail.orderTransferOut]

/-- The row has the number "null" for its transfer-in. -/
def marked : Except JavaException TransferDetail.Report → Bool
  | .ok row => row.transferInNo = some "null"
  | .error _ => false

/-- The transfer detail differs from what is expected where a transfer-in is missing. -/
theorem transferDetail_iff (spark : Spark) (keys : NonNullKeys requestgoods ordertransfer) :
    Yields (TransferDetail.aggregateTransfer spark requestgoods ordertransfer)
      (TransferDetail.expected requestgoods ordertransfer) ↔
      RequestHasOut requestgoods ordertransfer ∧ OutHasIn requestgoods ordertransfer := by
  have hrequest := byRequestNo_nonNull keys TransferDetail.requestGoods fun _ => rfl
  have hout := byDocRef_nonNull keys "TransferOut" TransferDetail.orderTransferOut fun _ => rfl
  have hin := byDocRef_nonNull keys "TransferIn" TransferDetail.orderTransferIn fun _ => rfl
  have hkeys := keyOfTransferOut_nonNull keys
    (requestgoods.map (byRequestNo ∘ TransferDetail.requestGoods))
    TransferDetail.orderTransferOut fun _ => rfl
  constructor
  · rintro ⟨rows, hrows, hperm⟩
    have matched := matched_of_ok hrequest hout hin hkeys hrows
    obtain ⟨all, hall, hpresent, hresult⟩ :=
      aggregate_matched hrequest hout hin matched (fun _ => keyOfTransferOut_eq) hkeys
    rw [(hresult rows).1 hrows] at hperm
    -- a row of a missing transfer-in has a mark that the expected one has not
    have hmark := mark_of_perm (q := marked) (hperm.trans (hall.map _).symm) <| by
      rintro ⟨⟨requestGoods, _ | transferOut⟩, _ | transferIn⟩ hf
      · exact absurd rfl (hpresent _ hf)
      · exact absurd rfl (hpresent _ hf)
      · exact fun _ => rfl
      · exact id
    have hasOut := matched_map.1 matched
    refine ⟨hasOut, (outHasIn_iff hasOut).1 ?_⟩
    rintro ⟨⟨requestGoods, _ | transferOut⟩, _ | transferIn⟩ hf
    · exact absurd rfl (hpresent _ (hall.mem_iff.2 hf))
    · exact absurd rfl (hpresent _ (hall.mem_iff.2 hf))
    · exact absurd (hmark _ (hall.mem_iff.2 hf) rfl) Bool.false_ne_true
    · exact Option.some_ne_none _
  · rintro ⟨hasOut, hasIn⟩
    obtain ⟨all, hall, hpresent, hresult⟩ :=
      aggregate_matched hrequest hout hin (matched_map.2 hasOut) (fun _ => keyOfTransferOut_eq)
        hkeys
    have hfull := (outHasIn_iff hasOut).2 hasIn
    refine yields_of_same hall hresult ?_ ?_
    · rintro ⟨⟨requestGoods, _ | transferOut⟩, transferIn⟩ hf
      · exact absurd rfl (hpresent _ hf)
      · exact ⟨_, rfl⟩
    · rintro ⟨⟨requestGoods, _ | transferOut⟩, _ | transferIn⟩ hf
      · exact absurd rfl (hpresent _ hf)
      · exact absurd rfl (hpresent _ hf)
      · exact absurd rfl (hfull _ (hall.mem_iff.1 hf))
      · rfl

/-- With keys that are not null, the reports are right if and only if no join leaves a side
empty. -/
theorem reports_iff (spark : Spark) (keys : NonNullKeys requestgoods ordertransfer) :
    ReportsRight spark requestgoods ordertransfer ↔ AllMatched requestgoods ordertransfer := by
  constructor
  · rintro ⟨summary, transferDetail, requestDetail⟩
    have hasRequest := (summary_iff spark keys).1 summary
    obtain ⟨hasOut, hasIn⟩ := (transferDetail_iff spark keys).1 transferDetail
    refine ⟨hasRequest, hasOut, fun f hf => ?_⟩
    obtain ⟨g, hg, hkey⟩ := hasRequest f hf
    exact hasIn g hg f hf hkey.symm
  · rintro ⟨hasRequest, hasOut, hasIn⟩
    exact ⟨(summary_iff spark keys).2 hasRequest,
      (transferDetail_iff spark keys).2 ⟨hasOut, fun _ _ f hf _ => hasIn f hf⟩,
      (requestDetail_iff spark keys).2 hasOut⟩

end Tables

/-- The relational join in its own order. -/
def nestedLoop : Spark where
  leftOuterJoin := Lib.leftOuterJoin
  relational _ _ _ _ := .refl _

/-- A row with its transaction type or request number, its document and its transfer number. -/
def rowOf (first docRef transferNo : String) : CassandraRow where
  getString column :=
    if column = 1 then first else if column = 14 then docRef
    else if column = 40 then transferNo else none
  getList _ := none

theorem reports_one_transfer : ReportsRight nestedLoop [rowOf "R1" "" ""]
    [rowOf "TransferOut" "R1" "T1", rowOf "TransferIn" "T1" "T2"] :=
  (reports_iff nestedLoop ⟨by simp [rowOf], by simp [rowOf], by simp [rowOf]⟩).2
    ⟨by simp [rowOf, whereTransactionType], by simp [rowOf, whereTransactionType],
      by simp [rowOf, whereTransactionType]⟩

/-- Request-goods without any transfer are in no report: two of the pipelines end with an
exception. -/
theorem request_without_transfer : NonNullKeys [rowOf "R1" "" ""] [] ∧
    ¬ ReportsRight nestedLoop [rowOf "R1" "" ""] [] := by
  refine ⟨⟨by simp [rowOf], by simp, by simp⟩, ?_⟩
  rintro ⟨-, ⟨rows, hrows, -⟩, -⟩
  cases hrows

end CassandraApi.Reports
