import Krishiv.Ivm.Changelog

/-!
# The key-partitioned flow

`PartitionedIncrementalFlow` is a list of flows with the same views. A fed row goes to the shard its
key hashes to, all shards step, and reads put the shards' answers together: snapshots are
concatenated, deltas of one tick number are concatenated.

A shard's tick may also be ended by a failure outside the modelled code (the SQL context, the memory
pool); then its deltas go back (`failStep`).
-/

namespace Krishiv.Ivm

open Krishiv.Delta

variable {P : Type}

/-! ## Routing -/

/-- Types that hash alike; the three string encodings do. -/
inductive HashClass where
  | i32
  | i64
  | f64
  | utf8
  | bool
deriving DecidableEq, Repr

def partitionKeyHashClass : DataType → Option HashClass
  | .int32 => some .i32
  | .int64 => some .i64
  | .float64 => some .f64
  | .utf8 | .largeUtf8 | .utf8View => some .utf8
  | .boolean => some .bool
  | _ => none

/-- The leading 64 bits of the SHA-256 digests: of a key under its class, and of a null key. A float
arrives with its `NaN` payload and the sign of zero made canonical. -/
structure KeyHash where
  digest : HashClass → Value → ℕ
  nullDigest : ℕ

def shardIndex (h : KeyHash) (cls : HashClass) (n : ℕ) (key : Value) : ℕ :=
  (if key = .null then h.nullDigest else h.digest cls key) % n

/-- The code points of Unicode `White_Space`, which `str::trim` removes. -/
def isTrimmed (c : Char) : Bool :=
  let n := c.toNat
  (9 ≤ n && n ≤ 13) || n = 0x20 || n = 0x85 || n = 0xA0 || n = 0x1680 ||
    (0x2000 ≤ n && n ≤ 0x200A) || n = 0x2028 || n = 0x2029 || n = 0x202F || n = 0x205F || n = 0x3000

/-- The columns of the weighted batch: the weight is its last column and can be named as the key. -/
def weightedSchema (schema : Schema) : Schema := schema ++ [⟨"_weight", .int64, false⟩]

/-- The cells of a weighted row. -/
def weightedRow (p : Row × ℤ) : Row := p.1 ++ [.int p.2]

def partitionErr (msg : String) : IvmError := .execution ("invalid partitioning input: " ++ msg)

/-- `partition_record_batches_by_key_with_nulls` on one weighted batch, with a shard for nulls: the
rows of each shard in their order. -/
def partitionByKey (h : KeyHash) (d : DeltaBatch) (keyColumn : String) (n : ℕ) : IvmResult (List DeltaBatch) :=
  if n = 0 then .error (partitionErr "shard count must be greater than zero")
  else if keyColumn.toList.all isTrimmed then
    .error (partitionErr "partition key column must not be empty")
  else
    match (weightedSchema d.schema).findIdx? fun f => f.name = keyColumn with
    | none => .error (partitionErr ("batch 0 is missing key column '" ++ keyColumn ++ "'"))
    | some i =>
      let keyType := ((weightedSchema d.schema)[i]?.map Field.dataType).getD (.other "")
      match partitionKeyHashClass keyType with
      | none => .error (partitionErr ("batch 0 key column '" ++ keyColumn ++
          "' has unsupported type " ++ keyType.display ++
          "; expected Int32, Int64, Float64, Utf8, or Boolean"))
      | some cls => .ok ((List.range n).map fun k =>
          d.filterMask fun p => shardIndex h cls n ((weightedRow p).getD i .null) = k)

/-! ## The flow -/

/-- A shard: a flow with its cached tick context. -/
structure Shard (P : Type) where
  inner : Inner P
  ctx : TickCtx

structure PartitionedFlow (P : Type) where
  shards : List (Shard P)
  keyColumn : String
  streamingPrev : NameMap RecordBatch
  routedKeyType : Option (HashClass × String)

namespace PartitionedFlow

def new (n : ℕ) (keyColumn : String) : PartitionedFlow P where
  shards := List.replicate (max n 1) ⟨.new, .fresh⟩
  keyColumn := keyColumn
  streamingPrev := ∅
  routedKeyType := none

def registerView (env : Env P) (f : PartitionedFlow P) (spec : IncrementalViewSpec) : PartitionedFlow P :=
  { f with shards := f.shards.map fun s => { s with inner := Ivm.registerView env s.inner spec } }

def setOutputRetention (f : PartitionedFlow P) (deltas bytes : ℕ) : PartitionedFlow P :=
  { f with shards := f.shards.map fun s =>
      { s with inner := Ivm.setOutputRetention s.inner deltas bytes } }

/-- Remember the class of the first routed key type; another class is refused. -/
def checkRoutedKeyType (f : PartitionedFlow P) (schema : Schema) : IvmResult (PartitionedFlow P) :=
  match schema.find? fun g => g.name = f.keyColumn with
  | none => .ok f
  | some field =>
    match partitionKeyHashClass field.dataType, f.routedKeyType with
    | none, _ => .ok f
    | some cls, none => .ok { f with routedKeyType := some (cls, field.dataType.display) }
    | some cls, some (seen, seenType) =>
      if seen ≠ cls then
        .error (.execution ("key column '" ++ f.keyColumn ++ "' was routed as " ++ seenType ++
          " and this feed carries " ++ field.dataType.display ++ "; the two hash differently, so " ++
          "the same key would land in two shards. Cast the source to one key type."))
      else .ok f

/-- Feed every shard its part; a shard that refuses ends the loop. -/
def feedEach (env : Env P) (source : String) : List (Shard P) → List DeltaBatch → List (Shard P) × IvmResult Unit
  | s :: shards, d :: parts =>
    if d.isEmpty then
      let (shards, r) := feedEach env source shards parts
      (s :: shards, r)
    else
      match Ivm.feed env s.inner source d with
      | (inner, .error e) => ({ s with inner := inner } :: shards, .error e)
      | (inner, .ok ()) =>
        let (shards, r) := feedEach env source shards parts
        ({ s with inner := inner } :: shards, r)
  | shards, _ => (shards, .ok ())

/-- `feed`: a single shard takes the delta as it is. -/
def feed (env : Env P) (h : KeyHash) (f : PartitionedFlow P) (source : String) (d : DeltaBatch) :
    PartitionedFlow P × IvmResult Unit :=
  match f.shards with
  | [s] =>
    let (inner, r) := Ivm.feed env s.inner source d
    ({ f with shards := [{ s with inner := inner }] }, r)
  | shards =>
    match checkRoutedKeyType f (weightedSchema d.schema) with
    | .error e => (f, .error e)
    | .ok f =>
      match partitionByKey h d f.keyColumn shards.length with
      | .error e => (f, .error e)
      | .ok parts =>
        let (shards, r) := feedEach env source shards parts
        ({ f with shards := shards }, r)

/-- `feed_snapshot`: the difference to the last snapshot of the source is taken before routing, and
the snapshot is remembered even when the routing then fails. -/
def feedSnapshot (env : Env P) (h : KeyHash) (f : PartitionedFlow P) (source : String)
    (batches : List RecordBatch) : PartitionedFlow P × IvmResult Unit :=
  match batches.filter fun b => !b.rows.isEmpty with
  | [] => (f, .ok ())
  | first :: rest =>
    let joined := if rest.isEmpty then .ok first else concatBatches first.schema (first :: rest)
    match joined with
    | .error e => (f, .error (deltaErr e))
    | .ok next =>
      match differentiate first.schema (f.streamingPrev.lookup source) next with
      | .error e => (f, .error (deltaErr e))
      | .ok d =>
        let f := { f with streamingPrev := f.streamingPrev.insert source next }
        if d.isEmpty then (f, .ok ()) else feed env h f source d

/-- A tick that fails outside the lock, after its marks are taken. -/
def failStep [PlanLogic P] (env : Env P) (s : Shard P) : Shard P :=
  ⟨giveBack (marksTaken env s.inner) s.inner.pending, .fresh⟩

/-- One tick of one shard; `fails` is a failure outside the modelled code. -/
def stepShard [PlanLogic P] (env : Env P) (fails : Option IvmError) (s : Shard P) : Shard P × IvmResult StepSummary :=
  match fails with
  | some e => (failStep env s, .error e)
  | none =>
    let (inner, ctx, r) := Ivm.stepDatafusion env s.inner s.ctx
    (⟨inner, ctx⟩, r)

/-- What the results of the shards add up to so far: the summary and the failures. -/
def mergeStep (acc : StepSummary × List String) (r : ℕ × IvmResult StepSummary) : StepSummary × List String :=
  match r.2 with
  | .ok s =>
    ({ totalOutputRows := acc.1.totalOutputRows + s.totalOutputRows
       totalInsertedRows := acc.1.totalInsertedRows + s.totalInsertedRows
       totalRetractedRows := acc.1.totalRetractedRows + s.totalRetractedRows
       activeViews := max acc.1.activeViews s.activeViews
       degradedViews := s.degradedViews.foldl (fun l v => if v ∈ l then l else l ++ [v]) acc.1.degradedViews
       erroredViews := acc.1.erroredViews ++ s.erroredViews }, acc.2)
  | .error (.execution msg) => (acc.1, acc.2 ++ ["shard " ++ toString r.1 ++ ": ivm error: " ++ msg])

def mergeShardSteps (results : List (IvmResult StepSummary)) : IvmResult StepSummary :=
  let (merged, failures) := results.zipIdx.foldl (fun acc r => mergeStep acc (r.2, r.1))
    (StepSummary.zero, [])
  if failures.isEmpty then .ok merged
  else .error (.execution (toString failures.length ++ " of " ++ toString results.length ++
    " shards failed this tick (" ++ String.intercalate "; " failures ++
    "); their input deltas were returned to pending and will be reprocessed on the next step"))

/-- `step_datafusion`: every shard runs to its end, whatever the others do. -/
def stepDatafusion [PlanLogic P] (env : Env P) (fails : ℕ → Option IvmError)
    (f : PartitionedFlow P) : PartitionedFlow P × IvmResult StepSummary :=
  let stepped := f.shards.zipIdx.map fun s => stepShard env (fails s.2) s.1
  ({ f with shards := stepped.map Prod.fst }, mergeShardSteps (stepped.map Prod.snd))

/-! ## Reading -/

/-- The non-empty answers of the shards, concatenated. -/
def concatPerShard (f : PartitionedFlow P) (get : Inner P → IvmResult (Option RecordBatch)) :
    IvmResult (Option RecordBatch) := do
  let answers ← f.shards.mapM fun s => get s.inner
  match answers.filterMap id |>.filter fun b => !b.rows.isEmpty with
  | [] => .ok none
  | first :: rest => some <$> (concatBatches first.schema (first :: rest)).mapError deltaErr

def snapshot (env : Env P) (f : PartitionedFlow P) (view : String) : IvmResult (Option RecordBatch) :=
  f.concatPerShard fun s => Ivm.snapshot env s view

def shardTicks (f : PartitionedFlow P) : List ℕ := f.shards.map fun s => s.inner.tick

/-- The tick that every shard has completed. -/
def tick (f : PartitionedFlow P) : ℕ :=
  match f.shardTicks with
  | [] => 0
  | t :: ts => ts.foldl min t

/-- The shards' deltas of one tick number as one. -/
def concatParts (parts : List DeltaBatch) : IvmResult DeltaBatch :=
  (DeltaBatch.concat parts).mapError deltaErr

def viewOutputSince (f : PartitionedFlow P) (view : String) (after : ℕ) : IvmResult OutputSince := do
  let answers ← f.shards.mapM fun s => Ivm.viewOutputSince s.inner view after
  let missed := answers.any OutputSince.missed
  let resumeAfter := (answers.map OutputSince.resumeAfter).foldl max after
  let deltas ← TickLog.merge concatParts (answers.map OutputSince.deltas)
  .ok ⟨deltas.filter fun e => resumeAfter < e.1 || !missed, missed, resumeAfter⟩

end PartitionedFlow

end Krishiv.Ivm
