import Krishiv.Delta.SourceState
import Krishiv.Ivm.Plan

/-!
# The state of an incremental flow, registration and feeding

`Inner` is what the flow's lock protects. Maps are keyed by name; where the code iterates over a
hash map, the order is that of the entries here, and the one place where the order could be seen
(the order of views of equal rank in a tick) goes through `Env.hashOrder`.

`Env` collects what is not code of the flow: the SQL engine, the planner over its logical plans,
the SQL parser behind the dependency sets, hashing and letter case.
-/

namespace Krishiv.Ivm

open Krishiv.Delta

abbrev NameMap (V : Type) := KVMap String V

inductive IvmError where
  | execution (msg : String)
deriving DecidableEq, Repr

abbrev IvmResult := Except IvmError

/-- The text of a delta error. -/
def deltaMessage : DeltaError → String
  | .arrow m => "arrow error: " ++ m
  | .schemaMismatch m => "schema mismatch: " ++ m
  | .columnNotFound m => "column not found: " ++ m
  | .operator m => "operator error: " ++ m
  | .viewNotFound m => "view not found: " ++ m
  | .serialization m => "serialization error: " ++ m

def deltaErr (e : DeltaError) : IvmError := .execution (deltaMessage e)

structure OrderColumn where
  name : String
  descending : Bool
  nullsFirst : Bool
deriving DecidableEq, Repr

/-- The tables a query sees, by name. -/
abbrev Tables := String → Option RecordBatch

structure PlannedView (P : Type) where
  plan : P
  order : Option (List OrderColumn)

structure Env (P : Type) where
  /-- `str::to_lowercase`. -/
  toLowercase : String → String
  /-- The SQL engine: the batches a query returns over the registered tables. -/
  query : Tables → String → Except String (List RecordBatch)
  /-- Arrow's `cast` of one value. -/
  cast : DataType → DataType → Value → Except String Value
  /-- `build_planned_view`. -/
  plan : String → Schema → (String → Option Schema) → List LatenessSpec → PlannedView P
  /-- `extract_sql_table_refs`: the lower-cased tables of a query it can analyse. -/
  tableRefs : String → Option (List String)
  /-- `char::is_alphanumeric`. -/
  isAlphanumeric : Char → Bool
  /-- The window rewrites of `register_view`. -/
  rewrite : String → String
  /-- The 64-bit hash of an encoded row. -/
  rowHash : Row → ℕ
  /-- `get_array_memory_size` of a delta. -/
  memorySize : DeltaBatch → ℕ
  logicFingerprint : String → ℕ
  /-- Arrow's `lexsort_to_indices` by some columns of a batch, and `take`. -/
  lexsort : List OrderColumn → RecordBatch → Except String RecordBatch
  /-- The order in which a hash map lists its keys. -/
  hashOrder : List String → List String

/-- Every lower-cased token of a query. -/
def Env.sqlIdentifiers {P : Type} (env : Env P) (sql : String) : List String :=
  ((sql.toList.splitOnP fun c => !env.isAlphanumeric c && c ≠ '_').filter (!·.isEmpty)).map fun token =>
    env.toLowercase (String.ofList token)

/-! ## Source states with their invariant -/

/-- A well-formed source state. -/
structure Source where
  state : SourceState
  wf : state.WF

variable {d : DeltaBatch}

namespace Source

/-- `SourceState::apply_to`, keeping the invariant. -/
def applyTo (current : Option Source) (d : DeltaBatch) : DeltaResult Source :=
  match h : SourceState.applyTo (current.map state) d with
  | .error e => .error e
  | .ok s =>
    .ok ⟨s, (SourceState.applyTo_spec (by
      intro t ht
      obtain ⟨src, -, rfl⟩ := Option.map_eq_some_iff.mp ht
      exact src.wf) h).1⟩

/-- `SourceState::from_zset`, keeping the invariant. -/
def fromZset (d : DeltaBatch) : DeltaResult Source := applyTo none d

def net (s : Source) (r : Row) : ℤ := s.state.net r

def pos (s : Source) (r : Row) : ℕ := s.state.pos r

lemma applyTo_net {current : Option Source} {s : Source} (hd : SourceState.KeysApart (current.map state) d)
    (h : applyTo current d = .ok s) (r : Row) :
    s.net r = (current.map (net · r)).getD 0 + d.net r := by
  unfold applyTo at h
  split at h
  · cases h
  next st hst =>
  cases h
  have hspec := (SourceState.applyTo_spec (by
    intro t ht
    obtain ⟨src, -, rfl⟩ := Option.map_eq_some_iff.mp ht
    exact src.wf) hst).2 hd r
  rw [net, hspec, Option.map_map]
  rfl

end Source

/-! ## The pieces of the state -/

/-- A source's watermark: the bound and the largest timestamp observed. -/
structure WatermarkTracker where
  spec : LatenessSpec
  maxObservedTs : ℤ
deriving DecidableEq, Repr

namespace WatermarkTracker

def new (spec : LatenessSpec) : WatermarkTracker := ⟨spec, i64Min⟩

def observe (t : WatermarkTracker) (ts : ℤ) : WatermarkTracker :=
  if t.maxObservedTs < ts then { t with maxObservedTs := ts } else t

def watermark (t : WatermarkTracker) : ℤ :=
  if t.maxObservedTs = i64Min then i64Min else t.maxObservedTs - t.spec.latenessMs

end WatermarkTracker

/-- The hashes of the insertions already seen: in order of arrival, and as a set. -/
structure DedupWindow where
  order : List ℕ
  seen : List ℕ
deriving DecidableEq, Repr

structure ViewDeltaStats where
  rowsInsertedTotal : ℕ
  rowsRetractedTotal : ℕ
  lastTickInserts : ℕ
  lastTickRetracts : ℕ
deriving DecidableEq, Repr

/-- The retained output deltas of one view, oldest first. -/
structure OutputLog where
  deltas : List (ℕ × DeltaBatch)
  bytes : ℕ
  evictedThrough : ℕ
deriving DecidableEq, Repr

def OutputLog.new : OutputLog := ⟨[], 0, 0⟩

/-- One recorded tick of the provenance store. -/
structure ProvenanceTick where
  tick : ℕ
  inputs : List ℕ
  outputs : List ℕ
deriving DecidableEq, Repr

/-- What the lock of a flow protects. -/
structure Inner (P : Type) where
  views : NameMap IncrementalView
  pending : NameMap (List DeltaBatch)
  tick : ℕ
  sourceSnapshots : NameMap Source
  inputDedupEnabled : Bool
  seenInputHashes : NameMap DedupWindow
  deltaCheckpointEnabled : Bool
  checkpointDeltas : NameMap (List DeltaBatch)
  streamingPrevSnapshots : NameMap RecordBatch
  provenance : Option (List ProvenanceTick)
  viewPlans : NameMap P
  viewOrder : NameMap (List OrderColumn)
  viewPlanSqls : NameMap String
  sourceOrdinals : NameMap Bytes
  watermarkTrackers : NameMap WatermarkTracker
  lateDroppedRows : NameMap ℕ
  deltaRestoreCollapsedRows : NameMap ℕ
  declaredLateness : List LatenessSpec
  forceDiffBased : Bool
  viewDeps : NameMap (List String)
  rebuildAllViews : Bool
  recomputeViews : List String
  stateEpoch : ℕ
  lastStepOutputs : NameMap DeltaBatch
  viewOutputTicks : NameMap ℕ
  outputLog : NameMap OutputLog
  outputLogFloor : ℕ
  outputRetention : ℕ × ℕ
  viewDeltaStats : NameMap ViewDeltaStats
  pendingPlanState : NameMap PlanState
  pendingPlanLogic : NameMap ℕ

def defaultOutputRetainTicks : ℕ := 256
def defaultOutputRetainBytes : ℕ := 64 * 1024 * 1024

variable {P : Type}

/-- A flow without views, sources or input. -/
def Inner.new : Inner P where
  views := ∅
  pending := ∅
  tick := 0
  sourceSnapshots := ∅
  inputDedupEnabled := false
  seenInputHashes := ∅
  deltaCheckpointEnabled := false
  checkpointDeltas := ∅
  streamingPrevSnapshots := ∅
  provenance := none
  viewPlans := ∅
  viewOrder := ∅
  viewPlanSqls := ∅
  sourceOrdinals := ∅
  watermarkTrackers := ∅
  lateDroppedRows := ∅
  deltaRestoreCollapsedRows := ∅
  declaredLateness := []
  forceDiffBased := false
  viewDeps := ∅
  rebuildAllViews := false
  recomputeViews := []
  stateEpoch := 0
  lastStepOutputs := ∅
  viewOutputTicks := ∅
  outputLog := ∅
  outputLogFloor := 0
  outputRetention := (defaultOutputRetainTicks, defaultOutputRetainBytes)
  viewDeltaStats := ∅
  pendingPlanState := ∅
  pendingPlanLogic := ∅

/-- The queue of a name; an absent entry is the empty queue. -/
def queueOf {α : Type} (m : NameMap (List α)) (name : String) : List α := (m.lookup name).getD []

/-- Append to the queue of a name. -/
def pushTo {α : Type} (m : NameMap (List α)) (name : String) (a : α) : NameMap (List α) :=
  m.insert name (queueOf m name ++ [a])

/-! ## Registering and dropping views -/

/-- Record one `LATENESS` declaration; a changed bound replaces the old one and its trackers. -/
def declareLateness (s : Inner P) (l : LatenessSpec) : Inner P :=
  if l ∈ s.declaredLateness then s
  else
    { s with
      declaredLateness := s.declaredLateness.filter (fun d => d.column ≠ l.column) ++ [l]
      watermarkTrackers :=
        (s.watermarkTrackers.keys.filter fun k =>
          ((s.watermarkTrackers.lookup k).map fun t => t.spec.column) = some l.column).foldl
            (fun m k => m.erase k) s.watermarkTrackers }

/-- A registered view of the same definition; the columns are not compared. -/
def sameDefinition (s : Inner P) (spec : IncrementalViewSpec) : Bool :=
  match s.views.lookup spec.name with
  | none => false
  | some v => v.spec.bodySql = spec.bodySql && v.spec.isMaterialized = spec.isMaterialized &&
      v.spec.isRecursive = spec.isRecursive && v.spec.lateness = spec.lateness

/-- Forget the plan and the dependencies of a view that is replaced. -/
def forgetPlan (s : Inner P) (name : String) : Inner P :=
  if (s.views.lookup name).isSome then
    { s with viewPlans := s.viewPlans.erase name
             viewPlanSqls := s.viewPlanSqls.erase name
             viewDeps := s.viewDeps.erase name }
  else s

def recordDeps (env : Env P) (s : Inner P) (spec : IncrementalViewSpec) : Inner P :=
  match env.tableRefs spec.bodySql with
  | some deps => { s with viewDeps := s.viewDeps.insert spec.name deps }
  | none => s

/-- `register_view`. An identical registration keeps the view; a changed one starts it afresh. -/
def registerView (env : Env P) (s : Inner P) (spec : IncrementalViewSpec) : Inner P :=
  let spec := { spec with bodySql := env.rewrite spec.bodySql }
  if sameDefinition s spec then s
  else
    let s := spec.lateness.foldl declareLateness (recordDeps env (forgetPlan s spec.name) spec)
    { s with views := s.views.insert spec.name (IncrementalView.new spec) }

lemma declareLateness_state (l : List LatenessSpec) (s : Inner P) : ∃ declared trackers, l.foldl declareLateness s =
      { s with declaredLateness := declared, watermarkTrackers := trackers } := by
  induction l generalizing s with
  | nil => exact ⟨s.declaredLateness, s.watermarkTrackers, rfl⟩
  | cons x l ih =>
    obtain ⟨declared, trackers, hrest⟩ := ih (declareLateness s x)
    refine ⟨declared, trackers, ?_⟩
    rw [List.foldl_cons, hrest]
    unfold declareLateness
    split <;> rfl

/-- A registration keeps the flow, or stores the new view and touches nothing beyond the plan, the
dependencies and the lateness bounds. -/
lemma registerView_state (env : Env P) (s : Inner P) (spec : IncrementalViewSpec) :
    (sameDefinition s { spec with bodySql := env.rewrite spec.bodySql } = true ∧
      registerView env s spec = s) ∨
      ∃ plans sqls deps declared trackers, (∀ v, v ≠ spec.name → plans.lookup v = s.viewPlans.lookup v) ∧
        registerView env s spec =
      { s with
        viewPlans := plans
        viewPlanSqls := sqls
        viewDeps := deps
        declaredLateness := declared
        watermarkTrackers := trackers
        views := s.views.insert spec.name
          (IncrementalView.new { spec with bodySql := env.rewrite spec.bodySql }) } := by
  unfold registerView
  dsimp only
  split
  next hsame => exact .inl ⟨hsame, rfl⟩
  · right
    obtain ⟨declared, trackers, hlate⟩ := declareLateness_state spec.lateness
      (recordDeps env (forgetPlan s spec.name) { spec with bodySql := env.rewrite spec.bodySql })
    rw [hlate]
    unfold recordDeps forgetPlan
    split <;> split
    · exact ⟨_, _, _, declared, trackers, fun v hv => AList.lookup_erase_ne hv, rfl⟩
    · exact ⟨_, _, _, declared, trackers, fun _ _ => rfl, rfl⟩
    · exact ⟨_, _, _, declared, trackers, fun v hv => AList.lookup_erase_ne hv, rfl⟩
    · exact ⟨_, _, _, declared, trackers, fun _ _ => rfl, rfl⟩

def dropView (s : Inner P) (name : String) : Inner P × Bool :=
  ({ s with
      viewDeps := s.viewDeps.erase name
      viewPlans := s.viewPlans.erase name
      viewPlanSqls := s.viewPlanSqls.erase name
      viewOutputTicks := s.viewOutputTicks.erase name
      outputLog := s.outputLog.erase name
      viewDeltaStats := s.viewDeltaStats.erase name
      pendingPlanState := s.pendingPlanState.erase name
      pendingPlanLogic := s.pendingPlanLogic.erase name
      lastStepOutputs := s.lastStepOutputs.erase name
      views := s.views.erase name },
   (s.views.lookup name).isSome)

/-! ## The output log -/

/-- Drop the oldest deltas while there are too many or they are too large. -/
def evict (env : Env P) (maxDeltas maxBytes : ℕ) : List (ℕ × DeltaBatch) → ℕ → ℕ → OutputLog
  | [], bytes, evicted => ⟨[], bytes, evicted⟩
  | (t, d) :: rest, bytes, evicted =>
    if maxDeltas < rest.length + 1 || maxBytes < bytes then
      evict env maxDeltas maxBytes rest (bytes - env.memorySize d) (max evicted t)
    else ⟨(t, d) :: rest, bytes, evicted⟩

def retainOutput (env : Env P) (s : Inner P) (view : String) (tick : ℕ) (d : DeltaBatch) : Inner P :=
  if d.isEmpty then s
  else
    let log := (s.outputLog.lookup view).getD .new
    let log := evict env s.outputRetention.1 s.outputRetention.2 (log.deltas ++ [(tick, d)])
      (log.bytes + env.memorySize d) log.evictedThrough
    { s with outputLog := s.outputLog.insert view log }

def resetOutputLog (s : Inner P) : Inner P :=
  { s with outputLog := ∅, outputLogFloor := s.tick }

/-! ## Feeding -/

/-- A delta's columns must be the source's once the source holds rows. -/
def validateFeedSchema (s : Inner P) (source : String) (d : DeltaBatch) : IvmResult Unit :=
  match s.sourceSnapshots.lookup source with
  | none => .ok ()
  | some src =>
    if src.state.numRows = 0 || d.isEmpty then .ok ()
    else if sameColumns src.state.schema d.schema then .ok ()
    else .error (.execution ("source '" ++ source ++ "' schema mismatch: the delta's columns " ++
      describeColumns d.schema ++ " do not match the source's columns " ++
      describeColumns src.state.schema ++
      "; a source's columns are fixed by its first delta"))

/-- A source must be a view or something a view could read, letter case aside. -/
def validateFeedTarget (env : Env P) (s : Inner P) (source : String) : IvmResult Unit :=
  let wanted := env.toLowercase source
  let reads := fun name => match s.viewDeps.lookup name with
    | some deps => deps.map env.toLowercase
    | none => ((s.views.lookup name).map fun v : IncrementalView => env.sqlIdentifiers v.spec.bodySql).getD []
  if s.views.keys.isEmpty then .ok ()
  else if s.views.keys.any fun name => env.toLowercase name = wanted || wanted ∈ reads name then
    .ok ()
  else .error (.execution ("no registered view reads source '" ++ source ++ "'; feeding it would " ++
    "silently discard the delta at the next tick"))

/-- The hash of a row; a cell without key encoding has none, unless it is null. -/
def hashRow (env : Env P) (schema : Schema) (row : Row) : IvmResult ℕ :=
  match (schema.types.zip row).find? fun c => c.2 ≠ .null && !c.1.renderable with
  | none => .ok (env.rowHash row)
  | some c => .error (deltaErr (noKeyEncoding c.1))

def dedupSeenCapacity : ℕ := 10000000
def dedupEvictBatch : ℕ := 100000

/-- Remember one insertion hash, evicting the oldest when the window is full. -/
def DedupWindow.remember (w : DedupWindow) (capacity evictBatch h : ℕ) : DedupWindow :=
  let w := if capacity ≤ w.seen.length then
      let old := w.order.take (max evictBatch 1)
      (⟨w.order.drop (max evictBatch 1), w.seen.filter (· ∉ old)⟩ : DedupWindow)
    else w
  ⟨w.order ++ [h], w.seen ++ [h]⟩

/-- Keep retractions and the insertions not seen before. -/
def dedupFilter (env : Env P) (capacity evictBatch : ℕ) (schema : Schema) :
    List (Row × ℤ) → DedupWindow → DedupWindow × IvmResult (List (Row × ℤ))
  | [], w => (w, .ok [])
  | (row, weight) :: rows, w =>
    if weight ≤ 0 then
      let (w, out) := dedupFilter env capacity evictBatch schema rows w
      (w, out.map ((row, weight) :: ·))
    else
      match hashRow env schema row with
      | .error e => (w, .error e)
      | .ok h =>
        if h ∈ w.seen then dedupFilter env capacity evictBatch schema rows w
        else
          let (w, out) := dedupFilter env capacity evictBatch schema rows
            (w.remember capacity evictBatch h)
          (w, out.map ((row, weight) :: ·))

/-- The timestamp of a row in milliseconds, for the two column types that have one. -/
def epochMsAt (schema : Schema) (column : String) (row : Row) : Option ℤ :=
  match schema.findIdx? fun f => f.name = column with
  | none => none
  | some i =>
    match schema[i]?.map Field.dataType, row[i]? with
    | some .int64, some (.int v) => some v
    | some .timestampMillisecond, some (.int v) => some v
    | _, _ => none

def hasColumn (schema : Schema) (l : LatenessSpec) : Bool :=
  schema.any fun f => f.name = l.column

/-- The watermark trackers, with one for a source whose columns include a declared one. -/
def trackSource (s : Inner P) (source : String) (schema : Schema) : NameMap WatermarkTracker :=
  match s.watermarkTrackers.lookup source, s.declaredLateness.find? (hasColumn schema) with
  | none, some spec => s.watermarkTrackers.insert source (.new spec)
  | _, _ => s.watermarkTrackers

/-- Drop the insertions behind the watermark of the earlier batches, then advance it by the rows that
are kept. Retractions always pass. -/
def boundLateness (tracker : WatermarkTracker) (d : DeltaBatch) : WatermarkTracker × DeltaBatch :=
  let late := fun p : Row × ℤ => 0 ≤ p.2 &&
    match epochMsAt d.schema tracker.spec.column p.1 with
    | some v => decide (v < tracker.watermark)
    | none => false
  let kept := d.filterMask fun p => !late p
  let tracker :=
    match kept.rows.filterMap fun p => epochMsAt d.schema tracker.spec.column p.1 with
    | [] => tracker
    | t :: ts => tracker.observe (ts.foldl max t)
  (tracker, kept)

/-- `apply_lateness`, with the number of rows it drops. -/
def applyLateness (s : Inner P) (source : String) (d : DeltaBatch) : Inner P × DeltaBatch × ℕ :=
  let trackers := trackSource s source d.schema
  match trackers.lookup source with
  | none => ({ s with watermarkTrackers := trackers }, d, 0)
  | some tracker =>
    if !hasColumn d.schema tracker.spec then ({ s with watermarkTrackers := trackers }, d, 0)
    else
      let bounded := boundLateness tracker d
      ({ s with watermarkTrackers := trackers.insert source bounded.1 }, bounded.2,
        d.numRows - bounded.2.numRows)

/-- The part `feed` and `feed_coalesced` share after validation: the `LATENESS` bound and its
count of dropped rows. -/
def feedLateness (s : Inner P) (source : String) (d : DeltaBatch) : Inner P × DeltaBatch :=
  let (s, kept, dropped) := applyLateness s source d
  let total := (s.lateDroppedRows.lookup source).getD 0 + dropped
  (if 0 < dropped then { s with lateDroppedRows := s.lateDroppedRows.insert source total } else s,
    kept)

/-- What `feed` and `feed_coalesced` do before they queue anything: validate, deduplicate (only
`feed`, and only when it is on) and bound lateness. Nothing is accepted of a delta that is or
becomes empty. -/
def accept (env : Env P) (dedup : Bool) (s : Inner P) (source : String) (d : DeltaBatch) :
    Inner P × IvmResult (Option DeltaBatch) :=
  match validateFeedTarget env s source, validateFeedSchema s source d with
  | .error e, _ => (s, .error e)
  | _, .error e => (s, .error e)
  | .ok (), .ok () =>
    let deduped : Inner P × IvmResult DeltaBatch := if dedup then
        let (w, out) := dedupFilter env dedupSeenCapacity dedupEvictBatch d.schema d.rows
          ((s.seenInputHashes.lookup source).getD ⟨[], []⟩)
        ({ s with seenInputHashes := s.seenInputHashes.insert source w }, out.map (⟨d.schema, ·⟩))
      else (s, .ok d)
    match deduped with
    | (s, .error e) => (s, .error e)
    | (s, .ok d) =>
      if d.isEmpty then (s, .ok none)
      else
        let (s, d) := feedLateness s source d
        (s, .ok (if d.isEmpty then none else some d))

lemma feedLateness_state (s : Inner P) (source : String) (d : DeltaBatch) :
    ∃ trackers dropped, (feedLateness s source d).1 =
      { s with watermarkTrackers := trackers, lateDroppedRows := dropped } := by
  have hlate : ∃ trackers, (applyLateness s source d).1 = { s with watermarkTrackers := trackers } := by
    unfold applyLateness
    dsimp only
    split
    · exact ⟨_, rfl⟩
    · split <;> exact ⟨_, rfl⟩
  obtain ⟨trackers, ht⟩ := hlate
  unfold feedLateness
  dsimp only
  rw [ht]
  split
  · exact ⟨_, _, rfl⟩
  · exact ⟨trackers, s.lateDroppedRows, rfl⟩

/-- Acceptance touches the deduplication windows, the watermarks and the count of late rows. -/
lemma accept_state (env : Env P) (dedup : Bool) (s : Inner P) (source : String) (d : DeltaBatch) :
    ∃ seen trackers dropped, (accept env dedup s source d).1 =
      { s with seenInputHashes := seen, watermarkTrackers := trackers
               lateDroppedRows := dropped } := by
  unfold accept
  split
  · exact ⟨s.seenInputHashes, s.watermarkTrackers, s.lateDroppedRows, rfl⟩
  · exact ⟨s.seenInputHashes, s.watermarkTrackers, s.lateDroppedRows, rfl⟩
  dsimp only
  generalize hd : (if dedup = true then _ else _ : Inner P × IvmResult DeltaBatch) = deduped
  have hseen : ∃ seen, deduped.1 = { s with seenInputHashes := seen } := by
    rw [← hd]
    split
    · exact ⟨_, rfl⟩
    · exact ⟨s.seenInputHashes, rfl⟩
  obtain ⟨seen, hseen⟩ := hseen
  split
  · exact ⟨seen, s.watermarkTrackers, s.lateDroppedRows, hseen⟩
  next s₁ d₁ =>
  split
  · exact ⟨seen, s.watermarkTrackers, s.lateDroppedRows, hseen⟩
  · obtain ⟨trackers, dropped, hl⟩ := feedLateness_state s₁ source d₁
    refine ⟨seen, trackers, dropped, ?_⟩
    rw [hl, show s₁ = _ from hseen]

/-- What is accepted is bounded from what deduplication left, if that is on. -/
lemma accept_ok {env : Env P} {dedup : Bool} {s : Inner P} {source : String}
    {kept : Option DeltaBatch} (h : (accept env dedup s source d).2 = .ok kept) :
    ∃ (s₁ : Inner P) (d₁ : DeltaBatch), (d₁ = d ∨
      ∃ w rows, (dedupFilter env dedupSeenCapacity dedupEvictBatch d.schema d.rows w).2 =
        .ok rows ∧ d₁ = ⟨d.schema, rows⟩) ∧ kept = if d₁.isEmpty ∨ (feedLateness s₁ source d₁).2.isEmpty then none
        else some (feedLateness s₁ source d₁).2 := by
  unfold accept at h
  split at h
  · cases h
  · cases h
  dsimp only at h
  generalize hd : (if dedup = true then _ else _ : Inner P × IvmResult DeltaBatch) = deduped at h
  obtain ⟨s₁, e | d₁⟩ := deduped
  · cases h
  refine ⟨s₁, d₁, ?_, ?_⟩
  · split at hd
    · obtain ⟨rows, hrows, rfl⟩ := Except.map_eq_ok_iff.mp (congrArg Prod.snd hd)
      exact .inr ⟨_, rows, hrows, rfl⟩
    · cases hd
      exact .inl rfl
  dsimp only at h
  split at h
  · next he =>
    cases h
    rw [if_pos (.inl he)]
  · next he =>
    cases h
    simp [he]

lemma feedLateness_schema (s : Inner P) (source : String) (d : DeltaBatch) :
    (feedLateness s source d).2.schema = d.schema := by
  unfold feedLateness applyLateness
  dsimp only
  split
  · rfl
  · split <;> rfl

/-- What is accepted has rows, and the columns of what was fed. -/
lemma accept_some {env : Env P} {dedup : Bool} {s s' : Inner P} {source : String}
    {kept : DeltaBatch} (h : accept env dedup s source d = (s', .ok (some kept))) :
    kept.isEmpty = false ∧ kept.schema = d.schema := by
  obtain ⟨s₁, d₁, hd₁, hkept⟩ := accept_ok (congrArg Prod.snd h)
  split at hkept
  · cases hkept
  next hne =>
  cases hkept
  refine ⟨by simpa using fun h => hne (.inr h), ?_⟩
  rw [feedLateness_schema]
  rcases hd₁ with rfl | ⟨w, rows, -, rfl⟩ <;> rfl

/-- `feed`: what is accepted joins the queue, and the accumulator of the next delta checkpoint. -/
def feed (env : Env P) (s : Inner P) (source : String) (d : DeltaBatch) : Inner P × IvmResult Unit :=
  match accept env s.inputDedupEnabled s source d with
  | (s, .error e) => (s, .error e)
  | (s, .ok none) => (s, .ok ())
  | (s, .ok (some d)) =>
    let s := if s.deltaCheckpointEnabled then
        { s with checkpointDeltas := pushTo s.checkpointDeltas source d }
      else s
    ({ s with pending := pushTo s.pending source d }, .ok ())

/-- `feed_coalesced`: what is accepted replaces the queue of the source, and its accumulator. -/
def feedCoalesced (env : Env P) (s : Inner P) (source : String) (d : DeltaBatch) : Inner P × IvmResult Unit :=
  match accept env false s source d with
  | (s, .error e) => (s, .error e)
  | (s, .ok none) => (s, .ok ())
  | (s, .ok (some d)) =>
    let s := if s.deltaCheckpointEnabled then
        { s with checkpointDeltas := s.checkpointDeltas.insert source [d] }
      else s
    ({ s with pending := s.pending.insert source [d] }, .ok ())

/-- The batches of a snapshot feed as one relation; nothing if they hold no rows. -/
def combineSnapshot (batches : List RecordBatch) : IvmResult (Option RecordBatch) :=
  match batches.filter fun b => !b.rows.isEmpty with
  | [] => .ok none
  | [only] => .ok (some only)
  | first :: rest =>
    match concatBatches first.schema (first :: rest) with
    | .ok b => .ok (some b)
    | .error (.arrow m) => .error (.execution m)
    | .error e => .error (deltaErr e)

/-- `feed_snapshot`: queue the difference to the snapshot fed before. The columns of the source are
not looked at. -/
def feedSnapshot (env : Env P) (s : Inner P) (source : String) (batches : List RecordBatch) :
    Inner P × IvmResult Unit :=
  match combineSnapshot batches with
  | .error e => (s, .error e)
  | .ok none => (s, .ok ())
  | .ok (some new) =>
    match validateFeedTarget env s source,
      differentiate new.schema (s.streamingPrevSnapshots.lookup source) new with
    | .error e, _ => (s, .error e)
    | _, .error e => (s, .error (deltaErr e))
    | .ok (), .ok d =>
      let s := { s with streamingPrevSnapshots := s.streamingPrevSnapshots.insert source new }
      if d.isEmpty then (s, .ok ())
      else
        let s := if s.deltaCheckpointEnabled then
            { s with checkpointDeltas := pushTo s.checkpointDeltas source d }
          else s
        ({ s with pending := pushTo s.pending source d }, .ok ())

/-- `take_pending`. -/
def takePending (s : Inner P) : Inner P × NameMap (List DeltaBatch) :=
  ({ s with pending := ∅ }, s.pending)

/-- `re_feed`: put drained deltas back, after whatever is queued by now. -/
def reFeed (s : Inner P) (raw : NameMap (List DeltaBatch)) : Inner P :=
  let put := fun batches (queued : Option (List DeltaBatch)) => queued.getD [] ++ batches
  { s with pending := KVMap.merge put raw s.pending }

/-! ## Replacing the sources -/

/-- The locked part of `restore`: new sources, no plans, every view empty and to be rebuilt. -/
def replaceSources (s : Inner P) (sources : NameMap Source) : Inner P :=
  resetOutputLog
    { s with sourceSnapshots := sources
             viewPlans := ∅
             viewPlanSqls := ∅
             pendingPlanState := ∅
             pendingPlanLogic := ∅
             views := KVMap.map (fun _ v => v.resetState) s.views
             rebuildAllViews := true
             stateEpoch := s.stateEpoch + 1 }

end Krishiv.Ivm
