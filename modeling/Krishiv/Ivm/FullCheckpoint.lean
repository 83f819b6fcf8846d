import Krishiv.Ivm.Checkpoint

/-!
# Full checkpoints

`checkpoint_full` writes the sources (relations, and what is owed in a section of its own), the
snapshot and the baseline of every view, the operator state of every plan, the rest of the flow's
state (`ExactState`), and a fingerprint of every view's SQL. `restore_full` reads it back; the
operator state waits in `pending_plan_state` until a plan is built.

Arrow IPC is taken to round-trip batches and the framing to be inverted by its decoder, so a blob is
the record of its sections. A view without a relation is written as an empty relation, and an empty
relation is read back as none.
-/

namespace Krishiv.Ivm

open Krishiv.Delta

variable {P : Type}

/-- The section of `checkpoint_full` that is neither a source, a view nor an operator. -/
structure ExactState where
  tick : ℕ
  pending : NameMap (List DeltaBatch)
  streamingPrevSnapshots : NameMap RecordBatch
  sourceOrdinals : NameMap Bytes
  watermarks : NameMap (LatenessSpec × ℤ)
  checkpointDeltas : NameMap (List DeltaBatch)
  viewDeltaStats : NameMap ViewDeltaStats
  lateDroppedRows : NameMap ℕ
  deltaRestoreCollapsedRows : NameMap ℕ
  inputDedupEnabled : Bool
  deltaCheckpointEnabled : Bool
  forceDiffBased : Bool
  rebuildAllViews : Bool
  dedupHashes : NameMap (List ℕ)

/-- A full checkpoint; older blobs have no exact state. -/
structure FullBlob where
  sources : NameMap RecordBatch
  views : NameMap (RecordBatch × RecordBatch)
  planStates : NameMap PlanState
  exactState : Option ExactState
  deficits : NameMap DeltaBatch
  logics : NameMap ℕ

/-! ## Writing -/

def encodeExactState (s : Inner P) : ExactState where
  tick := s.tick
  pending := s.pending
  streamingPrevSnapshots := s.streamingPrevSnapshots
  sourceOrdinals := s.sourceOrdinals
  watermarks := KVMap.map (fun _ t => (t.spec, t.maxObservedTs)) s.watermarkTrackers
  checkpointDeltas := s.checkpointDeltas
  viewDeltaStats := s.viewDeltaStats
  lateDroppedRows := s.lateDroppedRows
  deltaRestoreCollapsedRows := s.deltaRestoreCollapsedRows
  inputDedupEnabled := s.inputDedupEnabled
  deltaCheckpointEnabled := s.deltaCheckpointEnabled
  forceDiffBased := s.forceDiffBased
  rebuildAllViews := s.rebuildAllViews
  -- only written while deduplication is on
  dedupHashes := if s.inputDedupEnabled then KVMap.map (fun _ w => w.order) s.seenInputHashes else ∅

/-- `encode_named_batch_optional`: no relation and an empty one are both written as an empty batch
of the view's columns. -/
def encodeOptional (spec : IncrementalViewSpec) (b : Option RecordBatch) : IvmResult RecordBatch :=
  match b with
  | some b => if b.rows.isEmpty then emptyOutputBatch spec else .ok b
  | none => emptyOutputBatch spec

def encodeView (view : IncrementalView) : IvmResult (RecordBatch × RecordBatch) := do
  let snapshot ← encodeOptional view.spec view.snapshot
  let full ← encodeOptional view.spec view.fullOutputBaseline
  .ok (snapshot, full)

/-- The plans that have state to write. -/
def encodePlanStates [PlanLogic P] (plans : NameMap P) : NameMap PlanState :=
  KVMap.filterMap (fun _ plan => PlanLogic.checkpointState plan) plans

def checkpointFull [PlanLogic P] (env : Env P) (s : Inner P) : IvmResult FullBlob := do
  let sources ← KVMap.mapM (fun _ source => source.state.positiveBatch.mapError deltaErr) s.sourceSnapshots
  let views ← KVMap.mapM (fun _ view => encodeView view) s.views
  .ok { sources := sources
        views := views
        planStates := encodePlanStates s.viewPlans
        exactState := some (encodeExactState s)
        deficits := KVMap.filterMap (fun _ source => source.state.deficit) s.sourceSnapshots
        logics := KVMap.map (fun _ view => env.logicFingerprint view.spec.bodySql) s.views }

/-! ## Reading -/

namespace Source

def ofPositive (b : RecordBatch) : Source := ⟨.fromPositive b, SourceState.fromPositive_wf b⟩

/-- `SourceState::set_deficit`, keeping the invariant. -/
def setDeficit (s : Source) (d : DeltaBatch) : DeltaResult Source :=
  match h : s.state.setDeficit (some d) with
  | .error e => .error e
  | .ok state => .ok ⟨state, (SourceState.setDeficit_spec s.wf h).1⟩

end Source

/-- Relations from the source section, with the deficits settled in. -/
def decodeFullSources (blob : FullBlob) : IvmResult (NameMap Source) :=
  KVMap.updateM (fun _ deficit current =>
    let base := current.getD (.ofPositive (RecordBatch.newEmpty deficit.schema))
    ((base.setDeficit deficit).map some).mapError deltaErr)
    blob.deficits (KVMap.map (fun _ b => Source.ofPositive b) blob.sources)

/-- An empty relation reads as none. -/
def decodeOptional (b : RecordBatch) : Option RecordBatch := if b.rows.isEmpty then none else some b

/-- The blob was written under the SQL the view has now. -/
def FullBlob.matchesLogic (env : Env P) (blob : FullBlob) (name : String) (view : IncrementalView) : Bool :=
  blob.logics.lookup name = some (env.logicFingerprint view.spec.bodySql)

/-- The registered views whose written state is not adopted. -/
def FullBlob.staleViews (env : Env P) (blob : FullBlob) (views : NameMap IncrementalView) : List String :=
  views.keys.filter fun n => !(views.lookup n).any (blob.matchesLogic env n)

def FullBlob.restoreView (env : Env P) (blob : FullBlob) (name : String) (view : IncrementalView) : IncrementalView :=
  if blob.matchesLogic env name view then
    let state := blob.views.lookup name
    view.restoreState (state.bind fun b => decodeOptional b.1) (state.bind fun b => decodeOptional b.2)
  else view

/-- A tracker that has observed what the written one had. -/
def restoreTracker (w : LatenessSpec × ℤ) : WatermarkTracker :=
  (WatermarkTracker.new w.1).observe w.2

def applyExactState (s : Inner P) (exactState : ExactState) : Inner P :=
  { s with
    tick := exactState.tick
    pending := exactState.pending
    streamingPrevSnapshots := exactState.streamingPrevSnapshots
    sourceOrdinals := exactState.sourceOrdinals
    watermarkTrackers := KVMap.map (fun _ w => restoreTracker w) exactState.watermarks
    checkpointDeltas := exactState.checkpointDeltas
    viewDeltaStats := exactState.viewDeltaStats
    lateDroppedRows := exactState.lateDroppedRows
    deltaRestoreCollapsedRows := exactState.deltaRestoreCollapsedRows
    inputDedupEnabled := exactState.inputDedupEnabled
    deltaCheckpointEnabled := exactState.deltaCheckpointEnabled
    forceDiffBased := exactState.forceDiffBased
    rebuildAllViews := exactState.rebuildAllViews
    seenInputHashes := KVMap.map (fun _ hashes => ⟨hashes, hashes.dedup⟩) exactState.dedupHashes }

/-- The part of `restore_full` under the lock. -/
def replaceState (env : Env P) (s : Inner P) (blob : FullBlob) (sources : NameMap Source) : Inner P :=
  let stale := blob.staleViews env s.views
  let s := { s with
    sourceSnapshots := sources
    viewPlans := ∅
    viewPlanSqls := ∅
    pendingPlanState := stale.foldl (fun m n => m.erase n) blob.planStates
    pendingPlanLogic := stale.foldl (fun m n => m.erase n) blob.logics
    views := KVMap.map (blob.restoreView env) s.views }
  let s := (blob.exactState.map (applyExactState s)).getD s
  resetOutputLog { s with stateEpoch := s.stateEpoch + 1 }

/-- `restore_full`: everything is decoded before the lock is taken. -/
def restoreFull (env : Env P) (s : Inner P) (decoded : IvmResult FullBlob) : Inner P × IvmResult Unit :=
  match decoded with
  | .error e => (s, .error e)
  | .ok blob =>
    match decodeFullSources blob with
    | .error e => (s, .error e)
    | .ok sources => (replaceState env s blob sources, .ok ())

end Krishiv.Ivm
