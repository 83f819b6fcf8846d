import Krishiv.Ivm.Flow
import Krishiv.Lib.Kahn

/-!
# One tick

`step_datafusion` in its phases. `drain` takes the pending deltas under the lock, `takeFlags` takes
the rebuild and recompute marks, `prepare` works outside the lock (advance the sources, order and
mark the views, run the SQL that is needed), `commit` takes the lock again and installs everything.
A tick that fails gives the drained deltas back (`giveBack`).

`stepInterleaved` is the sequence with the effect of other calls between the lock sections,
`stepDatafusion` the sequence with nothing in between.
-/

namespace Krishiv.Ivm

open Krishiv.Delta

variable {P : Type}

/-! ## Tables of the tick context -/

/-- The cached SQL context: its tables, and the names the flow registered. -/
structure TickCtx where
  tables : Tables
  registered : List String

def TickCtx.fresh : TickCtx := ⟨fun _ => none, []⟩

namespace TickCtx

/-- Replace-register; the catalog folds the name's case. -/
def register (env : Env P) (c : TickCtx) (name : String) (b : RecordBatch) : TickCtx :=
  ⟨Function.update c.tables (env.toLowercase name) (some b),
    if name ∈ c.registered then c.registered else name :: c.registered⟩

def remove (env : Env P) (c : TickCtx) (name : String) : TickCtx :=
  ⟨Function.update c.tables (env.toLowercase name) none, c.registered.filter (· ≠ name)⟩

/-- Drop the tables of sources and views that are gone. -/
def reconcile (env : Env P) (c : TickCtx) (expected : List String) : TickCtx :=
  (c.registered.filter (· ∉ expected)).foldl (fun c name => c.remove env name) c

/-- `MemTable::try_new`: every chunk must fit the schema of the relation. -/
def registerChunks (env : Env P) (c : TickCtx) (name : String) (schema : Schema)
    (chunks : List RecordBatch) : IvmResult TickCtx :=
  let fits := fun s : Schema => s.length = schema.length && (schema.zip s).all fun p =>
    p.1.name = p.2.name && p.1.dataType = p.2.dataType && (p.1.nullable || !p.2.nullable)
  if chunks.all fun b => fits b.schema then
    .ok (c.register env name ⟨schema, (chunks.map RecordBatch.rows).flatten⟩)
  else .error (.execution "Error during planning: Mismatch between schema and batches")

end TickCtx

/-! ## Running view SQL -/

inductive ViewErrorKind where
  | operatorApply
  | viewSql
  | publish
  | fixpointNotConverged
  | outputSchemaMismatch
deriving DecidableEq, Repr

structure ViewError where
  view : String
  kind : ViewErrorKind
  message : String
deriving DecidableEq, Repr

/-- An empty batch of the declared schema; Arrow refuses one without columns. -/
def emptyOutputBatch (spec : IncrementalViewSpec) : IvmResult RecordBatch :=
  if spec.outputSchema.isEmpty then
    .error (.execution "must either specify a row count or at least one column")
  else .ok (RecordBatch.newEmpty spec.outputSchema)

/-- Columns by name in the declared order, cast to the declared types. -/
def coerceToSchema (env : Env P) (b : RecordBatch) (target : Schema) : IvmResult RecordBatch :=
  if b.schema = target then .ok b
  else do
    let picks ← target.mapM fun f =>
      match b.schema.findIdx? fun g => g.name = f.name with
      | none => .error (IvmError.execution ("view output missing column '" ++ f.name ++
          "' declared in output_schema"))
      | some i => .ok (i, (b.schema[i]?.map Field.dataType).getD f.dataType, f.dataType)
    let rows ← b.rows.mapM fun row => picks.mapM fun (i, src, dst) =>
      if src = dst then .ok (row.getD i .null)
      else (env.cast src dst (row.getD i .null)).mapError IvmError.execution
    .ok ⟨target, rows⟩

/-- `execute_view_sql`: the query's batches as one relation of the declared schema. -/
def executeViewSql (env : Env P) (tables : Tables) (spec : IncrementalViewSpec) :
    IvmResult RecordBatch := do
  let batches ← (env.query tables spec.bodySql).mapError IvmError.execution
  match batches.filter fun b => !b.rows.isEmpty with
  | [] => emptyOutputBatch spec
  | first :: rest =>
    let combined ← (concatBatches first.schema (first :: rest)).mapError deltaErr
    coerceToSchema env combined spec.outputSchema

def maxFixpointIters : ℕ := 100

def ivmMessage : IvmError → String
  | .execution m => "ivm error: " ++ m

/-- Iterate a recursive body on its own result until two rounds agree. -/
def fixpointLoop (env : Env P) (spec : IncrementalViewSpec) :
    ℕ → RecordBatch → TickCtx → TickCtx × Except ViewError RecordBatch
  | 0, _, c => (c, .error ⟨spec.name, .fixpointNotConverged,
      "recursive view did not reach a fixed point in 100 iterations"⟩)
  | fuel + 1, current, c =>
    match executeViewSql env c.tables spec with
    | .error e => (c, .error ⟨spec.name, .viewSql, ivmMessage e⟩)
    | .ok next =>
      match differentiate spec.outputSchema (some current) next with
      | .error e => (c, .error ⟨spec.name, .viewSql, deltaMessage e⟩)
      | .ok delta =>
        if delta.isEmpty then (c, .ok next)
        else fixpointLoop env spec fuel next (c.register env spec.name next)

def runRecursiveFixpoint (env : Env P) (spec : IncrementalViewSpec) (seed : Option RecordBatch)
    (c : TickCtx) : TickCtx × Except ViewError RecordBatch :=
  match seed.map .ok |>.getD (emptyOutputBatch spec) with
  | .error e => (c, .error ⟨spec.name, .viewSql, ivmMessage e⟩)
  | .ok current => fixpointLoop env spec maxFixpointIters current (c.register env spec.name current)

/-! ## Ordering the views -/

/-- The views a view waits for: the registered names among what it reads, itself aside. -/
def viewPreds (env : Env P) (deps : NameMap (List String)) (names : List String)
    (spec : IncrementalViewSpec) : List String :=
  ((deps.lookup spec.name).getD (env.sqlIdentifiers spec.bodySql)).filter fun token =>
    token ∈ names ∧ token ≠ spec.name

/-- `toposort_views`: the queue algorithm, then whatever a cycle left over. -/
def toposortViews (env : Env P) (deps : NameMap (List String)) (specs : List IncrementalViewSpec) : List String :=
  let names := specs.map IncrementalViewSpec.name
  let edges := (specs.map fun spec => (viewPreds env deps names spec).map (·, spec.name)).flatten
  let dependents := fun name => (edges.filter fun e => e.1 = name).map Prod.snd
  let degree := fun name => (edges.filter fun e => e.2 = name).length
  let order := Kahn.loop dependents names.length
    (env.hashOrder (names.filter fun name => degree name = 0)) degree
  order ++ names.filter fun name => name ∉ order

/-! ## Draining, flags, custody -/

/-- What the first lock section reads. -/
structure Drained (P : Type) where
  epoch : ℕ
  raw : NameMap (List DeltaBatch)
  snapshots : NameMap Source
  specs : List IncrementalViewSpec
  prevOutputs : String → Option RecordBatch
  planKinds : String → Option ViewPlanKind
  forceDiffBased : Bool
  deps : NameMap (List String)

/-- Take the pending deltas and read the state the tick works from. -/
def drain [PlanLogic P] (env : Env P) (s : Inner P) : Inner P × Drained P :=
  ({ s with pending := ∅ },
   { epoch := s.stateEpoch
     raw := s.pending
     snapshots := s.sourceSnapshots
     specs := (env.hashOrder s.views.keys).filterMap fun n =>
       (s.views.lookup n).map IncrementalView.spec
     prevOutputs := fun n => (s.views.lookup n).bind IncrementalView.snapshot
     planKinds := fun n => (s.viewPlans.lookup n).map PlanLogic.kind
     forceDiffBased := s.forceDiffBased
     deps := s.viewDeps })

/-- Return drained deltas: before whatever arrived since, source by source. -/
def giveBack (s : Inner P) (raw : NameMap (List DeltaBatch)) : Inner P :=
  let put := fun reclaimed (arrived : Option (List DeltaBatch)) => reclaimed ++ arrived.getD []
  { s with pending := KVMap.merge put raw s.pending }

/-- One delta is taken as it is, several are concatenated. -/
def concatQueue : List DeltaBatch → IvmResult DeltaBatch
  | [d] => .ok d
  | ds => (DeltaBatch.concat ds).mapError deltaErr

/-- One consolidated delta per source. -/
def coalescePending (raw : NameMap (List DeltaBatch)) : IvmResult (NameMap DeltaBatch) :=
  KVMap.mapM (fun _ deltas => do
    let batch ← concatQueue deltas
    (consolidateBatch batch).mapError deltaErr) raw

/-- Take the rebuild mark and the set of views to recompute. -/
def takeFlags (s : Inner P) : Inner P × Bool × List String :=
  ({ s with rebuildAllViews := false, recomputeViews := [] }, s.rebuildAllViews, s.recomputeViews)

/-! ## Outside the lock -/

/-- The delta of a source's relation: the fed delta, corrected by what the deficit absorbed or
paid back. -/
def relationDeltaWith (consolidate : DeltaBatch → DeltaResult DeltaBatch) (before after : Option DeltaBatch)
    (raw : DeltaBatch) : DeltaResult DeltaBatch :=
  match before, after with
  | none, none => .ok raw
  | before, after => do
    let combined ← DeltaBatch.concat ([raw] ++ before.toList ++ (after.map DeltaBatch.negate).toList)
    let settled ← consolidate combined
    .ok (settled.filterMask fun p => p.2 ≠ 0)

def relationDelta : Option DeltaBatch → Option DeltaBatch → DeltaBatch → DeltaResult DeltaBatch :=
  relationDeltaWith consolidateBatch

/-- What the marking pass needs to know of the tick. -/
structure MarkInput where
  dirtySources : List String
  rebuild : Bool
  recompute : List String
  schemas : String → Option Schema

/-- The marked views: lower-cased names, the order with "runs incrementally", the new plans and
presentation orders. -/
structure Marks (P : Type) where
  dirtyViews : List String
  order : List (String × Bool)
  newPlans : List (String × P × String)
  newOrders : List (String × Option (List OrderColumn))

/-- Mark one view in topological order. -/
def markView [PlanLogic P] (env : Env P) (d : Drained P) (t : MarkInput) (acc : Marks P)
    (spec : IncrementalViewSpec) : Marks P :=
  let reads := (d.deps.lookup spec.name).getD (env.sqlIdentifiers spec.bodySql)
  let isDirty := reads.any fun dep => dep ∈ t.dirtySources || dep ∈ acc.dirtyViews
  let recompute := decide (spec.name ∈ t.recompute)
  if !isDirty && !t.rebuild && !recompute then acc
  else
    let dirtyViews := env.toLowercase spec.name :: acc.dirtyViews
    if d.forceDiffBased || t.rebuild || recompute || spec.isRecursive then
      { acc with dirtyViews := dirtyViews, order := acc.order ++ [(spec.name, false)] }
    else
      match d.planKinds spec.name with
      | none =>
        let planned := env.plan spec.bodySql spec.outputSchema t.schemas spec.lateness
        { dirtyViews := dirtyViews
          order := acc.order ++ [(spec.name, decide (PlanLogic.kind planned.plan = .incremental))]
          newPlans := acc.newPlans ++ [(spec.name, planned.plan, spec.bodySql)]
          newOrders := acc.newOrders ++ [(spec.name, planned.order)] }
      | some kind =>
        { acc with dirtyViews := dirtyViews
                   order := acc.order ++ [(spec.name, decide (kind = .incremental))] }

def markViews [PlanLogic P] (env : Env P) (d : Drained P) (t : MarkInput) (topo : List String) : Marks P :=
  (topo.filterMap fun n => d.specs.find? fun s => s.name = n).foldl (markView env d t) ⟨[], [], [], []⟩

/-- The incremental views that a view of this tick which runs SQL reads. -/
def owesFullOutput (env : Env P) (d : Drained P) (order : List (String × Bool)) (v : String) : Bool :=
  order.any fun w => !w.2 &&
    match d.deps.lookup w.1 with
    | some deps => decide (env.toLowercase v ∈ deps)
    | none => (d.specs.find? fun s => s.name = w.1).any fun s =>
        decide (env.toLowercase v ∈ env.sqlIdentifiers s.bodySql)

/-- The SQL pass: the context, the full output of every view so far, the errors. -/
structure Executed where
  ctx : TickCtx
  full : String → Option RecordBatch
  errors : List ViewError

/-- Run, or skip, the SQL of one marked view. -/
def executeView (env : Env P) (d : Drained P) (order : List (String × Bool)) (acc : Executed)
    (entry : String × Bool) : IvmResult Executed :=
  match d.specs.find? fun s => s.name = entry.1 with
  | none => .ok acc
  | some spec =>
    if entry.2 && !owesFullOutput env d order entry.1 then
      -- maintained by its operator: its table shows the previous snapshot
      match acc.full spec.name with
      | some prev =>
        if prev.rows.isEmpty then .ok { acc with ctx := acc.ctx.remove env spec.name }
        else .ok { acc with ctx := acc.ctx.register env spec.name prev }
      | none => .ok { acc with ctx := acc.ctx.remove env spec.name }
    else
      let ctx := (d.specs.map IncrementalViewSpec.name).foldl (fun c n =>
        match acc.full n with
        | some b => c.register env n b
        | none => c) acc.ctx
      if spec.isRecursive then
        match runRecursiveFixpoint env spec (acc.full spec.name) ctx with
        | (ctx, .ok fixedPoint) =>
          .ok { acc with ctx := ctx, full := Function.update acc.full spec.name (some fixedPoint) }
        | (ctx, .error e) => .ok { acc with ctx := ctx, errors := acc.errors ++ [e] }
      else
        match executeViewSql env ctx.tables spec with
        | .ok newFull =>
          .ok { acc with ctx := ctx, full := Function.update acc.full spec.name (some newFull) }
        | .error e => do
          let newFull ← emptyOutputBatch spec
          .ok { ctx := ctx
                full := Function.update acc.full spec.name (some newFull)
                errors := acc.errors ++ [⟨spec.name, .viewSql, ivmMessage e⟩] }

/-- What a tick brings to its commit. -/
structure Prepared (P : Type) where
  epoch : ℕ
  inputs : NameMap DeltaBatch
  newSnapshots : NameMap Source
  relation : NameMap DeltaBatch
  preDelta : NameMap RecordBatch
  viewSeed : String → Option RecordBatch
  schemas : String → Option Schema
  topo : List String
  recompute : List String
  marks : Marks P
  executed : Executed

/-- Advance every source by its input. -/
def advanceSources (snapshots : NameMap Source) (inputs : NameMap DeltaBatch) : IvmResult (NameMap Source) :=
  KVMap.updateM (fun _ delta current =>
    ((Source.applyTo current delta).map some).mapError deltaErr) inputs snapshots

def relationDeltas (old new : NameMap Source) (inputs : NameMap DeltaBatch) : IvmResult (NameMap DeltaBatch) :=
  KVMap.mapM (fun name raw =>
    (relationDelta ((old.lookup name).bind fun s => s.state.deficit)
      ((new.lookup name).bind fun s => s.state.deficit) raw).mapError deltaErr) inputs

def registerSources (env : Env P) (sources : NameMap Source) (c : TickCtx) : IvmResult TickCtx :=
  sources.entries.foldlM (fun c e => c.registerChunks env e.1 e.2.state.schema e.2.state.positive) c

/-- Source schemas, and the declared schema of every view. -/
def availableSchemas (sources : NameMap Source) (specs : List IncrementalViewSpec) :
    String → Option Schema := fun name =>
  ((specs.find? fun s => s.name = name).map IncrementalViewSpec.outputSchema).or
    ((sources.lookup name).map fun s => s.state.schema)

/-- The source relations before the tick, for seeding; only read while some view has no plan. -/
def preDeltaSnapshots (d : Drained P) : IvmResult (NameMap RecordBatch) :=
  if d.specs.any fun spec => (d.planKinds spec.name).isNone then
    KVMap.mapM (fun _ s => s.state.positiveBatch.mapError deltaErr) d.snapshots
  else .ok ∅

def prepare [PlanLogic P] (env : Env P) (d : Drained P) (inputs : NameMap DeltaBatch) (rebuild : Bool)
    (recompute : List String) (c : TickCtx) : IvmResult (Prepared P) := do
  let preDelta ← preDeltaSnapshots d
  let newSnapshots ← advanceSources d.snapshots inputs
  let relation ← relationDeltas d.snapshots newSnapshots inputs
  let ctx := c.reconcile env (newSnapshots.keys ++ d.specs.map IncrementalViewSpec.name)
  let ctx ← registerSources env newSnapshots ctx
  let topo := toposortViews env d.deps d.specs
  let schemas := availableSchemas newSnapshots d.specs
  let marks := markViews env d ⟨inputs.keys.map env.toLowercase, rebuild, recompute, schemas⟩ topo
  let executed ← marks.order.foldlM (executeView env d marks.order) ⟨ctx, d.prevOutputs, []⟩
  .ok { epoch := d.epoch, inputs := inputs, newSnapshots := newSnapshots, relation := relation
        preDelta := preDelta, viewSeed := d.prevOutputs, schemas := schemas, topo := topo
        recompute := recompute, marks := marks, executed := executed }

/-! ## Under the lock again -/

structure StepSummary where
  totalOutputRows : ℕ
  totalInsertedRows : ℕ
  totalRetractedRows : ℕ
  activeViews : ℕ
  degradedViews : List String
  erroredViews : List ViewError
deriving DecidableEq, Repr

def StepSummary.zero : StepSummary := ⟨0, 0, 0, 0, [], []⟩

/-- The commit in progress: the state, the deltas produced so far, the summary. -/
structure Progress (P : Type) where
  inner : Inner P
  available : NameMap DeltaBatch
  summary : StepSummary

def Progress.fail (st : Progress P) (e : ViewError) : Progress P :=
  { st with summary := { st.summary with erroredViews := st.summary.erroredViews ++ [e] } }

def sameLogicalType (a b : DataType) : Bool :=
  let strings : List DataType := [.utf8, .largeUtf8, .utf8View]
  let binaries : List DataType := [.other "Binary", .other "LargeBinary", .other "BinaryView"]
  (a ∈ strings && b ∈ strings) || (a ∈ binaries && b ∈ binaries) || a = b

/-- Every declared column is matched by one emitted column of its name and type. -/
def matchColumns : List Field → List Field → Bool
  | [], _ => true
  | f :: declared, emitted =>
    match emitted.findIdx? fun e => e.name = f.name && sameLogicalType e.dataType f.dataType with
    | some i => matchColumns declared (emitted.eraseIdx i)
    | none => false

def emitsDeclaredRelation (emitted declared : Schema) : Bool :=
  emitted.length = declared.length && matchColumns declared emitted

/-- Hashes of the input rows, each with its weight mixed in. -/
def inputHashes (env : Env P) (inputs : NameMap DeltaBatch) : IvmResult (List ℕ) := do
  let hashes ← inputs.entries.mapM fun e => e.2.rows.mapM fun p => do
    let base ← hashRow env e.2.schema p.1
    .ok ((base + p.2.natAbs * 0x9e3779b97f4a7c15) % 2 ^ 64)
  .ok hashes.flatten

def installOrder (s : Inner P) (entry : String × Option (List OrderColumn)) : Inner P :=
  match entry.2 with
  | some o => { s with viewOrder := s.viewOrder.insert entry.1 o }
  | none => { s with viewOrder := s.viewOrder.erase entry.1 }

/-- Try the checkpointed operator state of a fresh plan, if it was written under the same SQL. -/
def restorePlan [PlanLogic P] (env : Env P) (s : Inner P) (name : String) (plan : P) (sql : String) : P × Bool :=
  match s.pendingPlanState.lookup name with
  | none => (plan, false)
  | some state =>
    if s.pendingPlanLogic.lookup name = some (env.logicFingerprint sql) then
      match PlanLogic.restoreStateBytes plan state with
      | (plan, .ok done) => (plan, done)
      | (plan, .error _) => (plan, false)
    else (plan, false)

/-- A seeded view without a snapshot gets the seeded relation, as its baseline too. -/
def seedView (views : NameMap IncrementalView) (name : String) (d : DeltaBatch) : NameMap IncrementalView :=
  match views.lookup name with
  | none => views
  | some view =>
    if view.snapshot.isSome then views
    else
      match applyDelta none d with
      | .ok full => views.insert name (view.restoreState (some full) (some full))
      | .error _ => views

/-- Seed a fresh plan from the relations before this tick. -/
def seedPlan [PlanLogic P] (lookup : String → Option RecordBatch) (views : NameMap IncrementalView)
    (name : String) (plan : P) : P × NameMap IncrementalView :=
  match PlanLogic.seedFromSnapshots plan lookup with
  | (plan, .ok (some d)) => (plan, seedView views name d)
  | (plan, _) => (plan, views)

/-- Install a freshly built plan, with restored or seeded state. -/
def installPlan [PlanLogic P] (env : Env P) (lookup : String → Option RecordBatch) (s : Inner P)
    (entry : String × P × String) : Inner P :=
  let restored := restorePlan env s entry.1 entry.2.1 entry.2.2
  let seeded := if restored.2 then (restored.1, s.views)
    else seedPlan lookup s.views entry.1 restored.1
  { s with pendingPlanLogic := s.pendingPlanLogic.erase entry.1
           pendingPlanState := s.pendingPlanState.erase entry.1
           views := seeded.2
           viewPlanSqls := s.viewPlanSqls.insert entry.1 entry.2.2
           viewPlans := s.viewPlans.insert entry.1 seeded.1 }

def planKindOf [PlanLogic P] (s : Inner P) (name : String) : ViewPlanKind :=
  if s.forceDiffBased then .diffBased
  else ((s.viewPlans.lookup name).map PlanLogic.kind).getD .diffBased

/-- What a view produces this tick. -/
inductive Produced where
  | skip
  | failed (e : ViewError)
  | delta (d : DeltaBatch)

/-- The operator's delta, or the diff of the full result against the baseline. -/
def produce [PlanLogic P] (p : Prepared P) (st : Progress P) (kind : ViewPlanKind) (name : String)
    (view : IncrementalView) : Inner P × Produced :=
  let s := st.inner
  match kind with
  | .incremental =>
    match s.viewPlans.lookup name with
    | none => (s, .skip)
    | some plan =>
      let deltas : TickDeltas := ⟨p.relation.lookup, st.available.lookup, p.schemas⟩
      let (plan, out) := PlanLogic.apply plan deltas
      let s := { s with viewPlans := s.viewPlans.insert name plan }
      match out with
      | .skip => (s, .skip)
      | .failed e => (s, .failed ⟨name, .operatorApply, deltaMessage e⟩)
      | .delta d => (s, .delta d)
  | .diffBased =>
    match p.executed.full name with
    | none => (s, .skip)
    | some newFull =>
      match view.diffAndUpdate newFull with
      | (view, .ok d) => ({ s with views := s.views.insert name view }, .delta d)
      | (_, .error e) => (s, .failed ⟨name, .viewSql, deltaMessage e⟩)

/-- Publish through the path of the plan kind. -/
def publishVia (kind : ViewPlanKind) (view : IncrementalView) (d : DeltaBatch) : IncrementalView × DeltaResult Unit :=
  match kind with
  | .incremental => view.applyOutputDelta d
  | .diffBased => view.publishOutput d

def insertCounts (d : DeltaBatch) : ℕ × ℕ :=
  (((d.rows.filter fun p => 0 < p.2).map fun p => p.2.natAbs).sum,
   ((d.rows.filter fun p => ¬ 0 < p.2).map fun p => p.2.natAbs).sum)

/-- Count a non-empty output delta in the summary and in the view's totals. -/
def countOutput (st : Progress P) (name : String) (d : DeltaBatch) : Progress P :=
  let (inserts, retracts) := insertCounts d
  let old := (st.inner.viewDeltaStats.lookup name).getD ⟨0, 0, 0, 0⟩
  let stats : ViewDeltaStats := ⟨old.rowsInsertedTotal + inserts, old.rowsRetractedTotal + retracts,
    inserts, retracts⟩
  { st with
    inner := { st.inner with viewDeltaStats := st.inner.viewDeltaStats.insert name stats }
    summary := { st.summary with
      totalOutputRows := st.summary.totalOutputRows + d.numRows
      totalInsertedRows := st.summary.totalInsertedRows + inserts
      totalRetractedRows := st.summary.totalRetractedRows + retracts
      activeViews := st.summary.activeViews + 1 } }

/-- Record the lineage of a recomputed view's delta while provenance is on. -/
def recordProvenance (env : Env P) (hashes : Option (List ℕ)) (kind : ViewPlanKind)
    (s : Inner P) (d : DeltaBatch) : IvmResult (Inner P) :=
  match kind, hashes, s.provenance with
  | .diffBased, some inputs, some store => do
    let outputs ← d.rows.mapM fun p => hashRow env d.schema p.1
    .ok { s with provenance := some (store ++ [⟨s.tick, inputs, outputs⟩]) }
  | _, _, _ => .ok s

/-- Publish, and note the tick; `retain` puts the delta into the output log. -/
def publishDelta (env : Env P) (kind : ViewPlanKind) (st : Progress P) (name : String)
    (view : IncrementalView) (d : DeltaBatch) (retain : Bool) : Progress P :=
  match publishVia kind view d with
  | (view, .ok ()) =>
    let s := { st.inner with views := st.inner.views.insert name view
                             viewOutputTicks := st.inner.viewOutputTicks.insert name st.inner.tick }
    { st with inner := if retain then retainOutput env s name s.tick d else s }
  | (view, .error e) =>
    let st := { st with inner := { st.inner with views := st.inner.views.insert name view } }
    st.fail ⟨name, .publish, deltaMessage e⟩

/-- Make an output delta visible to the views after this one. -/
def handOver (st : Progress P) (name : String) (d : DeltaBatch) : Progress P :=
  { st with
    inner := { st.inner with lastStepOutputs := st.inner.lastStepOutputs.insert name d }
    available := st.available.insert name d }

/-- Check the columns, then publish. An empty delta only establishes the snapshot of a view that has
none. -/
def emitDelta (env : Env P) (hashes : Option (List ℕ)) (kind : ViewPlanKind) (st : Progress P)
    (name : String) (d : DeltaBatch) : Progress P × Option IvmError :=
  match st.inner.views.lookup name with
  | none => (st, none)
  | some view =>
    if !emitsDeclaredRelation d.schema view.spec.outputSchema then
      (st.fail ⟨name, .outputSchemaMismatch, "operator emitted columns " ++
        describeColumns d.schema ++ " but the view declares " ++
        describeColumns view.spec.outputSchema ++
        "; refusing to publish a relation the view did not declare (IVM-AUD-SCHEMA-1)"⟩, none)
    else if d.isEmpty then
      if view.spec.isMaterialized && view.snapshot.isNone then
        (publishDelta env kind st name view d false, none)
      else (st, none)
    else
      let st := countOutput st name d
      match recordProvenance env hashes kind st.inner d with
      | .error e => (st, some e)
      | .ok s => (publishDelta env kind (handOver { st with inner := s } name d) name view d true, none)

/-- A view that is recomputed in full is reported as degraded. -/
def noteDegraded (st : Progress P) (kind : ViewPlanKind) (name : String) : Progress P :=
  match kind with
  | .diffBased => { st with summary :=
      { st.summary with degradedViews := st.summary.degradedViews ++ [name] } }
  | .incremental => st

/-- One dirty view. -/
def commitView [PlanLogic P] (env : Env P) (p : Prepared P) (hashes : Option (List ℕ)) (st : Progress P)
    (name : String) : Progress P × Option IvmError :=
  match st.inner.views.lookup name with
  | none => (st, none)
  | some view =>
    let kind := planKindOf st.inner name
    let st := noteDegraded st kind name
    match produce p st kind name view with
    | (s, .skip) => ({ st with inner := s }, none)
    | (s, .failed e) => ({ st with inner := s }.fail e, none)
    | (s, .delta d) => emitDelta env hashes kind { st with inner := s } name d

/-- The dirty views in order; a failure of the provenance hash ends the commit where it stands. -/
def commitViews [PlanLogic P] (env : Env P) (p : Prepared P) (hashes : Option (List ℕ)) :
    List String → Progress P → Progress P × Option IvmError
  | [], st => (st, none)
  | name :: names, st =>
    match commitView env p hashes st name with
    | (st, some e) => (st, some e)
    | (st, none) => commitViews env p hashes names st

/-- Watermark garbage collection of every plan, when any source has a watermark. -/
def gcPlans [PlanLogic P] (s : Inner P) : Inner P :=
  if s.watermarkTrackers.keys.isEmpty then s
  else
    let watermarks := fun n => (s.watermarkTrackers.lookup n).map WatermarkTracker.watermark
    let collect := fun (_ : String) plan => (PlanLogic.gcWatermark plan watermarks).1
    { s with viewPlans := KVMap.map collect s.viewPlans }

/-- A failed operator or publish, or a failed recompute, drops the plan and asks for a recompute. -/
def retireFailed (recompute : List String) (s : Inner P) (e : ViewError) : Inner P :=
  if e.kind = .operatorApply || e.kind = .publish || e.view ∈ recompute then
    { s with viewPlans := s.viewPlans.erase e.view
             recomputeViews := if e.view ∈ s.recomputeViews then s.recomputeViews
               else e.view :: s.recomputeViews }
  else s

def abortMessage : String :=
  "IVM tick aborted: the flow's state was replaced while this tick was running (a restore, a " ++
  "remote tick, or a concurrent step). The drained input deltas have been returned to the pending " ++
  "queue; step again."

/-- The part of the commit that replaces the sources. -/
def commitSources (s : Inner P) (p : Prepared P) : Inner P :=
  { s with stateEpoch := s.stateEpoch + 1, sourceSnapshots := p.newSnapshots
           lastStepOutputs := ∅, tick := s.tick + 1 }

/-- Where a new plan looks for the relations before this tick. -/
def Prepared.seedLookup (p : Prepared P) : String → Option RecordBatch := fun name =>
  (p.preDelta.lookup name).or (p.viewSeed name)

/-- Orders and plans built for this tick. -/
def installPlans [PlanLogic P] (env : Env P) (s : Inner P) (p : Prepared P) : Inner P :=
  p.marks.newPlans.foldl (installPlan env p.seedLookup) (p.marks.newOrders.foldl installOrder s)

/-- The views of the commit loop. -/
def dirtyNames (env : Env P) (p : Prepared P) : List String :=
  p.topo.filter fun n => env.toLowercase n ∈ p.marks.dirtyViews

def commit [PlanLogic P] (env : Env P) (s : Inner P) (p : Prepared P) : Inner P × IvmResult StepSummary :=
  if s.stateEpoch ≠ p.epoch then (s, .error (.execution abortMessage))
  else
    let s := commitSources s p
    match if s.provenance.isSome then (inputHashes env p.inputs).map some else .ok none with
    | .error e => (s, .error e)
    | .ok hashes =>
      let start : Progress P := ⟨installPlans env s p, p.inputs,
        { StepSummary.zero with erroredViews := p.executed.errors }⟩
      match commitViews env p hashes (dirtyNames env p) start with
      | (st, some e) => (st.inner, .error e)
      | (st, none) =>
        (st.summary.erroredViews.foldl (retireFailed p.recompute) (gcPlans st.inner), .ok st.summary)

/-- The tick from the taken marks to its end: nothing to do, or prepare outside the lock and
commit. The context is cached again only by a tick that commits. -/
def finishTick [PlanLogic P] (env : Env P) (d : Drained P) (inputs : NameMap DeltaBatch)
    (rebuild : Bool) (recompute : List String) (c : TickCtx) (s : Inner P) :
    Inner P × TickCtx × IvmResult StepSummary :=
  if inputs.keys.isEmpty && !rebuild && recompute.isEmpty then
    ({ s with lastStepOutputs := ∅, tick := s.tick + 1 }, c, .ok .zero)
  else
    match prepare env d inputs rebuild recompute c with
    | .error e => (s, .fresh, .error e)
    | .ok p =>
      match commit env s p with
      | (s, .error e) => (s, .fresh, .error e)
      | (s, .ok summary) => (s, p.executed.ctx, .ok summary)

/-- The guard of the drained deltas: whatever way a tick ends without `Ok`, they go back. -/
def guardDrained {α : Type} (raw : NameMap (List DeltaBatch)) (r : Inner P × TickCtx × IvmResult α) :
    Inner P × TickCtx × IvmResult α :=
  match r.2.2 with
  | .error _ => (giveBack r.1 raw, r.2)
  | .ok _ => r

/-- A whole tick. Between its lock sections other calls may change the state: `before` between the
drain and the taking of the flags, `during` between that and the commit. -/
def stepInterleaved [PlanLogic P] (env : Env P) (before during : Inner P → Inner P) (s : Inner P)
    (c : TickCtx) : Inner P × TickCtx × IvmResult StepSummary :=
  let d := (drain env s).2
  let flagged := before (drain env s).1
  match coalescePending d.raw with
  | .error e => guardDrained d.raw (flagged, .fresh, .error e)
  | .ok inputs =>
    let taken := takeFlags flagged
    guardDrained d.raw (finishTick env d inputs taken.2.1 taken.2.2 c (during taken.1))

/-- `step_datafusion` with nothing in between. -/
def stepDatafusion [PlanLogic P] (env : Env P) (s : Inner P) (c : TickCtx) :
    Inner P × TickCtx × IvmResult StepSummary :=
  stepInterleaved env id id s c

end Krishiv.Ivm
