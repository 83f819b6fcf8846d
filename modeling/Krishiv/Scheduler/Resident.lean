import Krishiv.Ivm.FullCheckpoint
import Krishiv.Ivm.Interleaving

/-!
# Resident flows: the coordinator and its executors

A job whose flow is *resident* is computed on an executor. The coordinator ships the state of its own
flow once (`attach`), and from then on sends the merged input deltas of each tick with a fence; the
executor answers with the output deltas, and the coordinator mirrors the tick from them. The fence is
a counter: an executor takes a tick only if its fence is the next one.

`World` is one job with its executors. A fragment that the coordinator gives up on may still be on its
way: it is kept in `late`, and may run at any time. The step of a job is two events, because fragments
can run on the executor between the attach and the tick; the job's lock keeps everything else out.

The wire (base64, JSON or binary, the negotiated dialect) carries the same content either way and is
left out, as is the shard index of partitioned jobs.
-/

namespace Krishiv.Scheduler

open Krishiv.Delta Krishiv.Ivm

variable {P E : Type}

/-! ## The executor -/

/-- A flow held by an executor, with its cached SQL context. -/
structure Resident (P : Type) where
  flow : Inner P
  ctx : TickCtx
  fence : ℕ

inductive Fragment where
  | attach (specs : List IncrementalViewSpec) (forceDiffBased : Bool) (state : FullBlob) (fence : ℕ)
  | tick (deltas : NameMap DeltaBatch) (fence : ℕ)
  | detach

/-- What a fragment answers: an attach its capabilities, a tick its output deltas. -/
inductive Reply where
  | attached
  | ticked (summary : StepSummary) (outputs : NameMap DeltaBatch)
  | detached

def errorText : IvmError → String
  | .execution m => "ivm error: " ++ m

/-- `delta:attach:` builds a fresh flow with the shipped views and state. The request for full
recompute rides on the views, so it is lost if there are none. -/
def attachResident (env : Env P) (specs : List IncrementalViewSpec) (forceDiffBased : Bool)
    (state : FullBlob) (fence : ℕ) : Except String (Resident P) :=
  let fresh : Inner P := if specs.any fun _ => forceDiffBased then
      { Inner.new with forceDiffBased := true }
    else .new
  match restoreFull env (specs.foldl (registerView env) fresh) (.ok state) with
  | (_, .error e) => .error ("attach restore_full: " ++ errorText e)
  | (s, .ok ()) => .ok ⟨s, .fresh, fence⟩

/-- Weight-zero rows are dropped from what comes over the wire. -/
def dropZeros (d : DeltaBatch) : DeltaBatch := d.filterMask fun p => p.2 ≠ 0

/-- Feed the deltas of a tick, source by source, up to the first that is refused. -/
def feedDeltas (env : Env P) : Inner P → List (Sigma fun _ : String => DeltaBatch) → Inner P × IvmResult Unit
  | s, [] => (s, .ok ())
  | s, ⟨source, d⟩ :: rest =>
    match feed env s source (dropZeros d) with
    | (s, .error e) => (s, .error e)
    | (s, .ok ()) => feedDeltas env s rest

/-- Take the output deltas of the registered views out of the flow. -/
def takeStepOutputs (s : Inner P) : Inner P × NameMap DeltaBatch :=
  let ofView := fun name => (s.views.lookup name).isSome
  ({ s with lastStepOutputs :=
      KVMap.filterMap (fun name d => if ofView name then none else some d) s.lastStepOutputs },
   KVMap.filterMap (fun name d => if ofView name then some d else none) s.lastStepOutputs)

def fenceMismatch (job : String) (expected got : ℕ) : String :=
  "fence mismatch for job '" ++ job ++ "': expected " ++ toString expected ++ ", got " ++
    toString got ++ " (replay or gap — coordinator must re-attach)"

/-- `delta:tick:` on the flow of the job. The fence advances only with a tick that ends well. -/
def tickResident [PlanLogic P] (env : Env P) (job : String) (x : Resident P)
    (deltas : NameMap DeltaBatch) (fence : ℕ) : Resident P × Except String (StepSummary × NameMap DeltaBatch) :=
  if fence ≠ x.fence + 1 then (x, .error (fenceMismatch job (x.fence + 1) fence))
  else
    match feedDeltas env x.flow deltas.entries with
    | (s, .error e) => ({ x with flow := s }, .error (errorText e))
    | (s, .ok ()) =>
      match stepDatafusion env s x.ctx with
      | (s, c, .error e) => ({ x with flow := s, ctx := c }, .error (errorText e))
      | (s, c, .ok summary) =>
        let taken := takeStepOutputs s
        (⟨taken.1, c, fence⟩, .ok (summary, taken.2))

/-- One fragment on the executor's entry for the job. -/
def runFragment [PlanLogic P] (env : Env P) (job : String) (entry : Option (Resident P)) :
    Fragment → Option (Resident P) × Except String Reply
  | .attach specs forceDiffBased state fence =>
    match attachResident env specs forceDiffBased state fence with
    | .error e => (entry, .error e)
    | .ok x => (some x, .ok .attached)
  | .tick deltas fence =>
    match entry with
    | none => (none, .error ("no resident IVM flow for job '" ++ job ++ "' (needs attach)"))
    | some x =>
      match tickResident env job x deltas fence with
      | (x, .error e) => (some x, .error e)
      | (x, .ok (summary, outputs)) => (some x, .ok (.ticked summary outputs))
  | .detach => (none, .ok .detached)

/-! ## The coordinator -/

/-- What a running step holds: the drained deltas, their merged form, the executor it goes to. -/
structure Custody (E : Type) where
  raw : NameMap (List DeltaBatch)
  deltas : NameMap DeltaBatch
  executor : E

/-- One job: the coordinator's flow and dispatch state, what every executor holds for it, the
fragments that were given up on, and the step in progress. -/
structure World (P E : Type) where
  flow : Inner P
  ctx : TickCtx
  attached : Bool
  fence : ℕ
  executor : Option E
  flows : E → Option (Resident P)
  late : List (E × Fragment)
  running : Option (Custody E)

/-- What becomes of a fragment: it runs and its answer arrives, it runs and the answer is lost, or the
coordinator gives up on it before it has run. -/
inductive Delivery where
  | delivered
  | lost
  | abandoned
deriving DecidableEq

inductive Request where
  | registerView (spec : IncrementalViewSpec)
  | dropView (name : String)
  | feed (source : String) (d : DeltaBatch)
  | restore (state : FullBlob)
  | restoreDelta (slice : SourceBlob)

/-- A request that changes the job's flow, under the job's lock. -/
def Request.apply (env : Env P) (s : Inner P) : Request → Inner P
  | .registerView spec => Ivm.registerView env s spec
  | .dropView name => (Ivm.dropView s name).1
  | .feed source d => (Ivm.feed env s source d).1
  | .restore state => (restoreFull env s (.ok state)).1
  | .restoreDelta slice => (Ivm.restoreDelta s slice).1

/-- The answer to a step: it goes on, or it has ended. -/
inductive Answer where
  | goesOn
  | ended (result : Except String StepSummary)

def invalidateViewPlans (s : Inner P) : Inner P :=
  { s with viewPlans := ∅, viewPlanSqls := ∅, pendingPlanState := ∅, pendingPlanLogic := ∅
           stateEpoch := s.stateEpoch + 1 }

/-- `drain_for_dispatch`: what does not merge is fed again. -/
def drainForDispatch (s : Inner P) : Inner P × Except String (NameMap (List DeltaBatch) × NameMap DeltaBatch) :=
  let taken := takePending s
  match coalescePending taken.2 with
  | .ok deltas => (taken.1, .ok (taken.2, deltas))
  | .error e => (reFeed taken.1 taken.2, .error (errorText e))

/-- `step_with` over an empty computation: the tick counts on. -/
def stepWithNothing (s : Inner P) : Inner P := { s with pending := ∅, tick := s.tick + 1 }

section Coordinator

variable [DecidableEq E] [PlanLogic P] (env : Env P) (job : String)

/-- A tick on the coordinator. -/
def centralStep (w : World P E) : World P E × Answer :=
  match stepDatafusion env w.flow w.ctx with
  | (s, c, .ok summary) => ({ w with flow := s, ctx := c, running := none }, .ended (.ok summary))
  | (s, c, .error e) => ({ w with flow := s, ctx := c, running := none }, .ended (.error (errorText e)))

/-- The recorded fallback: the job counts as detached, and the tick is computed centrally. -/
def fallBack (w : World P E) : World P E × Answer := centralStep env { w with attached := false }

/-- `run_ivm_fragment_job`, pinned to an executor. -/
def submit (w : World P E) (e : E) (f : Fragment) (how : Delivery) : World P E × Except String Reply :=
  let ran := runFragment env job (w.flows e) f
  let gaveUp := "job did not succeed"
  match how with
  | .delivered => ({ w with flows := Function.update w.flows e ran.1 }, ran.2)
  | .lost => ({ w with flows := Function.update w.flows e ran.1 }, .error gaveUp)
  | .abandoned => ({ w with late := w.late ++ [(e, f)] }, .error gaveUp)

/-- The executor a step goes to, and whether the job is attached there: the one of the last
attachment if it can take work, or else the first that can. -/
def chooseExecutor (w : World P E) (live : List E) : Option (E × Bool) :=
  match w.executor with
  | some e => if e ∈ live then some (e, w.attached) else live.head?.map (·, false)
  | none => live.head?.map (·, false)

/-- The attach of a step. -/
def attachStep (w : World P E) (c : Custody E) (how : Delivery) : World P E × Answer :=
  let specs := (env.hashOrder w.flow.views.keys).filterMap fun n =>
    (w.flow.views.lookup n).map IncrementalView.spec
  match checkpointFull env w.flow with
  | .error _ => fallBack env { w with flow := reFeed w.flow c.raw }
  | .ok state =>
    match submit env job w c.executor (.attach specs w.flow.forceDiffBased state w.fence) how with
    | (w, .error _) => fallBack env { w with flow := reFeed w.flow c.raw }
    | (w, .ok _) =>
      ({ w with flow := invalidateViewPlans w.flow, attached := true, executor := some c.executor
                running := some c }, .goesOn)

/-- `api_ivm_step` up to the tick. The executors that can accept work are counted first, and listed
again when the step goes out. -/
def beginStep (w : World P E) (executorCount : ℕ) (live : List E) (how : Delivery) : World P E × Answer :=
  if executorCount = 0 then centralStep env w
  else
    match drainForDispatch w.flow with
    | (s, .error _) => fallBack env { w with flow := s }
    | (s, .ok (raw, deltas)) =>
      if deltas.keys.isEmpty then
        ({ w with flow := stepWithNothing s }, .ended (.ok .zero))
      else
        let w := { w with flow := s }
        match chooseExecutor w live with
        | none => fallBack env { w with flow := reFeed w.flow raw }
        | some (e, true) => ({ w with running := some ⟨raw, deltas, e⟩ }, .goesOn)
        | some (e, false) => attachStep env job w ⟨raw, deltas, e⟩ how

/-- The tick of a running step, and its mirror. -/
def tickStep (w : World P E) (c : Custody E) (how : Delivery) : World P E × Answer :=
  match submit env job w c.executor (.tick c.deltas (w.fence + 1)) how with
  | (w, .ok (.ticked _ outputs)) =>
    match applyRemoteTick env w.flow c.raw outputs with
    | (s, .ok summary) => ({ w with flow := s, fence := w.fence + 1, running := none }, .ended (.ok summary))
    | (s, .error _) => fallBack env { w with flow := reFeed s c.raw }
  | (w, _) => fallBack env { w with flow := reFeed w.flow c.raw }

inductive Event (E : Type) where
  | request (r : Request)
  | beginStep (executorCount : ℕ) (live : List E) (how : Delivery)
  | tickStep (how : Delivery)
  | runLate (i : ℕ)
  | lose (e : E)

/-- One event. What needs the job's lock waits for a running step. -/
def World.act (w : World P E) : Event E → World P E × Answer
  | .request r =>
    match w.running with
    | some _ => (w, .goesOn)
    | none => ({ w with flow := r.apply env w.flow }, .goesOn)
  | .beginStep executorCount live how =>
    match w.running with
    | some _ => (w, .goesOn)
    | none => Scheduler.beginStep env job w executorCount live how
  | .tickStep how =>
    match w.running with
    | some c => Scheduler.tickStep env job w c how
    | none => (w, .goesOn)
  | .runLate i =>
    match w.late[i]? with
    | some (e, f) =>
      ({ w with flows := Function.update w.flows e (runFragment env job (w.flows e) f).1
                late := w.late.eraseIdx i }, .goesOn)
    | none => (w, .goesOn)
  | .lose e => ({ w with flows := Function.update w.flows e none }, .goesOn)

/-- A run over a list of events. -/
def World.run (w : World P E) (events : List (Event E)) : World P E :=
  events.foldl (fun w ev => (w.act env job ev).1) w

end Coordinator

/-- A job as it is created. -/
def World.new : World P E where
  flow := .new
  ctx := .fresh
  attached := false
  fence := 0
  executor := none
  flows := fun _ => none
  late := []
  running := none

end Krishiv.Scheduler
