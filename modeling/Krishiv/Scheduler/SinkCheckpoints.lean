import Mathlib.Data.Fintype.Card
import Krishiv.Connectors.TwoPhase

/-!
# Checkpoints of a job that writes through a two-phase sink

A job runs one task on each of its executors. A task reads its source batch by batch and stages each
batch in the transaction log of its executor. At a barrier an executor prepares its open batches and
acknowledges with its source position and the names of all its staged files; when all have, the
coordinator writes the metadata of the epoch, and tells the executors that it is complete. After the
loss of an executor, or when a restore is activated, a directive sends all executors back to an epoch.

The executors share the output directory. An executor that crashes loses its log and its source
position, never the directory. Heartbeats bring commands to an executor in order: a restore before
completions, completions before barriers; a barrier can also come by a transport of its own, before a
restore that is waiting. An acknowledgement arrives at once or never: one that is late is refused by its
epoch. One coordinator leads throughout, so fencing tokens are left out; so are rescaling, the
state of operators, and failures of the checkpoint store other than that an epoch is not written.

`Event.restore` and `Event.complete` also note what the executor has applied last.
-/

namespace Krishiv.Scheduler.Sink

open Krishiv.Connectors

/-- The batch at a position of the source of an executor. -/
structure Batch (X : Type) where
  executor : X
  position : ℕ
deriving DecidableEq

structure SinkTransactionRef where
  epoch : ℕ
  preparePath : ParquetCommitHandle
  committed : Bool
deriving DecidableEq

structure CheckpointAck where
  offset : ℕ
  sinkTransactions : List SinkTransactionRef

structure CheckpointMetadata (X : Type) where
  epoch : ℕ
  sourceOffsets : X → ℕ
  sinkTransactions : List SinkTransactionRef

inductive CoordinatorState where
  | idle
  | awaitingAcks (epoch : ℕ)
  | committing (epoch : ℕ)
  | committed (epoch : ℕ)
  | failed (epoch : ℕ)
deriving DecidableEq

structure RestoreDirective where
  epoch : ℕ
  sinkCommit : List ParquetCommitHandle
  sinkAbort : List ParquetCommitHandle

/-- The coordinator of the job's checkpoints. -/
structure Coordinator (X : Type) where
  currentEpoch : ℕ
  state : CoordinatorState
  expectedTaskCount : ℕ
  pendingAcks : KVMap X CheckpointAck
  /-- What is being written to the checkpoint store. -/
  pendingCommit : Option (CheckpointMetadata X)
  /-- The epochs in the checkpoint store. -/
  storage : List (CheckpointMetadata X)
  directive : Option RestoreDirective
  running : X → Bool
  notifySent : X → Bool
  restoreNotifySent : X → Bool

structure Executor (X : Type) where
  alive : Bool
  /-- The participant, once the task has registered it. -/
  log : Option (EpochTransactionLog (Batch X))
  /-- The position of the next batch of the source. -/
  next : ℕ

structure World (X : Type) where
  dir : Dir (Batch X)
  executors : X → Executor X
  coord : Coordinator X
  restored : X → Option ℕ
  completed : X → Option ℕ

/-! ## Recovery plans -/

/-- `collect_sink_transactions`: one reference for each staged file. -/
def collectSinkTransactions (refs : List SinkTransactionRef) : KVMap ParquetCommitHandle SinkTransactionRef :=
  refs.foldl (fun m tx =>
    m.insert tx.preparePath (match m.lookup tx.preparePath with
      | some entry => { entry with committed := entry.committed || tx.committed }
      | none => tx)) ∅

structure SinkRecoveryPlan where
  commit : List SinkTransactionRef
  abort : List SinkTransactionRef

/-- `plan_sink_transaction_recovery`. -/
def planSinkTransactionRecovery (prepared : List SinkTransactionRef) (restoredEpoch : ℕ) : SinkRecoveryPlan :=
  ⟨prepared.filter fun tx => tx.epoch ≤ restoredEpoch && !tx.committed,
    prepared.filter fun tx => restoredEpoch < tx.epoch⟩

section Steps

variable {X : Type} [DecidableEq X]

/-! ## The coordinator -/

/-- `latest_valid_epoch`, with its metadata. -/
def latest : List (CheckpointMetadata X) → Option (CheckpointMetadata X)
  | [] => none
  | m :: ms =>
    match latest ms with
    | some newest => if newest.epoch < m.epoch then some m else some newest
    | none => some m

namespace Coordinator

/-- `initiate`, from the timer: not while an epoch is in flight, and not without tasks. -/
def initiate [Fintype X] (c : Coordinator X) : Coordinator X :=
  let running := (Finset.univ.filter fun i => c.running i = true).card
  match c.state with
  | .awaitingAcks _ => c
  | .committing _ => c
  | _ =>
    if running = 0 then c
    else { c with
      currentEpoch := c.currentEpoch + 1
      state := .awaitingAcks (c.currentEpoch + 1)
      expectedTaskCount := running
      pendingAcks := ∅
      notifySent := fun _ => false }

/-- `extract_commit_data`. -/
def extractCommitData (c : Coordinator X) (epoch : ℕ) : CheckpointMetadata X where
  epoch := epoch
  sourceOffsets i := ((c.pendingAcks.lookup i).map CheckpointAck.offset).getD 0
  sinkTransactions := (collectSinkTransactions
    (c.pendingAcks.entries.map fun e => e.2.sinkTransactions).flatten).entries.map Sigma.snd

/-- `receive_ack_async`, with a quorum the write begins. -/
def receiveAck (c : Coordinator X) (i : X) (epoch : ℕ) (ack : CheckpointAck) : Coordinator X :=
  match c.state with
  | .awaitingAcks current =>
    if epoch = current then
      let c := { c with pendingAcks := c.pendingAcks.insert i ack }
      if c.expectedTaskCount ≤ c.pendingAcks.keys.length then
        { c with state := .committing current, pendingCommit := some (c.extractCommitData current) }
      else c
    else c
  | _ => c

/-- `commit_storage` and `finalize_commit`, or a write that fails. -/
def endWrite (c : Coordinator X) (written : Bool) : Coordinator X :=
  match c.pendingCommit with
  | none => c
  | some m =>
    if written then
      { c with storage := m :: c.storage, pendingCommit := none, state := .committed m.epoch }
    else { c with pendingCommit := none, pendingAcks := ∅, state := .failed m.epoch }

/-- `abort_epoch`, for an epoch that awaits acknowledgements. -/
def abortAwaiting (c : Coordinator X) : Coordinator X :=
  match c.state with
  | .awaitingAcks epoch => { c with pendingAcks := ∅, state := .failed epoch }
  | _ => c

/-- `set_restore_directive`. -/
def setRestoreDirective (c : Coordinator X) (d : RestoreDirective) : Coordinator X :=
  { c with directive := some d, restoreNotifySent := fun _ => false }

/-- `handle_executor_loss_for_checkpoints`, with the reset of the tasks. -/
def handleExecutorLoss (c : Coordinator X) (i : X) : Coordinator X :=
  if c.running i then
    let c := c.abortAwaiting
    let c := match latest c.storage with
      | some m => c.setRestoreDirective ⟨m.epoch, [], []⟩
      | none => c
    { c with running := Function.update c.running i false }
  else c

/-- `activate_job_restore_from_checkpoint_with_fencing`. -/
def activateRestore (c : Coordinator X) (epoch : ℕ) : Coordinator X :=
  match c.state with
  | .awaitingAcks _ => c
  | .committing _ => c
  | _ =>
    match c.storage.find? fun m => m.epoch = epoch with
    | none => c
    | some m =>
      let plan := planSinkTransactionRecovery m.sinkTransactions epoch
      { c with
        storage := c.storage.filter fun m => m.epoch ≤ epoch
        currentEpoch := epoch
        pendingAcks := ∅
        pendingCommit := none
        state := .committed epoch
        notifySent := fun _ => false
        directive := some ⟨epoch, plan.commit.map SinkTransactionRef.preparePath,
          plan.abort.map SinkTransactionRef.preparePath⟩
        restoreNotifySent := fun _ => false }

/-- A restore is waiting for the executor. -/
def restorePending (c : Coordinator X) (i : X) : Bool := c.directive.isSome && !c.restoreNotifySent i

end Coordinator

/-! ## Events -/

inductive Event (X : Type) where
  | stage (i : X)
  | initiate
  | barrier (i : X) (disk : Disk) (delivered : Bool)
  | endWrite (written : Bool)
  | timeOut
  | complete (i : X) (disk : Disk)
  | crash (i : X)
  | rejoin (i : X)
  | launch (i : X)
  | loss (i : X)
  | activate (epoch : ℕ)
  | restore (i : X) (disk : Disk)

namespace World

def setExecutor (w : World X) (i : X) (x : Executor X) : World X :=
  { w with executors := Function.update w.executors i x }

/-- The task reads its next batch. -/
def stage (w : World X) (i : X) : World X :=
  match (w.executors i).log with
  | none => w
  | some log =>
    let next := (w.executors i).next
    w.setExecutor i { w.executors i with log := some (log.stage ⟨i, next⟩), next := next + 1 }

/-- The references of an acknowledgement. -/
def ackRefs (log : EpochTransactionLog (Batch X)) : List SinkTransactionRef :=
  log.preparedRefs.map fun r => ⟨r.epoch, r.preparePath, false⟩

/-- `initiate_checkpoint_for_job`: one barrier for each epoch and executor. A heartbeat brings it after a
restore that is waiting, the barrier transport brings it at any time. -/
def barrier (w : World X) (i : X) (disk : Disk) (delivered : Bool) : World X :=
  match w.coord.state, (w.executors i).log with
  | .awaitingAcks epoch, some log =>
    if w.coord.running i && !w.coord.notifySent i then
      let w := { w with coord := { w.coord with notifySent := Function.update w.coord.notifySent i true } }
      match log.preCommit disk w.dir epoch with
      | (dir, log, .error _) =>
        { w with dir := dir }.setExecutor i { w.executors i with log := some log }
      | (dir, log, .ok ()) =>
        let w := { w with dir := dir }.setExecutor i { w.executors i with log := some log }
        if delivered then
          { w with coord := w.coord.receiveAck i epoch ⟨(w.executors i).next, ackRefs log⟩ }
        else w
    else w
  | _, _ => w

/-- `handle_checkpoint_complete`. -/
def complete (w : World X) (i : X) (disk : Disk) : World X :=
  match w.coord.state with
  | .committed epoch =>
    if epoch ≠ 0 && (w.executors i).alive && w.coord.running i && !w.coord.restorePending i then
      match (w.executors i).log with
      | none => { w with completed := Function.update w.completed i (some epoch) }
      | some log =>
        match log.commitThrough disk w.dir epoch with
        | (dir, log, .error _) =>
          { w with dir := dir }.setExecutor i { w.executors i with log := some log }
        | (dir, log, .ok _) =>
          { w with dir := dir, completed := Function.update w.completed i (some epoch) }.setExecutor i
            { w.executors i with log := some log }
    else w
  | _ => w

def crash (w : World X) (i : X) : World X := w.setExecutor i ⟨false, none, 0⟩

def rejoin (w : World X) (i : X) : World X := w.setExecutor i { w.executors i with alive := true }

/-- A task that was reset starts again, and registers a participant where there is none. -/
def launch (w : World X) (i : X) : World X :=
  if (w.executors i).alive && !w.coord.running i then
    { w with coord := { w.coord with running := Function.update w.coord.running i true } }.setExecutor i
      { w.executors i with log := some ((w.executors i).log.getD .new) }
  else w

/-- `restore_job_from_checkpoint`, as far as the sink and the source are concerned. -/
def restoreJob (w : World X) (i : X) (disk : Disk) (d : RestoreDirective) (m : CheckpointMetadata X) : World X :=
  match restoreTo disk w.dir (w.executors i).log d.epoch with
  | (dir, log, .error _) => { w with dir := dir }.setExecutor i { w.executors i with log := log }
  | (dir, log, .ok _) =>
    match recoverPreparedRefs disk dir log d.sinkCommit d.sinkAbort with
    | (dir, .error _) => { w with dir := dir }.setExecutor i { w.executors i with log := log }
    | (dir, .ok _) =>
      { w with
        dir := dir
        restored := Function.update w.restored i (some d.epoch)
        completed := Function.update w.completed i none }.setExecutor i
          { w.executors i with log := log, next := m.sourceOffsets i }

/-- A directive is delivered once. -/
def restore (w : World X) (i : X) (disk : Disk) : World X :=
  match w.coord.directive with
  | none => w
  | some d =>
    if (w.executors i).alive && w.coord.restorePending i then
      let w := { w with coord :=
        { w.coord with restoreNotifySent := Function.update w.coord.restoreNotifySent i true } }
      match w.coord.storage.find? fun m => m.epoch = d.epoch with
      | none => w
      | some m => w.restoreJob i disk d m
    else w

def act [Fintype X] (w : World X) : Event X → World X
  | .stage i => w.stage i
  | .initiate => { w with coord := w.coord.initiate }
  | .barrier i disk delivered => w.barrier i disk delivered
  | .endWrite written => { w with coord := w.coord.endWrite written }
  | .timeOut => { w with coord := w.coord.abortAwaiting }
  | .complete i disk => w.complete i disk
  | .crash i => w.crash i
  | .rejoin i => w.rejoin i
  | .launch i => w.launch i
  | .loss i => if (w.executors i).alive then w else { w with coord := w.coord.handleExecutorLoss i }
  | .activate epoch => { w with coord := w.coord.activateRestore epoch }
  | .restore i disk => w.restore i disk

/-- A job before its first task starts, over an empty directory. -/
def new : World X where
  dir := .empty
  executors _ := ⟨true, none, 0⟩
  coord :=
    { currentEpoch := 0, state := .idle, expectedTaskCount := 0, pendingAcks := ∅
      pendingCommit := none, storage := [], directive := none, running := fun _ => false
      notifySent := fun _ => false, restoreNotifySent := fun _ => false }
  restored _ := none
  completed _ := none

end World

end Steps

end Krishiv.Scheduler.Sink
