import Krishiv.Scheduler.CommitWrites
import Krishiv.State.Savepoints

/-!
# Activating a restore

Activation checks the epoch, deletes all valid epochs that are newer, and then writes: the hint, or, if
the number of tasks has changed, a rescaled copy of the epoch under the next number. The checks touch no
file and report what an undisturbed run would (`restoreChecks_observes`); the writes stay below the next
epoch and the hint (`writeRestored_within`).

Opening the storage is left out, which touches no file, and so are the directives to the executors after
the last storage call.
-/

namespace Krishiv.Scheduler

open Krishiv.State StoreM Observes

inductive SchedulerError where
  | inactiveCoordinator
  | invalidJob (message : String)
  deriving DecidableEq, Repr

abbrev SchedulerIo (Bytes α : Type) := StoreM Path Bytes SchedulerError α

/-- What the redistribution of snapshots and the emptiness of bytes are, for these bytes. -/
structure Rescale (Bytes : Type) where
  isEmpty : Bytes → Bool
  redistributeSnapshots : List Bytes → ℕ → Except String (List Bytes)

/-- What the coordinator knows about the job when a restore is activated. -/
structure RestoreContext where
  active : Bool
  coordinatorId : Text
  coordinator : Option CheckpointCoordinator
  /-- The durability profile wants a live fencing token. -/
  requiresFencing : Bool
  /-- In order. -/
  currentTaskIds : List Text
  nowMs : ℕ

section Activation

variable {Bytes : Type} (H : Host Bytes) (R : Rescale Bytes) (ctx : RestoreContext) (jobId : Text)
  (epoch : ℕ) (leaderFencingToken : Option ℕ)

def invalidJob (text : String) (e : CheckpointError) : SchedulerError := .invalidJob (text ++ e.display)

def validateRestoreToken (metadata : CheckpointMetadata) : Except SchedulerError Unit :=
  match leaderFencingToken.or (ctx.coordinator.map CheckpointCoordinator.fencingToken) with
  | some token =>
    if token = 0 then
      .error (.invalidJob
        s!"restore rejected for job {String.ofList jobId}: fencing token is zero (no leader)")
    else (validateFencingTokenForRestore metadata token).mapError
      (invalidJob s!"restore rejected for job {String.ofList jobId}: ")
  | none =>
    if ctx.requiresFencing then
      .error (.invalidJob
        s!"restore rejected for job {String.ofList jobId}: no live fencing token available (A8)")
    else .ok ()

def validateRestoreMetadata : SchedulerIo Bytes CheckpointMetadata := do
  match ← (readEpochMetadata H epoch).mapError (invalidJob s!"cannot read checkpoint epoch {epoch}: ") with
  | none => StoreM.throw (.invalidJob s!"checkpoint epoch {epoch} not found for job {String.ofList jobId}")
  | some metadata => do
    StoreM.ofExcept (metadata.validate.mapError
      (invalidJob s!"checkpoint epoch {epoch} metadata is incompatible: "))
    if metadata.jobId ≠ jobId ∨ metadata.epoch ≠ epoch then
      StoreM.throw (.invalidJob
        (s!"checkpoint epoch {epoch} metadata mismatch for requested job {String.ofList jobId}: " ++
          s!"metadata has job {String.ofList metadata.jobId} epoch {metadata.epoch}"))
    else do
      let valid ← (validateEpoch H jobId epoch).mapError
        (invalidJob s!"checkpoint epoch {epoch} failed integrity check: ")
      if valid then do
        StoreM.ofExcept (validateRestoreToken ctx jobId leaderFencingToken metadata)
        pure metadata
      else StoreM.throw (.invalidJob s!"checkpoint epoch {epoch} failed integrity check")

/-- Everything that is checked before the first file is touched. -/
def restoreChecks : SchedulerIo Bytes (CheckpointMetadata × CheckpointCoordinator) :=
  if ctx.active then do
    let metadata ← validateRestoreMetadata H ctx jobId epoch leaderFencingToken
    match ctx.coordinator with
    | none =>
      StoreM.throw (.invalidJob (s!"cannot activate restore for job {String.ofList jobId}: " ++
          "no checkpoint coordinator is registered"))
    | some coord =>
      match coord.state with
      | .awaitingAcks _ _ | .committing _ =>
        StoreM.throw (.invalidJob
          s!"cannot activate restore for job {String.ofList jobId}: checkpoint epoch is in flight")
      | _ => pure (metadata, coord)
  else StoreM.throw .inactiveCoordinator

/-- The snapshots to redistribute. -/
def readRescaleSource : List OperatorSnapshotRef → SchedulerIo Bytes (List Bytes)
  | [] => pure []
  | snap :: rest => do
    let path := snap.snapshotPath.render jobId
    match ← (StoreM.read snap.snapshotPath : Io Bytes _).mapError (invalidJob s!"rescale read {path}: ") with
    | none => StoreM.throw (.invalidJob s!"rescale source snapshot {path} is missing")
    | some bytes => do
      let others ← readRescaleSource rest
      pure (bytes :: others)

def rescaleOperatorId (taskId : Text) : Text := "operator-".toList ++ taskId

/-- The new snapshots that are not empty, with the tasks they are for. -/
def rescaledSnapshots (redistributed : List Bytes) : List (Text × Bytes) :=
  (ctx.currentTaskIds.zip redistributed).filter fun x => !R.isEmpty x.2

def rescaledMetadata (source : CheckpointMetadata) (activeFencingToken rescaledEpoch : ℕ)
    (snapshots : List (Text × Bytes)) : CheckpointMetadata where
  version := CheckpointMetadata.currentVersion
  epoch := rescaledEpoch
  jobId := jobId
  fencingToken := activeFencingToken
  coordinatorId := some ctx.coordinatorId
  timestampMs := ctx.nowMs
  sourceOffsets := source.sourceOffsets
  operatorSnapshots := snapshots.map fun x =>
    ⟨rescaleOperatorId x.1, x.1, snapshotPath rescaledEpoch (rescaleOperatorId x.1) x.1⟩
  isSavepoint := false
  savepointLabel := none
  icebergSnapshotId := source.icebergSnapshotId
  kafkaOffsets := source.kafkaOffsets
  sinkTransactions := source.sinkTransactions
  streamingProfile := none

/-- Write the files of the rescaled epoch; the hint comes last. -/
def writeRescaled (rescaledEpoch : ℕ) (snapshots : List (Text × Bytes)) (metadata : CheckpointMetadata) :
    SchedulerIo Bytes Unit := do
  snapshots.forM fun x =>
    (writeOperatorSnapshot rescaledEpoch (rescaleOperatorId x.1) x.1 x.2).mapError
      (invalidJob s!"rescale snapshot write for task {String.ofList x.1}: ")
  let manifest := snapshots.foldl
    (fun m x => IntegrityManifest.insertBytes H m (snapshotRel (rescaleOperatorId x.1) x.1) x.2)
    SortedMap.empty
  let manifest := IntegrityManifest.insertBytes H manifest metadataJson (H.toJson metadata)
  (writeEpochMetadata H jobId rescaledEpoch metadata).mapError (invalidJob "rescale metadata write: ")
  (writeManifest H rescaledEpoch manifest).mapError (invalidJob "rescale manifest write: ")
  (writeEpochHint H rescaledEpoch).mapError (invalidJob "rescale epoch hint write: ")

def writeRescaledEpoch (source : CheckpointMetadata) (activeFencingToken : ℕ) :
    SchedulerIo Bytes CheckpointMetadata := do
  let oldSnapshots ← readRescaleSource jobId source.operatorSnapshots
  if 2 ^ 32 ≤ ctx.currentTaskIds.length then
    StoreM.throw (.invalidJob s!"rescale target parallelism {ctx.currentTaskIds.length} exceeds u32")
  else do
    let redistributed ← StoreM.ofExcept
      ((R.redistributeSnapshots oldSnapshots ctx.currentTaskIds.length).mapError fun e =>
        .invalidJob s!"rescale redistribution for job {String.ofList jobId}: {e}")
    if u64Max ≤ source.epoch then
      StoreM.throw (.invalidJob s!"rescale epoch overflow from epoch {source.epoch}")
    else do
      let snapshots := rescaledSnapshots R ctx redistributed
      let metadata := rescaledMetadata ctx jobId source activeFencingToken (source.epoch + 1) snapshots
      writeRescaled H jobId (source.epoch + 1) snapshots metadata
      pure metadata

/-- Delete the valid epochs that are newer. -/
def pruneNewer : SchedulerIo Bytes Unit := do
  let validEpochs ← (listValidEpochs H jobId).mapError
    (invalidJob s!"cannot list checkpoint epochs for job {String.ofList jobId}: ")
  (validEpochs.filter (epoch < ·)).forM fun future =>
    (deleteEpoch future).mapError (invalidJob
      (s!"cannot prune checkpoint epoch {future} after restoring job {String.ofList jobId} " ++
        s!"to epoch {epoch}: "))

/-- What is written after the deletions. -/
def writeRestored (metadata : CheckpointMetadata) : SchedulerIo Bytes CheckpointMetadata :=
  if metadata.operatorSnapshots ≠ [] ∧ ctx.currentTaskIds ≠ [] ∧
      metadata.operatorSnapshots.length ≠ ctx.currentTaskIds.length then
    writeRescaledEpoch H R ctx jobId metadata (leaderFencingToken.getD metadata.fencingToken)
  else do
    (writeEpochHint H epoch).mapError
      (invalidJob s!"cannot activate checkpoint epoch {epoch} for job {String.ofList jobId}: ")
    pure metadata

def activateJobRestore : SchedulerIo Bytes (CheckpointMetadata × CheckpointCoordinator) := do
  let (metadata, coord) ← restoreChecks H ctx jobId epoch leaderFencingToken
  pruneNewer H jobId epoch
  let restored ← writeRestored H R ctx jobId epoch leaderFencingToken metadata
  let coord ← StoreM.ofExcept ((coord.activateRestoredEpoch restored leaderFencingToken).mapError
    (invalidJob s!"cannot activate checkpoint epoch {restored.epoch} for job {String.ofList jobId}: "))
  pure (restored, coord)

end Activation

/-! ## What the parts touch -/

section Frames

variable {Bytes : Type} {H : Host Bytes} {R : Rescale Bytes} {ctx : RestoreContext} {jobId : Text}
  {epoch : ℕ} {leaderFencingToken : Option ℕ} {files : KVMap Path Bytes}

lemma validateRestoreMetadata_observes : Observes (validateRestoreMetadata H ctx jobId epoch leaderFencingToken) := by
  refine (mapError (readEpochMetadata_readOnly H epoch)).bind fun metadata => ?_
  cases metadata with
  | none => exact .throw _
  | some metadata =>
    refine bind (.ofExcept _) fun _ => ?_
    split_ifs
    · exact .throw _
    refine (mapError (validateEpoch_reads H jobId epoch).toReadOnly).bind fun valid => ?_
    split_ifs
    · exact bind (.ofExcept _) fun _ => .pure _
    · exact .throw _

lemma restoreChecks_observes : Observes (restoreChecks H ctx jobId epoch leaderFencingToken) := by
  unfold restoreChecks
  split_ifs
  · refine validateRestoreMetadata_observes.bind fun metadata => ?_
    cases ctx.coordinator with
    | none => exact .throw _
    | some coord =>
      dsimp only
      cases coord.state <;> first | exact .throw _ | exact .pure _
  · exact .throw _

lemma validateRestoreMetadata_ok {metadata : CheckpointMetadata}
    (h : (validateRestoreMetadata H ctx jobId epoch leaderFencingToken).eval files = .ok metadata) :
    metadata.epoch = epoch := by
  obtain ⟨found, -, h⟩ := (eval_bind_eq_ok (mapError (readEpochMetadata_readOnly H epoch)).quiet).mp h
  cases found with
  | none => cases h
  | some found =>
    obtain ⟨-, -, h⟩ := (eval_bind_eq_ok (Observes.ofExcept _).quiet).mp h
    split at h
    · cases h
    next hsame =>
    have hvalid := mapError (g := invalidJob
      s!"checkpoint epoch {epoch} failed integrity check: ") (validateEpoch_reads H jobId epoch).toReadOnly
    obtain ⟨valid, -, h⟩ := (eval_bind_eq_ok hvalid.quiet).mp h
    cases valid with
    | false => cases h
    | true =>
      obtain ⟨-, -, h⟩ := (eval_bind_eq_ok (Observes.ofExcept _).quiet).mp h
      cases h
      exact not_not.mp (not_or.mp hsame).2

/-- The metadata that passes the checks is that of the epoch. -/
lemma restoreChecks_ok {found : CheckpointMetadata × CheckpointCoordinator}
    (h : (restoreChecks H ctx jobId epoch leaderFencingToken).eval files = .ok found) : found.1.epoch = epoch := by
  unfold restoreChecks at h
  split at h
  · obtain ⟨metadata, hmeta, h⟩ := (eval_bind_eq_ok validateRestoreMetadata_observes.quiet).mp h
    have hepoch := validateRestoreMetadata_ok hmeta
    cases hcoord : ctx.coordinator with
    | none =>
      rw [hcoord] at h
      cases h
    | some coord =>
      rw [hcoord] at h
      dsimp only at h
      split at h
      · cases h
      · cases h
      · cases h
        exact hepoch
  · cases h

/-- The rescaled epoch and the hint. -/
def Rewritten (epoch : ℕ) (p : Path) : Prop := InEpoch epoch p ∨ p = .hint

lemma readRescaleSource_within {S : Path → Prop} (snaps : List OperatorSnapshotRef) :
    Within S (readRescaleSource jobId snaps : SchedulerIo Bytes _) := by
  induction snaps with
  | nil => exact .pure _
  | cons snap rest ih =>
    refine ((Within.readOnly (ReadOnly.read _)).mapError).bind fun bytes => ?_
    cases bytes with
    | none => exact .throw _
    | some bytes => exact ih.bind fun _ => .pure _

lemma writeRescaled_within (rescaledEpoch : ℕ) (snapshots : List (Text × Bytes)) (metadata : CheckpointMetadata) :
    Within (Rewritten rescaledEpoch) (writeRescaled H jobId rescaledEpoch snapshots metadata) := by
  refine (Within.forM fun x _ => (Within.write _ (.inl ⟨_, rfl⟩)).mapError).bind fun _ => ?_
  refine (Within.mapError ?_).bind fun _ => ((Within.write _ (.inl ⟨_, rfl⟩)).mapError).bind fun _ =>
    (Within.write _ (.inr rfl)).mapError
  rw [CheckpointCoordinator.writeEpochMetadata_eq]
  exact (Within.readOnly (CheckpointCoordinator.epochGuard_readOnly H jobId _ _)).bind fun _ => .write _ (.inl ⟨_, rfl⟩)

lemma writeRestored_within (metadata : CheckpointMetadata) (hepoch : metadata.epoch = epoch) :
    Within (Rewritten (epoch + 1)) (writeRestored H R ctx jobId epoch leaderFencingToken metadata) := by
  unfold writeRestored
  split_ifs
  · refine (readRescaleSource_within _).bind fun old => ?_
    split
    · exact .throw _
    refine (Within.ofExcept _).bind fun redistributed => ?_
    split
    · exact .throw _
    · rw [hepoch]
      exact (writeRescaled_within _ _ _).bind fun _ => .pure _
  · exact (Within.write _ (.inr rfl)).mapError.bind fun _ => .pure _

end Frames

end Krishiv.Scheduler
