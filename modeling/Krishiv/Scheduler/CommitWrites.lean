import Krishiv.Scheduler.CheckpointCoordinator
import Krishiv.State.SealedEpoch

/-!
# The writes of a commit

A commit first reads: the acknowledged snapshots, and the epochs already there, of which none at least as
new may be valid. Then it makes three writes: metadata, manifest and hint. How far it gets is its
`Progress`, which the script of the storage calls decides; `commitStorage_leaves` says which files each
progress leaves behind, for every script.

Both ways of taking an ack end in such a commit once the acks are complete (`receiveAck_run`,
`checkpointAck_run`).
-/

namespace Krishiv.Scheduler

open Krishiv.State List AList StoreM StoreM.ReadOnly

namespace CheckpointCoordinator

variable {Bytes : Type} {H : Host Bytes} {files : KVMap Path Bytes} {s : Backend Path Bytes} {commit : PendingCommit}

/-! ## What a commit reads -/

lemma readAcked_readOnly (jobId : Text) (epoch : ℕ) (snaps : List OperatorSnapshotRef) :
    StoreM.ReadOnly (readAcked jobId epoch snaps : Io Bytes _) := by
  induction snaps with
  | nil => exact .pure _
  | cons snap rest ih =>
    refine bind (.read _) fun bytes => ?_
    cases bytes with
    | none => exact .throw _
    | some bytes => exact ih.bind fun others => .pure _

variable {fs : List (Text × Bytes)} {snaps : List OperatorSnapshotRef}

/-- What is read back are the files at the places of the snapshots. -/
lemma readAcked_ok {jobId : Text} {epoch : ℕ} (h : (readAcked jobId epoch snaps).eval files = .ok fs) :
    fs.map Prod.fst = snaps.map (fun snap => snapshotRel snap.operatorId snap.taskId) ∧
      ∀ f ∈ fs, files.lookup (.checkpoint epoch f.1) = some f.2 := by
  induction snaps generalizing fs with
  | nil =>
    cases h
    exact ⟨rfl, fun f hf => nomatch hf⟩
  | cons snap rest ih =>
    rw [readAcked, readOperatorSnapshot, eval_read_bind] at h
    split at h
    · cases h
    next bytes hread =>
    obtain ⟨others, hrest, h⟩ := (readAcked_readOnly jobId epoch rest).eval_bind_ok.mp h
    cases h
    obtain ⟨hpaths, hfiles⟩ := ih hrest
    exact ⟨by simp [hpaths], forall_mem_cons.mpr ⟨hread, hfiles⟩⟩

section Guard

variable (H) (jobId : Text) (epoch : ℕ) (metadata : CheckpointMetadata)

/-- The latest valid epoch, if there is one. -/
def latestOrNone : Io Bytes (Option ℕ) :=
  StoreM.handle (some <$> latestValidEpoch H jobId) fun e =>
    match e with
    | .noValidEpoch => pure none
    | e => StoreM.throw e

/-- The checks of `writeEpochMetadata`, before it writes. -/
def epochGuard : Io Bytes Unit := do
  StoreM.ofExcept (validateMetadataIdentity metadata jobId epoch)
  match ← latestOrNone H jobId with
  | some latest => if epoch ≤ latest then StoreM.throw (.staleEpoch epoch latest) else pure ()
  | none => pure ()

lemma writeEpochMetadata_eq : writeEpochMetadata H jobId epoch metadata =
      epochGuard H jobId epoch metadata >>= fun _ => write (metadataPath epoch) (H.toJson metadata) := by
  unfold writeEpochMetadata epochGuard latestOrNone
  simp only [bind_assoc]
  refine congrArg _ (funext fun _ => congrArg _ (funext fun latest => ?_))
  cases latest with
  | none => rfl
  | some latest =>
    dsimp only
    split_ifs <;> rfl

lemma latestOrNone_readOnly : StoreM.ReadOnly (latestOrNone H jobId : Io Bytes _) := by
  refine ((latestValidEpoch_readOnly H jobId).map some).handle (fun e => ?_) fun msg => rfl
  split
  · exact .pure _
  · exact .throw _

lemma latestOrNone_eval (files : KVMap Path Bytes) : (latestOrNone H jobId).eval files =
      match (latestValidEpoch H jobId).eval files with
      | .ok latest => .ok (some latest)
      | .error (.failed .noValidEpoch) => .ok none
      | .error h => .error h := by
  have hlatest := latestValidEpoch_readOnly H jobId
  rw [latestOrNone, (hlatest.map some).eval_handle, hlatest.eval_map]
  rcases (latestValidEpoch H jobId).eval files with (_ | err) | latest
  · rfl
  · cases err <;> rfl
  · rfl

lemma epochGuard_readOnly : StoreM.ReadOnly (epochGuard H jobId epoch metadata) := by
  refine bind (.ofExcept _) fun _ => (latestOrNone_readOnly H jobId).bind fun latest => ?_
  cases latest with
  | none => exact .pure _
  | some latest =>
    dsimp only
    split_ifs
    · exact .throw _
    · exact .pure _

end Guard

/-- The metadata is that of the epoch, and neither the epoch nor a newer one is valid. -/
structure Guarded (H : Host Bytes) (files : KVMap Path Bytes) (jobId : Text) (epoch : ℕ)
    (metadata : CheckpointMetadata) : Prop where
  identity : validateMetadataIdentity metadata jobId epoch = .ok ()
  skipped : ∀ e ≥ epoch, Skipped H jobId files e

lemma epochGuard_ok {jobId : Text} {epoch : ℕ} {metadata : CheckpointMetadata}
    (h : (epochGuard H jobId epoch metadata).eval files = .ok ()) : Guarded H files jobId epoch metadata := by
  obtain ⟨_, hid, h⟩ := eval_ofExcept_bind_ok.mp h
  obtain ⟨found, hfound, h⟩ := (latestOrNone_readOnly H jobId).eval_bind_ok.mp h
  rw [latestOrNone_eval] at hfound
  refine ⟨hid, fun e he => ?_⟩
  rcases hl : (latestValidEpoch H jobId).eval files with (_ | err) | latest
  · rw [hl] at hfound; cases hfound
  · rw [hl] at hfound
    cases err with
    | noValidEpoch => exact skipped_of_noValidEpoch hl e
    | _ => cases hfound
  · rw [hl] at hfound
    cases hfound
    dsimp only at h
    split_ifs at h with hle
    · cases h
    · exact (latestValidEpoch_ok_iff.mp hl).2 e (by omega)

/-! ## What a commit writes -/

/-- The last write of a commit that took effect, with the answer of the commit where there was one. -/
inductive Progress where
  | nothing
  | metadata (h : Halt CheckpointError)
  | manifest (r : Except (Halt CheckpointError) ℕ)

/-- The progress of the writes of `epoch` under what is left of the script. The three calls are the
writes of metadata, manifest and hint. -/
def Progress.ofScript (epoch : ℕ) : List CallOutcome → Progress
  | .refused _ :: _ => .nothing
  | .stop :: _ => .nothing
  | .late m :: _ => .metadata (.failed (.storage m))
  | .done :: .refused m :: _ => .metadata (.failed (.storage m))
  | .done :: .stop :: _ => .metadata .stopped
  | .done :: .late m :: _ => .manifest (.error (.failed (.storage m)))
  | .done :: .done :: .refused m :: _ => .manifest (.error (.failed (.storage m)))
  | .done :: .done :: .late m :: _ => .manifest (.error (.failed (.storage m)))
  | .done :: .done :: .stop :: _ => .manifest (.error .stopped)
  | _ => .manifest (.ok epoch)

section Writes

variable (H) (commit : PendingCommit)

def commitReads : Io Bytes (List (Text × Bytes)) := do
  let fs ← readAcked commit.jobId commit.epoch commit.operatorSnapshots
  epochGuard H commit.jobId commit.epoch commit.metadata
  pure fs

def commitWrites (fs : List (Text × Bytes)) : Io Bytes ℕ := do
  StoreM.write (metadataPath commit.epoch) (H.toJson commit.metadata)
  writeManifest H commit.epoch (manifestOf H (H.toJson commit.metadata) fs)
  writeEpochHint H commit.epoch
  pure commit.epoch

lemma commitStorage_eq : commitStorage H commit = commitReads H commit >>= commitWrites H commit := by
  simp only [commitStorage, commitReads, writeEpochMetadata_eq, bind_assoc]
  rfl

def progress (s : Backend Path Bytes) : Progress :=
  match commitReads H commit s with
  | (.error _, _) => .nothing
  | (.ok _, s') => .ofScript commit.epoch s'.script

def withMetadata (files : KVMap Path Bytes) : KVMap Path Bytes :=
  files.insert (metadataPath commit.epoch) (H.toJson commit.metadata)

def withManifest (fs : List (Text × Bytes)) (files : KVMap Path Bytes) : KVMap Path Bytes :=
  (withMetadata H commit files).insert (manifestPath commit.epoch)
    (H.toUtf8 (manifestOf H (H.toJson commit.metadata) fs).serialize)

/-- Answer and files of a commit, by its progress. -/
inductive CommitLeaves (files : KVMap Path Bytes) :
    Progress → Except (Halt CheckpointError) ℕ → KVMap Path Bytes → Prop
  | nothing (h : Halt CheckpointError) : CommitLeaves files .nothing (.error h) files
  | metadata (h : Halt CheckpointError) (hguard : Guarded H files commit.jobId commit.epoch commit.metadata) :
      CommitLeaves files (.metadata h) (.error h) (withMetadata H commit files)
  | manifest {r : Except (Halt CheckpointError) ℕ} {fs : List (Text × Bytes)}
      {files' : KVMap Path Bytes} (hguard : Guarded H files commit.jobId commit.epoch commit.metadata)
      (hread : (readAcked commit.jobId commit.epoch commit.operatorSnapshots).eval files = .ok fs)
      (hfiles : ∀ p ≠ Path.hint, files'.lookup p = (withManifest H commit fs files).lookup p) :
      CommitLeaves files (.manifest r) r files'

end Writes

lemma commitReads_readOnly (H : Host Bytes) (commit : PendingCommit) : StoreM.ReadOnly (commitReads H commit) :=
  (readAcked_readOnly _ _ _).bind fun _ => (epochGuard_readOnly H _ _ _).bind fun _ => .pure _

lemma commitReads_ok (h : (commitReads H commit).eval files = .ok fs) :
    (readAcked commit.jobId commit.epoch commit.operatorSnapshots).eval files = .ok fs ∧
      Guarded H files commit.jobId commit.epoch commit.metadata := by
  obtain ⟨fs', hread, h⟩ := (readAcked_readOnly _ _ _).eval_bind_ok.mp h
  obtain ⟨_, hguard, h⟩ := (epochGuard_readOnly H _ _ _).eval_bind_ok.mp h
  cases h
  exact ⟨hread, epochGuard_ok hguard⟩

/-- What a commit leaves behind, whatever happens to its calls. -/
lemma commitStorage_leaves (H : Host Bytes) (commit : PendingCommit) (s : Backend Path Bytes) :
    CommitLeaves H commit s.files (progress H commit s) (commitStorage H commit s).1
      (commitStorage H commit s).2.files := by
  have hro := commitReads_readOnly H commit
  have hfiles := hro.files s
  rw [commitStorage_eq, bind_apply, progress]
  rcases hr : commitReads H commit s with ⟨_ | fs, ⟨files', script⟩⟩
  · rw [hr] at hfiles
    rw [hfiles]
    exact .nothing _
  obtain ⟨hread, hguard⟩ := commitReads_ok (hro.eval_of_ok (congrArg Prod.fst hr))
  rw [hr] at hfiles
  subst hfiles
  -- one case for each outcome of the three writes
  have hhint : ∀ b, ∀ p ≠ Path.hint, ((withManifest H commit fs s.files).insert latestEpochHintPath b).lookup p =
        (withManifest H commit fs s.files).lookup p := fun b p hp => lookup_insert_ne hp
  rcases script with _ | ⟨o₁, script⟩
  · exact .manifest hguard hread (hhint _)
  cases o₁ with
  | refused m | stop => exact .nothing _
  | late m => exact .metadata _ hguard
  | done =>
    rcases script with _ | ⟨o₂, script⟩
    · exact .manifest hguard hread (hhint _)
    cases o₂ with
    | refused m => exact .metadata _ hguard
    | stop => exact .metadata _ hguard
    | late m => exact .manifest hguard hread fun p _ => rfl
    | done =>
      rcases script with _ | ⟨o₃, script⟩
      · exact .manifest hguard hread (hhint _)
      cases o₃ with
      | refused m => exact .manifest hguard hread fun p _ => rfl
      | stop => exact .manifest hguard hread fun p _ => rfl
      | late m => exact .manifest hguard hread (hhint _)
      | done => exact .manifest hguard hread (hhint _)

/-! ## Sealed by a commit -/

/-- The snapshots of a commit are those of its metadata, at the places their tasks write them. -/
structure Placed (commit : PendingCommit) : Prop where
  declared : commit.operatorSnapshots = commit.metadata.operatorSnapshots
  places : ∀ snap ∈ commit.metadata.operatorSnapshots,
    snap.snapshotPath = .checkpoint commit.epoch (snapshotRel snap.operatorId snap.taskId)

lemma mem_readAcked {jobId : Text} {epoch : ℕ}
    (h : (readAcked jobId epoch snaps).eval files = .ok fs) {f : Text × Bytes} (hf : f ∈ fs) :
    ∃ snap ∈ snaps, f.1 = snapshotRel snap.operatorId snap.taskId := by
  have hmem : f.1 ∈ fs.map Prod.fst := mem_map_of_mem hf
  rw [(readAcked_ok h).1] at hmem
  obtain ⟨snap, hsnap, heq⟩ := mem_map.mp hmem
  exact ⟨snap, hsnap, heq.symm⟩

section Manifest

variable {files' : KVMap Path Bytes}

/-- The writes of a commit do not touch the snapshots. -/
lemma lookup_snapshot_of_manifest
    (hfiles : ∀ p ≠ Path.hint, files'.lookup p = (withManifest H commit fs files).lookup p)
    (operatorId taskId : Text) : files'.lookup (.checkpoint commit.epoch (snapshotRel operatorId taskId)) =
      files.lookup (.checkpoint commit.epoch (snapshotRel operatorId taskId)) := by
  rw [hfiles _ (by simp), withManifest, withMetadata, lookup_insert_ne, lookup_insert_ne]
  · exact fun heq => snapshotRel_ne_metadata operatorId taskId (by injection heq)
  · exact fun heq => snapshotRel_ne_manifest operatorId taskId (by injection heq)

/-- A commit whose manifest was written has sealed its epoch. -/
lemma sealed_of_manifest (hplaced : Placed commit)
    (hread : (readAcked commit.jobId commit.epoch commit.operatorSnapshots).eval files = .ok fs)
    (hfiles : ∀ p ≠ Path.hint, files'.lookup p = (withManifest H commit fs files).lookup p) :
    Sealed H files' commit.epoch commit.metadata fs := by
  rw [hplaced.declared] at hread
  obtain ⟨hpaths, hbytes⟩ := readAcked_ok hread
  refine ⟨?_, ?_, fun f hf => ?_, ?_⟩
  · rw [hfiles _ (by simp [metadataPath]), withManifest, lookup_insert_ne (metadataPath_ne_manifestPath _ _)]
    exact lookup_insert _
  · rw [hfiles _ (by simp [manifestPath])]
    exact lookup_insert _
  · obtain ⟨snap, -, heq⟩ := mem_readAcked hread hf
    have hfile := hbytes f hf
    rw [heq] at hfile ⊢
    exact (lookup_snapshot_of_manifest hfiles _ _).trans hfile
  · calc commit.metadata.operatorSnapshots.map OperatorSnapshotRef.snapshotPath
        = commit.metadata.operatorSnapshots.map
            (fun snap => Path.checkpoint commit.epoch (snapshotRel snap.operatorId snap.taskId)) :=
          map_congr_left hplaced.places
      _ = (fs.map Prod.fst).map (Path.checkpoint commit.epoch) := by rw [hpaths, map_map]; rfl
      _ = fs.map fun f => Path.checkpoint commit.epoch f.1 := by rw [map_map]; rfl

end Manifest

/-! ## Acks that end in a commit -/

/-- What is committed once the acks of `epoch` are complete. -/
def commitData (c : CheckpointCoordinator) (epoch now : ℕ) : PendingCommit :=
  ⟨c.jobId, epoch, c.buildMetadata epoch now, (c.buildMetadata epoch now).operatorSnapshots⟩

/-- The coordinator after `epoch` was committed. -/
def closed (c : CheckpointCoordinator) (epoch : ℕ) : CheckpointCoordinator :=
  { c with
    state := .committed epoch
    pendingIsSavepoint := false
    pendingSavepointLabel := none
    awaitingElapsedMs := 0 }

variable {c c' : CheckpointCoordinator} {ack : CheckpointAckRequest} {e t now : ℕ}

lemma recordAck_path (h : c.recordAck ack e = .ok c') {p : Path} (hp : ack.snapshotPath = some p) :
    p = snapshotPath e ack.operatorId ack.taskId := by
  unfold recordAck validateAckContract at h
  rw [hp] at h
  by_contra hne
  split_ifs at h <;> simp_all

lemma mem_operatorSnapshots {snap : OperatorSnapshotRef} (h : snap ∈ (c.buildMetadata e now).operatorSnapshots) :
    ∃ task ack p, c.pendingAcks.lookup task = some ack ∧ ack.snapshotPath = some p ∧
      snap = ⟨ack.operatorId, ack.taskId, p⟩ := by
  obtain ⟨ack, hack, hsnap⟩ := mem_filterMap.mp h
  obtain ⟨⟨task, ack'⟩, hmem, rfl⟩ := mem_map.mp hack
  obtain ⟨p, hp, rfl⟩ := Option.map_eq_some_iff.mp hsnap
  exact ⟨task, ack', p, mem_lookup_iff.mpr hmem, hp, rfl⟩

/-- The pending acks of the epoch name the places where their tasks write. -/
def PathsMatch (c : CheckpointCoordinator) (e : ℕ) : Prop :=
  ∀ task ack, c.pendingAcks.lookup task = some ack → ∀ p, ack.snapshotPath = some p →
    p = Krishiv.State.snapshotPath e ack.operatorId ack.taskId

lemma PathsMatch.recordAck (h : PathsMatch c e) (hrec : c.recordAck ack e = .ok c') : PathsMatch c' e := by
  intro task other hlook p hp
  rw [(recordAck_ok hrec).2.2] at hlook
  by_cases htask : task = ack.taskId
  · subst htask
    have hother : ack = other := Option.some.inj ((lookup_insert _).symm.trans hlook)
    subst hother
    exact recordAck_path hrec hp
  · exact h task other ((lookup_insert_ne htask).symm.trans hlook) p hp

lemma PathsMatch.placed (h : PathsMatch c e) : Placed (c.commitData e now) := by
  refine ⟨rfl, fun snap hsnap => ?_⟩
  obtain ⟨task, ack, p, hlook, hp, rfl⟩ := mem_operatorSnapshots hsnap
  exact h task ack hlook p hp

lemma commitEpoch_eq (hstate : c.state = .awaitingAcks e t) :
    c.commitEpoch H now = commitStorage H (c.commitData e now) >>= fun n => pure (n, c.closed e) := by
  have htoken : validateFencingToken (c.buildMetadata e now) c.fencingToken = .ok () := by
    simp [validateFencingToken, buildMetadata]
  simp only [commitEpoch, hstate, htoken, commitStorage, bind_assoc]
  rfl

/-- `checkpoint_ack`, the ack handler of the server: the commit is written without the coordinator, which
is then told to close or to give up the epoch. -/
def checkpointAck (H : Host Bytes) (c : CheckpointCoordinator) (ack : CheckpointAckRequest) (now : ℕ) :
    Io Bytes (Except String Bool × CheckpointCoordinator) :=
  match c.receiveAckAsync ack now with
  | (.ok true, c) =>
    match c.takePendingCommit with
    | (none, c) => pure (.ok true, c)
    | (some commit, c) => do
      match ← (commitStorage H commit).attempt with
      | .error e =>
        pure (.error s!"checkpoint commit: {e.display}",
          c.abortEpoch s!"checkpoint storage write failed: {e.display}")
      | .ok _ =>
        match c.finalizeCommit ack.epoch with
        | .ok c => pure (.ok true, c)
        | .error e => pure (.error s!"checkpoint finalize: {e.display}", c)
  | (r, c) => pure (r, c)

/-- How the call that delivers an ack ends. In the last three cases the acks were complete and the commit
left `s'`; `onCommit` and `onError` are the coordinator after a commit that returned or failed. -/
inductive AckRun (H : Host Bytes) (onCommit : CheckpointCoordinator → ℕ → CheckpointCoordinator)
    (onError : CheckpointCoordinator → ℕ → CheckpointError → CheckpointCoordinator)
    (c : CheckpointCoordinator) (ack : CheckpointAckRequest) (now : ℕ) (s : Backend Path Bytes) :
    Except (Halt CheckpointError) (Except String Bool × CheckpointCoordinator) × Backend Path Bytes → Prop
  | refused (m : String) (h : c.records ack = false) :
      AckRun H onCommit onError c ack now s (.ok (.error m, c), s)
  | recorded {e t : ℕ} {c' : CheckpointCoordinator} (hstate : c.state = .awaitingAcks e t)
      (hrec : c.recordAck ack e = .ok c') (hquorum : c'.hasQuorum = false) :
      AckRun H onCommit onError c ack now s (.ok (.ok false, c'), s)
  | committed {e t n : ℕ} {c' : CheckpointCoordinator} {s' : Backend Path Bytes}
      (hstate : c.state = .awaitingAcks e t) (hrec : c.recordAck ack e = .ok c')
      (hquorum : c'.hasQuorum = true)
      (hcommit : commitStorage H (c'.commitData e now) s = (.ok n, s')) :
      AckRun H onCommit onError c ack now s (.ok (.ok true, onCommit c' e), s')
  | failed {e t : ℕ} {c' : CheckpointCoordinator} {err : CheckpointError} {s' : Backend Path Bytes}
      (m : String) (hstate : c.state = .awaitingAcks e t) (hrec : c.recordAck ack e = .ok c')
      (hquorum : c'.hasQuorum = true)
      (hcommit : commitStorage H (c'.commitData e now) s = (.error (.failed err), s')) :
      AckRun H onCommit onError c ack now s (.ok (.error m, onError c' e err), s')
  | stopped {e t : ℕ} {c' : CheckpointCoordinator} {s' : Backend Path Bytes}
      (hstate : c.state = .awaitingAcks e t) (hrec : c.recordAck ack e = .ok c')
      (hquorum : c'.hasQuorum = true)
      (hcommit : commitStorage H (c'.commitData e now) s = (.error .stopped, s')) :
      AckRun H onCommit onError c ack now s (.error .stopped, s')

lemma records_of_recordAck_error {m : String} (hstate : c.state = .awaitingAcks e t)
    (hrec : c.recordAck ack e = .error m) : c.records ack = false := by
  simp [records, hstate, hrec, Except.toBool]

/-- A failed commit leaves the epoch waiting with its acks. -/
lemma receiveAck_run (H : Host Bytes) (c : CheckpointCoordinator) (ack : CheckpointAckRequest)
    (now : ℕ) (s : Backend Path Bytes) : AckRun H closed (fun c _ _ => c) c ack now s (c.receiveAck H ack now s) := by
  cases hstate : c.state with
  | awaitingAcks e t =>
    simp only [receiveAck, hstate]
    cases hrec : c.recordAck ack e with
    | error m => exact .refused m (records_of_recordAck_error hstate hrec)
    | ok c₁ =>
      have hstate₁ : c₁.state = .awaitingAcks e t := (recordAck_state hrec).trans hstate
      by_cases hquorum : c₁.hasQuorum = true
      · simp only [hquorum, if_true]
        rw [commitEpoch_eq hstate₁, bind_apply, attempt, bind_apply]
        rcases hcommit : commitStorage H (c₁.commitData e now) s with ⟨(_ | err) | n, s'⟩
        · exact .stopped hstate hrec hquorum hcommit
        · exact .failed _ hstate hrec hquorum hcommit
        · exact .committed hstate hrec hquorum hcommit
      · simp only [hquorum]
        exact .recorded hstate hrec (by simpa using hquorum)
  | idle | committing e | committed e | failed e r =>
    simp only [receiveAck, hstate]
    exact .refused _ (records_of_not_awaiting fun e t h => by cases hstate.symm.trans h)

lemma extractCommitData_eq (hstate : c.state = .awaitingAcks e t) :
    c.extractCommitData now = .ok (c.commitData e now) := by
  have htoken : validateFencingToken (c.buildMetadata e now) c.fencingToken = .ok () := by
    simp [validateFencingToken, buildMetadata]
  simp only [extractCommitData, hstate, htoken]
  rfl

/-- A failed commit gives the epoch up. -/
lemma checkpointAck_run (H : Host Bytes) (c : CheckpointCoordinator) (ack : CheckpointAckRequest)
    (now : ℕ) (s : Backend Path Bytes) : AckRun H (fun c e => { c.closed e with pendingCommit := none })
      (fun c e err => c.aborted e s!"checkpoint storage write failed: {err.display}") c ack now s
      (checkpointAck H c ack now s) := by
  cases hstate : c.state with
  | awaitingAcks e t =>
    simp only [checkpointAck, receiveAckAsync, hstate]
    cases hrec : c.recordAck ack e with
    | error m => exact .refused m (records_of_recordAck_error hstate hrec)
    | ok c₁ =>
      have hstate₁ : c₁.state = .awaitingAcks e t := (recordAck_state hrec).trans hstate
      by_cases hquorum : c₁.hasQuorum = true
      · simp only [hquorum, if_true, extractCommitData_eq hstate₁, takePendingCommit]
        rw [bind_apply, attempt]
        rcases hcommit : commitStorage H (c₁.commitData e now) s with ⟨(_ | err) | n, s'⟩
        · exact .stopped hstate hrec hquorum hcommit
        · change AckRun H _ _ c ack now s (.ok (.error _, c₁.aborted e _), s')
          exact .failed _ hstate hrec hquorum hcommit
        obtain ⟨rfl, -, -⟩ := recordAck_ok hrec
        simp only [finalizeCommit, if_true]
        change AckRun H _ _ c ack now s
          (.ok (.ok true, { c₁.closed ack.epoch with pendingCommit := none }), s')
        exact .committed hstate hrec hquorum hcommit
      · simp only [hquorum]
        exact .recorded hstate hrec (by simpa using hquorum)
  | idle | committing e | committed e | failed e r =>
    simp only [checkpointAck, receiveAckAsync, hstate]
    exact .refused _ (records_of_not_awaiting fun e t h => by cases hstate.symm.trans h)

end CheckpointCoordinator

end Krishiv.Scheduler
