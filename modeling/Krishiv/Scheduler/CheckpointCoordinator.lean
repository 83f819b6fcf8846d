import Krishiv.State.CheckpointIo

/-!
# The checkpoint coordinator of a job

The state machine that drives the barrier protocol: it initiates epochs, collects one ack per task, and
writes metadata and manifest once enough tasks have acknowledged. The clock and the storage are passed
in; writes to storage are programs on the checkpoint files of the job (`State.Io`).

There are two commit paths. `commitEpoch` writes while the caller holds the coordinator. The other one
is split in three: `receiveAckAsync` extracts the commit data and turns to `committing`,
`commitStorage` writes it without the coordinator, and `finalizeCommit` closes the epoch.
-/

namespace Krishiv.Scheduler

open Krishiv.State StoreM

/-- Largest value of a 64-bit counter. -/
def u64Max : ℕ := 2 ^ 64 - 1

def saturatingAdd (a b : ℕ) : ℕ := min (a + b) u64Max

/-- Executor → coordinator: operator snapshot complete. -/
structure CheckpointAckRequest where
  jobId : Text
  operatorId : Text
  taskId : Text
  epoch : ℕ
  fencingToken : ℕ
  sourceOffsets : List SourceOffsetRecord
  snapshotPath : Option Path
  sinkTransactions : List SinkTransactionRef
  deriving DecidableEq, Repr

/-- Commit data extracted for the storage writes. -/
structure PendingCommit where
  jobId : Text
  epoch : ℕ
  metadata : CheckpointMetadata
  operatorSnapshots : List OperatorSnapshotRef
  deriving DecidableEq, Repr

inductive CheckpointCoordinatorState where
  | idle
  | awaitingAcks (epoch initiatedAtMs : ℕ)
  | committing (epoch : ℕ)
  | committed (epoch : ℕ)
  | failed (epoch : ℕ) (reason : String)
  deriving DecidableEq, Repr

structure CheckpointCoordinator where
  jobId : Text
  coordinatorId : Text
  intervalMs : ℕ
  currentEpoch : ℕ
  fencingToken : ℕ
  /-- By task id. -/
  pendingAcks : KVMap Text CheckpointAckRequest
  expectedTaskCount : ℕ
  state : CheckpointCoordinatorState
  pendingSavepointLabel : Option Text
  pendingIsSavepoint : Bool
  pendingCommit : Option PendingCommit
  elapsedMs : ℕ
  awaitingElapsedMs : ℕ

namespace CheckpointCoordinator

/-- `FencingToken::initial` -/
def initialToken : ℕ := 1

def new (jobId coordinatorId : Text) (intervalMs expectedTaskCount : ℕ) : CheckpointCoordinator where
  jobId := jobId
  coordinatorId := coordinatorId
  intervalMs := intervalMs
  currentEpoch := 0
  fencingToken := initialToken
  pendingAcks := ∅
  expectedTaskCount := expectedTaskCount
  state := .idle
  pendingSavepointLabel := none
  pendingIsSavepoint := false
  pendingCommit := none
  elapsedMs := 0
  awaitingElapsedMs := 0

def setExpectedTaskCount (c : CheckpointCoordinator) (count : ℕ) : CheckpointCoordinator :=
  { c with expectedTaskCount := count }

/-! ## Starting and ending epochs -/

/-- The coordinator at the start of the next epoch. -/
def started (c : CheckpointCoordinator) (nowMs : ℕ) : CheckpointCoordinator :=
  { c with
    currentEpoch := c.currentEpoch + 1
    elapsedMs := 0
    awaitingElapsedMs := 0
    pendingAcks := ∅
    state := .awaitingAcks (c.currentEpoch + 1) nowMs }

/-- Begin a new epoch. Only an epoch that still waits for acks stands in the way. -/
def initiate (c : CheckpointCoordinator) (nowMs : ℕ) : Except String ℕ × CheckpointCoordinator :=
  match c.state with
  | .awaitingAcks _ _ =>
    (.error s!"checkpoint coordinator for job {String.ofList c.jobId} is already awaiting acks", c)
  | _ =>
    if c.currentEpoch < u64Max then (.ok (c.currentEpoch + 1), c.started nowMs)
    else (.error s!"checkpoint epoch overflowed for job {String.ofList c.jobId}", c)

/-- The coordinator after `epoch` was given up. -/
def aborted (c : CheckpointCoordinator) (epoch : ℕ) (reason : String) : CheckpointCoordinator :=
  { c with
    pendingAcks := ∅
    pendingIsSavepoint := false
    pendingSavepointLabel := none
    pendingCommit := none
    elapsedMs := 0
    awaitingElapsedMs := 0
    state := .failed epoch reason }

/-- Abort the epoch in progress, if there is one. -/
def abortEpoch (c : CheckpointCoordinator) (reason : String) : CheckpointCoordinator :=
  match c.state with
  | .awaitingAcks epoch _ => c.aborted epoch reason
  | .committing epoch => c.aborted epoch reason
  | _ => c

/-- Advance the checkpoint clock: time out an epoch that waits for acks, or initiate the next one when
the interval has passed. -/
def tryTick (c : CheckpointCoordinator) (elapsedMs ackTimeoutMs nowMs : ℕ) : Option ℕ × CheckpointCoordinator :=
  match c.state with
  | .awaitingAcks _ _ =>
    let c := { c with awaitingElapsedMs := saturatingAdd c.awaitingElapsedMs elapsedMs }
    if ackTimeoutMs ≤ c.awaitingElapsedMs then
      (none, c.abortEpoch "timed out waiting for checkpoint acknowledgements")
    else (none, c)
  | .committing _ => (none, c)
  | _ =>
    if c.expectedTaskCount = 0 then (none, c)
    else
      let c := { c with elapsedMs := saturatingAdd c.elapsedMs elapsedMs }
      if c.intervalMs ≤ c.elapsedMs then
        let r := c.initiate nowMs
        (r.1.toOption, r.2)
      else (none, c)

/-- The savepoint flag and label are set before it is known whether an epoch can start. -/
def initiateSavepoint (c : CheckpointCoordinator) (label : Option Text) (nowMs : ℕ) :
    Except String ℕ × CheckpointCoordinator :=
  initiate { c with pendingIsSavepoint := true, pendingSavepointLabel := label } nowMs

/-! ## Commit data -/

/-- Source offsets of the acks, the last one seen for a partition. -/
def collectSourceOffsets (acks : List CheckpointAckRequest) : List SourceOffsetRecord :=
  let offsets : KVMap Text SourceOffsetRecord :=
    (acks.flatMap fun a => a.sourceOffsets).foldl (fun m o => m.insert o.partitionId o) ∅
  offsets.entries.map Sigma.snd

/-- The sink transactions of the acks, one for each prepared file; a committed report wins. -/
def collectSinkTransactions (acks : List CheckpointAckRequest) : List SinkTransactionRef :=
  let byPath : SortedMap Text SinkTransactionRef :=
    (acks.flatMap fun a => a.sinkTransactions).foldl (fun m t =>
        match m.lookup t.preparePath with
        | none => m.insert t.preparePath t
        | some known => m.insert t.preparePath { known with committed := known.committed || t.committed })
      SortedMap.empty
  byPath.entries.map Prod.snd

def collectSnapshots (acks : List CheckpointAckRequest) : List OperatorSnapshotRef :=
  acks.filterMap fun a => a.snapshotPath.map fun path => ⟨a.operatorId, a.taskId, path⟩

/-- The metadata of the epoch that the acks complete. -/
def buildMetadata (c : CheckpointCoordinator) (epoch nowMs : ℕ) : CheckpointMetadata :=
  let acks := c.pendingAcks.entries.map Sigma.snd
  { version := CheckpointMetadata.currentVersion
    epoch := epoch
    jobId := c.jobId
    fencingToken := c.fencingToken
    coordinatorId := some c.coordinatorId
    timestampMs := nowMs
    sourceOffsets := collectSourceOffsets acks
    operatorSnapshots := collectSnapshots acks
    isSavepoint := c.pendingIsSavepoint
    savepointLabel := c.pendingSavepointLabel
    icebergSnapshotId := none
    kafkaOffsets := none
    sinkTransactions := collectSinkTransactions acks
    streamingProfile := none }

def extractCommitData (c : CheckpointCoordinator) (nowMs : ℕ) : Except String PendingCommit :=
  match c.state with
  | .awaitingAcks epoch _ =>
    let metadata := c.buildMetadata epoch nowMs
    match validateFencingToken metadata c.fencingToken with
    | .error e => .error s!"fencing token mismatch for job {String.ofList c.jobId}: {e.display}"
    | .ok () => .ok ⟨c.jobId, epoch, metadata, metadata.operatorSnapshots⟩
  | _ =>
    .error s!"checkpoint coordinator for job {String.ofList c.jobId} must be awaiting acks to extract commit data"

section Commit

variable {Bytes : Type} (H : Host Bytes)

/-- Read back the acknowledged snapshots, each with its place in the manifest. -/
def readAcked (jobId : Text) (epoch : ℕ) : List OperatorSnapshotRef → Io Bytes (List (Text × Bytes))
  | [] => pure []
  | snap :: rest => do
    match ← readOperatorSnapshot epoch snap.operatorId snap.taskId with
    | none =>
      StoreM.throw (.corrupt epoch
        s!"snapshot {snap.snapshotPath.render jobId} referenced by checkpoint ack is missing")
    | some bytes =>
      let others ← readAcked jobId epoch rest
      pure ((snapshotRel snap.operatorId snap.taskId, bytes) :: others)

/-- Write metadata and manifest of an epoch, and the hint last. -/
def commitStorage (commit : PendingCommit) : Io Bytes ℕ := do
  let files ← readAcked commit.jobId commit.epoch commit.operatorSnapshots
  let manifest := manifestOf H (H.toJson commit.metadata) files
  writeEpochMetadata H commit.jobId commit.epoch commit.metadata
  writeManifest H commit.epoch manifest
  writeEpochHint H commit.epoch
  pure commit.epoch

/-- Commit the epoch that waits for acks. -/
def commitEpoch (c : CheckpointCoordinator) (nowMs : ℕ) : Io Bytes (ℕ × CheckpointCoordinator) :=
  match c.state with
  | .awaitingAcks epoch _ =>
    let metadata := c.buildMetadata epoch nowMs
    match validateFencingToken metadata c.fencingToken with
    | .error e =>
      StoreM.throw (.storage s!"fencing token mismatch for job {String.ofList c.jobId}: {e.display}")
    | .ok () => do
      let files ← readAcked c.jobId epoch metadata.operatorSnapshots
      let manifest := manifestOf H (H.toJson metadata) files
      writeEpochMetadata H c.jobId epoch metadata
      writeManifest H epoch manifest
      writeEpochHint H epoch
      pure (epoch, { c with
          state := .committed epoch
          pendingIsSavepoint := false
          pendingSavepointLabel := none
          awaitingElapsedMs := 0 })
  | _ =>
    StoreM.throw (.storage
      s!"commit_epoch called but coordinator for job {String.ofList c.jobId} is not awaiting acks")

end Commit

/-- Close an epoch whose storage writes are done. -/
def finalizeCommit (c : CheckpointCoordinator) (epoch : ℕ) : Except CheckpointError CheckpointCoordinator :=
  let cannot (why : String) : CheckpointError :=
    .storage s!"cannot finalize checkpoint epoch {epoch} for job {String.ofList c.jobId}: {why}"
  match c.state with
  | .committing committingEpoch =>
    if committingEpoch = epoch then
      .ok { c with
        state := .committed epoch
        pendingIsSavepoint := false
        pendingSavepointLabel := none
        awaitingElapsedMs := 0
        pendingCommit := none }
    else .error (cannot s!"coordinator is committing epoch {committingEpoch}")
  | state => .error (cannot s!"coordinator state is {reprStr state}")

/-! ## Acks -/

/-- An ack must be for this job and name the place where its task writes its snapshot. -/
def validateAckContract (c : CheckpointCoordinator) (ack : CheckpointAckRequest) (currentEpoch : ℕ) :
    Except String Unit :=
  if ack.jobId ≠ c.jobId then
    .error s!"checkpoint ack job_id {String.ofList ack.jobId} does not match coordinator job_id {String.ofList c.jobId}"
  else
    match ack.snapshotPath with
    | none => .ok ()
    | some path =>
      let expected := Krishiv.State.snapshotPath currentEpoch ack.operatorId ack.taskId
      if path ≠ expected then
        .error s!"checkpoint ack snapshot path {path.render c.jobId} does not match expected path {expected.render c.jobId}"
      else .ok ()

/-- The checks on an ack for the epoch `currentEpoch`, and its recording under its task. -/
def recordAck (c : CheckpointCoordinator) (ack : CheckpointAckRequest) (currentEpoch : ℕ) :
    Except String CheckpointCoordinator :=
  if ack.epoch ≠ currentEpoch then
    .error s!"stale checkpoint ack for job {String.ofList c.jobId}: expected epoch {currentEpoch}, got epoch {ack.epoch}"
  else
    match c.validateAckContract ack currentEpoch with
    | .error e => .error e
    | .ok () =>
      if ack.fencingToken ≠ c.fencingToken then
        .error (s!"stale fencing token in ack for job {String.ofList c.jobId}: " ++
          s!"expected {c.fencingToken}, got {ack.fencingToken}")
      else .ok { c with pendingAcks := c.pendingAcks.insert ack.taskId ack }

/-- All expected acks are there. -/
def hasQuorum (c : CheckpointCoordinator) : Bool := c.expectedTaskCount ≤ c.pendingAcks.keys.length

/-- Record an ack and commit the epoch in the same call once all expected acks are there. A commit that
fails leaves the epoch waiting with its acks. -/
def receiveAck {Bytes : Type} (H : Host Bytes) (c : CheckpointCoordinator) (ack : CheckpointAckRequest)
    (nowMs : ℕ) : Io Bytes (Except String Bool × CheckpointCoordinator) :=
  match c.state with
  | .awaitingAcks currentEpoch _ =>
    match c.recordAck ack currentEpoch with
    | .error e => pure (.error e, c)
    | .ok c =>
      if c.hasQuorum then do
        match ← (c.commitEpoch H nowMs).attempt with
        | .error e => pure (.error e.display, c)
        | .ok (_, c) => pure (.ok true, c)
      else pure (.ok false, c)
  | _ => pure (.error s!"checkpoint coordinator for job {String.ofList c.jobId} is not awaiting acks", c)

/-- Record an ack; once all expected acks are there, extract the commit data for the storage writes. -/
def receiveAckAsync (c : CheckpointCoordinator) (ack : CheckpointAckRequest) (nowMs : ℕ) :
    Except String Bool × CheckpointCoordinator :=
  match c.state with
  | .awaitingAcks currentEpoch _ =>
    match c.recordAck ack currentEpoch with
    | .error e => (.error e, c)
    | .ok c =>
      if c.hasQuorum then
        match c.extractCommitData nowMs with
        | .error e => (.error e, c)
        | .ok commit => (.ok true, { c with pendingCommit := some commit, state := .committing currentEpoch })
      else (.ok false, c)
  | .committing epoch =>
    (.error s!"checkpoint coordinator for job {String.ofList c.jobId} is already committing epoch {epoch}", c)
  | _ => (.error s!"checkpoint coordinator for job {String.ofList c.jobId} is not awaiting acks", c)

/-- Move the commit data out. -/
def takePendingCommit (c : CheckpointCoordinator) : Option PendingCommit × CheckpointCoordinator :=
  (c.pendingCommit, { c with pendingCommit := none })

/-! ## Restoring and recovering -/

/-- Make a restored epoch this job's committed epoch. The epoch counter goes back to it. -/
def activateRestoredEpoch (c : CheckpointCoordinator) (metadata : CheckpointMetadata)
    (activeFencingToken : Option ℕ) : Except CheckpointError CheckpointCoordinator := do
  metadata.validate
  if metadata.jobId ≠ c.jobId then
    .error (.corrupt metadata.epoch
      s!"checkpoint metadata job_id {String.ofList metadata.jobId} does not match coordinator job_id {String.ofList c.jobId}")
  else
    let token := activeFencingToken.getD metadata.fencingToken
    if token = 0 then
      .error (.storage s!"invalid active fencing token {token}: fencing token must be greater than zero")
    else
      .ok { c with
        fencingToken := token
        currentEpoch := metadata.epoch
        pendingAcks := ∅
        pendingIsSavepoint := false
        pendingSavepointLabel := none
        pendingCommit := none
        elapsedMs := 0
        awaitingElapsedMs := 0
        state := .committed metadata.epoch }

/-- Load the latest valid epoch after a restart. The metadata is read for a warning only. -/
def recoverFromStorage {Bytes : Type} (H : Host Bytes) (c : CheckpointCoordinator) :
    Io Bytes (Option ℕ × CheckpointCoordinator) := do
  match ← (latestValidEpoch H c.jobId).attempt with
  | .ok epoch =>
    let _ ← readEpochMetadata H epoch
    pure (some epoch, { c with currentEpoch := epoch, state := .committed epoch })
  | .error .noValidEpoch => pure (none, c)
  | .error e => StoreM.throw e

/-! ## Requests and clock of the owning coordinator -/

/-- `Coordinator::savepoint_job`, where `running` counts the job's running tasks at that moment. -/
def savepointJob (c : CheckpointCoordinator) (running : ℕ) (label : Option Text) (nowMs : ℕ) :
    Except String ℕ × CheckpointCoordinator :=
  (c.setExpectedTaskCount (max running 1)).initiateSavepoint label nowMs

/-- The checkpoint timer of `Coordinator::advance_heartbeat_clock`. -/
def heartbeat (c : CheckpointCoordinator) (running elapsedMs ackTimeoutMs nowMs : ℕ) : CheckpointCoordinator :=
  ((c.setExpectedTaskCount running).tryTick elapsedMs ackTimeoutMs nowMs).2

/-! ## What the calls can do -/

variable {c c' : CheckpointCoordinator}

/-- Initiating does nothing or starts the next epoch. -/
lemma initiate_cases (c : CheckpointCoordinator) (now : ℕ) : (c.initiate now).2 = c ∨
      (∀ e t, c.state ≠ .awaitingAcks e t) ∧ (c.initiate now).2 = c.started now := by
  unfold initiate
  split
  · exact .inl rfl
  next hstate =>
  split
  · exact .inr ⟨fun e t h => hstate e t h, rfl⟩
  · exact .inl rfl

/-- Aborting does nothing or gives the epoch in progress up. -/
lemma abortEpoch_cases (c : CheckpointCoordinator) (reason : String) : c.abortEpoch reason = c ∨
      ∃ e, (c.state = .committing e ∨ ∃ t, c.state = .awaitingAcks e t) ∧
        c.abortEpoch reason = c.aborted e reason := by
  unfold abortEpoch
  split
  · next e t hstate => exact .inr ⟨e, .inr ⟨t, hstate⟩, rfl⟩
  · next e hstate => exact .inr ⟨e, .inl hstate, rfl⟩
  · exact .inl rfl

variable {e : ℕ}

lemma abortEpoch_of_awaiting {t : ℕ} {reason : String} (h : c.state = .awaitingAcks e t) :
    c.abortEpoch reason = c.aborted e reason := by
  simp [abortEpoch, h]

/-- The fields on which the quorum depends. -/
structure SameQuorum (c c' : CheckpointCoordinator) : Prop where
  state : c'.state = c.state
  epoch : c'.currentEpoch = c.currentEpoch
  token : c'.fencingToken = c.fencingToken
  acks : c'.pendingAcks = c.pendingAcks

/-- A tick leaves the epoch as it is, starts the next one when none is waiting, or gives it up. The
expected count stays. -/
lemma tryTick_cases (c : CheckpointCoordinator) (elapsed timeout now : ℕ) :
    (c.tryTick elapsed timeout now).2.expectedTaskCount = c.expectedTaskCount ∧
      (SameQuorum c (c.tryTick elapsed timeout now).2 ∨
        (∃ c₀, SameQuorum c c₀ ∧ (∀ e t, c₀.state ≠ .awaitingAcks e t) ∧
          (c.tryTick elapsed timeout now).2 = c₀.started now) ∨
        ∃ c₀ e r t, SameQuorum c c₀ ∧ c.state = .awaitingAcks e t ∧
          (c.tryTick elapsed timeout now).2 = c₀.aborted e r) := by
  have hsame : SameQuorum c c := ⟨rfl, rfl, rfl, rfl⟩
  unfold tryTick
  split
  · next e t hstate =>
    dsimp only
    split
    · rw [abortEpoch_of_awaiting (show
        { c with awaitingElapsedMs := saturatingAdd c.awaitingElapsedMs elapsed }.state = _ from hstate)]
      exact ⟨rfl, .inr (.inr ⟨_, e, _, t, ⟨rfl, rfl, rfl, rfl⟩, hstate, rfl⟩)⟩
    · exact ⟨rfl, .inl ⟨rfl, rfl, rfl, rfl⟩⟩
  · exact ⟨rfl, .inl hsame⟩
  split
  · exact ⟨rfl, .inl hsame⟩
  dsimp only
  split
  · set c₀ : CheckpointCoordinator := { c with elapsedMs := saturatingAdd c.elapsedMs elapsed } with hc₀
    have hsame₀ : SameQuorum c c₀ := ⟨rfl, rfl, rfl, rfl⟩
    rcases initiate_cases c₀ now with hinit | ⟨hfree, hinit⟩
    · rw [hinit]
      exact ⟨rfl, .inl hsame₀⟩
    · rw [hinit]
      exact ⟨rfl, .inr (.inl ⟨c₀, hsame₀, hfree, rfl⟩)⟩
  · exact ⟨rfl, .inl ⟨rfl, rfl, rfl, rfl⟩⟩

variable {ack : CheckpointAckRequest}

/-- A recorded ack carries the epoch and the token of the coordinator. -/
lemma recordAck_ok (h : c.recordAck ack e = .ok c') : ack.epoch = e ∧ ack.fencingToken = c.fencingToken ∧
      c' = { c with pendingAcks := c.pendingAcks.insert ack.taskId ack } := by
  unfold recordAck at h
  split at h
  · cases h
  next hepoch =>
  split at h
  · cases h
  split at h
  · cases h
  · next htoken =>
    cases h
    exact ⟨not_not.mp hepoch, not_not.mp htoken, rfl⟩

lemma recordAck_state (h : c.recordAck ack e = .ok c') : c'.state = c.state := by
  rw [(recordAck_ok h).2.2]

/-- The ack is one that the coordinator records. -/
def records (c : CheckpointCoordinator) (ack : CheckpointAckRequest) : Bool :=
  match c.state with
  | .awaitingAcks e _ => (c.recordAck ack e).isOk
  | _ => false

/-- What a call that delivers an ack leaves behind, where `closed e` is the state of an epoch with a
quorum. -/
inductive AckLeaves (closed : ℕ → CheckpointCoordinatorState) (c : CheckpointCoordinator)
    (ack : CheckpointAckRequest) : CheckpointCoordinator → Prop
  | refused (h : c.records ack = false) : AckLeaves closed c ack c
  | recorded {e t : ℕ} {c' : CheckpointCoordinator} (hstate : c.state = .awaitingAcks e t)
      (hrec : c.recordAck ack e = .ok c') : AckLeaves closed c ack c'
  | quorum {e t : ℕ} {c' c'' : CheckpointCoordinator} (hstate : c.state = .awaitingAcks e t)
      (hrec : c.recordAck ack e = .ok c') (hquorum : c'.hasQuorum = true)
      (hclosed : c''.state = closed e) (hepoch : c''.currentEpoch = c'.currentEpoch)
      (htoken : c''.fencingToken = c'.fencingToken) : AckLeaves closed c ack c''

lemma records_of_recordAck {t : ℕ} (hstate : c.state = .awaitingAcks e t)
    (hrec : c.recordAck ack e = .ok c') : c.records ack = true := by
  simp [records, hstate, hrec, Except.toBool]

lemma records_of_not_awaiting (h : ∀ e t, c.state ≠ .awaitingAcks e t) : c.records ack = false := by
  unfold records
  split
  · next e t hstate => exact absurd hstate (h e t)
  · rfl

lemma receiveAckAsync_leaves (c : CheckpointCoordinator) (ack : CheckpointAckRequest) (now : ℕ) :
    AckLeaves .committing c ack (c.receiveAckAsync ack now).2 := by
  unfold receiveAckAsync
  split
  · next e t hstate =>
    split
    · next msg hrec =>
      exact .refused (by simp [records, hstate, hrec, Except.toBool])
    next c₁ hrec =>
    split
    · next hquorum =>
      split
      · exact .recorded hstate hrec
      · exact .quorum hstate hrec hquorum rfl rfl rfl
    · exact .recorded hstate hrec
  · next hstate => exact .refused (by simp [records, hstate])
  · next hwait _ => exact .refused (records_of_not_awaiting hwait)

section Sync

variable {Bytes : Type} {H : Host Bytes} {s s' : Backend Path Bytes}

/-- A commit that returns closes the epoch. -/
lemma commitEpoch_ok {now n t : ℕ} (hstate : c.state = .awaitingAcks e t)
    (h : c.commitEpoch H now s = (.ok (n, c'), s')) : c' = { c with
      state := .committed e, pendingIsSavepoint := false, pendingSavepointLabel := none, awaitingElapsedMs := 0 } := by
  simp only [commitEpoch, hstate] at h
  cases htoken : validateFencingToken (c.buildMetadata e now) c.fencingToken with
  | error err => simp [htoken] at h
  | ok u =>
    simp only [htoken, bind_eq_ok, pure_apply, Prod.mk.injEq, Except.ok.injEq] at h
    obtain ⟨files, s₁, -, -, s₂, -, -, s₃, -, -, s₄, -, ⟨-, rfl⟩, -⟩ := h
    rfl

lemma receiveAck_leaves {now : ℕ} {r : Except String Bool} (h : c.receiveAck H ack now s = (.ok (r, c'), s')) :
    AckLeaves .committed c ack c' := by
  by_cases hwait : ∃ e t, c.state = .awaitingAcks e t
  · obtain ⟨e, t, hstate⟩ := hwait
    simp only [receiveAck, hstate] at h
    cases hrec : c.recordAck ack e with
    | error msg =>
      simp only [hrec, pure_apply] at h
      cases h
      exact .refused (by simp [records, hstate, hrec, Except.toBool])
    | ok c₁ =>
      simp only [hrec] at h
      by_cases hquorum : c₁.hasQuorum = true
      · simp only [hquorum, if_true, bind_eq_ok] at h
        obtain ⟨res, s₁, hcommit, h⟩ := h
        have hstate₁ : c₁.state = .awaitingAcks e t := (recordAck_state hrec).trans hstate
        rcases res with err | ⟨n, c₂⟩
        · cases h
          exact .recorded hstate hrec
        rw [attempt_eq_ok] at hcommit
        cases h
        obtain rfl := commitEpoch_ok hstate₁ hcommit
        exact .quorum hstate hrec hquorum rfl rfl rfl
      · simp only [hquorum] at h
        cases h
        exact .recorded hstate hrec
  · have hnone : ∀ e t, c.state ≠ .awaitingAcks e t := fun e t h => hwait ⟨e, t, h⟩
    have hc : c = c' := by
      unfold receiveAck at h
      cases hstate : c.state with
      | awaitingAcks e t => exact absurd hstate (hnone e t)
      | idle | committing e | committed e | failed e r => rw [hstate] at h; cases h; rfl
    rw [← hc]
    exact .refused (records_of_not_awaiting hnone)

end Sync

end CheckpointCoordinator

end Krishiv.Scheduler
