import Mathlib.Data.List.Sort
import Krishiv.Lib.FaultyStore
import Krishiv.State.IntegrityManifest

/-!
# Checkpoint files

The functions that write, validate, list and delete the checkpoint epochs and savepoints of one job, as
programs on a store whose calls can fail (`StoreM`). Paths are those below the directory of the job.

JSON, UTF-8 and SHA-256 come from outside the repository: `Host` carries them with the laws the
development relies on. The asynchronous variants of the functions make the same calls; where they read
all files of a manifest before comparing any hash they are the functions here at a pool width no
smaller than the manifest.
-/

namespace Krishiv.State

/-! ## Paths -/

/-- A path below the directory of a job. -/
inductive Path where
  /-- `checkpoints/{epoch:020}/{rel}` -/
  | checkpoint (epoch : ℕ) (rel : Text)
  /-- `savepoints/{epoch:020}/{rel}` -/
  | savepoint (epoch : ℕ) (rel : Text)
  /-- `checkpoints/latest_epoch.json` -/
  | hint
  /-- A path of any other form. -/
  | other (path : Text)
  deriving DecidableEq, Repr

def metadataJson : Text := "metadata.json".toList

def manifestSha256 : Text := "manifest.sha256".toList

def stateBin : Text := "state.bin".toList

/-- `{op_id}/{task_id}/state.bin`, the place of a snapshot inside its epoch. -/
def snapshotRel (operatorId taskId : Text) : Text := operatorId ++ '/' :: (taskId ++ '/' :: stateBin)

def metadataPath (epoch : ℕ) : Path := .checkpoint epoch metadataJson

def snapshotPath (epoch : ℕ) (operatorId taskId : Text) : Path :=
  .checkpoint epoch (snapshotRel operatorId taskId)

def manifestPath (epoch : ℕ) : Path := .checkpoint epoch manifestSha256

def latestEpochHintPath : Path := .hint

/-- A number in at least twenty digits. -/
def padded (n : ℕ) : Text :=
  let digits := Nat.toDigits 10 n
  List.replicate (20 - digits.length) '0' ++ digits

def epochDir (jobId : Text) (epoch : ℕ) : String :=
  s!"{String.ofList jobId}/checkpoints/{String.ofList (padded epoch)}"

def savepointEpochDir (jobId : Text) (epoch : ℕ) : String :=
  s!"{String.ofList jobId}/savepoints/{String.ofList (padded epoch)}"

/-- The path as it is written in messages. -/
def Path.render (jobId : Text) : Path → String
  | .checkpoint epoch rel => s!"{epochDir jobId epoch}/{String.ofList rel}"
  | .savepoint epoch rel => s!"{savepointEpochDir jobId epoch}/{String.ofList rel}"
  | .hint => s!"{String.ofList jobId}/checkpoints/latest_epoch.json"
  | .other path => String.ofList path

/-! ## Metadata -/

structure SourceOffsetRecord where
  partitionId : Text
  offset : ℤ
  encodedOffset : List UInt8
  deriving DecidableEq, Repr

structure OperatorSnapshotRef where
  operatorId : Text
  taskId : Text
  snapshotPath : Path
  deriving DecidableEq, Repr

structure SinkTransactionRef where
  sinkId : Text
  epoch : ℕ
  preparePath : Text
  committed : Bool
  deriving DecidableEq, Repr

/-- The record written to `metadata.json`. -/
structure CheckpointMetadata where
  version : ℕ
  epoch : ℕ
  jobId : Text
  fencingToken : ℕ
  coordinatorId : Option Text
  timestampMs : ℕ
  sourceOffsets : List SourceOffsetRecord
  operatorSnapshots : List OperatorSnapshotRef
  isSavepoint : Bool
  savepointLabel : Option Text
  icebergSnapshotId : Option ℕ
  kafkaOffsets : Option (List (Text × ℤ))
  sinkTransactions : List SinkTransactionRef
  streamingProfile : Option Text
  deriving DecidableEq, Repr

namespace CheckpointMetadata

def minSupportedVersion : ℕ := 1

def currentVersion : ℕ := 3

def validate (m : CheckpointMetadata) : Except CheckpointError Unit :=
  if minSupportedVersion ≤ m.version ∧ m.version ≤ currentVersion then .ok ()
  else .error (.incompatibleVersion m.version)

end CheckpointMetadata

/-- What the repository takes from its libraries and from the machine it runs on. -/
structure Host (Bytes : Type) where
  toJson : CheckpointMetadata → Bytes
  fromJson : Bytes → Except String CheckpointMetadata
  toUtf8 : Text → Bytes
  fromUtf8 : Bytes → Except String Text
  sha256Hex : Bytes → Text
  /-- Number of manifest entries read before their hashes are compared. -/
  poolWidth : ℕ
  fromJson_toJson : ∀ m, fromJson (toJson m) = .ok m
  fromUtf8_toUtf8 : ∀ t, fromUtf8 (toUtf8 t) = .ok t
  isHex_sha256Hex : ∀ b, IntegrityManifest.isHex (sha256Hex b) = true

/-- Bytes that say what they were made from. -/
inductive Tagged where
  | json (metadata : CheckpointMetadata)
  | text (t : Text)
  | raw (n : ℕ)
  deriving DecidableEq

/-- A host with tagged bytes, for evaluating runs. -/
def Host.tagged : Host Tagged where
  toJson := .json
  fromJson
    | .json m => .ok m
    | _ => .error "expected value"
  toUtf8 := .text
  fromUtf8
    | .text t => .ok t
    | _ => .error "invalid utf-8"
  sha256Hex
    | .json m => 'a' :: (List.replicate m.timestampMs '0' ++ List.replicate (m.savepointLabel.getD []).length '1')
    | .text t => 'b' :: List.replicate t.length '0'
    | .raw n => 'c' :: List.replicate n '0'
  poolWidth := 4
  fromJson_toJson _ := rfl
  fromUtf8_toUtf8 _ := rfl
  isHex_sha256Hex
    | .json m => by simp [IntegrityManifest.isHex]
    | .text t => by simp [IntegrityManifest.isHex]
    | .raw n => by simp [IntegrityManifest.isHex]

instance : BackendError CheckpointError where
  backend := .storage

variable {Bytes : Type} (H : Host Bytes)

/-- Programs on the checkpoint files of a job. -/
abbrev Io (Bytes α : Type) := StoreM Path Bytes CheckpointError α

namespace IntegrityManifest

/-- Compute and record the SHA-256 of `data` for `path`. -/
def insertBytes (m : IntegrityManifest) (path : Text) (data : Bytes) : IntegrityManifest :=
  m.insert path (H.sha256Hex data)

/-- Whether `data` matches the recorded hash for `path`. -/
def verify (m : IntegrityManifest) (path : Text) (data : Bytes) : Bool :=
  match m.lookup path with
  | some expected => H.sha256Hex data = expected
  | none => false

def ofBytes (b : Bytes) : Except CheckpointError IntegrityManifest :=
  match H.fromUtf8 b with
  | .error e => .error (.storage s!"manifest is not valid UTF-8: {e}")
  | .ok t => deserialize t

end IntegrityManifest

/-! ## Checks that read no file -/

def validateMetadataIdentity (metadata : CheckpointMetadata) (jobId : Text) (epoch : ℕ) :
    Except CheckpointError Unit := do
  metadata.validate
  if metadata.jobId ≠ jobId then
    .error (.corrupt epoch
      s!"metadata job_id {String.ofList metadata.jobId} does not match requested job_id {String.ofList jobId}")
  else if metadata.epoch ≠ epoch then
    .error (.corrupt epoch s!"metadata epoch {metadata.epoch} does not match requested epoch {epoch}")
  else .ok ()

/-- The place of a declared snapshot inside its epoch. -/
def snapshotRelativePath (jobId : Text) (epoch : ℕ) (snapshot : OperatorSnapshotRef) : Except CheckpointError Text :=
  let outside : CheckpointError := .corrupt epoch
    s!"snapshot path {snapshot.snapshotPath.render jobId} is not under checkpoint epoch {epochDir jobId epoch}"
  match snapshot.snapshotPath with
  | .checkpoint e rel => if e = epoch then .ok rel else .error outside
  | _ => .error outside

def validateManifestRelativePath (path : Text) (epoch : ℕ) : Except CheckpointError Unit :=
  let shown := (String.ofList path).quote
  if path.isEmpty || path.head? = some '/' || path.contains '\\' then
    .error (.corrupt epoch s!"manifest path {shown} is not a relative checkpoint path")
  else if path = manifestSha256 then
    .error (.corrupt epoch "manifest must not include itself")
  else
    match path.find? Text.isControl with
    | some bad =>
      .error (.corrupt epoch
        s!"manifest path {shown} contains control character {bad.quote}; the manifest is damaged")
    | none =>
      if (path.splitOn '/').any fun c => c.isEmpty || c = ['.'] || c = ['.', '.'] then
        .error (.corrupt epoch s!"manifest path {shown} contains an invalid component")
      else .ok ()

/-- Whether every declared snapshot is covered by the manifest. -/
def snapshotsCovered (jobId : Text) (epoch : ℕ) (manifest : IntegrityManifest) :
    List OperatorSnapshotRef → Except CheckpointError Bool
  | [] => .ok true
  | snapshot :: rest => do
    let rel ← snapshotRelativePath jobId epoch snapshot
    validateManifestRelativePath rel epoch
    if manifest.contains rel then snapshotsCovered jobId epoch manifest rest else .ok false

def validateCheckpointMetadataContract (metadataBytes : Bytes) (jobId : Text) (epoch : ℕ)
    (manifest : IntegrityManifest) : Except CheckpointError Bool :=
  match H.fromJson metadataBytes with
  | .error e => .error (.corrupt epoch s!"metadata JSON parse: {e}")
  | .ok metadata => do
    validateMetadataIdentity metadata jobId epoch
    snapshotsCovered jobId epoch manifest metadata.operatorSnapshots

/-- The metadata's token must be the one of the coordinator that writes it. -/
def validateFencingToken (metadata : CheckpointMetadata) (currentToken : ℕ) : Except CheckpointError Unit :=
  if metadata.fencingToken ≠ currentToken then
    .error (.staleFencingToken metadata.fencingToken currentToken)
  else .ok ()

/-- Restoring accepts metadata of earlier coordinators. -/
def validateFencingTokenForRestore (metadata : CheckpointMetadata) (currentToken : ℕ) : Except CheckpointError Unit :=
  if metadata.fencingToken > currentToken then
    .error (.staleFencingToken metadata.fencingToken currentToken)
  else .ok ()

/-! ## Reading and validating an epoch -/

def readEpochMetadata (epoch : ℕ) : Io Bytes (Option CheckpointMetadata) := do
  match ← StoreM.read (metadataPath epoch) with
  | none => pure none
  | some bytes =>
    match H.fromJson bytes with
    | .error e => StoreM.throw (.corrupt epoch s!"metadata JSON parse: {e}")
    | .ok metadata => pure (some metadata)

def readOperatorSnapshot (epoch : ℕ) (operatorId taskId : Text) : Io Bytes (Option Bytes) :=
  StoreM.read (snapshotPath epoch operatorId taskId)

def readOptionalManifest (path : Path) (epoch : ℕ) : Io Bytes (Option IntegrityManifest) := do
  match ← StoreM.read path with
  | none => pure none
  | some bytes =>
    match IntegrityManifest.ofBytes H bytes with
    | .error e => StoreM.throw (.corrupt epoch s!"manifest parse: {e.display}")
    | .ok manifest => pure (some manifest)

def readRequiredManifest (path : Path) (epoch : ℕ) : Io Bytes IntegrityManifest := do
  match ← readOptionalManifest H path epoch with
  | none => StoreM.throw .noValidEpoch
  | some manifest => pure manifest

/-- Some file that was read does not have the hash its manifest entry gives. -/
def mismatch (reads : List (Bytes × Text)) : Bool := reads.any fun r => !(H.sha256Hex r.1 = r.2)

/-- Read the files of the manifest entries; their hashes are compared whenever a pool width of files
has been read, and at the end. -/
def validateFrom (dir : Text → Path) (epoch : ℕ) (reads : List (Bytes × Text)) : List (Text × Text) → Io Bytes Bool
  | [] => pure !(mismatch H reads)
  | (path, expected) :: rest =>
    let full := max H.poolWidth 1 ≤ reads.length
    if full ∧ mismatch H reads then pure false
    else do
      StoreM.ofExcept (validateManifestRelativePath path epoch)
      match ← StoreM.read (dir path) with
      | none => pure false
      | some data => validateFrom dir epoch ((data, expected) :: (if full then [] else reads)) rest

def validateManifestEntries (dir : Text → Path) (epoch : ℕ) (manifest : IntegrityManifest) : Io Bytes Bool :=
  if manifest.contains metadataJson then validateFrom H dir epoch [] manifest.entries
  else pure false

def validateCheckpointManifest (jobId : Text) (epoch : ℕ) (manifest : IntegrityManifest) :
    Io Bytes Bool := do
  if ← validateManifestEntries H (.checkpoint epoch) epoch manifest then
    match ← StoreM.read (metadataPath epoch) with
    | none => pure false
    | some metadataBytes =>
      StoreM.ofExcept (validateCheckpointMetadataContract H metadataBytes jobId epoch manifest)
  else pure false

/-- Whether the epoch has a manifest, every listed file matches it and it covers what the metadata
declares. -/
def validateEpoch (jobId : Text) (epoch : ℕ) : Io Bytes Bool := do
  match ← readOptionalManifest H (manifestPath epoch) epoch with
  | none => pure false
  | some manifest => validateCheckpointManifest H jobId epoch manifest

/-! ## Listing epochs -/

/-- An entry of a checkpoint or savepoint directory; only epoch directories have numeric names. -/
inductive DirEntry where
  | epoch (epoch : ℕ)
  | file
  deriving DecidableEq, Repr

def checkpointEntry : Path → Option DirEntry
  | .checkpoint epoch _ => some (.epoch epoch)
  | .hint => some .file
  | _ => none

def DirEntry.parse : DirEntry → Option ℕ
  | .epoch e => some e
  | .file => none

def epochCandidatesNewestFirst (names : List DirEntry) : List ℕ :=
  ((names.filterMap DirEntry.parse).insertionSort (· ≤ ·)).reverse

/-- The first candidate that validates; invalid and corrupt epochs are skipped, other errors end the
search. -/
def firstValid (jobId : Text) : List ℕ → Io Bytes ℕ
  | [] => StoreM.throw .noValidEpoch
  | epoch :: rest => do
    let valid ← StoreM.handle (validateEpoch H jobId epoch) fun e =>
      match e with
      | .corrupt _ _ => pure false
      | e => StoreM.throw e
    if valid then pure epoch else firstValid jobId rest

/-- The most recent valid epoch. The hint file is not consulted. -/
def latestValidEpoch (jobId : Text) : Io Bytes ℕ := do
  let names ← StoreM.list checkpointEntry
  firstValid H jobId (epochCandidatesNewestFirst names)

/-- The candidates that validate. An epoch whose validation fails with any error is left out. -/
def validAmong (jobId : Text) : List ℕ → Io Bytes (List ℕ)
  | [] => pure []
  | epoch :: rest => do
    let valid ← StoreM.handle (validateEpoch H jobId epoch) fun _ => pure false
    let others ← validAmong jobId rest
    pure (if valid then epoch :: others else others)

def listValidEpochs (jobId : Text) : Io Bytes (List ℕ) := do
  let names ← StoreM.list checkpointEntry
  let valid ← validAmong H jobId (names.filterMap DirEntry.parse)
  pure (valid.insertionSort (· ≤ ·))

/-! ## Writing and deleting an epoch -/

/-- Write `metadata.json`, unless an epoch at least as new is already valid. -/
def writeEpochMetadata (jobId : Text) (epoch : ℕ) (metadata : CheckpointMetadata) : Io Bytes Unit := do
  StoreM.ofExcept (validateMetadataIdentity metadata jobId epoch)
  let latest ← StoreM.handle (some <$> latestValidEpoch H jobId) fun e =>
    match e with
    | .noValidEpoch => pure none
    | e => StoreM.throw e
  match latest with
  | some latest =>
    if epoch ≤ latest then StoreM.throw (.staleEpoch epoch latest)
    else StoreM.write (metadataPath epoch) (H.toJson metadata)
  | none => StoreM.write (metadataPath epoch) (H.toJson metadata)

def writeOperatorSnapshot (epoch : ℕ) (operatorId taskId : Text) (bytes : Bytes) : Io Bytes Unit :=
  StoreM.write (snapshotPath epoch operatorId taskId) bytes

def writeManifest (epoch : ℕ) (manifest : IntegrityManifest) : Io Bytes Unit :=
  StoreM.write (manifestPath epoch) (H.toUtf8 manifest.serialize)

/-- The decimal digits of the epoch. -/
def writeEpochHint (epoch : ℕ) : Io Bytes Unit :=
  StoreM.write latestEpochHintPath (H.toUtf8 (Nat.toDigits 10 epoch))

/-- Remove the files below a directory, one call a file. -/
def deletePrefix (below : Path → Bool) : Io Bytes Unit := do
  let paths ← StoreM.list fun p => if below p then some p else none
  paths.forM StoreM.remove

def inCheckpoint (epoch : ℕ) : Path → Bool
  | .checkpoint e _ => e = epoch
  | _ => false

def inSavepoint (epoch : ℕ) : Path → Bool
  | .savepoint e _ => e = epoch
  | _ => false

def deleteEpoch (epoch : ℕ) : Io Bytes Unit := deletePrefix (inCheckpoint epoch)

/-! ## Savepoints -/

/-- Clean up after a failed savepoint; a failure of the cleanup is only logged. -/
def cleanupPartialPrefix (epoch : ℕ) : Io Bytes Unit :=
  StoreM.handle (deletePrefix (inSavepoint epoch)) fun _ => pure ()

/-- Read the snapshots that the metadata of an epoch declares, checked against its manifest. -/
def readDeclared (jobId : Text) (epoch : ℕ) (sourceManifest : IntegrityManifest) :
    List OperatorSnapshotRef → Io Bytes (List (Text × Bytes))
  | [] => pure []
  | snap :: rest => do
    let rel ← StoreM.ofExcept (snapshotRelativePath jobId epoch snap)
    match ← StoreM.read snap.snapshotPath with
    | none =>
      StoreM.throw (.corrupt epoch s!"snapshot {snap.snapshotPath.render jobId} referenced by metadata is missing")
    | some data =>
      if sourceManifest.verify H rel data then
        let others ← readDeclared jobId epoch sourceManifest rest
        pure ((rel, data) :: others)
      else
        StoreM.throw (.corrupt epoch
          s!"snapshot {snap.snapshotPath.render jobId} is not covered by the source checkpoint manifest")

/-- The manifest of a metadata file and some snapshots. -/
def manifestOf (metadataBytes : Bytes) (files : List (Text × Bytes)) : IntegrityManifest :=
  files.foldl (fun m f => m.insertBytes H f.1 f.2)
    (IntegrityManifest.insertBytes H SortedMap.empty metadataJson metadataBytes)

/-- Write the files of an epoch below `dir`: metadata, snapshots, and the manifest last. -/
def writeFiles (dir : Text → Path) (metadataBytes : Bytes) (files : List (Text × Bytes)) :
    Io Bytes Unit := do
  StoreM.write (dir metadataJson) metadataBytes
  files.forM fun f => StoreM.write (dir f.1) f.2
  StoreM.write (dir manifestSha256) (H.toUtf8 (manifestOf H metadataBytes files).serialize)

/-- Copy a committed epoch to the savepoints of the job. -/
def createSavepointAtEpoch (jobId : Text) (epoch : ℕ) (label : Option Text) :
    Io Bytes (ℕ × CheckpointMetadata) := do
  let sourceManifest ← readRequiredManifest H (manifestPath epoch) epoch
  match ← readEpochMetadata H epoch with
  | none => StoreM.throw .noValidEpoch
  | some stored => do
    StoreM.ofExcept (validateMetadataIdentity stored jobId epoch)
    let metadata := { stored with isSavepoint := true, savepointLabel := label }
    let files ← readDeclared H jobId epoch sourceManifest metadata.operatorSnapshots
    StoreM.handle (writeFiles H (.savepoint epoch) (H.toJson metadata) files) fun error => do
      cleanupPartialPrefix epoch
      StoreM.throw error
    pure (epoch, metadata)

def createSavepoint (jobId : Text) (label : Option Text) : Io Bytes (ℕ × CheckpointMetadata) := do
  let epoch ← latestValidEpoch H jobId
  createSavepointAtEpoch H jobId epoch label

/-- Read the snapshots of a savepoint, each of which its manifest must cover. -/
def readSavepointFiles (jobId : Text) (epoch : ℕ) (manifest : IntegrityManifest) :
    List OperatorSnapshotRef → Io Bytes (List (Text × Bytes))
  | [] => pure []
  | snap :: rest => do
    let rel ← StoreM.ofExcept (snapshotRelativePath jobId epoch snap)
    if manifest.contains rel then
      match ← StoreM.read (.savepoint epoch rel) with
      | none =>
        StoreM.throw (.corrupt epoch s!"savepoint snapshot {(Path.savepoint epoch rel).render jobId} is missing")
      | some data =>
        let others ← readSavepointFiles jobId epoch manifest rest
        pure ((rel, data) :: others)
    else
      StoreM.throw (.corrupt epoch
        s!"savepoint snapshot {String.ofList rel} is declared by metadata but not covered by the savepoint manifest")

/-- Validate a savepoint and copy it back into the checkpoints of the job. -/
def restoreSavepoint (jobId : Text) (epoch currentFencingToken : ℕ) : Io Bytes CheckpointMetadata := do
  let manifest ← StoreM.handle (readRequiredManifest H (.savepoint epoch manifestSha256) epoch) fun e =>
    match e with
    | .noValidEpoch => StoreM.throw (.corrupt epoch "savepoint manifest is missing")
    | e => StoreM.throw e
  if ← validateManifestEntries H (.savepoint epoch) epoch manifest then
    match ← StoreM.read (.savepoint epoch metadataJson) with
    | none => StoreM.throw .noValidEpoch
    | some metadataBytes =>
      match H.fromJson metadataBytes with
      | .error e => StoreM.throw (.corrupt epoch s!"savepoint metadata JSON parse: {e}")
      | .ok metadata => do
        StoreM.ofExcept (validateMetadataIdentity metadata jobId epoch)
        StoreM.ofExcept (validateFencingTokenForRestore metadata currentFencingToken)
        let files ← readSavepointFiles jobId epoch manifest metadata.operatorSnapshots
        writeFiles H (.checkpoint epoch) metadataBytes files
        pure metadata
  else StoreM.throw (.corrupt epoch "savepoint manifest validation failed")

def deleteSavepoint (epoch : ℕ) : Io Bytes Unit := deletePrefix (inSavepoint epoch)

end Krishiv.State
