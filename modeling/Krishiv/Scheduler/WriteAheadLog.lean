import Krishiv.Lib.Machine
import Krishiv.Scheduler.Resident
import Krishiv.Scheduler.WalEntry

/-!
# The write-ahead log of a job

The durable form of a job is a snapshot of its whole state and a log of what it accepted since. A feed
is logged before the flow sees it, a step after its tick has run, and everything that changes the job's
definition or rewinds it writes a snapshot. The log is truncated once a snapshot covers it. A process
that does not know a job restores the snapshot and replays the log beyond it.

`World` is the process and the store. Each request carries what becomes of its store operations
(`Faults`): done, failed with nothing written, or never reached because the process stops. Requests for
one job run one at a time under the job's lock.

The flow is a parameter (`JobLogic`), so that this holds for single and for partitioned jobs;
`singleFlow` is the instance for a single flow whose ticks run on the coordinator.
-/

namespace Krishiv.Scheduler.Wal

open Krishiv.Delta Krishiv.Ivm

/-! ## The job -/

/-- What can be asked of a job's flow. -/
inductive JobOp where
  | feed (source : String) (d : DeltaBatch)
  | feedSnapshot (source : String) (batches : List RecordBatch)
  | step
  | registerView (spec : IncrementalViewSpec)
  | dropView (name : String)
  | restore (state : FullBlob)
  | restoreDelta (slice : SourceBlob)

/-- The flow of a job: a machine that accepts or refuses operations, with its durable form. -/
structure JobLogic (J B ω : Type) extends Machine J JobOp Bool ω where
  fresh : J
  pendingBytes : J → ℕ
  checkpoint : J → Option B
  restore : B → Option J

/-- Where a job's log stands. -/
structure IvmWalState where
  lastSeq : ℕ
  ticksSinceSnapshot : ℕ
  bytesSinceSnapshot : ℕ
  feedKeys : NameMap Bytes

def IvmWalState.default : IvmWalState := ⟨0, 0, 0, ∅⟩

structure Job (J : Type) where
  flow : J
  wal : IvmWalState

/-- The durable snapshot: the state, the position of the log it covers, the keys accepted last. -/
structure PersistedIvmJob (B : Type) where
  state : B
  walSeq : ℕ
  feedKeys : NameMap Bytes

structure Store (B : Type) where
  snapshot : Option (PersistedIvmJob B)
  log : List (ℕ × Bytes)

namespace Store

variable {B : Type}

/-- The log is a map in the order of its keys. -/
def appendLog (st : Store B) (seq : ℕ) (entry : Bytes) : Store B :=
  { st with log := st.log.filter (·.1 < seq) ++ (seq, entry) :: st.log.filter (seq < ·.1) }

def loadLog (st : Store B) (after : ℕ) : List (ℕ × Bytes) := st.log.filter (after < ·.1)

def truncateLog (st : Store B) (through : ℕ) : Store B :=
  { st with log := st.log.filter (through < ·.1) }

end Store

/-- What becomes of a store operation; `stopped` is that the process stops before it. -/
inductive StoreResult where
  | done
  | failed
  | stopped
deriving DecidableEq

/-- What becomes of the store operations of a request, and whether it gets to its answer. -/
structure Faults where
  append : StoreResult
  save : StoreResult
  truncate : StoreResult
  answered : Bool

inductive Status where
  | badRequest
  | notFound
  | tooManyRequests
  | internalServerError
  | serviceUnavailable
deriving DecidableEq

inductive Halt where
  | refused (status : Status)
  | stopped
deriving DecidableEq

inductive Reply where
  | done
  | fed (duplicate : Bool)
deriving DecidableEq

structure Config where
  snapshotEveryTicks : ℕ
  walMaxBytes : ℕ
  /-- Zero is no limit. -/
  maxPendingBytes : ℕ

/-- The Arrow decoders of the two feed routes. -/
structure Wire where
  delta : Bytes → Except String DeltaBatch
  snapshot : Bytes → Except String (List RecordBatch)

inductive Request where
  | create
  | feed (source : String) (key : Option Bytes) (ipc : Bytes)
  | feedSnapshot (source : String) (key : Option Bytes) (ipc : Bytes)
  | step
  | registerView (spec : IncrementalViewSpec)
  | dropView (name : String)
  | restore (state : FullBlob)
  | restoreDelta (slice : SourceBlob)

/-! ## Log positions and keys -/

namespace IvmWalState

/-- `next_wal_seq`. -/
def nextSeq (wal : IvmWalState) : IvmWalState := { wal with lastSeq := wal.lastSeq + 1 }

/-- `note_wal_append`. -/
def noteAppend (wal : IvmWalState) (bytes : ℕ) (isStep : Bool) : IvmWalState :=
  { wal with bytesSinceSnapshot := min (wal.bytesSinceSnapshot + bytes) (2 ^ 64 - 1)
             ticksSinceSnapshot := wal.ticksSinceSnapshot + if isStep then 1 else 0 }

def noteSnapshot (wal : IvmWalState) : IvmWalState :=
  { wal with ticksSinceSnapshot := 0, bytesSinceSnapshot := 0 }

def observeSeq (wal : IvmWalState) (seq : ℕ) : IvmWalState :=
  { wal with lastSeq := max wal.lastSeq seq }

def noteFeedKey (wal : IvmWalState) (source : String) : Option Bytes → IvmWalState
  | some key => { wal with feedKeys := wal.feedKeys.insert source key }
  | none => wal

def isRepeatedFeed (wal : IvmWalState) (source : String) : Option Bytes → Bool
  | some key => wal.feedKeys.lookup source = some key
  | none => false

def snapshotDue (cfg : Config) (wal : IvmWalState) : Bool :=
  cfg.snapshotEveryTicks ≤ wal.ticksSinceSnapshot || cfg.walMaxBytes ≤ wal.bytesSinceSnapshot

end IvmWalState

section Handlers

variable {J B ω : Type} (L : JobLogic J B ω) (wire : Wire) (cfg : Config)

/-! ## Recovery -/

/-- What a log entry feeds, if it is a feed that decodes. -/
def entryFeed : WalEntry → Option (String × Option Bytes × Except String JobOp)
  | .feed source key ipc => some (source, key, (wire.delta ipc).map fun d => .feed source (dropZeros d))
  | .snapshot source key ipc => some (source, key, (wire.snapshot ipc).map (.feedSnapshot source))
  | .step => none

/-- Replay one entry. A feed that is refused is passed over, since a refused feed is in the log too; a
tick that fails ends the replay. -/
def replayEntry (job : Job J) (entry : ℕ × Bytes) : Except String (Job J) :=
  match WalEntry.decode entry.2 with
  | .error e => .error ("entry " ++ toString entry.1 ++ ": " ++ e)
  | .ok e =>
    match entryFeed wire e with
    | some (_, _, .error _) => .ok { job with wal := job.wal.observeSeq entry.1 }
    | some (source, key, .ok op) =>
      let fed := L.exec job.flow op
      let wal := if fed.2 then job.wal.noteFeedKey source key else job.wal
      .ok ⟨fed.1, wal.observeSeq entry.1⟩
    | none =>
      let ticked := L.exec job.flow .step
      if ticked.2 then .ok ⟨ticked.1, job.wal.observeSeq entry.1⟩
      else .error ("replaying the tick at entry " ++ toString entry.1)

/-- `restore_durable_snapshot`. -/
def restoreDurableSnapshot (p : PersistedIvmJob B) : Option (Job J) :=
  (L.restore p.state).map fun flow =>
    ⟨flow, { IvmWalState.default with lastSeq := p.walSeq, feedKeys := p.feedKeys }⟩

/-- `rehydrate_ivm_job`: `none` where the job has no durable form. -/
def rehydrate (st : Store B) : Except Status (Option (Job J)) :=
  match st.snapshot with
  | none => .ok none
  | some p =>
    match restoreDurableSnapshot L p with
    | none => .error .badRequest
    | some job =>
      match (st.loadLog job.wal.lastSeq).foldlM (replayEntry L wire) job with
      | .error _ => .error .serviceUnavailable
      | .ok job => .ok (some job)

/-! ## Writing -/

/-- The job as the process holds it, with the store. -/
structure Live (J B : Type) where
  job : Job J
  store : Store B

/-- `wal_append`: the sequence number is spent whether or not the entry is written. -/
def walAppend (x : Live J B) (entry : WalEntry) (how : StoreResult) : Live J B × Except Halt Unit :=
  let wal := x.job.wal.nextSeq
  let numbered : Live J B := { x with job := { x.job with wal := wal } }
  match how with
  | .stopped => (numbered, .error .stopped)
  | .failed => (numbered, .error (.refused .serviceUnavailable))
  | .done =>
    (⟨{ x.job with wal := wal.noteAppend entry.encode.length (entry = .step) },
      x.store.appendLog wal.lastSeq entry.encode⟩, .ok ())

/-- `persist_ivm_job`: a truncation that fails is passed over. -/
def persist (x : Live J B) (f : Faults) : Live J B × Except Halt Unit :=
  match L.checkpoint x.job.flow with
  | none => (x, .error (.refused .badRequest))
  | some state =>
    match f.save with
    | .stopped => (x, .error .stopped)
    | .failed => (x, .error (.refused .serviceUnavailable))
    | .done =>
      let covered := x.job.wal.lastSeq
      let saved : Live J B :=
        ⟨{ x.job with wal := x.job.wal.noteSnapshot },
          { x.store with snapshot := some ⟨state, covered, x.job.wal.feedKeys⟩ }⟩
      match f.truncate with
      | .stopped => (saved, .error .stopped)
      | .failed => (saved, .ok ())
      | .done => ({ saved with store := saved.store.truncateLog covered }, .ok ())

/-- A snapshot if the log has reached one of its limits. -/
def persistIfDue (x : Live J B) (f : Faults) : Live J B × Except Halt Unit :=
  if x.job.wal.snapshotDue cfg then persist L x f else (x, .ok ())

/-! ## Handlers -/

def acceptFeed (x : Live J B) (entry : WalEntry) (source : String) (key : Option Bytes) (op : JobOp)
    (f : Faults) : Live J B × Except Halt Reply :=
  if x.job.wal.isRepeatedFeed source key then (x, .ok (.fed true))
  else
    match walAppend x entry f.append with
    | (x, .error h) => (x, .error h)
    | (x, .ok ()) =>
      let fed := L.exec x.job.flow op
      if fed.2 then
        let x := { x with job := ⟨fed.1, x.job.wal.noteFeedKey source key⟩ }
        match persistIfDue L cfg x f with
        | (x, .error h) => (x, .error h)
        | (x, .ok ()) => (x, .ok (.fed false))
      else ({ x with job := { x.job with flow := fed.1 } }, .error (.refused .badRequest))

/-- `ensure_pending_headroom`. -/
def hasHeadroom (job : Job J) : Bool :=
  cfg.maxPendingBytes = 0 || L.pendingBytes job.flow < cfg.maxPendingBytes

/-- A feed, from the bytes of its body on. What does not decode is never logged. -/
def feedBytes (x : Live J B) (entry : WalEntry) (f : Faults) : Live J B × Except Halt Reply :=
  if hasHeadroom L cfg x.job then
    match entryFeed wire entry with
    | some (source, key, .ok op) => acceptFeed L cfg x entry source key op f
    | _ => (x, .error (.refused .badRequest))
  else (x, .error (.refused .tooManyRequests))

/-- `api_ivm_step`: the tick runs, and is then logged. -/
def stepJob (x : Live J B) (f : Faults) : Live J B × Except Halt Reply :=
  let ticked := L.exec x.job.flow .step
  let x := { x with job := { x.job with flow := ticked.1 } }
  if ticked.2 then
    match walAppend x .step f.append with
    | (x, .error h) => (x, .error h)
    | (x, .ok ()) =>
      match persistIfDue L cfg x f with
      | (x, .error h) => (x, .error h)
      | (x, .ok ()) => (x, .ok .done)
  else (x, .error (.refused .internalServerError))

/-- Register or drop a view, rewind: the flow changes, and a snapshot records it. -/
def changeJob (x : Live J B) (op : JobOp) (f : Faults) : Live J B × Except Halt Reply :=
  let changed := L.exec x.job.flow op
  let x := { x with job := { x.job with flow := changed.1 } }
  if changed.2 then
    match persist L x f with
    | (x, .error h) => (x, .error h)
    | (x, .ok ()) => (x, .ok .done)
  else (x, .error (.refused .badRequest))

/-- Creating a job that exists writes its snapshot again. -/
def createJob (x : Live J B) (f : Faults) : Live J B × Except Halt Reply :=
  match persist L x f with
  | (x, .error h) => (x, .error h)
  | (x, .ok ()) => (x, .ok .done)

def handle (x : Live J B) (r : Request) (f : Faults) : Live J B × Except Halt Reply :=
  match r with
  | .create => createJob L x f
  | .feed source key ipc => feedBytes L wire cfg x (.feed source key ipc) f
  | .feedSnapshot source key ipc => feedBytes L wire cfg x (.snapshot source key ipc) f
  | .step => stepJob L cfg x f
  | .registerView spec => changeJob L x (.registerView spec) f
  | .dropView name => changeJob L x (.dropView name) f
  | .restore state => changeJob L x (.restore state) f
  | .restoreDelta slice => changeJob L x (.restoreDelta slice) f

/-! ## The process -/

/-- A process, which may not know the job, and the store. -/
structure World (J B : Type) where
  memory : Option (Job J)
  store : Store B

/-- `ensure_ivm_job`, and for a create request a fresh job where there is none. -/
def ensureJob (w : World J B) (r : Request) : Except Status (Job J) :=
  match w.memory with
  | some job => .ok job
  | none =>
    match rehydrate L wire w.store with
    | .error status => .error status
    | .ok (some job) => .ok job
    | .ok none =>
      match r with
      | .create => .ok ⟨L.fresh, .default⟩
      | _ => .error .notFound

/-- One request. A process that stops loses the job, not the store. -/
def serve (w : World J B) (r : Request) (f : Faults) : World J B × Except Halt Reply :=
  match ensureJob L wire w r with
  | .error status => (w, .error (.refused status))
  | .ok job =>
    let ended := handle L wire cfg ⟨job, w.store⟩ r f
    if ended.2 = .error .stopped ∨ f.answered = false then
      (⟨none, ended.1.store⟩, .error .stopped)
    else (⟨some ended.1.job, ended.1.store⟩, ended.2)

end Handlers

/-- No process knows the job yet, and neither does the store. -/
def World.new {J B : Type} : World J B := ⟨none, ⟨none, []⟩⟩

/-! ## Single flows -/

/-- What a job shows: the number of its tick, the snapshots of its views as multisets of rows, its
sources as Z-sets, and its queues. -/
structure Observation where
  tick : ℕ
  snapshot : String → Option (Option (Row → ℕ))
  source : String → Row → ℤ
  pending : String → List DeltaBatch

/-- A single flow with the SQL context its ticks keep. -/
def singleFlow {P : Type} [PlanLogic P] (env : Env P) :
    JobLogic (Inner P × TickCtx) (List IncrementalViewSpec × FullBlob) Observation where
  exec s op :=
    match op with
    | .feed source d => let r := Ivm.feed env s.1 source d; ((r.1, s.2), r.2.isOk)
    | .feedSnapshot source batches =>
      let r := Ivm.feedSnapshot env s.1 source batches
      ((r.1, s.2), r.2.isOk)
    | .step => let r := stepDatafusion env s.1 s.2; ((r.1, r.2.1), r.2.2.isOk)
    | .registerView spec => ((Ivm.registerView env s.1 spec, s.2), true)
    | .dropView name => (((Ivm.dropView s.1 name).1, s.2), true)
    | .restore state => let r := restoreFull env s.1 (.ok state); ((r.1, s.2), r.2.isOk)
    | .restoreDelta slice => let r := Ivm.restoreDelta s.1 slice; ((r.1, s.2), r.2.isOk)
  observe s :=
    { tick := s.1.tick
      snapshot := fun v => (s.1.views.lookup v).map fun w => w.snapshot.map RecordBatch.count
      source := sourceNet s.1.sourceSnapshots
      pending := fun src => queueOf s.1.pending src }
  fresh := (.new, .fresh)
  pendingBytes s := ((s.1.pending.entries.map fun e => (e.2.map env.memorySize).sum)).sum
  checkpoint s :=
    match checkpointFull env s.1 with
    | .error _ => none
    | .ok blob => some ((env.hashOrder s.1.views.keys).filterMap fun n =>
        (s.1.views.lookup n).map IncrementalView.spec, blob)
  restore saved :=
    match restoreFull env (saved.1.foldl (Ivm.registerView env) .new) (.ok saved.2) with
    | (_, .error _) => none
    | (s, .ok ()) => some (s, .fresh)

end Krishiv.Scheduler.Wal
