import Mathlib.Logic.Function.Basic
import Mathlib.Data.List.Basic

/-!
# The lock of a job

Requests that name one job run concurrently. Each is a sequence of calls into the registry and the
store; every call is atomic, and between two calls any other request may run. The lock of the job is an
object the registry makes on demand and forgets again with the job; a request keeps the object it has
looked up, and likewise the flow.

The model keeps what decides who works on what: which flow the registry holds, which lock object, who
holds it, and for every log entry and snapshot the flow it was written for. What a flow contains is left
out, and so is the outcome of a request; a call that can fail does so by choice of the run. Flows and
lock objects are numbered in the order they are made.

A request that is not the leader's, or whose body does not decode, ends before its first call here. The
routes that only read are all like `Request.read`: they make sure that the job is loaded.
-/

namespace Krishiv.Scheduler.Lock

inductive Request where
  | create (deltaCheckpoints forceDiffBased : Bool)
  | read
  | feed
  | step
  | registerView
  | dropView
  | restore
  | restoreDelta
  | delete
deriving DecidableEq

/-- The handler goes on with the flow it found before it took the lock. -/
def Request.keepsFlow : Request → Bool
  | .step | .dropView | .restore | .restoreDelta => true
  | _ => false

/-- The next call of a request. -/
inductive Pc where
  | idle
  /-- `ensure_ivm_job`, `create_or_rehydrate_ivm_job`: `registry.get`. -/
  | lookup
  /-- `rehydrate_ivm_job`: `registry.step_lock`, `lock().await`, `registry.get`, `load_ivm_snapshot`,
  `restore_durable_snapshot`, and the two parts of `replay_ivm_log`. -/
  | coldLock | coldWait | coldCheck | coldLoad | coldRestore | replayGet | replay
  /-- `registry.get` after a rehydration. -/
  | relook
  /-- `registry.create`, and the flags of a new job. -/
  | insert | configure
  /-- `registry.step_lock`, `lock().await`. -/
  | lock | wait
  /-- `registry.get` under the lock. -/
  | check
  /-- `wal_append`. -/
  | append
  /-- The flow is fed, stepped, restored or loses a view. -/
  | apply
  /-- `registry.register_view`. -/
  | register
  /-- `persist_ivm_job`: `durable_snapshot`, `save_ivm_snapshot`, `truncate_ivm_log`. -/
  | image | save | truncate
  /-- `remove_ivm_snapshot`, and `registry.delete` map by map. -/
  | removeSnapshot | dropJob | dropLock | dropRest
deriving DecidableEq

/-- The request holds a lock object. -/
def Pc.inside : Pc → Bool
  | .idle | .lookup | .coldLock | .coldWait | .relook | .insert | .configure | .lock | .wait => false
  | _ => true

structure Task where
  request : Request
  pc : Pc
  /-- The lock object it has looked up. -/
  lock : Option ℕ
  /-- The flow it has looked up. -/
  flow : Option ℕ
  /-- The flow of the snapshot it is about to save, and the log position it covers. -/
  image : Option ℕ
  covered : ℕ
deriving DecidableEq

structure World (T : Type) where
  /-- The flow the registry holds for the job. -/
  job : Option ℕ
  /-- The entry of `step_locks`. -/
  stepLock : Option ℕ
  /-- The last position of the log, as the registry knows it. -/
  walSeq : ℕ
  nextFlow : ℕ
  nextLock : ℕ
  holder : ℕ → Option T
  /-- The durable snapshot: the log position it covers and the flow it was taken from. -/
  snapshot : Option (ℕ × ℕ)
  /-- The log: positions, each with the flow the entry was written for. -/
  log : List (ℕ × ℕ)
  tasks : T → Task

/-- How the next call of a request turns out. -/
structure Outcome where
  ok : Bool
  /-- There is another entry to replay, the view makes the job partitioned, or a snapshot is due. -/
  more : Bool

inductive Event (T : Type) where
  | arrive (t : T) (r : Request)
  | run (t : T) (o : Outcome)

namespace World

variable {T : Type} [DecidableEq T]

def setTask (w : World T) (t : T) (x : Task) : World T := { w with tasks := Function.update w.tasks t x }

def goto (w : World T) (t : T) (pc : Pc) : World T := w.setTask t { w.tasks t with pc := pc }

/-- The guard is dropped, and the request goes on or ends. -/
def leave (w : World T) (t : T) (pc : Pc) : World T :=
  let x := w.tasks t
  { w with holder := match x.lock with
    | some l => Function.update w.holder l none
    | none => w.holder }.setTask t { x with pc := pc, lock := none, flow := none, image := none }

/-- Where a request goes once the job is known to be loaded. -/
def loaded (w : World T) (t : T) (flow : ℕ) : World T :=
  let x := w.tasks t
  match x.request with
  | .create _ _ => w.goto t .configure
  | .read => w.goto t .idle
  | r => w.setTask t { x with pc := .lock, flow := if r.keepsFlow then some flow else none }

/-- `step_lock`. -/
def lookLock (w : World T) (t : T) (pc : Pc) : World T :=
  let x := w.tasks t
  match w.stepLock with
  | some l => w.setTask t { x with pc := pc, lock := some l }
  | none =>
    { w with stepLock := some w.nextLock, nextLock := w.nextLock + 1 }.setTask t
      { x with pc := pc, lock := some w.nextLock }

/-- `lock().await`: nothing happens while another holds the object. -/
def acquire (w : World T) (t : T) (pc : Pc) : World T :=
  match (w.tasks t).lock with
  | none => w
  | some l =>
    match w.holder l with
    | some _ => w
    | none => { w with holder := Function.update w.holder l (some t) }.goto t pc

/-- What a handler does first under the lock. -/
def enter : Request → Pc
  | .create _ _ => .image
  | .registerView => .register
  | .dropView | .restore | .restoreDelta => .apply
  | .delete => .removeSnapshot
  | _ => .check

/-- `next_wal_seq` and `append_ivm_log`: an entry at a position that is taken replaces the old one. -/
def logEntry (w : World T) (f : ℕ) : World T :=
  { w with
    walSeq := w.walSeq + 1
    log := w.log.filter (fun e => e.1 ≠ w.walSeq + 1) ++ [(w.walSeq + 1, f)] }

/-- A snapshot if one is due. -/
def settle (w : World T) (t : T) (due : Bool) : World T :=
  if due then w.goto t .image else w.leave t .idle

/-- One call of a request. -/
def run (w : World T) (t : T) (o : Outcome) : World T :=
  let x := w.tasks t
  match x.pc with
  | .idle => w
  | .lookup =>
    match w.job with
    | some f => w.loaded t f
    | none => w.goto t .coldLock
  | .coldLock => w.lookLock t .coldWait
  | .coldWait => w.acquire t .coldCheck
  | .coldCheck => if w.job.isSome then w.leave t .relook else w.goto t .coldLoad
  | .coldLoad =>
    match w.snapshot, x.request with
    | some _, _ => w.goto t .coldRestore
    | none, .create _ _ => w.leave t .insert
    | none, _ => w.leave t .idle
  | .coldRestore =>
    match o.ok, w.snapshot with
    | true, some (seq, _) =>
      { w with job := some w.nextFlow, nextFlow := w.nextFlow + 1, walSeq := seq }.setTask t
        { x with pc := .replayGet, flow := none, image := none }
    | _, _ => w.leave t .idle
  | .replayGet =>
    match w.job with
    | some f => w.setTask t { x with pc := .replay, flow := some f }
    | none => w.goto t .dropJob
  | .replay =>
    if o.ok then
      if o.more then w
      else { w with walSeq := (w.log.map Prod.fst).foldl max w.walSeq }.leave t .relook
    else w.goto t .dropJob
  | .relook =>
    match w.job, x.request with
    | _, .create _ _ => w.goto t .configure
    | some f, _ => w.loaded t f
    | none, _ => w.goto t .idle
  | .insert =>
    match w.job with
    | some _ => w.goto t .configure
    | none => { w with job := some w.nextFlow, nextFlow := w.nextFlow + 1 }.goto t .configure
  | .configure => if o.ok then w.goto t .lock else w.goto t .idle
  | .lock => w.lookLock t .wait
  | .wait => w.acquire t (enter x.request)
  | .check =>
    match w.job with
    | none => w.leave t .idle
    | some f =>
      match x.request with
      | .step => w.goto t .apply
      -- a repeated key is acknowledged without an entry
      | _ => if o.ok then w.setTask t { x with pc := .append, flow := some f } else w.leave t .idle
  | .append =>
    match o.ok, x.flow with
    | true, some f =>
      if x.request = .step then (w.logEntry f).settle t o.more else (w.logEntry f).goto t .apply
    | _, _ => { w with walSeq := w.walSeq + 1 }.leave t .idle
  | .apply =>
    if o.ok then
      match x.request with
      | .feed => w.settle t o.more
      | .step => w.goto t .append
      | _ => w.goto t .image
    else w.leave t .idle
  | .register =>
    match o.ok, w.job with
    | true, some _ =>
      if o.more then
        { w with job := some w.nextFlow, nextFlow := w.nextFlow + 1 }.setTask t
          { x with pc := .image, flow := none, image := none }
      else w.goto t .image
    | _, _ => w.leave t .idle
  | .image =>
    match w.job with
    | some f => w.setTask t { x with pc := .save, image := some f, covered := w.walSeq }
    | none => w.leave t .idle
  | .save =>
    match o.ok, x.image with
    | true, some f => { w with snapshot := some (x.covered, f) }.goto t .truncate
    | _, _ => w.leave t .idle
  | .truncate =>
    if o.ok then { w with log := w.log.filter (x.covered < ·.1) }.leave t .idle else w.leave t .idle
  | .removeSnapshot =>
    if o.ok then { w with snapshot := none, log := [] }.goto t .dropJob else w.leave t .idle
  | .dropJob => { w with job := none }.setTask t { x with pc := .dropLock, flow := none, image := none }
  | .dropLock => { w with stepLock := none }.goto t .dropRest
  | .dropRest => { w with walSeq := 0 }.leave t .idle

def act (w : World T) : Event T → World T
  | .arrive t r =>
    if (w.tasks t).pc = .idle then
      w.setTask t ⟨r, if r = .delete then .lock else .lookup, none, none, none, 0⟩
    else w
  | .run t o => w.run t o

/-- A process that has loaded nothing, over a store. -/
def cold (snapshot : Option (ℕ × ℕ)) (log : List (ℕ × ℕ)) : World T where
  job := none
  stepLock := none
  walSeq := 0
  nextFlow := 0
  nextLock := 0
  holder _ := none
  snapshot := snapshot
  log := log
  tasks _ := ⟨.read, .idle, none, none, none, 0⟩

/-- The request is between the acquisition and the release of a lock object. -/
def Inside (w : World T) (t : T) : Prop := (w.tasks t).pc.inside = true

/-- What a call changes, and for which flow. -/
inductive Change where
  | flow (f : Option ℕ)
  | log (f : Option ℕ)
  | snapshot (f : Option ℕ)
deriving DecidableEq

/-- What the next call of a request changes: a flow, or the log or the snapshot for a flow. -/
def changes (w : World T) (t : T) : Option Change :=
  let x := w.tasks t
  match x.pc, x.request with
  | .configure, .create deltaCheckpoints forceDiffBased =>
    if deltaCheckpoints || forceDiffBased then some (.flow w.job) else none
  | .replay, _ => some (.flow x.flow)
  | .append, _ => some (.log x.flow)
  | .apply, _ => some (.flow x.flow)
  | .register, _ => some (.flow w.job)
  | .save, _ => some (.snapshot x.image)
  | _, _ => none

end World

end Krishiv.Scheduler.Lock
