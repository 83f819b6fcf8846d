import Krishiv.Lib.Runs
import Krishiv.Scheduler.CheckpointCoordinator

/-!
# The savepoint flag of an epoch

Whether an epoch is sealed as a savepoint, and under which label, is read from two fields of the coordinator
that belong to no epoch. They are set before it is known whether an epoch can start, so a refused request marks
the epoch in flight; and they outlive an epoch that is still being written when the next one starts, or that a
recovery passes over. Without such calls they stay with their epoch.
-/

namespace Krishiv.Scheduler.Flags

open Krishiv.State CheckpointCoordinator Runs

/-- The label of a savepoint, or that it is none. -/
abbrev Origin := Option (Option Text)

def origin (isSavepoint : Bool) (label : Option Text) : Origin := if isSavepoint then some label else none

/-- The coordinator, and how its last epoch was initiated. -/
structure World where
  coord : CheckpointCoordinator
  initiatedBy : Origin

/-- The calls on a coordinator; a call that uses the storage comes with its state. -/
inductive Call (Bytes : Type) where
  | initiate (now : ℕ)
  | initiateSavepoint (label : Option Text) (now : ℕ)
  | tryTick (elapsed timeout now : ℕ)
  | setExpectedTaskCount (count : ℕ)
  | receiveAck (ack : CheckpointAckRequest) (now : ℕ) (s : Backend Path Bytes)
  | receiveAckAsync (ack : CheckpointAckRequest) (now : ℕ)
  | commitEpoch (now : ℕ) (s : Backend Path Bytes)
  | takePendingCommit
  | finalizeCommit (epoch : ℕ)
  | abortEpoch (reason : String)
  | activateRestoredEpoch (metadata : CheckpointMetadata) (token : Option ℕ)
  | recoverFromStorage (s : Backend Path Bytes)

/-- The coordinator after a call that may fail. -/
def World.goto {ε : Type} (w : World) (r : Except ε CheckpointCoordinator) : World :=
  { w with coord := r.toOption.getD w.coord }

variable {Bytes : Type} (H : Host Bytes)

def act (w : World) : Call Bytes → World
  | .initiate now =>
    let r := w.coord.initiate now
    ⟨r.2, if r.1.isOk then none else w.initiatedBy⟩
  | .initiateSavepoint label now =>
    let r := w.coord.initiateSavepoint label now
    ⟨r.2, if r.1.isOk then some label else w.initiatedBy⟩
  | .tryTick elapsed timeout now =>
    let r := w.coord.tryTick elapsed timeout now
    ⟨r.2, if r.1.isSome then none else w.initiatedBy⟩
  | .setExpectedTaskCount count => { w with coord := w.coord.setExpectedTaskCount count }
  | .receiveAck ack now s => w.goto ((w.coord.receiveAck H ack now s).1.map Prod.snd)
  | .receiveAckAsync ack now => { w with coord := (w.coord.receiveAckAsync ack now).2 }
  | .commitEpoch now s => w.goto ((w.coord.commitEpoch H now s).1.map Prod.snd)
  | .takePendingCommit => { w with coord := w.coord.takePendingCommit.2 }
  | .finalizeCommit epoch => w.goto (w.coord.finalizeCommit epoch)
  | .abortEpoch reason => { w with coord := w.coord.abortEpoch reason }
  | .activateRestoredEpoch metadata token => w.goto (w.coord.activateRestoredEpoch metadata token)
  | .recoverFromStorage s => w.goto ((w.coord.recoverFromStorage H s).1.map Prod.snd)

/-- A savepoint is initiated only where an epoch can start, and no epoch is initiated and nothing recovered
while the flag of another one is still set. -/
def Fine (w : World) : Call Bytes → Prop
  | .initiateSavepoint _ _ => (∀ e t, w.coord.state ≠ .awaitingAcks e t) ∧ w.coord.currentEpoch < u64Max
  | .initiate _ => ∀ e, w.coord.state = .committing e → w.coord.pendingIsSavepoint = false
  | .recoverFromStorage _ => w.coord.pendingIsSavepoint = false
  | _ => True

/-- The flag is that of the epoch in progress, if there is one. -/
def Marked (w : World) : Prop :=
  origin w.coord.pendingIsSavepoint w.coord.pendingSavepointLabel =
    match w.coord.state with
    | .awaitingAcks _ _ | .committing _ => w.initiatedBy
    | _ => none

variable {H} {w : World}

lemma Marked.goto {ε : Type} {r : Except ε CheckpointCoordinator} (h : Marked w)
    (hr : ∀ c, r = .ok c → Marked { w with coord := c }) : Marked (w.goto r) := by
  cases r with
  | error e => exact h
  | ok c => exact hr c rfl

/-- Calls on storage, by what they return. -/
lemma Marked.io {α : Type} {m : Io Bytes (α × CheckpointCoordinator)} {s : Backend Path Bytes}
    (h : Marked w) (hm : ∀ a c s', m s = (.ok (a, c), s') → Marked { w with coord := c }) :
    Marked (w.goto ((m s).1.map Prod.snd)) := by
  refine h.goto fun c hc => ?_
  obtain ⟨⟨a, c⟩, hok, rfl⟩ := Except.map_eq_ok_iff.mp hc
  exact hm a c (m s).2 (Prod.ext hok rfl)

lemma Marked.act {call : Call Bytes} (h : Marked w) (hfine : Fine w call) : Marked (act H w call) := by
  cases call with
  | setExpectedTaskCount | takePendingCommit => exact h
  | initiate | initiateSavepoint | tryTick | receiveAckAsync | abortEpoch =>
    simp only [Flags.act, Marked, Fine, initiateSavepoint, initiate, started, tryTick, receiveAckAsync, recordAck,
      abortEpoch, aborted, Except.isOk, Except.toBool, Except.toOption] at *
    grind [origin]
  | finalizeCommit | activateRestoredEpoch =>
    refine h.goto fun c hc => ?_
    simp only [Marked, finalizeCommit, activateRestoredEpoch, Except.bind_eq_ok_iff] at *
    grind [origin]
  | receiveAck ack now s =>
    refine h.io fun r c s' hm => ?_
    cases hstate : w.coord.state with
    | awaitingAcks e t =>
      simp only [receiveAck, hstate] at hm
      cases hrec : w.coord.recordAck ack e with
      | error msg =>
        rw [hrec] at hm
        cases hm
        exact h
      | ok c₁ =>
        have hc₁ := (recordAck_ok hrec).2.2
        simp only [hrec] at hm
        split at hm
        · obtain ⟨_ | ⟨n, c₂⟩, s₁, hcommit, hm⟩ := StoreM.bind_eq_ok.mp hm
          · cases hm
            rw [hc₁]
            exact h
          · have hstate₁ : c₁.state = .awaitingAcks e t := by rw [hc₁]; exact hstate
            obtain rfl := commitEpoch_ok hstate₁ (StoreM.attempt_eq_ok.mp hcommit)
            cases hm
            rfl
        · cases hm
          rw [hc₁]
          exact h
    | idle | committing | committed | failed =>
      rw [receiveAck, hstate] at hm
      cases hm
      exact h
  | commitEpoch now s =>
    refine h.io fun n c s' hm => ?_
    cases hstate : w.coord.state with
    | awaitingAcks e t =>
      rw [commitEpoch_ok hstate hm]
      rfl
    | idle | committing | committed | failed =>
      rw [commitEpoch, hstate] at hm
      cases hm
  | recoverFromStorage s =>
    refine h.io fun r c s' hm => ?_
    simp only [recoverFromStorage, StoreM.bind_eq_ok] at hm
    obtain ⟨e | epoch, s₁, -, hm⟩ := hm
    · cases e <;> cases hm
      exact h
    · simp only [StoreM.bind_eq_ok] at hm
      obtain ⟨_, _, -, hm⟩ := hm
      cases hm
      simpa [Marked, origin, Fine] using hfine

def cold (jobId coordinatorId : Text) (intervalMs expectedTaskCount : ℕ) : World :=
  ⟨new jobId coordinatorId intervalMs expectedTaskCount, none⟩

/-- In runs of such calls both commit paths build the metadata of an epoch, whatever acks came in, with the flag
and the label it was initiated with. -/
theorem sealed_as_initiated {jobId coordinatorId : Text} {intervalMs count e t : ℕ}
    {calls : List (Call Bytes)}
    (h : Along (act H) Fine (cold jobId coordinatorId intervalMs count) calls)
    (acks : KVMap Text CheckpointAckRequest) (now : ℕ) :
    let w := run (act H) (cold jobId coordinatorId intervalMs count) calls
    w.coord.state = .awaitingAcks e t →
      let m := { w.coord with pendingAcks := acks }.buildMetadata e now
      origin m.isSavepoint m.savepointLabel = w.initiatedBy := by
  intro w hstate m
  have hmarked : Marked w := h.invariant (fun w call hfine hw => hw.act hfine) rfl
  unfold Marked at hmarked
  rw [hstate] at hmarked
  exact hmarked

/-- A savepoint, the first epoch, is given up, and the second epoch is a plain one. -/
theorem sealed_as_initiated_savepoint :
    let calls : List (Call Tagged) := [.initiateSavepoint (some ['s']) 0, .abortEpoch "timeout", .initiate 5]
    let first := run (act Host.tagged) (cold ['j'] ['c'] 10 1) (calls.take 1)
    let second := run (act Host.tagged) (cold ['j'] ['c'] 10 1) calls
    first.coord.state = .awaitingAcks 1 0 ∧ origin (first.coord.buildMetadata 1 0).isSavepoint
      (first.coord.buildMetadata 1 0).savepointLabel = some (some ['s']) ∧
    second.coord.state = .awaitingAcks 2 5 ∧ origin (second.coord.buildMetadata 2 0).isSavepoint
      (second.coord.buildMetadata 2 0).savepointLabel = none := by
  intro calls first second
  have hsavepoint : Fine (cold ['j'] ['c'] 10 1) (.initiateSavepoint (some ['s']) 0 : Call Tagged) :=
    ⟨nofun, by decide +kernel⟩
  have hfirst : Along (act Host.tagged) Fine (cold ['j'] ['c'] 10 1) (calls.take 1) := ⟨hsavepoint, trivial⟩
  have hsecond : Along (act Host.tagged) Fine (cold ['j'] ['c'] 10 1) calls :=
    ⟨hsavepoint, trivial, nofun, trivial⟩
  exact ⟨rfl, sealed_as_initiated hfirst ∅ 0 rfl, rfl, sealed_as_initiated hsecond ∅ 0 rfl⟩

/-- A savepoint request that is refused makes a savepoint of the epoch in flight. -/
theorem refused_savepoint_marks :
    let w := run (act Host.tagged) (cold ['j'] ['c'] 10 1) [.initiate 0, .initiateSavepoint (some ['s']) 0]
    w.coord.state = .awaitingAcks 1 0 ∧ w.initiatedBy = none ∧ (w.coord.buildMetadata 1 0).isSavepoint = true :=
  ⟨rfl, rfl, rfl⟩

end Krishiv.Scheduler.Flags
