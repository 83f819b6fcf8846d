import Krishiv.Scheduler.CommitWrites
import Krishiv.Scheduler.SinkExactness

/-!
# The coordinator behind the sink

The coordinator of the sink model is a picture of the job's checkpoint coordinator: it has the same epoch,
the same state without its times and reasons, and acknowledgements of the same tasks. Calls of the real one
are followed step by step (`run_abstracts`), as long as a heartbeat that finds an epoch waiting counts as
many running tasks as the epoch expects, and acknowledgements and restores pass their checks. In the runs
in which output is exact this is so at every heartbeat and every end of a write (`FineRun.follows`).
-/

namespace Krishiv.Scheduler.Sink

open Krishiv.State List AList

variable {X : Type}

/-- A state without times and reasons. -/
def phase : CheckpointCoordinatorState → CoordinatorState
  | .idle => .idle
  | .awaitingAcks epoch _ => .awaitingAcks epoch
  | .committing epoch => .committing epoch
  | .committed epoch => .committed epoch
  | .failed epoch _ => .failed epoch

/-- `a` is a picture of `c`, where the task on the executor `i` is `task i`. -/
structure Abstracts (task : X → Text) (c : CheckpointCoordinator) (a : Coordinator X) : Prop where
  epoch : a.currentEpoch = c.currentEpoch
  state : a.state = phase c.state
  expected : ∀ e t, c.state = .awaitingAcks e t → a.expectedTaskCount = c.expectedTaskCount
  acks : c.pendingAcks.keys.Perm (a.pendingAcks.keys.map task)

/-- The two coordinators side by side. -/
structure Pair (X : Type) where
  real : CheckpointCoordinator
  model : Coordinator X

/-- What happens to both. -/
inductive Call (X : Type) where
  | heartbeat (elapsed timeout now : ℕ)
  | ack (i : X) (request : CheckpointAckRequest) (seen : CheckpointAck) (now : ℕ)
  | written (epoch : ℕ)
  | notWritten (reason : String)
  | activate (metadata : Krishiv.State.CheckpointMetadata) (token : Option ℕ)
  | loss (i : X) (reason : String)
  | launch (i : X)

/-- `abort_epoch`, for an epoch that awaits acknowledgements. -/
def abortWaiting (c : CheckpointCoordinator) (reason : String) : CheckpointCoordinator :=
  match c.state with
  | .awaitingAcks _ _ => c.abortEpoch reason
  | _ => c

section Follow

variable [DecidableEq X] [Fintype X]

def Coordinator.runningTasks (a : Coordinator X) : ℕ := (Finset.univ.filter fun i => a.running i = true).card

/-- The picture after a heartbeat that has turned `c` into `c'`. -/
def Coordinator.follow (a : Coordinator X) (c c' : CheckpointCoordinator) : Coordinator X :=
  if c'.currentEpoch ≠ c.currentEpoch then a.initiate
  else if c'.state ≠ c.state then a.abortAwaiting
  else a

def Pair.act (p : Pair X) : Call X → Pair X
  | .heartbeat elapsed timeout now =>
    let c := p.real.heartbeat p.model.runningTasks elapsed timeout now
    ⟨c, p.model.follow p.real c⟩
  | .ack i request seen now => ⟨(p.real.receiveAckAsync request now).2, p.model.receiveAck i request.epoch seen⟩
  | .written epoch => ⟨(p.real.finalizeCommit epoch).toOption.getD p.real, p.model.endWrite true⟩
  | .notWritten reason => ⟨p.real.abortEpoch reason, p.model.endWrite false⟩
  | .activate metadata token =>
    ⟨(p.real.activateRestoredEpoch metadata token).toOption.getD p.real, p.model.activateRestore metadata.epoch⟩
  | .loss i reason =>
    ⟨if p.model.running i then abortWaiting p.real reason else p.real, p.model.handleExecutorLoss i⟩
  | .launch i => ⟨p.real, { p.model with running := Function.update p.model.running i true }⟩

/-- A heartbeat finds as many tasks as the waiting epoch expects; an acknowledgement is of the executor's
task and passes the checks; a write ends that has begun; a stored epoch is restored while none is in flight. -/
def Pair.Fine (task : X → Text) (p : Pair X) : Call X → Prop
  | .heartbeat _ _ _ => ∀ e, p.model.state = .awaitingAcks e → p.model.runningTasks = p.model.expectedTaskCount
  | .ack i request _ _ => request.taskId = task i ∧ request.fencingToken = p.real.fencingToken ∧
      p.real.validateAckContract request request.epoch = .ok ()
  | .written epoch => ∃ m, p.model.pendingCommit = some m ∧ m.epoch = epoch ∧ p.model.state = .committing epoch
  | .notWritten _ => ∃ m, p.model.pendingCommit = some m ∧ p.model.state = .committing m.epoch
  | .activate metadata token => (p.real.activateRestoredEpoch metadata token).isOk = true ∧
      (∀ e, p.model.state ≠ .awaitingAcks e ∧ p.model.state ≠ .committing e) ∧
      (p.model.storage.find? fun m => m.epoch = metadata.epoch).isSome = true
  | _ => True

variable {task : X → Text} {c c' : CheckpointCoordinator} {a : Coordinator X}

omit [DecidableEq X] [Fintype X] in
/-- A call that leaves epoch, state and acknowledgements. -/
lemma Abstracts.same (h : Abstracts task c a) (hepoch : c'.currentEpoch = c.currentEpoch)
    (hstate : c'.state = c.state) (hacks : c'.pendingAcks = c.pendingAcks)
    (hexpected : ∀ e t, c.state = .awaitingAcks e t → a.expectedTaskCount = c'.expectedTaskCount) :
    Abstracts task c' a :=
  ⟨h.epoch.trans hepoch.symm, by rw [h.state, hstate], fun e t he => hexpected e t (hstate.symm.trans he),
    by rw [hacks]; exact h.acks⟩

omit [DecidableEq X] [Fintype X] in
lemma Abstracts.abortAwaiting (h : Abstracts task c a) {e t : ℕ} (hstate : c.state = .awaitingAcks e t)
    (reason : String) : Abstracts task (c.aborted e reason) a.abortAwaiting := by
  have ha : a.state = .awaitingAcks e := by rw [h.state, hstate]; rfl
  simp only [Coordinator.abortAwaiting, ha]
  exact ⟨h.epoch, rfl, (fun _ _ he => by cases he), .refl _⟩

omit [DecidableEq X] in
lemma Abstracts.started (h : Abstracts task c a) (hfree : ∀ e, a.state ≠ .awaitingAcks e ∧ a.state ≠ .committing e)
    (hrunning : a.runningTasks ≠ 0) (hacks : c'.currentEpoch = c.currentEpoch)
    (hexpected : c'.expectedTaskCount = a.runningTasks) (now : ℕ) : Abstracts task (c'.started now) a.initiate := by
  have hinit : a.initiate = { a with
      currentEpoch := a.currentEpoch + 1, state := .awaitingAcks (a.currentEpoch + 1)
      expectedTaskCount := a.runningTasks, pendingAcks := ∅, notifySent := fun _ => false } := by
    unfold Coordinator.initiate
    dsimp only
    split
    · next e he => exact absurd he (hfree e).1
    · next e he => exact absurd he (hfree e).2
    · exact if_neg hrunning
  rw [hinit]
  refine ⟨?_, ?_, fun _ _ _ => hexpected.symm, .refl _⟩
  · show a.currentEpoch + 1 = c'.currentEpoch + 1
    rw [h.epoch, hacks]
  · show CoordinatorState.awaitingAcks (a.currentEpoch + 1) = .awaitingAcks (c'.currentEpoch + 1)
    rw [h.epoch, hacks]

omit [DecidableEq X] in
lemma Abstracts.heartbeat (h : Abstracts task c a)
    (hfine : ∀ e, a.state = .awaitingAcks e → a.runningTasks = a.expectedTaskCount) (elapsed timeout now : ℕ) :
    Abstracts task (c.heartbeat a.runningTasks elapsed timeout now)
      (a.follow c (c.heartbeat a.runningTasks elapsed timeout now)) := by
  have hstay : ∀ c' : CheckpointCoordinator, c'.currentEpoch = c.currentEpoch → c'.state = c.state →
      c'.pendingAcks = c.pendingAcks → c'.expectedTaskCount = a.runningTasks → Abstracts task c' (a.follow c c') := by
    intro c' hepoch hstate hacks hexpected
    rw [Coordinator.follow, if_neg (not_not.mpr hepoch), if_neg (not_not.mpr hstate)]
    refine h.same hepoch hstate hacks fun e t he => ?_
    rw [hexpected, hfine e (by rw [h.state, he]; rfl)]
  have hlate : ∀ (c' : CheckpointCoordinator) {e t : ℕ} {reason : String}, c'.currentEpoch = c.currentEpoch →
      c.state = .awaitingAcks e t → Abstracts task (c'.aborted e reason) (a.follow c (c'.aborted e reason)) := by
    intro c' e t reason hepoch hstate
    have hfollow : a.follow c (c'.aborted e reason) = a.abortAwaiting :=
      (if_neg (not_not.mpr hepoch)).trans (if_pos fun he => by cases he.trans hstate)
    have hgiven := h.abortAwaiting hstate reason
    rw [hfollow]
    exact ⟨hgiven.epoch.trans hepoch.symm, hgiven.state, (fun _ _ he => by cases he), hgiven.acks⟩
  -- an epoch can start
  have hnext : (∀ e, a.state ≠ .awaitingAcks e ∧ a.state ≠ .committing e) → ∀ c' : CheckpointCoordinator,
      c'.currentEpoch = c.currentEpoch → c'.state = c.state → c'.pendingAcks = c.pendingAcks →
      c'.expectedTaskCount = a.runningTasks → a.runningTasks ≠ 0 →
      Abstracts task (c'.initiate now).2 (a.follow c (c'.initiate now).2) := by
    intro hfree c' hepoch hstate hacks hexpected hrunning
    rcases CheckpointCoordinator.initiate_cases c' now with heq | ⟨-, heq⟩
    · rw [heq]
      exact hstay c' hepoch hstate hacks hexpected
    · rw [heq, Coordinator.follow, if_pos (by rw [← hepoch]; exact Nat.succ_ne_self _)]
      exact h.started hfree hrunning hepoch hexpected now
  unfold CheckpointCoordinator.heartbeat CheckpointCoordinator.tryTick
  cases hstate : c.state with
  | awaitingAcks e t =>
    simp only [CheckpointCoordinator.setExpectedTaskCount, hstate]
    split
    · -- the epoch has waited too long
      simp only [CheckpointCoordinator.abortEpoch]
      exact hlate _ rfl hstate
    · exact hstay _ rfl hstate.symm rfl rfl
  | committing e =>
    simp only [CheckpointCoordinator.setExpectedTaskCount, hstate]
    exact hstay _ rfl hstate.symm rfl rfl
  | idle | committed e | failed e reason =>
    have hfree : ∀ e, a.state ≠ .awaitingAcks e ∧ a.state ≠ .committing e := by
      intro e
      rw [h.state, hstate]
      exact ⟨(fun he => by cases he), fun he => by cases he⟩
    simp only [CheckpointCoordinator.setExpectedTaskCount, hstate]
    split
    · exact hstay _ rfl hstate.symm rfl rfl
    next hrunning =>
    split
    · exact hnext hfree _ rfl hstate.symm rfl rfl hrunning
    · exact hstay _ rfl hstate.symm rfl rfl

omit [Fintype X] in
lemma Abstracts.receiveAck (h : Abstracts task c a) (htask : Function.Injective task) {i : X}
    {request : CheckpointAckRequest} (hid : request.taskId = task i)
    (htoken : request.fencingToken = c.fencingToken)
    (hvalid : c.validateAckContract request request.epoch = .ok ()) (seen : CheckpointAck) (now : ℕ) :
    Abstracts task (c.receiveAckAsync request now).2 (a.receiveAck i request.epoch seen) := by
  have ha := h.state
  unfold CheckpointCoordinator.receiveAckAsync Coordinator.receiveAck
  cases hstate : c.state with
  | awaitingAcks e t =>
    rw [hstate] at ha
    simp only [ha, phase]
    by_cases hepoch : request.epoch = e
    swap
    · rw [if_neg hepoch, CheckpointCoordinator.recordAck, if_pos hepoch]
      exact h
    subst hepoch
    have hrec : c.recordAck request request.epoch =
        .ok { c with pendingAcks := c.pendingAcks.insert request.taskId request } := by
      simp [CheckpointCoordinator.recordAck, hvalid, htoken]
    have hacks : (c.pendingAcks.insert request.taskId request).keys.Perm ((a.pendingAcks.insert i seen).keys.map task) := by
      refine (perm_ext_iff_of_nodup (keys_nodup _) ((keys_nodup _).map htask)).mpr fun k => ?_
      rw [← AList.mem_keys, mem_insert, AList.mem_keys, h.acks.mem_iff, hid]
      simp only [mem_map, ← AList.mem_keys, mem_insert]
      constructor
      · rintro (rfl | ⟨j, hj, rfl⟩)
        exacts [⟨i, .inl rfl, rfl⟩, ⟨j, .inr hj, rfl⟩]
      · rintro ⟨j, rfl | hj, rfl⟩
        exacts [.inl rfl, .inr ⟨j, hj, rfl⟩]
    have hquorum : (a.pendingAcks.insert i seen).keys.length = (c.pendingAcks.insert request.taskId request).keys.length := by
      rw [hacks.length_eq, length_map]
    have hexpected := h.expected _ t hstate
    rw [hrec, if_pos rfl, hquorum, hexpected]
    dsimp only
    by_cases hall : c.expectedTaskCount ≤ (c.pendingAcks.insert request.taskId request).keys.length
    · rw [if_pos hall, if_pos (by simpa [CheckpointCoordinator.hasQuorum] using hall),
        CheckpointCoordinator.extractCommitData_eq (t := t) (by exact hstate)]
      exact ⟨h.epoch, rfl, (fun _ _ he => by cases he), hacks⟩
    · rw [if_neg hall, if_neg (by simpa [CheckpointCoordinator.hasQuorum] using hall)]
      refine ⟨h.epoch, ?_, fun _ _ _ => rfl, hacks⟩
      show _ = phase c.state
      rw [hstate]
      rfl
  | idle | committing e | committed e | failed e reason =>
    rw [hstate] at ha
    simp only [ha, phase]
    exact h

omit [DecidableEq X] [Fintype X] in
lemma Abstracts.endWrite (h : Abstracts task c a) {m : CheckpointMetadata X} (hcommit : a.pendingCommit = some m)
    (hstate : a.state = .committing m.epoch) :
    (∃ c', c.finalizeCommit m.epoch = .ok c' ∧ Abstracts task c' (a.endWrite true)) ∧
      ∀ reason, Abstracts task (c.abortEpoch reason) (a.endWrite false) := by
  have hreal : c.state = .committing m.epoch := by
    have hphase := h.state.symm.trans hstate
    cases hc : c.state <;> rw [hc] at hphase <;> cases hphase
    rfl
  refine ⟨⟨_, by unfold CheckpointCoordinator.finalizeCommit; rw [hreal]; exact if_pos rfl, ?_⟩, fun reason => ?_⟩
  · rw [Coordinator.endWrite, hcommit]
    exact ⟨h.epoch, rfl, (fun _ _ he => by cases he), h.acks⟩
  · rw [CheckpointCoordinator.abortEpoch, hreal, Coordinator.endWrite, hcommit]
    exact ⟨h.epoch, rfl, (fun _ _ he => by cases he), .refl _⟩

omit [DecidableEq X] [Fintype X] in
lemma abstracts_activate {metadata : Krishiv.State.CheckpointMetadata} {token : Option ℕ}
    (hreal : c.activateRestoredEpoch metadata token = .ok c')
    (hfree : ∀ e, a.state ≠ .awaitingAcks e ∧ a.state ≠ .committing e)
    (hstored : (a.storage.find? fun m => m.epoch = metadata.epoch).isSome = true) :
    Abstracts task c' (a.activateRestore metadata.epoch) := by
  obtain ⟨m, hm⟩ := Option.isSome_iff_exists.mp hstored
  obtain ⟨_, -, hreal⟩ := Except.bind_eq_ok_iff.mp hreal
  unfold Coordinator.activateRestore
  dsimp only at hreal
  split_ifs at hreal
  cases hreal
  split
  · next e he => exact absurd he (hfree e).1
  · next e he => exact absurd he (hfree e).2
  · rw [hm]
    exact ⟨rfl, rfl, (fun _ _ he => by cases he), .refl _⟩

omit [Fintype X] in
lemma Abstracts.loss (h : Abstracts task c a) (i : X) (reason : String) :
    Abstracts task (if a.running i then abortWaiting c reason else c) (a.handleExecutorLoss i) := by
  unfold Coordinator.handleExecutorLoss
  split
  swap
  · exact h
  have hnext : Abstracts task (abortWaiting c reason) a.abortAwaiting := by
    unfold abortWaiting
    split
    · next e t hstate =>
      rw [CheckpointCoordinator.abortEpoch_of_awaiting hstate]
      exact h.abortAwaiting hstate reason
    · next hstate =>
      have hsame : a.abortAwaiting = a := by
        unfold Coordinator.abortAwaiting
        split
        · next e he =>
          rw [h.state] at he
          cases hc : c.state <;> rw [hc] at he <;> cases he
          exact absurd hc (hstate _ _)
        · rfl
      rw [hsame]
      exact h
  dsimp only
  cases latest a.abortAwaiting.storage <;> exact ⟨hnext.epoch, hnext.state, hnext.expected, hnext.acks⟩

/-- Along every run of such calls the model's coordinator stays a picture of the real one. -/
theorem run_abstracts (htask : Function.Injective task) {p : Pair X} (hp : Abstracts task p.real p.model)
    {calls : List (Call X)} (h : Runs.Along Pair.act (Pair.Fine task) p calls) :
    Abstracts task (Runs.run Pair.act p calls).real (Runs.run Pair.act p calls).model := by
  refine h.invariant (I := fun p => Abstracts task p.real p.model) (fun p call hfine hp => ?_) hp
  cases call with
  | heartbeat elapsed timeout now => exact hp.heartbeat hfine elapsed timeout now
  | ack i request seen now => exact hp.receiveAck htask hfine.1 hfine.2.1 hfine.2.2 seen now
  | written epoch =>
    obtain ⟨m, hm, rfl, hstate⟩ := hfine
    obtain ⟨⟨c', hc', hnext⟩, -⟩ := hp.endWrite hm hstate
    simp only [Pair.act, hc']
    exact hnext
  | notWritten reason =>
    obtain ⟨m, hm, hstate⟩ := hfine
    exact (hp.endWrite hm hstate).2 reason
  | activate metadata token =>
    obtain ⟨hok, hfree, hstored⟩ := hfine
    cases hreal : p.real.activateRestoredEpoch metadata token with
    | error e =>
      rw [hreal] at hok
      cases hok
    | ok c' =>
      simp only [Pair.act, hreal]
      exact abstracts_activate hreal hfree hstored
  | loss i reason => exact hp.loss i reason
  | launch i => exact ⟨hp.epoch, hp.state, hp.expected, hp.acks⟩

theorem FineRun.follows {w : World X} (h : FineRun w) (c : CheckpointCoordinator) :
    (∀ elapsed timeout now, Pair.Fine task ⟨c, w.coord⟩ (.heartbeat elapsed timeout now)) ∧
    ∀ m, w.coord.pendingCommit = some m → Pair.Fine task ⟨c, w.coord⟩ (.written m.epoch) ∧
      ∀ reason, Pair.Fine task ⟨c, w.coord⟩ (.notWritten reason) := by
  have hcontrol := h.inv.control
  refine ⟨fun elapsed timeout now e hstate => ?_, fun m hm => ?_⟩
  · -- all tasks run while an epoch waits
    have hall : (Finset.univ.filter fun i => w.coord.running i = true) = Finset.univ :=
      Finset.filter_true_of_mem fun i _ => hcontrol.running (.inl ⟨e, hstate⟩) i
    show (Finset.univ.filter fun i => w.coord.running i = true).card = w.coord.expectedTaskCount
    rw [hall, Finset.card_univ, (hcontrol.awaiting e hstate).2.2.1]
  · have hstate := (hcontrol.writing m hm).1
    exact ⟨⟨m, hm, rfl, hstate⟩, fun _ => ⟨m, hm, hstate⟩⟩

end Follow

end Krishiv.Scheduler.Sink
