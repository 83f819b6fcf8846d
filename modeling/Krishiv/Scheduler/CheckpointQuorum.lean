import Mathlib.Data.List.Perm.Subperm
import Krishiv.Lib.Runs
import Krishiv.Scheduler.CheckpointCoordinator

/-!
# Checkpoint quorum

An epoch should be committed only when as many tasks have acknowledged it as were expected when it was
initiated. The coordinator compares the recorded acks with a count that other requests keep changing:
every heartbeat and every savepoint request sets it to the tasks running at that moment, also while an
epoch waits for its acks and also when the request itself is refused. So the quorum of an epoch in
flight shrinks when a task stops running (`refusedRun_short`), and the property holds in the runs in
which it does not (`committed_after_quorum`).

Two fields of the world are ghosts that nothing reads: the task count each epoch was initiated with and
the log of all recorded acks. The log only grows, which is what makes the quorum of a committed epoch a
lasting fact.
-/

namespace Krishiv.Scheduler

open Krishiv.State

/-! ## Runs -/

namespace Quorum

/-- Calls on the coordinator of a job, and the requests and clock ticks of its owner with the number of
tasks running when they are made. -/
inductive Event where
  | initiate (now : ℕ)
  | initiateSavepoint (label : Option Text) (now : ℕ)
  | receiveAck (ack : CheckpointAckRequest) (now : ℕ) (script : List CallOutcome)
  | receiveAckAsync (ack : CheckpointAckRequest) (now : ℕ)
  | tryTick (elapsed timeout now : ℕ)
  | abortEpoch (reason : String)
  | savepointJob (running : ℕ) (label : Option Text) (now : ℕ)
  | heartbeat (running elapsed timeout now : ℕ)

structure World (Bytes : Type) where
  coord : CheckpointCoordinator
  files : KVMap Path Bytes
  /-- The task count an epoch was initiated with. -/
  expectedAt : ℕ → ℕ
  /-- Every ack that was recorded. -/
  accepted : List CheckpointAckRequest

variable {Bytes : Type} (H : Host Bytes)

namespace World

def cold (c : CheckpointCoordinator) (files : KVMap Path Bytes) : World Bytes := ⟨c, files, fun _ => 0, []⟩

/-- The world with a new coordinator; an epoch that it has just started is noted with its count. -/
def goto (w : World Bytes) (c : CheckpointCoordinator) : World Bytes :=
  { w with
    coord := c
    expectedAt :=
      if c.currentEpoch = w.coord.currentEpoch then w.expectedAt
      else Function.update w.expectedAt c.currentEpoch c.expectedTaskCount }

def note (w : World Bytes) (ack : CheckpointAckRequest) : World Bytes :=
  if w.coord.records ack then { w with accepted := w.accepted ++ [ack] } else w

def act (w : World Bytes) : Event → World Bytes
  | .initiate now => w.goto (w.coord.initiate now).2
  | .initiateSavepoint label now => w.goto (w.coord.initiateSavepoint label now).2
  | .receiveAck ack now script =>
    match w.coord.receiveAck H ack now ⟨w.files, script⟩ with
    | (.ok (_, c), s) => { (w.note ack).goto c with files := s.files }
    -- the process stops during the commit: what was in memory is not used again
    | (.error _, s) => { w with files := s.files }
  | .receiveAckAsync ack now => (w.note ack).goto (w.coord.receiveAckAsync ack now).2
  | .tryTick elapsed timeout now => w.goto (w.coord.tryTick elapsed timeout now).2
  | .abortEpoch reason => w.goto (w.coord.abortEpoch reason)
  | .savepointJob running label now => w.goto (w.coord.savepointJob running label now).2
  | .heartbeat running elapsed timeout now => w.goto (w.coord.heartbeat running elapsed timeout now)

def run (w : World Bytes) (events : List Event) : World Bytes := Runs.run (act H) w events

/-- The tasks from which an ack with this epoch and the current token was recorded. -/
def ackedBy (w : World Bytes) (e : ℕ) : List Text :=
  ((w.accepted.filter fun a => a.epoch = e && a.fencingToken = w.coord.fencingToken).map
    CheckpointAckRequest.taskId).dedup

end World

open World

/-! ## The invariant -/

/-- Every task with a pending ack is in the log, an epoch that waits expects at least as many tasks as at
its start, and a closed epoch has them. -/
structure Inv (w : World Bytes) : Prop where
  waiting : ∀ e t, w.coord.state = .awaitingAcks e t →
    e = w.coord.currentEpoch ∧ w.expectedAt e ≤ w.coord.expectedTaskCount ∧
      ∀ task ∈ w.coord.pendingAcks, task ∈ w.ackedBy e
  closed : ∀ e, w.coord.state = .committing e ∨ w.coord.state = .committed e →
    e ≤ w.coord.currentEpoch ∧ w.expectedAt e ≤ (w.ackedBy e).length

open CheckpointCoordinator

variable {H} {w : World Bytes} {c c' : CheckpointCoordinator}

lemma mem_ackedBy {e : ℕ} {task : Text} : task ∈ w.ackedBy e ↔
      ∃ a ∈ w.accepted, a.epoch = e ∧ a.fencingToken = w.coord.fencingToken ∧ a.taskId = task := by
  simp only [ackedBy, List.mem_dedup, List.mem_map, List.mem_filter, Bool.and_eq_true, decide_eq_true_eq]
  constructor
  · rintro ⟨a, ⟨hmem, hepoch, htoken⟩, htask⟩
    exact ⟨a, hmem, hepoch, htoken, htask⟩
  · rintro ⟨a, hmem, hepoch, htoken, htask⟩
    exact ⟨a, ⟨hmem, hepoch, htoken⟩, htask⟩

/-- The quorum of the coordinator counts tasks of the log. -/
lemma le_ackedBy {e n : ℕ} (hn : n ≤ c.expectedTaskCount)
    (hmem : ∀ task ∈ c.pendingAcks, task ∈ w.ackedBy e) (hquorum : c.hasQuorum = true) :
    n ≤ (w.ackedBy e).length := by
  have hkeys : c.expectedTaskCount ≤ c.pendingAcks.keys.length := by simpa [hasQuorum] using hquorum
  have hsub : c.pendingAcks.keys ⊆ w.ackedBy e := fun task htask => hmem task (AList.mem_keys.mpr htask)
  have hlen : c.pendingAcks.keys.length ≤ (w.ackedBy e).length :=
    (List.subperm_of_subset c.pendingAcks.keys_nodup hsub).length_le
  omega

/-- Calls that leave epoch, state, token and acks alone keep the invariant if they do not lower the
count of a waiting epoch. -/
lemma Inv.same (hinv : Inv w) (hsame : SameQuorum w.coord c)
    (hcount : ∀ e t, w.coord.state = .awaitingAcks e t → w.expectedAt e ≤ c.expectedTaskCount) : Inv (w.goto c) := by
  have hat : (w.goto c).expectedAt = w.expectedAt := by simp [goto, hsame.epoch]
  have hby : ∀ e, (w.goto c).ackedBy e = w.ackedBy e := fun e => by
    simp [ackedBy, goto, hsame.token]
  refine ⟨fun e t hstate => ?_, fun e hstate => ?_⟩
  · have hstate' : w.coord.state = .awaitingAcks e t := hsame.state.symm.trans hstate
    obtain ⟨hepoch, -, hacks⟩ := hinv.waiting e t hstate'
    rw [hat]
    refine ⟨hepoch.trans hsame.epoch.symm, hcount e t hstate', fun task htask => ?_⟩
    rw [hby]
    exact hacks task (hsame.acks ▸ htask)
  · have hstate' : w.coord.state = .committing e ∨ w.coord.state = .committed e := by
      rwa [← hsame.state]
    obtain ⟨hle, hlen⟩ := hinv.closed e hstate'
    rw [hat, hby]
    exact ⟨hle.trans_eq hsame.epoch.symm, hlen⟩

/-- A new epoch starts with an empty set of acks and the count it is noted with. -/
lemma Inv.started (hsame : SameQuorum w.coord c) (now : ℕ) : Inv (w.goto (c.started now)) := by
  have hne : ¬ c.currentEpoch + 1 = w.coord.currentEpoch := by
    have hepoch := hsame.epoch
    omega
  refine ⟨fun e t hstate => ?_, fun e hstate => ?_⟩
  · cases hstate
    refine ⟨rfl, ?_, fun task htask => absurd htask (AList.notMem_empty task)⟩
    simp [goto, hne, CheckpointCoordinator.started]
  · rcases hstate with h | h <;> cases h

/-- A given up epoch owes nothing. -/
lemma Inv.aborted (c : CheckpointCoordinator) (e : ℕ) (r : String) : Inv (w.goto (c.aborted e r)) := by
  refine ⟨fun e t hstate => ?_, fun e hstate => ?_⟩
  · cases hstate
  · rcases hstate with h | h <;> cases h

section

variable (hinv : Inv w) (hsame : SameQuorum w.coord c)
  (hcount : ∀ e t, w.coord.state = .awaitingAcks e t → w.expectedAt e ≤ c.expectedTaskCount)

include hinv hsame hcount

/-- Initiating, from a coordinator with the same epoch, state and acks. -/
lemma Inv.initiate (now : ℕ) : Inv (w.goto (c.initiate now).2) := by
  rcases initiate_cases c now with h | ⟨-, h⟩
  · rw [h]; exact hinv.same hsame hcount
  · rw [h]; exact Inv.started hsame now

lemma Inv.tryTick (elapsed timeout now : ℕ) : Inv (w.goto (c.tryTick elapsed timeout now).2) := by
  obtain ⟨hexp, htick⟩ := tryTick_cases c elapsed timeout now
  have htrans : ∀ {c₀}, SameQuorum c c₀ → SameQuorum w.coord c₀ := fun h =>
    ⟨h.state.trans hsame.state, h.epoch.trans hsame.epoch, h.token.trans hsame.token, h.acks.trans hsame.acks⟩
  rcases htick with h | ⟨c₀, h, -, hc⟩ | ⟨c₀, e, r, -, -, -, hc⟩
  · exact hinv.same (htrans h) fun e t hstate => (hcount e t hstate).trans_eq hexp.symm
  · rw [hc]; exact Inv.started (htrans h) now
  · rw [hc]; exact Inv.aborted c₀ e r

end

/-- The tasks whose acks are recorded are among those that acknowledged, with the new one. -/
lemma mem_ackedBy_note {e : ℕ} {ack : CheckpointAckRequest} {task : Text}
    (hnote : w.note ack = { w with accepted := w.accepted ++ [ack] })
    (htok : c.fencingToken = w.coord.fencingToken)
    (hepoch : ack.epoch = e) (htoken : ack.fencingToken = w.coord.fencingToken)
    (hacks : ∀ task ∈ w.coord.pendingAcks, task ∈ w.ackedBy e)
    (htask : task ∈ w.coord.pendingAcks.insert ack.taskId ack) : task ∈ ((w.note ack).goto c).ackedBy e := by
  rw [mem_ackedBy]
  rcases (AList.mem_insert _).mp htask with rfl | htask
  · exact ⟨ack, by simp [goto, hnote], hepoch, by simpa [goto, htok] using htoken, rfl⟩
  · obtain ⟨a, ha, hae, hat, hatask⟩ := mem_ackedBy.mp (hacks task htask)
    exact ⟨a, by simp [goto, hnote, ha], hae, by simpa [goto, htok] using hat, hatask⟩

lemma note_recorded {ack : CheckpointAckRequest} {e t : ℕ} (hstate : w.coord.state = .awaitingAcks e t)
    (hrec : w.coord.recordAck ack e = .ok c') : w.note ack = { w with accepted := w.accepted ++ [ack] } := by
  simp [note, records_of_recordAck hstate hrec]

/-- Delivering an ack, on either commit path. -/
lemma Inv.ack {closed : ℕ → CheckpointCoordinatorState}
    (hclosed : closed = .committing ∨ closed = .committed) (hinv : Inv w)
    {ack : CheckpointAckRequest} (hleaves : AckLeaves closed w.coord ack c) : Inv ((w.note ack).goto c) := by
  cases hleaves with
  | refused hno =>
    have hnote : w.note ack = w := by simp [note, hno]
    rw [hnote]
    exact hinv.same ⟨rfl, rfl, rfl, rfl⟩ fun e t hstate => (hinv.waiting e t hstate).2.1
  | @recorded e t c' hstate hrec =>
    have hnote := note_recorded hstate hrec
    obtain ⟨hepoch, htoken, rfl⟩ := recordAck_ok hrec
    obtain ⟨hcur, hcount, hacks⟩ := hinv.waiting e t hstate
    refine ⟨fun e' t' hstate' => ?_, fun e' hstate' => ?_⟩
    · have heq : w.coord.state = .awaitingAcks e' t' := hstate'
      rw [hstate] at heq
      cases heq
      refine ⟨hcur, ?_, fun task => mem_ackedBy_note hnote rfl hepoch htoken hacks⟩
      simpa [goto, hnote] using hcount
    · have heq : w.coord.state = .committing e' ∨ w.coord.state = .committed e' := hstate'
      rw [hstate] at heq
      rcases heq with h | h <;> cases h
  | @quorum e t c' _ hstate hrec hquorum hst hep htok =>
    have hnote := note_recorded hstate hrec
    obtain ⟨hepoch, htoken, rfl⟩ := recordAck_ok hrec
    obtain ⟨hcur, hcount, hacks⟩ := hinv.waiting e t hstate
    have hat : ((w.note ack).goto c).expectedAt = w.expectedAt := by
      simp [goto, hnote, hep]
    have hlen : w.expectedAt e ≤ (((w.note ack).goto c).ackedBy e).length :=
      le_ackedBy (c := { w.coord with pendingAcks := w.coord.pendingAcks.insert ack.taskId ack })
        hcount (fun task => mem_ackedBy_note hnote htok hepoch htoken hacks) hquorum
    have hdone : ∀ e', c.state = .committing e' ∨ c.state = .committed e' → e' = e := by
      intro e' h
      rw [hst] at h
      rcases hclosed with rfl | rfl <;> rcases h with h | h <;> cases h <;> rfl
    refine ⟨fun e' t' hstate' => ?_, fun e' hstate' => ?_⟩
    · have heq : c.state = .awaitingAcks e' t' := hstate'
      rw [hst] at heq
      rcases hclosed with rfl | rfl <;> cases heq
    have he : e' = e := hdone e' hstate'
    subst he
    rw [hat]
    refine ⟨?_, hlen⟩
    have hcoord : ((w.note ack).goto c).coord.currentEpoch = w.coord.currentEpoch := hep
    omega

/-! ## The condition and the result -/

/-- A heartbeat or a savepoint request that finds an epoch waiting for acks finds at least as many tasks
running as were expected when that epoch was initiated. -/
def Fine (w : World Bytes) : Event → Prop
  | .savepointJob running _ _ => ∀ e t, w.coord.state = .awaitingAcks e t → w.expectedAt e ≤ max running 1
  | .heartbeat running _ _ _ => ∀ e t, w.coord.state = .awaitingAcks e t → w.expectedAt e ≤ running
  | _ => True

variable (H) in
/-- Every event of the run meets the condition when it happens. -/
def FineRun : World Bytes → List Event → Prop := Runs.Along (World.act H) Fine

lemma Inv.act (hinv : Inv w) {ev : Event} (hfine : Fine w ev) : Inv (w.act H ev) := by
  have hkeep : ∀ e t, w.coord.state = .awaitingAcks e t → w.expectedAt e ≤ w.coord.expectedTaskCount :=
    fun e t hstate => (hinv.waiting e t hstate).2.1
  cases ev with
  | initiate now => exact hinv.initiate ⟨rfl, rfl, rfl, rfl⟩ hkeep now
  | initiateSavepoint label now =>
    have hsame : SameQuorum w.coord { w.coord with pendingIsSavepoint := true, pendingSavepointLabel := label } :=
      ⟨rfl, rfl, rfl, rfl⟩
    exact hinv.initiate hsame hkeep now
  | receiveAck ack now script =>
    simp only [World.act]
    split
    · next r c s heq =>
      have h := hinv.ack (.inr rfl) (receiveAck_leaves heq)
      exact ⟨h.waiting, h.closed⟩
    · exact ⟨hinv.waiting, hinv.closed⟩
  | receiveAckAsync ack now => exact hinv.ack (.inl rfl) (receiveAckAsync_leaves w.coord ack now)
  | tryTick elapsed timeout now => exact hinv.tryTick ⟨rfl, rfl, rfl, rfl⟩ hkeep elapsed timeout now
  | abortEpoch reason =>
    rcases abortEpoch_cases w.coord reason with h | ⟨e, -, h⟩
    · simp only [World.act, h]
      exact hinv.same ⟨rfl, rfl, rfl, rfl⟩ hkeep
    · simp only [World.act, h]
      exact Inv.aborted _ e reason
  | savepointJob running label now =>
    have hsame : SameQuorum w.coord { w.coord.setExpectedTaskCount (max running 1) with
          pendingIsSavepoint := true, pendingSavepointLabel := label } :=
      ⟨rfl, rfl, rfl, rfl⟩
    exact hinv.initiate hsame hfine now
  | heartbeat running elapsed timeout now =>
    have hsame : SameQuorum w.coord (w.coord.setExpectedTaskCount running) := ⟨rfl, rfl, rfl, rfl⟩
    exact hinv.tryTick hsame hfine elapsed timeout now

lemma Inv.run (hinv : Inv w) {events : List Event} (hfine : FineRun H w events) : Inv (w.run H events) :=
  Runs.Along.invariant (I := Inv) (fun _ _ hfine hinv => hinv.act hfine) hfine hinv

lemma Inv.cold (jobId coordinatorId : Text) (interval expected : ℕ) (files : KVMap Path Bytes) :
    Inv (World.cold (.new jobId coordinatorId interval expected) files) := by
  refine ⟨fun e t hstate => ?_, fun e hstate => ?_⟩
  · cases hstate
  · rcases hstate with h | h <;> cases h

/-- In every run in which no heartbeat and no savepoint request sees fewer tasks running than the epoch
waiting for acks was initiated for, an epoch that is committing or committed was acknowledged, under its
own number and the current token, by at least as many tasks as were expected when it was initiated. -/
theorem committed_after_quorum (jobId coordinatorId : Text) (interval expected : ℕ)
    (files : KVMap Path Bytes) (events : List Event)
    (hfine : FineRun H (World.cold (.new jobId coordinatorId interval expected) files) events)
    (e : ℕ) :
    let w := (World.cold (.new jobId coordinatorId interval expected) files).run H events
    w.coord.state = .committing e ∨ w.coord.state = .committed e → w.expectedAt e ≤ (w.ackedBy e).length :=
  fun hstate => ((Inv.cold jobId coordinatorId interval expected files).run hfine).closed e hstate |>.2

/-! ## Two runs -/

/-- An ack of a task without state for epoch 1 under the first token. -/
def ackOf (task : Text) : CheckpointAckRequest := ⟨['j'], ['o'], task, 1, initialToken, [], none, []⟩

/-- A job with two tasks; the interval has passed at the first heartbeat. -/
def twoTasks : World Tagged := .cold (.new ['j'] ['c'] 10 2) ∅

/-- Both tasks acknowledge. -/
def bothRun : List Event :=
  [.heartbeat 2 10 100 0, .receiveAckAsync (ackOf ['a']) 0, .receiveAckAsync (ackOf ['b']) 0]

theorem bothRun_quorum : (twoTasks.run Host.tagged bothRun).coord.state = .committing 1 ∧
      (twoTasks.run Host.tagged bothRun).expectedAt 1 ≤
        ((twoTasks.run Host.tagged bothRun).ackedBy 1).length := by
  have hfine : FineRun Host.tagged twoTasks bothRun := ⟨fun e t h => (nomatch h), trivial, trivial, trivial⟩
  exact ⟨rfl, committed_after_quorum ['j'] ['c'] 10 2 ∅ bothRun hfine 1 (.inl rfl)⟩

/-- One of the two tasks acknowledges, the other stops running, a savepoint is requested and refused
because the epoch waits for acks, and the first task's ack is delivered once more. -/
def refusedRun : List Event :=
  [.heartbeat 2 10 100 0, .receiveAckAsync (ackOf ['a']) 0, .savepointJob 1 none 0,
    .receiveAckAsync (ackOf ['a']) 0]

/-- The refused request has lowered the quorum of the epoch in flight: it commits with the ack of one
task, initiated for two. -/
theorem refusedRun_short :
    ((twoTasks.run Host.tagged (refusedRun.take 2)).coord.savepointJob 1 none 0).1.isOk = false ∧
      (twoTasks.run Host.tagged refusedRun).coord.state = .committing 1 ∧
      (twoTasks.run Host.tagged refusedRun).expectedAt 1 = 2 ∧
      (twoTasks.run Host.tagged refusedRun).ackedBy 1 = [['a']] := by
  refine ⟨rfl, rfl, rfl, by decide +kernel⟩

end Quorum

end Krishiv.Scheduler
