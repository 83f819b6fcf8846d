import Mathlib.Data.Prod.Lex
import Krishiv.Lib.Runs
import Krishiv.Scheduler.CheckpointCoordinator

/-!
# The two copies of a checkpoint coordinator

A job's checkpoint coordinator exists twice. Clock ticks, initiations and savepoint requests work on the
*outer* copy, acks on the *inner* one. The outer copy is merged into the inner one on every tick
(`applyMonotonicFrom`), and the inner one back into the outer one at the end of every commit
(`mergeCheckpointCoordinator`); a merge keeps the copy that is further, by epoch and then by the stage
of the epoch. A commit has three phases: the ack that completes the quorum turns the inner copy to
`committing`, the storage is written without any lock, and the epoch is finalised on the inner copy.

Epochs never decrease in either copy, whatever the interleaving (`run_epochs`). But the outer copy does
not see acks: it times out an epoch that is being committed, initiates the next one, and the merge then
replaces the inner copy in the middle of the write, so that the sealed epoch cannot be finalised
(`overtakenRun_lost`). In the runs in which the outer copy is not merged while it is past the epoch being
committed, every written epoch can be finalised (`written_is_finalized`).
-/

namespace Krishiv.Scheduler

open Krishiv.State

variable {c c' : CheckpointCoordinator}

namespace CheckpointCoordinator

/-- Order of the stages of one epoch; both terminal stages share the top. -/
def stateRank : CheckpointCoordinatorState → ℕ
  | .idle => 0
  | .awaitingAcks _ _ => 1
  | .committing _ => 2
  | .failed _ _ => 3
  | .committed _ => 3

/-- Lexicographic progress, by epoch and then by stage. -/
def checkpointProgress (c : CheckpointCoordinator) : ℕ ×ₗ ℕ := toLex (c.currentEpoch, stateRank c.state)

/-- Merge `src` into `dst`: the copy that is further wins, and between equals a newer token. -/
def mergeCheckpointCoordinator (dst src : CheckpointCoordinator) : CheckpointCoordinator :=
  if checkpointProgress src < checkpointProgress dst then dst
  else if checkpointProgress dst = checkpointProgress src then
    if dst.fencingToken < src.fencingToken then src else dst
  else src

/-- The outer copy's timeout of the epoch that the inner copy is committing. -/
def staleTimeout (inner src : CheckpointCoordinator) : Bool :=
  match inner.state, src.state with
  | .committing committing, .failed failed _ => committing = failed
  | _, _ => false

/-- Merge the outer copy into the inner one. -/
def applyMonotonicFrom (inner src : CheckpointCoordinator) : CheckpointCoordinator :=
  if staleTimeout inner src then inner else mergeCheckpointCoordinator inner src

inductive CheckpointAckResponse where
  | accepted
  | staleEpoch (currentEpoch : ℕ)
  | jobNotFound
  | staleFencingToken (currentToken : ℕ)
  deriving DecidableEq, Repr

/-- Phase 1 of an ack, on the inner copy. With commit data the caller must write the storage and then
finalise. -/
def handleAck (c : CheckpointCoordinator) (ack : CheckpointAckRequest) (now : ℕ) :
    (CheckpointAckResponse × Option PendingCommit) × CheckpointCoordinator :=
  if ack.jobId ≠ c.jobId then ((.jobNotFound, none), c)
  else if ack.fencingToken ≠ c.fencingToken then ((.staleFencingToken c.fencingToken, none), c)
  else
    match c.receiveAckAsync ack now with
    | (.ok true, c) => ((.accepted, c.takePendingCommit.1), c.takePendingCommit.2)
    | (.ok false, c) => ((.accepted, none), c)
    | (.error _, c) => ((.staleEpoch c.currentEpoch, none), c)

/-! ## Progress -/

/-- Progress as a number; there are four stages. -/
def progressKey (c : CheckpointCoordinator) : ℕ := 4 * c.currentEpoch + stateRank c.state

lemma stateRank_le (s : CheckpointCoordinatorState) : stateRank s ≤ 3 := by
  cases s <;> simp [stateRank]

lemma checkpointProgress_lt : checkpointProgress c < checkpointProgress c' ↔ c.progressKey < c'.progressKey := by
  have h := stateRank_le c.state
  have h' := stateRank_le c'.state
  rw [checkpointProgress, checkpointProgress, Prod.Lex.toLex_lt_toLex, progressKey, progressKey]
  omega

lemma checkpointProgress_eq : checkpointProgress c = checkpointProgress c' ↔ c.progressKey = c'.progressKey := by
  have h := stateRank_le c.state
  have h' := stateRank_le c'.state
  rw [checkpointProgress, checkpointProgress, toLex_inj, Prod.mk.injEq, progressKey, progressKey]
  omega

/-- A merge returns the copy that is further. -/
lemma merge_cases (dst src : CheckpointCoordinator) :
    (mergeCheckpointCoordinator dst src = dst ∧ src.progressKey ≤ dst.progressKey) ∨
      (mergeCheckpointCoordinator dst src = src ∧ (dst.progressKey < src.progressKey ∨
          dst.progressKey = src.progressKey ∧ dst.fencingToken < src.fencingToken)) := by
  unfold mergeCheckpointCoordinator
  split_ifs with hlt heq htoken
  · exact .inl ⟨rfl, (checkpointProgress_lt.mp hlt).le⟩
  · exact .inr ⟨rfl, .inr ⟨checkpointProgress_eq.mp heq, htoken⟩⟩
  · exact .inl ⟨rfl, (checkpointProgress_eq.mp heq).ge⟩
  · rw [checkpointProgress_lt] at hlt
    rw [checkpointProgress_eq] at heq
    exact .inr ⟨rfl, .inl (by omega)⟩

/-- A merge does not go back. -/
lemma le_merge (dst src : CheckpointCoordinator) :
    dst.progressKey ≤ (mergeCheckpointCoordinator dst src).progressKey := by
  rcases merge_cases dst src with ⟨h, -⟩ | ⟨h, hkey⟩
  · rw [h]
  · rw [h]; omega

lemma le_applyMonotonicFrom (inner src : CheckpointCoordinator) :
    inner.progressKey ≤ (applyMonotonicFrom inner src).progressKey := by
  unfold applyMonotonicFrom
  split
  · exact le_rfl
  · exact le_merge inner src

lemma currentEpoch_le_of_progressKey (h : c.progressKey ≤ c'.progressKey) : c.currentEpoch ≤ c'.currentEpoch := by
  have hr := stateRank_le c.state
  have hr' := stateRank_le c'.state
  simp only [progressKey] at h
  omega

/-! ## Copies -/

/-- The state is about the current epoch. -/
def Tidy (c : CheckpointCoordinator) : Prop :=
  match c.state with
  | .idle => True
  | .awaitingAcks e _ => e = c.currentEpoch
  | .committing e => e = c.currentEpoch
  | .committed e => e = c.currentEpoch
  | .failed e _ => e = c.currentEpoch

/-- The stages that only acks lead to. -/
def Advanced (c : CheckpointCoordinator) : Prop :=
  (∃ e, c.state = .committing e) ∨ ∃ e, c.state = .committed e

lemma Tidy.congr (ht : Tidy c) (hstate : c'.state = c.state) (hepoch : c'.currentEpoch = c.currentEpoch) :
    Tidy c' := by
  unfold Tidy at ht ⊢
  rw [hstate, hepoch]
  exact ht

lemma not_advanced_aborted (c : CheckpointCoordinator) (e : ℕ) (r : String) : ¬ Advanced (c.aborted e r) := by
  rintro (⟨e, h⟩ | ⟨e, h⟩) <;> cases h

lemma tidy_aborted {e : ℕ} (hstate : c.state = .committing e ∨ ∃ t, c.state = .awaitingAcks e t) (ht : Tidy c)
    (r : String) : Tidy (c.aborted e r) := by
  unfold Tidy at ht
  rcases hstate with h | ⟨t, h⟩ <;> rw [h] at ht <;> exact ht

/-- What a step of the outer copy can leave. -/
structure OuterStep (c c' : CheckpointCoordinator) : Prop where
  tidy : Tidy c → Tidy c'
  token : c'.fencingToken = c.fencingToken
  epoch : c.currentEpoch ≤ c'.currentEpoch
  advanced : Advanced c' → Advanced c ∧ c'.progressKey = c.progressKey

lemma SameQuorum.outerStep (h : SameQuorum c c') : OuterStep c c' where
  tidy ht := ht.congr h.state h.epoch
  token := h.token
  epoch := h.epoch.ge
  advanced ha := by
    unfold Advanced at ha ⊢
    rw [h.state] at ha
    exact ⟨ha, by simp only [progressKey, h.state, h.epoch]⟩

lemma SameQuorum.started (h : SameQuorum c c') (now : ℕ) : OuterStep c (c'.started now) where
  tidy _ := rfl
  token := h.token
  epoch := Nat.le_succ_of_le h.epoch.ge
  advanced ha := by rcases ha with ⟨e, h⟩ | ⟨e, h⟩ <;> cases h

lemma outerStep_initiate {c₀ : CheckpointCoordinator} (h : SameQuorum c c₀) (now : ℕ) :
    OuterStep c (c₀.initiate now).2 := by
  rcases initiate_cases c₀ now with hinit | ⟨-, hinit⟩
  · rw [hinit]; exact h.outerStep
  · rw [hinit]; exact h.started now

section

variable (c : CheckpointCoordinator)

lemma outerStep_savepointJob (running : ℕ) (label : Option Text) (now : ℕ) :
    OuterStep c (c.savepointJob running label now).2 := by
  have hsame : SameQuorum c { c.setExpectedTaskCount (max running 1) with
      pendingIsSavepoint := true, pendingSavepointLabel := label } := ⟨rfl, rfl, rfl, rfl⟩
  exact outerStep_initiate hsame now

lemma outerStep_heartbeat (running elapsed timeout now : ℕ) :
    OuterStep c (c.heartbeat running elapsed timeout now) := by
  unfold heartbeat
  obtain ⟨-, htick⟩ := tryTick_cases (c.setExpectedTaskCount running) elapsed timeout now
  have hset : ∀ {c₀}, SameQuorum (c.setExpectedTaskCount running) c₀ → SameQuorum c c₀ :=
    fun h => ⟨h.state, h.epoch, h.token, h.acks⟩
  rcases htick with h | ⟨c₀, h, -, hc⟩ | ⟨c₀, e, r, t, h, hstate, hc⟩
  · exact (hset h).outerStep
  · rw [hc]; exact (hset h).started now
  rw [hc]
  have hstate₀ : c₀.state = .awaitingAcks e t := h.state.trans hstate
  exact ⟨fun ht => tidy_aborted (.inr ⟨t, hstate₀⟩) ((hset h).outerStep.tidy ht) r, (hset h).token,
    (hset h).epoch.ge, fun ha => absurd ha (not_advanced_aborted c₀ e r)⟩

/-- An ack leaves the stage alone, or completes the quorum of the epoch it is for. -/
lemma handleAck_cases (ack : CheckpointAckRequest) (now : ℕ) : (c.handleAck ack now).2.currentEpoch = c.currentEpoch ∧
      (c.handleAck ack now).2.fencingToken = c.fencingToken ∧
      ((c.handleAck ack now).1.2 = none ∧ (c.handleAck ack now).2.state = c.state ∨
        ∃ t commit, c.state = .awaitingAcks ack.epoch t ∧ (c.handleAck ack now).1.2 = some commit ∧
          (c.handleAck ack now).2.state = .committing ack.epoch) := by
  unfold handleAck
  split_ifs with hjob htoken
  · exact ⟨rfl, rfl, .inl ⟨rfl, rfl⟩⟩
  · exact ⟨rfl, rfl, .inl ⟨rfl, rfl⟩⟩
  unfold receiveAckAsync
  cases hstate : c.state with
  | awaitingAcks e t =>
    simp only
    cases hrec : c.recordAck ack e with
    | error msg => exact ⟨rfl, rfl, .inl ⟨rfl, hstate⟩⟩
    | ok c₁ =>
      obtain ⟨hepoch, -, rfl⟩ := recordAck_ok hrec
      simp only
      split_ifs with hquorum
      · cases hext : extractCommitData { c with pendingAcks := c.pendingAcks.insert ack.taskId ack } now with
        | error msg => exact ⟨rfl, rfl, .inl ⟨rfl, hstate⟩⟩
        | ok commit => exact ⟨rfl, rfl, .inr ⟨t, commit, by rw [hepoch], rfl, by rw [hepoch]; rfl⟩⟩
      · exact ⟨rfl, rfl, .inl ⟨rfl, hstate⟩⟩
  | idle | committing e | committed e | failed e r => exact ⟨rfl, rfl, .inl ⟨rfl, hstate⟩⟩

end

lemma finalizeCommit_of_committing {e : ℕ} (h : c.state = .committing e) :
    ∃ c', c.finalizeCommit e = .ok c' ∧ c'.state = .committed e ∧ c'.currentEpoch = c.currentEpoch ∧
      c'.fencingToken = c.fencingToken := by
  simp only [finalizeCommit, h, if_true]
  exact ⟨_, rfl, rfl, rfl, rfl⟩

/-- Finalising succeeds only on the epoch that is being committed. -/
lemma finalizeCommit_ok {e : ℕ} (h : c.finalizeCommit e = .ok c') : c.state = .committing e := by
  unfold finalizeCommit at h
  split at h
  · next e' hstate =>
    split at h
    · next he => rw [hstate, he]
    · cases h
  · cases h

end CheckpointCoordinator

/-! ## Runs -/

namespace ThreePhase

open CheckpointCoordinator

/-- The stages of one ack request. -/
inductive Handler where
  | idle
  /-- Quorum reached, storage write in flight. -/
  | writing (ackEpoch : ℕ) (commit : PendingCommit)
  /-- The storage write has returned `Ok`. -/
  | written (epoch : ℕ)
  | failed (epoch : ℕ) (error : CheckpointError)
  /-- Holds the copy to be merged into the outer one. -/
  | synced (copy : CheckpointCoordinator)

structure World (Bytes : Type) where
  outer : CheckpointCoordinator
  inner : CheckpointCoordinator
  files : KVMap Path Bytes
  handlers : ℕ → Handler

/-- What happens under one hold of a lock, or in one storage write. -/
inductive Event where
  | heartbeat (running elapsed timeout now : ℕ)
  | initiate (now : ℕ)
  | savepointJob (running : ℕ) (label : Option Text) (now : ℕ)
  | apply
  | ack (i : ℕ) (ack : CheckpointAckRequest) (now : ℕ)
  | store (i : ℕ) (script : List CallOutcome)
  | finalize (i : ℕ)
  | abort (i : ℕ)
  | merge (i : ℕ)

variable {Bytes : Type} (H : Host Bytes)

namespace World

def setHandler (w : World Bytes) (i : ℕ) (h : Handler) : World Bytes :=
  { w with handlers := Function.update w.handlers i h }

def act (w : World Bytes) : Event → World Bytes
  | .heartbeat running elapsed timeout now =>
    { w with outer := w.outer.heartbeat running elapsed timeout now }
  | .initiate now => { w with outer := (w.outer.initiate now).2 }
  | .savepointJob running label now => { w with outer := (w.outer.savepointJob running label now).2 }
  | .apply => { w with inner := w.inner.applyMonotonicFrom w.outer }
  | .ack i ack now =>
    match w.handlers i with
    | .idle =>
      let r := w.inner.handleAck ack now
      match r.1.2 with
      | none => { w with inner := r.2 }
      | some commit => { w with inner := r.2 }.setHandler i (.writing ack.epoch commit)
    | _ => w
  | .store i script =>
    match w.handlers i with
    | .writing e commit =>
      match commitStorage H commit ⟨w.files, script⟩ with
      | (.ok _, s) => { w with files := s.files }.setHandler i (.written e)
      | (.error (.failed err), s) => { w with files := s.files }.setHandler i (.failed e err)
      | (.error .stopped, s) => { w with files := s.files }
    | _ => w
  | .finalize i =>
    match w.handlers i with
    | .written e =>
      match w.inner.finalizeCommit e with
      | .ok c => { w with inner := c }.setHandler i (.synced c)
      | .error _ => w.setHandler i (.synced w.inner)
    | _ => w
  | .abort i =>
    match w.handlers i with
    | .failed _ err =>
      let c := w.inner.abortEpoch s!"checkpoint storage write failed: {err.display}"
      { w with inner := c }.setHandler i (.synced c)
    | _ => w
  | .merge i =>
    match w.handlers i with
    | .synced c => { w with outer := w.outer.mergeCheckpointCoordinator c }.setHandler i .idle
    | _ => w

def run (w : World Bytes) (events : List Event) : World Bytes := Runs.run (act H) w events

/-- Both copies of a job's coordinator when the job is submitted, or recovered at a committed epoch. -/
def cold (jobId coordinatorId : Text) (interval expected : ℕ) (recovered : Option ℕ)
    (files : KVMap Path Bytes) : World Bytes :=
  let c := CheckpointCoordinator.new jobId coordinatorId interval expected
  let c := match recovered with
    | none => c
    | some e => { c with currentEpoch := e, state := .committed e }
  ⟨c, c, files, fun _ => .idle⟩

end World

open World

/-! ## Epochs never decrease -/

variable {H} {w : World Bytes}

lemma abortEpoch_key (c : CheckpointCoordinator) (reason : String) :
    c.progressKey ≤ (c.abortEpoch reason).progressKey := by
  rcases abortEpoch_cases c reason with h | ⟨e, hstate, h⟩
  · rw [h]
  rw [h]
  have hr : stateRank c.state ≤ 3 := stateRank_le c.state
  simp only [progressKey, aborted, stateRank] at *
  omega

lemma handleAck_key (c : CheckpointCoordinator) (ack : CheckpointAckRequest) (now : ℕ) :
    c.progressKey ≤ (c.handleAck ack now).2.progressKey := by
  obtain ⟨hepoch, -, h⟩ := handleAck_cases c ack now
  rcases h with ⟨-, hstate⟩ | ⟨t, commit, hbefore, -, hstate⟩
  · simp [progressKey, hepoch, hstate]
  · simp only [progressKey, hepoch, hstate, hbefore, stateRank]
    omega

/-- The outer copy never goes back by epoch, and the inner one not by stage either. -/
lemma act_epochs (w : World Bytes) (ev : Event) : w.outer.currentEpoch ≤ (w.act H ev).outer.currentEpoch ∧
    w.inner.progressKey ≤ (w.act H ev).inner.progressKey := by
  have hrefl : w.outer.currentEpoch ≤ w.outer.currentEpoch ∧ w.inner.progressKey ≤ w.inner.progressKey :=
    ⟨le_rfl, le_rfl⟩
  cases ev with
  | heartbeat running elapsed timeout now =>
    exact ⟨(outerStep_heartbeat w.outer running elapsed timeout now).epoch, le_rfl⟩
  | initiate now => exact ⟨(outerStep_initiate ⟨rfl, rfl, rfl, rfl⟩ now).epoch, le_rfl⟩
  | savepointJob running label now => exact ⟨(outerStep_savepointJob w.outer running label now).epoch, le_rfl⟩
  | apply => exact ⟨le_rfl, le_applyMonotonicFrom w.inner w.outer⟩
  | ack i ack now =>
    simp only [act]
    split
    · split
      · exact ⟨le_rfl, handleAck_key w.inner ack now⟩
      · exact ⟨le_rfl, handleAck_key w.inner ack now⟩
    · exact hrefl
  | store i script =>
    simp only [act]
    split
    · split <;> exact hrefl
    · exact hrefl
  | finalize i =>
    simp only [act]
    split
    · next e hi =>
      split
      · next c hfin =>
        have hstate := finalizeCommit_ok hfin
        obtain ⟨c', hfin', hc', hepoch, -⟩ := finalizeCommit_of_committing hstate
        rw [hfin] at hfin'
        cases hfin'
        refine ⟨le_rfl, ?_⟩
        simp only [setHandler, progressKey, hc', hepoch, hstate, stateRank]
        omega
      · exact hrefl
    · exact hrefl
  | abort i =>
    simp only [act]
    split
    · exact ⟨le_rfl, abortEpoch_key w.inner _⟩
    · exact hrefl
  | merge i =>
    simp only [act]
    split
    · next c hi => exact ⟨currentEpoch_le_of_progressKey (le_merge w.outer c), le_rfl⟩
    · exact hrefl

lemma run_epochs (w : World Bytes) (events : List Event) :
    w.outer.currentEpoch ≤ (w.run H events).outer.currentEpoch ∧
      w.inner.currentEpoch ≤ (w.run H events).inner.currentEpoch := by
  refine Runs.run_invariant (I := fun w' : World Bytes => w.outer.currentEpoch ≤ w'.outer.currentEpoch ∧
    w.inner.currentEpoch ≤ w'.inner.currentEpoch) (fun w' ev h => ?_) events ⟨le_rfl, le_rfl⟩
  obtain ⟨hact, hkey⟩ := act_epochs w' ev
  exact ⟨h.1.trans hact, h.2.trans (currentEpoch_le_of_progressKey hkey)⟩

/-! ## The invariant -/

/-- The epoch a request is committing. -/
def Handler.active : Handler → Option ℕ
  | .writing e _ => some e
  | .written e => some e
  | .failed e _ => some e
  | _ => none

/-- What is known of a copy that may be merged: it is tidy, it has the token of the inner one, and if it
has seen a quorum then the inner one is at least as far. -/
structure Behind (inner c : CheckpointCoordinator) : Prop where
  tidy : Tidy c
  token : c.fencingToken = inner.fencingToken
  advanced : Advanced c → c.progressKey ≤ inner.progressKey

/-- At most one request is committing, and the inner copy is committing its epoch. -/
structure Inv (w : World Bytes) : Prop where
  inner : Tidy w.inner
  outer : Behind w.inner w.outer
  copies : ∀ i c, w.handlers i = .synced c → Behind w.inner c
  active : ∀ i e, (w.handlers i).active = some e → w.inner.state = .committing e
  single : ∀ i j e e', (w.handlers i).active = some e → (w.handlers j).active = some e' → i = j

variable {inner : CheckpointCoordinator}

lemma Behind.mono {inner' : CheckpointCoordinator} (h : Behind inner c)
    (htoken : inner'.fencingToken = inner.fencingToken) (hkey : inner.progressKey ≤ inner'.progressKey) :
    Behind inner' c :=
  ⟨h.tidy, h.token.trans htoken.symm, fun ha => (h.advanced ha).trans hkey⟩

lemma Behind.refl (h : Tidy c) : Behind c c := ⟨h, rfl, fun _ => le_rfl⟩

lemma Behind.outerStep (h : Behind inner c) (hs : OuterStep c c') : Behind inner c' := by
  refine ⟨hs.tidy h.tidy, hs.token.trans h.token, fun ha => ?_⟩
  obtain ⟨ha', hkey⟩ := hs.advanced ha
  rw [hkey]
  exact h.advanced ha'

section

variable (hinv : Inv w)

include hinv

/-- A step of the outer copy alone. -/
lemma Inv.setOuter (hs : OuterStep w.outer c) : Inv { w with outer := c } :=
  { hinv with outer := hinv.outer.outerStep hs }

/-- A merge of the outer copy that is not past the epoch being committed leaves the inner one alone. -/
lemma apply_of_committing {e : ℕ} (hstate : w.inner.state = .committing e)
    (hle : w.outer.currentEpoch ≤ e) : w.inner.applyMonotonicFrom w.outer = w.inner := by
  have he : e = w.inner.currentEpoch := by
    have h := hinv.inner
    unfold Tidy at h
    rwa [hstate] at h
  have hkey : w.inner.progressKey = 4 * e + 2 := by simp only [progressKey, hstate, stateRank, he]
  have htoken := hinv.outer.token
  unfold applyMonotonicFrom
  split
  · rfl
  next hstale =>
  rcases merge_cases w.inner w.outer with ⟨h, -⟩ | ⟨-, hfurther⟩
  · exact h
  -- only a terminal stage of the same epoch is further
  exfalso
  have hrank := stateRank_le w.outer.state
  have houter : w.outer.progressKey = 4 * w.outer.currentEpoch + stateRank w.outer.state := rfl
  have hcur : w.outer.currentEpoch = e ∧ stateRank w.outer.state = 3 := by omega
  have htidy := hinv.outer.tidy
  unfold Tidy at htidy
  cases hs : w.outer.state with
  | idle | awaitingAcks e' t | committing e' => simp [hs, stateRank] at hcur
  | committed e' =>
    have hle' := hinv.outer.advanced (.inr ⟨e', hs⟩)
    omega
  | failed e' r =>
    simp only [hs] at htidy
    exact hstale (by simp [staleTimeout, hstate, hs, htidy, hcur.1])

/-- A request moves on, and with it the inner copy. -/
lemma Inv.move {i : ℕ} {h : Handler} (files : KVMap Path Bytes) (htidy : Tidy c)
    (htoken : c.fencingToken = w.inner.fencingToken) (hkey : w.inner.progressKey ≤ c.progressKey)
    (hcopy : ∀ c', h = .synced c' → Behind c c') (hact : ∀ e, h.active = some e →
      c.state = .committing e ∧ ∀ j e', (w.handlers j).active = some e' → j = i)
    (hothers : ∀ j e, j ≠ i → (w.handlers j).active = some e → c.state = .committing e) :
    Inv ({ w with inner := c, files := files }.setHandler i h) := by
  refine ⟨htidy, hinv.outer.mono htoken hkey, fun j c' hj => ?_, fun j e hj => ?_, fun j k e e' hj hk => ?_⟩
  · by_cases hji : j = i
    · subst hji
      exact hcopy c' (by simpa [setHandler] using hj)
    · exact (hinv.copies j c' (by simpa [setHandler, hji] using hj)).mono htoken hkey
  · by_cases hji : j = i
    · subst hji
      exact (hact e (by simpa [setHandler] using hj)).1
    · exact hothers j e hji (by simpa [setHandler, hji] using hj)
  by_cases hji : j = i
  · by_cases hki : k = i
    · rw [hji, hki]
    · subst hji
      exact ((hact e (by simpa [setHandler] using hj)).2 k e' (by simpa [setHandler, hki] using hk)).symm
  · have hj' : (w.handlers j).active = some e := by simpa [setHandler, hji] using hj
    by_cases hki : k = i
    · subst hki
      exact (hact e' (by simpa [setHandler] using hk)).2 j e hj'
    · exact hinv.single j k e e' hj' (by simpa [setHandler, hki] using hk)

/-- A request moves on with the same epoch. -/
lemma Inv.progress {i e : ℕ} {h : Handler} (hbefore : (w.handlers i).active = some e)
    (hafter : h.active = some e) (files : KVMap Path Bytes) : Inv ({ w with files := files }.setHandler i h) := by
  refine hinv.move files hinv.inner rfl le_rfl (fun c hc => ?_) (fun e' he' => ?_)
    fun j e' _ hj => hinv.active j e' hj
  · rw [hc] at hafter
    cases hafter
  · cases hafter.symm.trans he'
    exact ⟨hinv.active i e hbefore, fun j e' hj => hinv.single j i e' e hj hbefore⟩

/-- The request that was committing ends, and the inner copy goes on. -/
lemma Inv.close {i e : ℕ} (hbefore : (w.handlers i).active = some e) (htidy : Tidy c)
    (htoken : c.fencingToken = w.inner.fencingToken) (hkey : w.inner.progressKey ≤ c.progressKey) :
    Inv ({ w with inner := c }.setHandler i (.synced c)) := by
  refine hinv.move w.files htidy htoken hkey (fun c' hc => ?_) (fun e he => by cases he)
    fun j e' hji hj => absurd (hinv.single j i e' e hj hbefore) hji
  cases hc
  exact Behind.refl htidy

/-! ## The condition and the steps -/

/-- The outer copy is not merged into the inner one while it is past the epoch being committed. -/
def Fine (w : World Bytes) : Event → Prop
  | .apply => ∀ e, w.inner.state = .committing e → w.outer.currentEpoch ≤ e
  | _ => True

lemma Inv.apply (hfine : Fine w .apply) : Inv (w.act H .apply) := by
  by_cases hcom : ∃ e, w.inner.state = .committing e
  · obtain ⟨e, hstate⟩ := hcom
    have hsame := apply_of_committing hinv hstate (hfine e hstate)
    have hw : w.act H .apply = w := by simp only [act, hsame]
    rw [hw]
    exact hinv
  -- nothing is being committed, so no request has an epoch in flight
  have hidle : ∀ i e, (w.handlers i).active ≠ some e := fun i e h => hcom ⟨e, hinv.active i e h⟩
  have hkey := le_applyMonotonicFrom w.inner w.outer
  have hone : w.inner.applyMonotonicFrom w.outer = w.inner ∨ w.inner.applyMonotonicFrom w.outer = w.outer := by
    unfold applyMonotonicFrom
    split
    · exact .inl rfl
    · rcases merge_cases w.inner w.outer with ⟨h, -⟩ | ⟨h, -⟩
      · exact .inl h
      · exact .inr h
  have htoken : (w.inner.applyMonotonicFrom w.outer).fencingToken = w.inner.fencingToken := by
    rcases hone with h | h
    · rw [h]
    · rw [h]; exact hinv.outer.token
  have htidy : Tidy (w.inner.applyMonotonicFrom w.outer) := by
    rcases hone with h | h
    · rw [h]; exact hinv.inner
    · rw [h]; exact hinv.outer.tidy
  exact ⟨htidy, hinv.outer.mono htoken hkey, fun i c hi => (hinv.copies i c hi).mono htoken hkey,
    fun i e hi => absurd hi (hidle i e), fun i _ e _ hi _ => absurd hi (hidle i e)⟩

lemma Inv.ack (i : ℕ) (ack : CheckpointAckRequest) (now : ℕ) : Inv (w.act H (.ack i ack now)) := by
  simp only [act]
  split
  · next hi =>
    obtain ⟨hepoch, htoken, hcases⟩ := handleAck_cases w.inner ack now
    have hkey := handleAck_key w.inner ack now
    rcases hcases with ⟨hnone, hstate⟩ | ⟨t, commit, hbefore, hsome, hstate⟩
    · simp only [hnone]
      exact ⟨hinv.inner.congr hstate hepoch, hinv.outer.mono htoken hkey, fun j c hj => (hinv.copies j c hj).mono htoken hkey,
        fun j e hj => hstate.trans (hinv.active j e hj), hinv.single⟩
    -- before, the epoch was waiting for acks, so nothing was being committed
    have hidle : ∀ j e, (w.handlers j).active ≠ some e := fun j e h => by
      have hcom := hinv.active j e h
      rw [hbefore] at hcom
      cases hcom
    have htidy : ack.epoch = w.inner.currentEpoch := by
      have h := hinv.inner
      unfold Tidy at h
      rwa [hbefore] at h
    simp only [hsome]
    refine hinv.move w.files ?_ htoken hkey (fun c hc => by cases hc) (fun e he => ?_)
      fun j e _ hj => absurd hj (hidle j e)
    · unfold Tidy
      rw [hstate]
      exact htidy.trans hepoch.symm
    · cases he
      exact ⟨hstate, fun j e hj => absurd hj (hidle j e)⟩
  · exact hinv

lemma Inv.store (i : ℕ) (script : List CallOutcome) : Inv (w.act H (.store i script)) := by
  simp only [act]
  split
  · next e commit hi =>
    have hbefore : (w.handlers i).active = some e := by rw [hi]; rfl
    split
    · exact hinv.progress hbefore rfl _
    · exact hinv.progress hbefore rfl _
    · exact { hinv with }
  · exact hinv

lemma Inv.finalize (i : ℕ) : Inv (w.act H (.finalize i)) := by
  simp only [act]
  split
  · next e hi =>
    have hbefore : (w.handlers i).active = some e := by rw [hi]; rfl
    have hstate := hinv.active i e hbefore
    obtain ⟨c, hfin, hc, hepoch, htoken⟩ := finalizeCommit_of_committing hstate
    simp only [hfin]
    refine hinv.close hbefore ?_ htoken ?_
    · have h := hinv.inner
      unfold Tidy at h ⊢
      rw [hstate] at h
      rw [hc]
      exact h.trans hepoch.symm
    · simp only [progressKey, hc, hepoch, hstate, stateRank]
      omega
  · exact hinv

lemma Inv.abort (i : ℕ) : Inv (w.act H (.abort i)) := by
  simp only [act]
  split
  · next e err hi =>
    have hbefore : (w.handlers i).active = some e := by rw [hi]; rfl
    refine hinv.close hbefore ?_ ?_ (abortEpoch_key w.inner _)
    · rcases abortEpoch_cases w.inner s!"checkpoint storage write failed: {err.display}"
        with h | ⟨e', hstate, h⟩
      · rw [h]; exact hinv.inner
      · rw [h]; exact tidy_aborted hstate hinv.inner _
    · rcases abortEpoch_cases w.inner s!"checkpoint storage write failed: {err.display}"
        with h | ⟨e', hstate, h⟩ <;> rw [h]
      rfl
  · exact hinv

lemma Inv.merge (i : ℕ) : Inv (w.act H (.merge i)) := by
  simp only [act]
  split
  · next c hi =>
    have houter : Behind w.inner (w.outer.mergeCheckpointCoordinator c) := by
      rcases merge_cases w.outer c with ⟨h, -⟩ | ⟨h, -⟩
      · rw [h]; exact hinv.outer
      · rw [h]; exact hinv.copies i c hi
    have hset : Inv { w with outer := w.outer.mergeCheckpointCoordinator c } := { hinv with outer := houter }
    exact hset.move w.files hinv.inner rfl le_rfl (fun c hc => by cases hc) (fun e he => by cases he)
      fun j e _ hj => hinv.active j e hj
  · exact hinv

lemma Inv.act {ev : Event} (hfine : Fine w ev) : Inv (w.act H ev) := by
  cases ev with
  | heartbeat running elapsed timeout now =>
    exact hinv.setOuter (outerStep_heartbeat w.outer running elapsed timeout now)
  | initiate now => exact hinv.setOuter (outerStep_initiate ⟨rfl, rfl, rfl, rfl⟩ now)
  | savepointJob running label now => exact hinv.setOuter (outerStep_savepointJob w.outer running label now)
  | apply => exact hinv.apply hfine
  | ack i ack now => exact hinv.ack i ack now
  | store i script => exact hinv.store i script
  | finalize i => exact hinv.finalize i
  | abort i => exact hinv.abort i
  | merge i => exact hinv.merge i

/-! ## The result -/

variable (H) in
/-- Every event of the run meets the condition when it happens. -/
def FineRun : World Bytes → List Event → Prop := Runs.Along (World.act H) Fine

lemma Inv.run {events : List Event} (hfine : FineRun H w events) : Inv (w.run H events) :=
  Runs.Along.invariant (I := Inv) (fun _ _ hfine hinv => hinv.act hfine) hfine hinv

end

lemma Inv.cold (jobId coordinatorId : Text) (interval expected : ℕ) (recovered : Option ℕ)
    (files : KVMap Path Bytes) : Inv (World.cold jobId coordinatorId interval expected recovered files) := by
  have htidy : Tidy (World.cold jobId coordinatorId interval expected recovered files).inner := by
    cases recovered with
    | none => trivial
    | some e => exact rfl
  exact ⟨htidy, Behind.refl htidy, (fun i c hi => by cases hi), (fun i e hi => by cases hi),
    fun i j e e' hi _ => by cases hi⟩

/-- In every run in which the outer copy is never merged while it is past the epoch being committed,
epochs do not decrease in either copy, and an epoch whose storage write has returned `Ok` can be
finalised, which reports it committed. -/
theorem written_is_finalized (jobId coordinatorId : Text) (interval expected : ℕ)
    (recovered : Option ℕ) (files : KVMap Path Bytes) (events : List Event)
    (hfine : FineRun H (World.cold jobId coordinatorId interval expected recovered files) events) :
    let start := World.cold jobId coordinatorId interval expected recovered files
    (∀ before after, events = before ++ after →
        (start.run H before).outer.currentEpoch ≤ (start.run H events).outer.currentEpoch ∧
          (start.run H before).inner.currentEpoch ≤ (start.run H events).inner.currentEpoch) ∧
      ∀ i e, (start.run H events).handlers i = .written e →
        ∃ c, (start.run H events).inner.finalizeCommit e = .ok c ∧ c.state = .committed e := by
  refine ⟨fun before after hsplit => ?_, fun i e hi => ?_⟩
  · rw [hsplit, run, run, Runs.run_append]
    exact run_epochs _ after
  have hinv := (Inv.cold jobId coordinatorId interval expected recovered files).run hfine
  have hstate := hinv.active i e (by rw [hi]; rfl)
  obtain ⟨c, hfin, hc, -⟩ := finalizeCommit_of_committing hstate
  exact ⟨c, hfin, hc⟩

/-! ## Two runs -/

/-- A job with one task, whose interval has passed at the first heartbeat. -/
def oneTask : World Tagged := .cold ['j'] ['c'] 10 1 none ∅

/-- The ack of the task for epoch 1. -/
def theAck : CheckpointAckRequest := ⟨['j'], ['o'], ['t'], 1, initialToken, [], none, []⟩

/-- Epoch 1 is initiated, acknowledged and written. -/
def writtenRun : List Event := [.heartbeat 1 10 100 0, .apply, .ack 0 theAck 0, .store 0 []]

theorem writtenRun_finalized : (oneTask.run Host.tagged writtenRun).handlers 0 = .written 1 ∧
      ∃ c, (oneTask.run Host.tagged writtenRun).inner.finalizeCommit 1 = .ok c ∧
      c.state = .committed 1 := by
  have hfine : FineRun Host.tagged oneTask writtenRun :=
    ⟨trivial, fun e h => (nomatch h), trivial, trivial, trivial⟩
  exact ⟨rfl, (written_is_finalized ['j'] ['c'] 10 1 none ∅ writtenRun hfine).2 0 1 rfl⟩

/-- While epoch 1 is being written, the outer copy times it out (the merge skips that) and initiates
epoch 2, which the next merge takes over. -/
def overtakenRun : List Event :=
  [.heartbeat 1 10 100 0, .apply, .ack 0 theAck 0, .heartbeat 1 100 100 0, .apply,
    .heartbeat 1 10 100 0, .apply, .store 0 []]

/-- The write has returned `Ok` and recovery would restore epoch 1, but it cannot be finalised: the
inner copy waits for the acks of epoch 2. -/
theorem overtakenRun_lost : (oneTask.run Host.tagged overtakenRun).handlers 0 = .written 1 ∧
      (latestValidEpoch Host.tagged ['j']).eval (oneTask.run Host.tagged overtakenRun).files = .ok 1 ∧
      (oneTask.run Host.tagged overtakenRun).inner.state = .awaitingAcks 2 0 ∧
      ((oneTask.run Host.tagged overtakenRun).inner.finalizeCommit 1).isOk = false :=
  ⟨rfl, by decide +kernel, rfl, rfl⟩

end ThreePhase

end Krishiv.Scheduler
