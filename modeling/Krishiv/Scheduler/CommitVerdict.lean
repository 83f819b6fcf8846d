import Krishiv.Lib.Runs
import Krishiv.Scheduler.CommitWrites

/-!
# The verdict on an epoch and what storage says

An epoch waits for its acks; each ack that completes them, and each repetition of one, starts a commit
whose storage calls may fail. On one path a failed commit leaves the epoch waiting for a retry, on the
other it is given up. The coordinator's verdict should agree with what a restart would find.

It need not. The hint is written after the manifest has sealed the epoch, so when that last write fails
the epoch is given up although it is the latest valid one (`unhintedRun_sealed`), and a retry is refused
because the epoch is already there. `verdict_agrees_iff` says exactly when verdict and storage agree.
-/

namespace Krishiv.Scheduler

open Krishiv.State

namespace Verdict

open CheckpointCoordinator

structure World (Bytes : Type) where
  coord : CheckpointCoordinator
  files : KVMap Path Bytes
  /-- The process has not stopped. -/
  up : Bool

/-- Each ack comes with the fate of the storage calls it causes. -/
inductive Event where
  | receiveAck (ack : CheckpointAckRequest) (now : ℕ) (script : List CallOutcome)
  | checkpointAck (ack : CheckpointAckRequest) (now : ℕ) (script : List CallOutcome)
  | abortEpoch (reason : String)

variable {Bytes : Type} (H : Host Bytes)

namespace World

/-- The world after a call that delivered an ack. -/
def after (w : World Bytes) :
    Except (Halt CheckpointError) (Except String Bool × CheckpointCoordinator) × Backend Path Bytes → World Bytes
  | (.ok (_, c), s) => ⟨c, s.files, true⟩
  | (.error _, s) => ⟨w.coord, s.files, false⟩

def act (w : World Bytes) (ev : Event) : World Bytes :=
  if w.up then
    match ev with
    | .receiveAck ack now script => w.after (w.coord.receiveAck H ack now ⟨w.files, script⟩)
    | .checkpointAck ack now script => w.after (checkpointAck H w.coord ack now ⟨w.files, script⟩)
    | .abortEpoch reason => { w with coord := w.coord.abortEpoch reason }
  else w

def run (w : World Bytes) (events : List Event) : World Bytes := Runs.run (act H) w events

end World

open World

/-- The epoch is reported committed exactly if a restart would find it as the latest one. -/
def Agrees (job : Text) (e : ℕ) (w : World Bytes) : Prop :=
  (w.coord.state = .committed e → (latestValidEpoch H job).eval w.files = .ok e) ∧
    (w.coord.state ≠ .committed e → (latestValidEpoch H job).eval w.files ≠ .ok e)

/-! ## The condition -/

/-- All snapshot paths of the commit can be recorded in its manifest. -/
def Readable (commit : PendingCommit) : Prop :=
  ∀ snap ∈ commit.operatorSnapshots, Recordable commit.epoch (snapshotRel snap.operatorId snap.taskId)

/-- If only the metadata gets written, no manifest that is already there fits it; if the manifest gets
written, the commit reports success exactly if the manifest can be read. -/
def ProgressFine (commit : PendingCommit) (files : KVMap Path Bytes) : Progress → Prop
  | .nothing => True
  | .metadata _ => ¬ Valid H commit.jobId (withMetadata H commit files) commit.epoch
  | .manifest r => (∃ n, r = .ok n) ↔ Readable commit

/-- The condition on an ack: the commit that it starts, if it starts one, makes fine progress. -/
def AckFine (w : World Bytes) (ack : CheckpointAckRequest) (now : ℕ) (script : List CallOutcome) : Prop :=
  w.up = true → ∀ e t c', w.coord.state = .awaitingAcks e t → w.coord.recordAck ack e = .ok c' →
    c'.hasQuorum = true →
      ProgressFine H (c'.commitData e now) w.files (progress H (c'.commitData e now) ⟨w.files, script⟩)

def Fine (w : World Bytes) : Event → Prop
  | .receiveAck ack now script => AckFine H w ack now script
  | .checkpointAck ack now script => AckFine H w ack now script
  | .abortEpoch _ => True

def FineRun : World Bytes → List Event → Prop := Runs.Along (World.act H) (Fine H)

/-! ## One attempt -/

variable {H} {job : Text} {files files' : KVMap Path Bytes} {commit : PendingCommit} {e t now : ℕ}
  {c c' : CheckpointCoordinator} {ack : CheckpointAckRequest} {w : World Bytes}

/-- With nothing valid above it, an epoch is the latest one exactly if it is valid. -/
lemma latest_iff_valid (h : ∀ e' > e, Skipped H job files e') :
    (latestValidEpoch H job).eval files = .ok e ↔ Valid H job files e := by
  rw [latestValidEpoch_ok_iff]
  exact and_iff_left h

variable {r : Except (Halt CheckpointError) ℕ} {p : Progress}

/-- A commit writes below its own epoch. -/
lemma lookup_other (hleaves : CommitLeaves H commit files p r files') {e' : ℕ}
    (hne : e' ≠ commit.epoch) (rel : Text) :
    files'.lookup (.checkpoint e' rel) = files.lookup (.checkpoint e' rel) := by
  have hmeta : (withMetadata H commit files).lookup (.checkpoint e' rel) = files.lookup (.checkpoint e' rel) :=
    AList.lookup_insert_ne fun heq => hne (by injection heq)
  cases hleaves with
  | nothing _ => rfl
  | metadata _ _ => exact hmeta
  | manifest _ _ hfiles =>
    rw [hfiles _ (by simp), withManifest, AList.lookup_insert_ne fun heq => hne (by injection heq)]
    exact hmeta

/-- When a commit has written something, its epoch was not valid before, and is the latest valid one
now exactly if it is valid now. -/
lemma latest_after_write (hguard : Guarded H files commit.jobId commit.epoch commit.metadata)
    (hleaves : CommitLeaves H commit files p r files') :
    (latestValidEpoch H commit.jobId).eval files ≠ .ok commit.epoch ∧
      ((latestValidEpoch H commit.jobId).eval files' = .ok commit.epoch ↔
        Valid H commit.jobId files' commit.epoch) := by
  constructor
  · intro hlatest
    exact (hguard.skipped _ le_rfl).not_valid (latestValidEpoch_ok_iff.mp hlatest).1
  · refine latest_iff_valid fun e' he' => ?_
    exact (hguard.skipped e' (le_of_lt he')).congr (lookup_other hleaves he'.ne')

variable (H) in
/-- Storage says of the epoch what a commit that answered `r` should mean. -/
def Says (job : Text) (e : ℕ) (files : KVMap Path Bytes) : Except (Halt CheckpointError) ℕ → Prop
  | .ok _ => (latestValidEpoch H job).eval files = .ok e
  | .error _ => (latestValidEpoch H job).eval files ≠ .ok e

/-- What storage says after an attempt, against its condition. -/
lemma latest_after_commit (hplaced : Placed commit) (hleaves : CommitLeaves H commit files p r files') :
    ((latestValidEpoch H commit.jobId).eval files ≠ .ok commit.epoch ∧ ProgressFine H commit files p) ↔
      Says H commit.jobId commit.epoch files' r := by
  have hcopy := hleaves
  cases hleaves with
  | nothing h => simp [ProgressFine, Says]
  | metadata h hguard =>
    obtain ⟨hbefore, hafter⟩ := latest_after_write hguard hcopy
    simp [ProgressFine, Says, hbefore, hafter]
  | @manifest r fs files' hguard hread hfiles =>
    obtain ⟨hbefore, hafter⟩ := latest_after_write hguard hcopy
    have hsealed := sealed_of_manifest hplaced hread hfiles
    -- the epoch is valid exactly if its paths can be recorded
    have hvalid : Valid H commit.jobId files' commit.epoch ↔ Readable commit := by
      rw [hsealed.valid_iff hguard.identity]
      constructor
      · intro hrec snap hsnap
        have hmem : snapshotRel snap.operatorId snap.taskId ∈ fs.map Prod.fst := by
          rw [(readAcked_ok hread).1]
          exact List.mem_map_of_mem hsnap
        obtain ⟨f, hf, heq⟩ := List.mem_map.mp hmem
        rw [← heq]
        exact hrec f hf
      · intro hread' f hf
        obtain ⟨snap, hsnap, heq⟩ := mem_readAcked hread hf
        rw [heq]
        exact hread' snap hsnap
    rw [hvalid] at hafter
    cases r with
    | error h | ok n => simp [ProgressFine, Says, hbefore, hafter]

/-! ## Runs that do nothing more -/

/-- No further event changes anything. -/
def Still (w : World Bytes) : Prop :=
  w.up = false ∨ (∃ e, w.coord.state = .committed e) ∨ ∃ e r, w.coord.state = .failed e r

lemma Still.not_awaiting (h : Still w) (hup : w.up = true) : ∀ e t, w.coord.state ≠ .awaitingAcks e t := by
  intro e t hstate
  rcases h with h | ⟨e', h⟩ | ⟨e', r, h⟩
  · rw [hup] at h; cases h
  · rw [hstate] at h; cases h
  · rw [hstate] at h; cases h

variable {script : List CallOutcome}

lemma after_refused {onCommit : CheckpointCoordinator → ℕ → CheckpointCoordinator}
    {onError : CheckpointCoordinator → ℕ → CheckpointError → CheckpointCoordinator}
    (hup : w.up = true) (hrest : ∀ e t, w.coord.state ≠ .awaitingAcks e t)
    {out : Except (Halt CheckpointError) (Except String Bool × CheckpointCoordinator) × Backend Path Bytes}
    (hrun : AckRun H onCommit onError w.coord ack now ⟨w.files, script⟩ out) : w.after out = w := by
  cases hrun with
  | refused m _ => cases w; cases hup; rfl
  | recorded hstate | committed hstate | failed m hstate | stopped hstate => exact absurd hstate (hrest _ _)

lemma Still.act (h : Still w) (ev : Event) : w.act H ev = w ∧ Fine H w ev := by
  by_cases hup : w.up = true
  · have hrest := h.not_awaiting hup
    have hfine : ∀ ack now script, AckFine H w ack now script :=
      fun ack now script _ e t c' hstate => absurd hstate (hrest e t)
    simp only [World.act, hup, if_true]
    cases ev with
    | receiveAck ack now script =>
      exact ⟨after_refused hup hrest (receiveAck_run H w.coord ack now _), hfine _ _ _⟩
    | checkpointAck ack now script =>
      exact ⟨after_refused hup hrest (checkpointAck_run H w.coord ack now _), hfine _ _ _⟩
    | abortEpoch reason =>
      refine ⟨?_, trivial⟩
      have habort : w.coord.abortEpoch reason = w.coord := by
        rcases h with h | ⟨e', h⟩ | ⟨e', r, h⟩
        · rw [hup] at h; cases h
        · simp [CheckpointCoordinator.abortEpoch, h]
        · simp [CheckpointCoordinator.abortEpoch, h]
      cases w
      cases hup
      exact congrArg (fun c => mk c _ true) habort
  · refine ⟨by simp [World.act, hup], ?_⟩
    cases ev with
    | receiveAck ack now script | checkpointAck ack now script => exact fun hup' => absurd hup' hup
    | abortEpoch reason => trivial

lemma Still.run (h : Still w) (events : List Event) : w.run H events = w ∧ FineRun H w events := by
  induction events with
  | nil => exact ⟨rfl, trivial⟩
  | cons ev events ih =>
    obtain ⟨hact, hfine⟩ := h.act (H := H) ev
    rw [World.run, Runs.run, List.foldl_cons, FineRun, Runs.Along, hact]
    exact ⟨ih.1, hfine, ih.2⟩

/-! ## All attempts -/

/-- The epoch `e` of the job waits for acks. -/
structure Open (job : Text) (e : ℕ) (w : World Bytes) : Prop where
  up : w.up = true
  job : w.coord.jobId = job
  waiting : ∃ t, w.coord.state = .awaitingAcks e t
  paths : PathsMatch w.coord e

lemma agrees_of_not_committed (h : w.coord.state ≠ .committed e) :
    Agrees H job e w ↔ (latestValidEpoch H job).eval w.files ≠ .ok e :=
  ⟨fun ha => ha.2 h, fun hl => ⟨fun hc => absurd hc h, fun _ => hl⟩⟩

lemma agrees_of_committed (h : w.coord.state = .committed e) :
    Agrees H job e w ↔ (latestValidEpoch H job).eval w.files = .ok e :=
  ⟨fun ha => ha.1 h, fun hl => ⟨fun _ => hl, fun hc => absurd h hc⟩⟩

section

variable (hopen : Open job e w)

include hopen

section

variable (hstate : w.coord.state = .awaitingAcks e t) (hrec : w.coord.recordAck ack e = .ok c')

include hstate hrec

/-- A commit that an ack starts, against the condition on the ack. -/
lemma fine_iff_of_commit {s' : Backend Path Bytes} (hquorum : c'.hasQuorum = true)
    (hcommit : commitStorage H (c'.commitData e now) ⟨w.files, script⟩ = (r, s')) :
    ((latestValidEpoch H job).eval w.files ≠ .ok e ∧ AckFine H w ack now script) ↔ Says H job e s'.files r := by
  have hfine : AckFine H w ack now script ↔ ProgressFine H (c'.commitData e now) w.files
        (progress H (c'.commitData e now) ⟨w.files, script⟩) := by
    refine ⟨fun h => h hopen.up e t c' hstate hrec hquorum, fun h _ e' t' c'' hstate' hrec' _ => ?_⟩
    rw [hstate] at hstate'
    cases hstate'
    rw [hrec] at hrec'
    cases hrec'
    exact h
  have hjob : c'.jobId = job := by
    rw [(recordAck_ok hrec).2.2]
    exact hopen.job
  have hleaves := commitStorage_leaves H (c'.commitData e now) ⟨w.files, script⟩
  rw [hcommit] at hleaves
  have hlatest := latest_after_commit (hopen.paths.recordAck hrec).placed hleaves
  rw [show (c'.commitData e now).jobId = job from hjob] at hlatest
  rw [hfine]
  exact hlatest

lemma Open.recordAck (files : KVMap Path Bytes) : Open job e (⟨c', files, true⟩ : World Bytes) := by
  refine ⟨rfl, ?_, ⟨t, ?_⟩, hopen.paths.recordAck hrec⟩
  · rw [(recordAck_ok hrec).2.2]
    exact hopen.job
  · rw [(recordAck_ok hrec).2.2]
    exact hstate

end

lemma Open.epoch_eq {e' : ℕ} (hstate : w.coord.state = .awaitingAcks e' t) : e = e' := by
  obtain ⟨t₀, hwait⟩ := hopen.waiting
  rw [hwait] at hstate
  injection hstate

/-- One delivered ack, with the result for the events that follow as hypothesis. -/
lemma agrees_ack {onCommit : CheckpointCoordinator → ℕ → CheckpointCoordinator}
    {onError : CheckpointCoordinator → ℕ → CheckpointError → CheckpointCoordinator} {events : List Event}
    {out : Except (Halt CheckpointError) (Except String Bool × CheckpointCoordinator) × Backend Path Bytes}
    (hrun : AckRun H onCommit onError w.coord ack now ⟨w.files, script⟩ out)
    (honCommit : ∀ c e, (onCommit c e).state = .committed e)
    (honError : ∀ c e err, onError c e err = c ∨ ∃ r, (onError c e err).state = .failed e r)
    (ih : ∀ w' : World Bytes, Open job e w' →
      (Agrees H job e (w'.run H events) ↔ (latestValidEpoch H job).eval w'.files ≠ .ok e ∧ FineRun H w' events)) :
    Agrees H job e ((w.after out).run H events) ↔
      ((latestValidEpoch H job).eval w.files ≠ .ok e ∧ AckFine H w ack now script) ∧
        FineRun H (w.after out) events := by
  cases hrun with
  | refused m hno =>
    have hsame : w.after (.ok (.error m, w.coord), ⟨w.files, script⟩) = w := by
      cases w; cases hopen.up; rfl
    have hfine : AckFine H w ack now script := by
      intro _ e' t' c' hstate hrec _
      rw [records_of_recordAck hstate hrec] at hno
      cases hno
    rw [hsame, ih w hopen, and_iff_left hfine]
  | @recorded e' t' c' hstate hrec hquorum =>
    obtain rfl := hopen.epoch_eq hstate
    have hfine : AckFine H w ack now script := by
      intro _ e' t' c'' hstate' hrec' hquorum'
      rw [hstate] at hstate'
      cases hstate'
      rw [hrec] at hrec'
      cases hrec'
      rw [hquorum] at hquorum'
      cases hquorum'
    rw [and_iff_left hfine]
    exact ih _ (hopen.recordAck hstate hrec w.files)
  | @committed e' t' n c' s' hstate hrec hquorum hcommit =>
    obtain rfl := hopen.epoch_eq hstate
    have hstill : Still (w.after (.ok (.ok true, onCommit c' e), s')) := .inr (.inl ⟨e, honCommit c' e⟩)
    obtain ⟨hrest, hfines⟩ := hstill.run (H := H) events
    rw [hrest, agrees_of_committed (honCommit c' e), fine_iff_of_commit hopen hstate hrec hquorum hcommit,
      and_iff_left hfines]
    rfl
  | @failed e' t' c' err s' m hstate hrec hquorum hcommit =>
    obtain rfl := hopen.epoch_eq hstate
    rw [fine_iff_of_commit hopen hstate hrec hquorum hcommit]
    rcases honError c' e err with hstay | ⟨r, hfailed⟩
    · -- the epoch goes on waiting, with whatever was written
      have hafter : w.after (.ok (.error m, onError c' e err), s') = ⟨c', s'.files, true⟩ := by
        rw [hstay]; rfl
      rw [hafter]
      exact ih _ (hopen.recordAck hstate hrec s'.files)
    have hstill : Still (w.after (.ok (.error m, onError c' e err), s')) := .inr (.inr ⟨e, r, hfailed⟩)
    have hnot : (w.after (.ok (.error m, onError c' e err), s')).coord.state ≠ .committed e := by
      intro h
      have hboth := hfailed.symm.trans h
      cases hboth
    obtain ⟨hrest, hfines⟩ := hstill.run (H := H) events
    rw [hrest, agrees_of_not_committed hnot, and_iff_left hfines]
    rfl
  | @stopped e' t' c' s' hstate hrec hquorum hcommit =>
    obtain rfl := hopen.epoch_eq hstate
    have hstill : Still (w.after (.error .stopped, s')) := .inl rfl
    have hnot : (w.after (.error .stopped, s')).coord.state ≠ .committed e := by
      intro h
      have hboth := hstate.symm.trans h
      cases hboth
    obtain ⟨hrest, hfines⟩ := hstill.run (H := H) events
    rw [hrest, agrees_of_not_committed hnot, fine_iff_of_commit hopen hstate hrec hquorum hcommit,
      and_iff_left hfines]
    rfl

end

lemma agrees_iff (events : List Event) (hopen : Open job e w) : Agrees H job e (w.run H events) ↔
      (latestValidEpoch H job).eval w.files ≠ .ok e ∧ FineRun H w events := by
  induction events generalizing w with
  | nil =>
    obtain ⟨t, hwait⟩ := hopen.waiting
    have hnot : w.coord.state ≠ .committed e := by
      intro h
      rw [hwait] at h
      cases h
    rw [FineRun, Runs.Along, and_true]
    exact agrees_of_not_committed hnot
  | cons ev events ih =>
    have hcons : FineRun H w (ev :: events) ↔ Fine H w ev ∧ FineRun H (w.act H ev) events := .rfl
    rw [hcons, ← and_assoc]
    show Agrees H job e ((w.act H ev).run H events) ↔ _
    have ih' : ∀ w' : World Bytes, Open job e w' → (Agrees H job e (w'.run H events) ↔
        (latestValidEpoch H job).eval w'.files ≠ .ok e ∧ FineRun H w' events) := fun w' h => ih h
    cases ev with
    | receiveAck ack now script =>
      have hact : w.act H (.receiveAck ack now script) =
          w.after (w.coord.receiveAck H ack now ⟨w.files, script⟩) := by
        simp [act, hopen.up]
      rw [hact]
      exact agrees_ack hopen (receiveAck_run H w.coord ack now _) (fun c e => rfl)
        (fun c e err => .inl rfl) ih'
    | checkpointAck ack now script =>
      have hact : w.act H (.checkpointAck ack now script) =
          w.after (checkpointAck H w.coord ack now ⟨w.files, script⟩) := by
        simp [act, hopen.up]
      rw [hact]
      exact agrees_ack hopen (checkpointAck_run H w.coord ack now _) (fun c e => rfl)
        (fun c e err => .inr ⟨_, rfl⟩) ih'
    | abortEpoch reason =>
      obtain ⟨t, hwait⟩ := hopen.waiting
      have hact : w.act H (.abortEpoch reason) = ⟨w.coord.aborted e reason, w.files, true⟩ := by
        simp [act, hopen.up, abortEpoch_of_awaiting hwait]
      have hstill : Still (⟨w.coord.aborted e reason, w.files, true⟩ : World Bytes) :=
        .inr (.inr ⟨e, reason, rfl⟩)
      obtain ⟨hrest, hfines⟩ := hstill.run (H := H) events
      have hnot : (w.coord.aborted e reason).state ≠ .committed e := fun h => nomatch h
      rw [hact, and_iff_left hfines, show Fine H w (.abortEpoch reason) ↔ True from Iff.rfl, and_true]
      rw [hrest]
      exact agrees_of_not_committed hnot

/-- For every storage content, every fate of the storage calls and any number of retries: the verdict on
an epoch that waits for acks agrees with storage exactly if the epoch is not already the latest valid
one, and in every attempt a manifest is written only together with a reported success, under which its
paths can be read back, and metadata alone never completes an epoch whose manifest is already there. -/
theorem verdict_agrees_iff (c : CheckpointCoordinator) (files : KVMap Path Bytes) (e t : ℕ)
    (events : List Event) (hstate : c.state = .awaitingAcks e t) (hpaths : PathsMatch c e) :
    Agrees H c.jobId e ((World.mk c files true).run H events) ↔
      (latestValidEpoch H c.jobId).eval files ≠ .ok e ∧ FineRun H ⟨c, files, true⟩ events :=
  agrees_iff events ⟨rfl, rfl, ⟨t, hstate⟩, hpaths⟩

/-! ## Two runs -/

/-- A job with one task that waits for the ack of epoch 1. -/
def waitingForOne : CheckpointCoordinator := (CheckpointCoordinator.new ['j'] ['c'] 10 1).started 0

def ackOne : CheckpointAckRequest := ⟨['j'], ['o'], ['t'], 1, 1, [], none, []⟩

/-- The hint is refused: its write is the fourth call. -/
def unhintedRun : List Event :=
  [.checkpointAck ackOne 0 [.done, .done, .done, .refused "disk full"]]

/-- The epoch is given up, and it is the latest valid one. -/
theorem unhintedRun_sealed :
    ((World.mk waitingForOne (∅ : KVMap Path Tagged) true).run Host.tagged unhintedRun).coord.state =
        .failed 1 "checkpoint storage write failed: checkpoint storage error: disk full" ∧
      (latestValidEpoch Host.tagged ['j']).eval
        ((World.mk waitingForOne (∅ : KVMap Path Tagged) true).run Host.tagged unhintedRun).files =
          .ok 1 := by
  decide +kernel

/-- The metadata is refused, and the repeated ack finds a storage that works. -/
def retriedRun : List Event :=
  [.receiveAck ackOne 0 [.done, .refused "timeout"], .receiveAck ackOne 5 []]

/-- The retry commits, storage has the epoch, and every attempt of the run was fine. -/
theorem retriedRun_agrees :
    ((World.mk waitingForOne (∅ : KVMap Path Tagged) true).run Host.tagged retriedRun).coord.state =
        .committed 1 ∧
      (latestValidEpoch Host.tagged ['j']).eval
        ((World.mk waitingForOne (∅ : KVMap Path Tagged) true).run Host.tagged retriedRun).files = .ok 1 ∧
      FineRun Host.tagged ⟨waitingForOne, ∅, true⟩ retriedRun := by
  have hpaths : PathsMatch waitingForOne 1 := by
    intro task ack hlook
    cases hlook
  have hcommitted : ((mk waitingForOne (∅ : KVMap Path Tagged) true).run Host.tagged
      retriedRun).coord.state = .committed 1 := by
    decide +kernel
  have hlatest : (latestValidEpoch Host.tagged ['j']).eval
      ((mk waitingForOne (∅ : KVMap Path Tagged) true).run Host.tagged retriedRun).files =
        .ok 1 := by
    decide +kernel
  have hagrees := (verdict_agrees_iff waitingForOne (∅ : KVMap Path Tagged) 1 0 retriedRun rfl hpaths).mp
    ⟨fun _ => hlatest, fun h => absurd hcommitted h⟩
  exact ⟨hcommitted, hlatest, hagrees.2⟩

end Verdict

end Krishiv.Scheduler
