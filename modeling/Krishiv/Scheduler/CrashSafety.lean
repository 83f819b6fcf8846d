import Krishiv.Lib.Runs
import Krishiv.Scheduler.CommitWrites

/-!
# Commits that are cut short

The coordinator of a job commits epoch after epoch, and may stop before any storage call of a commit; it
then restarts with `recoverFromStorage`. A cut commit leaves snapshots and perhaps metadata of its epoch
behind, and the next attempt under the same number writes over them.

Task and operator ids need only be non-blank, and a snapshot path built from them is not checked before
it goes into a manifest. An id with a control character, say, gives a manifest that validation refuses,
so the newest sealed epoch is not found (`tabRun_unreadable`). If the paths of the acknowledged snapshots
can be recorded and no two tasks share one, the latest valid epoch is always the newest one with a
manifest, its files are those its quorum acknowledged, and valid epochs stay valid
(`newest_sealed_is_latest`).
-/

namespace Krishiv.Scheduler

open Krishiv.State Option AList List

namespace CrashSafety

open CheckpointCoordinator

/-- What a quorum acknowledged: the metadata built from the acks and, by task, the snapshot bytes. -/
structure Quorum (Bytes : Type) where
  metadata : CheckpointMetadata
  bytes : KVMap Text Bytes

structure World (Bytes : Type) where
  /-- `none` while the process is down. -/
  coord : Option CheckpointCoordinator
  files : KVMap Path Bytes
  /-- Ghost: by task, the bytes of the snapshot it acknowledged last. -/
  acked : KVMap Text Bytes
  /-- Ghost: by epoch, its last quorum. -/
  quorums : KVMap ℕ (Quorum Bytes)

/-- A `cut` is the number of storage calls after which the process stops. -/
inductive Event (Bytes : Type) where
  | initiate (now : ℕ)
  | initiateSavepoint (label : Option Text) (now : ℕ)
  | tryTick (elapsed timeout now : ℕ)
  | setExpectedTaskCount (count : ℕ)
  | abortEpoch (reason : String)
  /-- A task writes a snapshot and its ack is lost. -/
  | snapshot (operatorId taskId : Text) (bytes : Bytes)
  /-- A task writes its snapshot and acknowledges it, on either commit path. -/
  | receiveAck (ack : CheckpointAckRequest) (bytes : Bytes) (now : ℕ) (cut : Option ℕ)
  | checkpointAck (ack : CheckpointAckRequest) (bytes : Bytes) (now : ℕ) (cut : Option ℕ)
  | crash
  | restart (coordinatorId : Text) (interval expected : ℕ) (cut : Option ℕ)

def cutScript : Option ℕ → List CallOutcome
  | none => []
  | some n => List.replicate n .done ++ [.stop]

variable {Bytes : Type} (H : Host Bytes) (job : Text)

namespace World

def cold : World Bytes := ⟨none, ∅, ∅, ∅⟩

def onCoord (w : World Bytes) (f : CheckpointCoordinator → CheckpointCoordinator) : World Bytes :=
  { w with coord := w.coord.map f }

/-- The task's side of an ack that answers the epoch in flight. -/
def prepared (w : World Bytes) (c : CheckpointCoordinator) (ack : CheckpointAckRequest) (bytes : Bytes) :
    World Bytes :=
  if c.records ack then
    { w with
      files := match ack.snapshotPath with
        | some p => w.files.insert p bytes
        | none => w.files
      acked := w.acked.insert ack.taskId bytes }
  else w

/-- Note the quorum that an ack completes. -/
def noted (w : World Bytes) (c : CheckpointCoordinator) (ack : CheckpointAckRequest) (now : ℕ) : World Bytes :=
  match c.state with
  | .awaitingAcks e _ =>
    match c.recordAck ack e with
    | .ok c' =>
      if c'.hasQuorum then { w with quorums := w.quorums.insert e ⟨c'.buildMetadata e now, w.acked⟩ }
      else w
    | .error _ => w
  | _ => w

/-- Deliver an ack through `call`. -/
def deliver (w : World Bytes) (call : CheckpointCoordinator → CheckpointAckRequest → ℕ →
      Io Bytes (Except String Bool × CheckpointCoordinator))
    (ack : CheckpointAckRequest) (bytes : Bytes) (now : ℕ) (cut : Option ℕ) : World Bytes :=
  match w.coord with
  | none => w
  | some c =>
    let w := (w.prepared c ack bytes).noted c ack now
    match call c ack now ⟨w.files, cutScript cut⟩ with
    | (.ok (_, c'), s) => { w with coord := some c', files := s.files }
    | (.error _, s) => { w with coord := none, files := s.files }

/-- A snapshot written for the epoch in flight. The snapshots already acknowledged are not rewritten. -/
def written (w : World Bytes) (operatorId taskId : Text) (bytes : Bytes) : World Bytes :=
  match w.coord with
  | none => w
  | some c =>
    match c.state with
    | .awaitingAcks e _ =>
      let p := Krishiv.State.snapshotPath e operatorId taskId
      if c.pendingAcks.entries.any fun x => x.2.snapshotPath = some p then w
      else { w with files := w.files.insert p bytes }
    | _ => w

def act (w : World Bytes) : Event Bytes → World Bytes
  | .initiate now => w.onCoord fun c => (c.initiate now).2
  | .initiateSavepoint label now => w.onCoord fun c => (c.initiateSavepoint label now).2
  | .tryTick elapsed timeout now => w.onCoord fun c => (c.tryTick elapsed timeout now).2
  | .setExpectedTaskCount count => w.onCoord fun c => c.setExpectedTaskCount count
  | .abortEpoch reason => w.onCoord fun c => c.abortEpoch reason
  | .snapshot operatorId taskId bytes => w.written operatorId taskId bytes
  | .receiveAck ack bytes now cut => w.deliver (receiveAck H) ack bytes now cut
  | .checkpointAck ack bytes now cut => w.deliver (checkpointAck H) ack bytes now cut
  | .crash => { w with coord := none }
  | .restart coordinatorId interval expected cut =>
    match recoverFromStorage H (.new job coordinatorId interval expected) ⟨w.files, cutScript cut⟩ with
    | (.ok (_, c), s) => { w with coord := some c, files := s.files }
    | (.error _, s) => { w with coord := none, files := s.files }

def run (w : World Bytes) (events : List (Event Bytes)) : World Bytes := Runs.run (act H job) w events

end World

open World

/-! ## The invariant -/

def HasManifest (files : KVMap Path Bytes) (e : ℕ) : Prop := files.lookup (manifestPath e) ≠ none

/-- The epoch is sealed with what the quorum acknowledged. -/
structure SealedBy (files : KVMap Path Bytes) (e : ℕ) (q : Quorum Bytes) : Prop where
  identity : validateMetadataIdentity q.metadata job e = .ok ()
  sealed : ∃ fs, Sealed H files e q.metadata fs ∧ ∀ f ∈ fs, Recordable e f.1
  bytes : ∀ s ∈ q.metadata.operatorSnapshots,
    ∃ b, q.bytes.lookup s.taskId = some b ∧ files.lookup s.snapshotPath = some b

/-- The pending acks of epoch `e` name the places of their snapshots, which hold what the tasks wrote. -/
def Waiting (w : World Bytes) (c : CheckpointCoordinator) (e : ℕ) : Prop :=
  ∀ task ack, c.pendingAcks.lookup task = some ack → ack.taskId = task ∧
    ∀ p, ack.snapshotPath = some p → p = Krishiv.State.snapshotPath e ack.operatorId ack.taskId ∧
      Recordable e (snapshotRel ack.operatorId ack.taskId) ∧
      ∃ b, w.acked.lookup task = some b ∧ w.files.lookup p = some b

structure Inv (w : World Bytes) : Prop where
  sealed : ∀ e, HasManifest w.files e → ∃ q, w.quorums.lookup e = some q ∧ SealedBy H job w.files e q
  job : ∀ c, w.coord = some c → c.jobId = job
  bounded : ∀ c, w.coord = some c → ∀ e, HasManifest w.files e → e ≤ c.currentEpoch
  waiting : ∀ c, w.coord = some c → ∀ e t, c.state = .awaitingAcks e t →
    e = c.currentEpoch ∧ ¬ HasManifest w.files e ∧ Waiting w c e

variable {H job} {w : World Bytes} {c c' : CheckpointCoordinator} {ack : CheckpointAckRequest}
  {files files' : KVMap Path Bytes} {e t now : ℕ}

lemma SealedBy.valid {q : Quorum Bytes} (h : SealedBy H job files e q) : Valid H job files e := by
  obtain ⟨fs, hsealed, hrec⟩ := h.sealed
  exact (hsealed.valid_iff h.identity).mpr hrec

/-- Being sealed depends on the files of the epoch only. -/
lemma SealedBy.congr {q : Quorum Bytes} (h : SealedBy H job files e q)
    (heq : ∀ rel, files'.lookup (.checkpoint e rel) = files.lookup (.checkpoint e rel)) :
    SealedBy H job files' e q := by
  obtain ⟨fs, hsealed, hrec⟩ := h.sealed
  have hdeclared := hsealed.declared
  refine ⟨h.identity, ⟨fs, ⟨?_, ?_, fun f hf => ?_, hdeclared⟩, hrec⟩, fun s hs => ?_⟩
  · exact (heq _).trans hsealed.metadataFile
  · exact (heq _).trans hsealed.manifestFile
  · exact (heq _).trans (hsealed.snapshotFiles f hf)
  obtain ⟨b, hb, hfile⟩ := h.bytes s hs
  have hmem : s.snapshotPath ∈ fs.map fun f => Path.checkpoint e f.1 := hdeclared ▸ mem_map_of_mem hs
  obtain ⟨f, -, hpath⟩ := mem_map.mp hmem
  refine ⟨b, hb, ?_⟩
  rw [← hpath] at hfile ⊢
  exact (heq _).trans hfile

/-- Under the invariant the valid epochs are those with a manifest. -/
lemma Inv.valid_iff (hinv : Inv H job w) : Valid H job w.files e ↔ HasManifest w.files e := by
  constructor
  · exact Valid.manifest
  · intro hman
    obtain ⟨q, -, hq⟩ := hinv.sealed e hman
    exact hq.valid

lemma skipped_of_no_manifest (h : ¬ HasManifest files e) : Skipped H job files e :=
  .inl (validateEpoch_of_no_manifest (not_not.mp h))

lemma Inv.latest_iff (hinv : Inv H job w) : (latestValidEpoch H job).eval w.files = .ok e ↔
      HasManifest w.files e ∧ ∀ e', HasManifest w.files e' → e' ≤ e := by
  rw [latestValidEpoch_ok_iff, hinv.valid_iff]
  refine and_congr_right fun _ => ⟨fun h e' he' => ?_, fun h e' he' => ?_⟩
  · by_contra hlt
    exact (h e' (not_le.mp hlt)).not_valid (hinv.valid_iff.mpr he')
  · exact skipped_of_no_manifest fun hman => absurd (h e' hman) (not_le.mpr he')

/-! ## Steps of the coordinator alone -/

/-- A step that keeps the files, and after which an epoch waits only if it waited before with the same
acks or has just been started. -/
lemma Inv.coordStep (hinv : Inv H job w) (hc : w.coord = some c) (hjob : c'.jobId = c.jobId)
    (hepoch : c.currentEpoch ≤ c'.currentEpoch) (hwait : ∀ e t, c'.state = .awaitingAcks e t →
      c.state = .awaitingAcks e t ∧ c'.currentEpoch = c.currentEpoch ∧ c'.pendingAcks = c.pendingAcks ∨
        e = c'.currentEpoch ∧ c.currentEpoch < e ∧ c'.pendingAcks = ∅) : Inv H job { w with coord := some c' } := by
  refine ⟨hinv.sealed, fun x hx => ?_, fun x hx e hman => ?_, fun x hx e t hstate => ?_⟩
  · cases hx
    exact hjob.trans (hinv.job c hc)
  · cases hx
    exact (hinv.bounded c hc e hman).trans hepoch
  cases hx
  rcases hwait e t hstate with ⟨hold, hsame, hacks⟩ | ⟨he, hlt, hacks⟩
  · obtain ⟨he, hman, hpend⟩ := hinv.waiting c hc e t hold
    refine ⟨he.trans hsame.symm, hman, fun task ack hack => ?_⟩
    rw [hacks] at hack
    exact hpend task ack hack
  · refine ⟨he, fun hman => ?_, fun task ack hack => ?_⟩
    · have hle := hinv.bounded c hc e hman
      omega
    · rw [hacks] at hack
      cases hack

section

variable (c : CheckpointCoordinator)

lemma initiate_jobId (now : ℕ) : (c.initiate now).2.jobId = c.jobId := by
  rcases initiate_cases c now with h | ⟨-, h⟩ <;> rw [h]
  rfl

lemma abortEpoch_jobId (reason : String) : (c.abortEpoch reason).jobId = c.jobId := by
  rcases abortEpoch_cases c reason with h | ⟨e, -, h⟩ <;> rw [h]
  rfl

lemma tryTick_jobId (elapsed timeout now : ℕ) : (c.tryTick elapsed timeout now).2.jobId = c.jobId := by
  unfold tryTick
  split
  · dsimp only
    split
    · exact abortEpoch_jobId _ _
    · rfl
  · rfl
  · split
    · rfl
    dsimp only
    split
    · exact initiate_jobId _ _
    · rfl

end

section

variable (hinv : Inv H job w)

include hinv

variable (hc : w.coord = some c)

include hc

section

variable (hsame : SameQuorum c c') (hjob : c'.jobId = c.jobId)

include hsame hjob

lemma Inv.same : Inv H job { w with coord := some c' } :=
  hinv.coordStep hc hjob hsame.epoch.ge fun _ _ hstate => .inl ⟨hsame.state ▸ hstate, hsame.epoch, hsame.acks⟩

lemma Inv.started : Inv H job { w with coord := some (c'.started now) } := by
  have hlt : c.currentEpoch < (c'.started now).currentEpoch := Nat.lt_succ_of_le hsame.epoch.ge
  refine hinv.coordStep hc hjob hlt.le fun e t hstate => ?_
  cases hstate
  exact .inr ⟨rfl, hlt, rfl⟩

lemma Inv.initiate : Inv H job { w with coord := some (c'.initiate now).2 } := by
  rcases initiate_cases c' now with h | ⟨-, h⟩ <;> rw [h]
  exacts [hinv.same hc hsame hjob, hinv.started hc hsame hjob]

end

lemma Inv.tryTick (elapsed timeout now : ℕ) :
    Inv H job { w with coord := some (c.tryTick elapsed timeout now).2 } := by
  have hjob := tryTick_jobId c elapsed timeout now
  obtain ⟨-, htick⟩ := tryTick_cases c elapsed timeout now
  rcases htick with hsame | ⟨c₀, hsame, -, heq⟩ | ⟨c₀, e₀, r, t₀, hsame, -, heq⟩
  · exact hinv.same hc hsame hjob
  · rw [heq] at hjob ⊢
    exact hinv.started hc hsame hjob
  · rw [heq] at hjob ⊢
    exact hinv.coordStep hc hjob hsame.epoch.ge nofun

lemma Inv.abortEpoch (reason : String) : Inv H job { w with coord := some (c.abortEpoch reason) } := by
  have hjob := abortEpoch_jobId c reason
  rcases abortEpoch_cases c reason with h | ⟨e₀, -, h⟩
  · rw [h]
    exact hinv.same hc ⟨rfl, rfl, rfl, rfl⟩ rfl
  · rw [h] at hjob ⊢
    exact hinv.coordStep hc hjob le_rfl nofun

/-! ## Writes -/

omit hc in
/-- Writes below an epoch without a manifest leave the sealed epochs alone. -/
lemma Inv.sealed_of_below (hman' : ¬ HasManifest files' e)
    (hother : ∀ e' ≠ e, ∀ rel, files'.lookup (.checkpoint e' rel) = w.files.lookup (.checkpoint e' rel)) :
    ∀ e', HasManifest files' e' → HasManifest w.files e' ∧ e' ≠ e ∧
      ∃ q, w.quorums.lookup e' = some q ∧ SealedBy H job files' e' q := by
  intro e' he'
  have hne : e' ≠ e := fun h => hman' (h ▸ he')
  have hold : HasManifest w.files e' := by
    have hlook := hother e' hne manifestSha256
    exact fun hnone => he' (hlook.trans hnone)
  obtain ⟨q, hq, hsealed⟩ := hinv.sealed e' hold
  exact ⟨hold, hne, q, hq, hsealed.congr (hother e' hne)⟩

end

lemma lookup_insert_other {b : Bytes} {rel rel' : Text} {e' : ℕ} (h : e' ≠ e) :
    lookup (Path.checkpoint e' rel') (insert (Path.checkpoint e rel) b files) =
      lookup (Path.checkpoint e' rel') files :=
  lookup_insert_ne fun heq => h (by injection heq)

lemma not_hasManifest_insert (operatorId taskId : Text) (b : Bytes) {e' : ℕ} (h : ¬ HasManifest files e') :
    ¬ HasManifest (files.insert (snapshotPath e operatorId taskId) b) e' := by
  unfold HasManifest
  rw [lookup_insert_ne fun heq => snapshotRel_ne_manifest operatorId taskId
    (by injection heq with h₁ h₂; exact h₂.symm)]
  exact h

lemma Inv.written (hinv : Inv H job w) (operatorId taskId : Text) (bytes : Bytes) :
    Inv H job (w.written operatorId taskId bytes) := by
  unfold World.written
  split
  · exact hinv
  next c hc =>
  split
  · next e t hstate =>
    dsimp only
    split
    · exact hinv
    next hfree =>
    obtain ⟨he, hman, hpend⟩ := hinv.waiting c hc e t hstate
    have hman' := not_hasManifest_insert (e := e) operatorId taskId bytes hman
    have hbelow := hinv.sealed_of_below hman' fun e' hne rel => lookup_insert_other hne
    refine ⟨fun e' he' => (hbelow e' he').2.2, hinv.job, fun x hx e' he' => ?_, fun x hx e' t' hstate' => ?_⟩
    · exact hinv.bounded x hx e' (hbelow e' he').1
    have hcx : c = x := some.inj (hc.symm.trans hx)
    subst hcx
    rw [hstate] at hstate'
    cases hstate'
    refine ⟨he, hman', fun task ack hack => ?_⟩
    obtain ⟨htask, hack'⟩ := hpend task ack hack
    refine ⟨htask, fun p hp => ?_⟩
    obtain ⟨hpath, hrec, b, hb, hfile⟩ := hack' p hp
    refine ⟨hpath, hrec, b, hb, ?_⟩
    -- the written path is that of no pending ack
    have hne : p ≠ Krishiv.State.snapshotPath e operatorId taskId := by
      rintro rfl
      refine hfree (any_eq_true.mpr ⟨⟨task, ack⟩, mem_lookup_iff.mp hack, ?_⟩)
      simpa using hp
    exact (lookup_insert_ne hne).trans hfile
  · exact hinv

/-! ## Acks -/

/-- The paths of acknowledged snapshots can be recorded, and no two tasks share one. -/
def AckFine (w : World Bytes) (ack : CheckpointAckRequest) : Prop :=
  ∀ c, w.coord = some c → c.records ack = true → ∀ p, ack.snapshotPath = some p →
    Recordable ack.epoch (snapshotRel ack.operatorId ack.taskId) ∧
      ∀ task other, c.pendingAcks.lookup task = some other → task ≠ ack.taskId → other.snapshotPath ≠ some p

/-- The world in which the ack of a task has been recorded, before a commit. -/
structure Recorded (H : Host Bytes) (job : Text) (w : World Bytes) (c : CheckpointCoordinator)
    (e : ℕ) : Prop where
  sealed : ∀ e', HasManifest w.files e' → e' < e ∧
    ∃ q, w.quorums.lookup e' = some q ∧ SealedBy H job w.files e' q
  job : c.jobId = job
  epoch : e = c.currentEpoch
  waiting : Waiting w c e

lemma Recorded.no_manifest (h : Recorded H job w c e) : ¬ HasManifest w.files e :=
  fun hman => lt_irrefl e (h.sealed e hman).1

/-- The task writes its snapshot, and the coordinator records the ack. -/
lemma Inv.recorded (hinv : Inv H job w) (hc : w.coord = some c) (hstate : c.state = .awaitingAcks e t)
    (hrec : c.recordAck ack e = .ok c') (hfine : AckFine w ack) (bytes : Bytes) (now : ℕ) :
    Recorded H job ((w.prepared c ack bytes).noted c ack now) c' e := by
  have hrecords := records_of_recordAck hstate hrec
  obtain ⟨hepoch, -, hc'⟩ := recordAck_ok hrec
  obtain ⟨he, hman, hpend⟩ := hinv.waiting c hc e t hstate
  -- the files after the write of the task
  set f := (w.prepared c ack bytes).files with hf
  have hprep : w.prepared c ack bytes = { w with files := f, acked := w.acked.insert ack.taskId bytes } := by
    simp [hf, prepared, hrecords]
  have hlookup : ∀ p, f.lookup p = if ack.snapshotPath = some p then some bytes else w.files.lookup p := by
    intro p
    rw [hf, prepared, if_pos hrecords]
    cases ack.snapshotPath with
    | none => rw [if_neg nofun]
    | some q =>
      by_cases hq : p = q
      · rw [hq, if_pos rfl]
        exact lookup_insert _
      · rw [if_neg fun h => hq (some.inj h).symm]
        exact lookup_insert_ne hq
  have hother : ∀ {e' rel}, (e', rel) ≠ (e, snapshotRel ack.operatorId ack.taskId) →
      f.lookup (.checkpoint e' rel) = w.files.lookup (.checkpoint e' rel) := by
    intro e' rel hne
    rw [hlookup, if_neg fun hp => ?_]
    cases recordAck_path hrec hp
    exact hne rfl
  have hman' : ¬ HasManifest f e := fun h => hman fun hnone => h ((hother fun heq =>
    snapshotRel_ne_manifest ack.operatorId ack.taskId (Prod.mk.inj heq).2.symm).trans hnone)
  have hbelow := hinv.sealed_of_below hman' fun e' hne _ => hother fun heq => hne (Prod.mk.inj heq).1
  have hnoted : ∃ quorums, (w.prepared c ack bytes).noted c ack now =
      { w with files := f, acked := w.acked.insert ack.taskId bytes, quorums := quorums } ∧
      ∀ e' ≠ e, quorums.lookup e' = w.quorums.lookup e' := by
    rw [hprep]
    simp only [noted, hstate, hrec]
    split_ifs
    · exact ⟨_, rfl, fun e' hne => lookup_insert_ne hne⟩
    · exact ⟨_, rfl, fun e' _ => rfl⟩
  obtain ⟨quorums, hnoted, hquorums⟩ := hnoted
  rw [hnoted]
  refine ⟨fun e' he' => ?_, ?_, ?_, fun task other hlook => ?_⟩
  · obtain ⟨hold, hne, q, hq, hsealed⟩ := hbelow e' he'
    have hle := hinv.bounded c hc e' hold
    exact ⟨by omega, q, (hquorums e' hne).trans hq, hsealed⟩
  · rw [hc']; exact hinv.job c hc
  · rw [hc']; exact he
  rw [hc'] at hlook
  by_cases htask : task = ack.taskId
  · subst htask
    have hother' : ack = other := some.inj ((lookup_insert _).symm.trans hlook)
    subst hother'
    refine ⟨rfl, fun p hp => ?_⟩
    refine ⟨recordAck_path hrec hp, hepoch ▸ (hfine c hc hrecords p hp).1, bytes, ?_, ?_⟩
    · exact lookup_insert _
    · exact (hlookup p).trans (if_pos hp)
  have hlook' : c.pendingAcks.lookup task = some other := (lookup_insert_ne htask).symm.trans hlook
  obtain ⟨htask', hold⟩ := hpend task other hlook'
  refine ⟨htask', fun p hp => ?_⟩
  obtain ⟨hpath, hrecable, b, hb, hfile⟩ := hold p hp
  refine ⟨hpath, hrecable, b, (lookup_insert_ne htask).trans hb, ?_⟩
  exact ((hlookup p).trans (if_neg fun hp' => (hfine c hc hrecords p hp').2 task other hlook' htask hp)).trans
    hfile

/-! ## Commits -/

/-- A commit whose manifest was written has sealed the epoch with what was acknowledged. -/
lemma Recorded.sealedBy (h : Recorded H job w c e) {fs : List (Text × Bytes)}
    (hguard : Guarded H w.files c.jobId e (c.buildMetadata e now))
    (hread : (readAcked c.jobId e (c.buildMetadata e now).operatorSnapshots).eval w.files = .ok fs)
    (hfiles : ∀ p ≠ Path.hint, files'.lookup p = (withManifest H (c.commitData e now) fs w.files).lookup p) :
    SealedBy H job files' e ⟨c.buildMetadata e now, w.acked⟩ := by
  have hplace : ∀ snap ∈ (c.buildMetadata e now).operatorSnapshots,
      snap.snapshotPath = .checkpoint e (snapshotRel snap.operatorId snap.taskId) ∧
        Recordable e (snapshotRel snap.operatorId snap.taskId) ∧
        ∃ b, w.acked.lookup snap.taskId = some b ∧ w.files.lookup snap.snapshotPath = some b := by
    intro snap hsnap
    obtain ⟨task, ack, p, hlook, hp, rfl⟩ := mem_operatorSnapshots hsnap
    obtain ⟨htask, hack⟩ := h.waiting task ack hlook
    obtain ⟨hpath, hrec, hb⟩ := hack p hp
    exact ⟨hpath, hrec, htask ▸ hb⟩
  have hsealed : Sealed H files' (c.commitData e now).epoch (c.commitData e now).metadata fs :=
    sealed_of_manifest ⟨rfl, fun snap hsnap => (hplace snap hsnap).1⟩ hread hfiles
  refine ⟨h.job ▸ hguard.identity, ⟨fs, hsealed, fun f hf => ?_⟩, fun snap hsnap => ?_⟩
  · obtain ⟨snap, hsnap, heq⟩ := mem_readAcked hread hf
    rw [heq]
    exact (hplace snap hsnap).2.1
  obtain ⟨hpath, -, b, hb, hfile⟩ := hplace snap hsnap
  refine ⟨b, hb, ?_⟩
  rw [hpath] at hfile ⊢
  exact (lookup_snapshot_of_manifest hfiles _ _).trans hfile

/-- The coordinator goes on waiting. -/
lemma Recorded.inv (h : Recorded H job w c e) (hstate : c.state = .awaitingAcks e t) :
    Inv H job { w with coord := some c } := by
  refine ⟨fun e' he' => (h.sealed e' he').2, fun x hx => ?_, fun x hx e' he' => ?_,
    fun x hx e' t' hstate' => ?_⟩
  · cases hx
    exact h.job
  · cases hx
    have hlt := (h.sealed e' he').1
    have hepoch := h.epoch
    omega
  · cases hx
    rw [hstate] at hstate'
    cases hstate'
    exact ⟨h.epoch, h.no_manifest, h.waiting⟩

/-- The coordinator waits for no acks, or is down. -/
lemma Inv.rest {co : Option CheckpointCoordinator} (hsealed : ∀ e', HasManifest files' e' →
      e' ≤ e ∧ ∃ q, w.quorums.lookup e' = some q ∧ SealedBy H job files' e' q)
    (hco : ∀ x, co = some x → x.jobId = job ∧ x.currentEpoch = e ∧ ∀ e t, x.state ≠ .awaitingAcks e t) :
    Inv H job { w with coord := co, files := files' } := by
  refine ⟨fun e' he' => (hsealed e' he').2, fun x hx => (hco x hx).1, fun x hx e' he' => ?_,
    fun x hx e' t' hstate' => absurd hstate' ((hco x hx).2.2 e' t')⟩
  rw [(hco x hx).2.1]
  exact (hsealed e' he').1

variable {r : Except (Halt CheckpointError) ℕ}

/-- What a commit leaves of the sealed epochs, by its progress. -/
lemma Recorded.leaves (h : Recorded H job w c e)
    (hq : w.quorums.lookup e = some ⟨c.buildMetadata e now, w.acked⟩) {p : Progress}
    (hleaves : CommitLeaves H (c.commitData e now) w.files p r files') : ∀ e', HasManifest files' e' →
      e' ≤ e ∧ ∃ q, w.quorums.lookup e' = some q ∧ SealedBy H job files' e' q := by
  intro e' he'
  -- epochs other than `e` are untouched
  have hframe : e' ≠ e → (∀ rel, files'.lookup (.checkpoint e' rel) = w.files.lookup (.checkpoint e' rel)) →
      e' ≤ e ∧ ∃ q, w.quorums.lookup e' = some q ∧ SealedBy H job files' e' q := by
    intro hne heq
    have hold : HasManifest w.files e' := fun hnone => he' ((heq _).trans hnone)
    obtain ⟨hlt, q, hq', hsealed⟩ := h.sealed e' hold
    exact ⟨hlt.le, q, hq', hsealed.congr heq⟩
  cases hleaves with
  | nothing _ =>
    obtain ⟨hlt, hsealed⟩ := h.sealed e' he'
    exact ⟨hlt.le, hsealed⟩
  | metadata _ hguard =>
    have hne : e' ≠ e := by
      rintro rfl
      refine h.no_manifest fun hnone => he' ?_
      exact (lookup_insert_ne (metadataPath_ne_manifestPath _ _).symm).trans hnone
    exact hframe hne fun rel => lookup_insert_other hne
  | manifest hguard hread hfiles =>
    by_cases hne : e' = e
    · subst hne
      exact ⟨le_rfl, _, hq, h.sealedBy hguard hread hfiles⟩
    · refine hframe hne fun rel => ?_
      rw [hfiles _ (by simp)]
      exact (lookup_insert_other hne).trans (lookup_insert_other hne)

/-! ## Cut scripts -/

lemma mem_cutScript {cut : Option ℕ} : ∀ o ∈ cutScript cut, o = .done ∨ o = .stop := by
  cases cut with
  | none => intro o ho; cases ho
  | some n =>
    intro o ho
    rcases mem_append.mp ho with ho | ho
    · exact .inl (eq_of_mem_replicate ho)
    · exact .inr (mem_singleton.mp ho)

/-- In a run that is only cut, a commit that fails after a write fails because the process stopped. -/
def Progress.Cut : Progress → Prop
  | .nothing => True
  | .metadata h => h = .stopped
  | .manifest r => ∀ h, r = .error h → h = .stopped

lemma ofScript_cut (epoch : ℕ) {script : List CallOutcome}
    (h : ∀ o ∈ script, o = CallOutcome.done ∨ o = CallOutcome.stop) : Progress.Cut (.ofScript epoch script) := by
  rcases script with _ | ⟨o₁, script⟩
  · intro h' heq; cases heq
  rcases h o₁ (by simp) with rfl | rfl
  · rcases script with _ | ⟨o₂, script⟩
    · intro h' heq; cases heq
    rcases h o₂ (by simp) with rfl | rfl
    · rcases script with _ | ⟨o₃, script⟩
      · intro h' heq; cases heq
      · rcases h o₃ (by simp) with rfl | rfl
        · intro h' heq; cases heq
        · intro h' heq; cases heq; rfl
    · rfl
  · trivial

lemma progress_cut (H : Host Bytes) (commit : PendingCommit) (files : KVMap Path Bytes)
    (cut : Option ℕ) : Progress.Cut (progress H commit ⟨files, cutScript cut⟩) := by
  have hscript := (commitReads_readOnly H commit).script ⟨files, cutScript cut⟩
  unfold progress
  rcases hr : commitReads H commit ⟨files, cutScript cut⟩ with ⟨_ | fs, s'⟩
  · trivial
  · rw [hr] at hscript
    exact ofScript_cut _ fun o ho => mem_cutScript o (hscript.subset ho)

/-! ## Every step -/

variable
  {call : CheckpointCoordinator → CheckpointAckRequest → ℕ → Io Bytes (Except String Bool × CheckpointCoordinator)}
  {onError : CheckpointCoordinator → ℕ → CheckpointError → CheckpointCoordinator}
  {onCommit : CheckpointCoordinator → ℕ → CheckpointCoordinator}

section Deliver

/-- The coordinator has turned away from the epoch of `c` and waits for no acks. -/
def Turned (c x : CheckpointCoordinator) : Prop :=
  x.jobId = c.jobId ∧ x.currentEpoch = c.currentEpoch ∧ ∀ e t, x.state ≠ .awaitingAcks e t

lemma noted_quorum (w : World Bytes) (hstate : c.state = .awaitingAcks e t)
    (hrec : c.recordAck ack e = .ok c') (hquorum : c'.hasQuorum = true) :
    (w.noted c ack now).quorums.lookup e = some ⟨c'.buildMetadata e now, (w.noted c ack now).acked⟩ := by
  simp only [noted, hstate, hrec, hquorum, if_true]
  exact lookup_insert _

lemma prepared_refused (w : World Bytes) (h : c.records ack = false) (bytes : Bytes) :
    (w.prepared c ack bytes).noted c ack now = w := by
  have hprep : w.prepared c ack bytes = w := by simp [prepared, h]
  rw [hprep]
  unfold noted
  split
  · next e t hstate =>
    split
    · next c' hrec => rw [records_of_recordAck hstate hrec] at h; cases h
    · rfl
  · rfl

lemma Inv.deliver (hinv : Inv H job w) (hfine : AckFine w ack)
    (hrun : ∀ c s, AckRun H onCommit onError c ack now s (call c ack now s))
    (honCommit : ∀ c e, Turned c (onCommit c e))
    (honError : ∀ c e err, onError c e err = c ∨ Turned c (onError c e err))
    (bytes : Bytes) (cut : Option ℕ) : Inv H job (w.deliver call ack bytes now cut) := by
  unfold World.deliver
  cases hc : w.coord with
  | none => exact hinv
  | some c =>
    dsimp only
    set w₁ := (w.prepared c ack bytes).noted c ack now with hw₁
    have hend := hrun c ⟨w₁.files, cutScript cut⟩
    have hleaves := fun c' e => commitStorage_leaves H (CheckpointCoordinator.commitData c' e now) ⟨w₁.files, cutScript cut⟩
    generalize call c ack now ⟨w₁.files, cutScript cut⟩ = out at hend
    cases hend with
    | refused m hno =>
      have hw : w₁ = w := prepared_refused w hno bytes
      rw [hw]
      exact hinv.same hc ⟨rfl, rfl, rfl, rfl⟩ rfl
    | @recorded e t c' hstate hrec _ =>
      have hstate' : c'.state = .awaitingAcks e t := (recordAck_state hrec).trans hstate
      exact (hinv.recorded hc hstate hrec hfine bytes now).inv hstate'
    | @committed e t n c' s' hstate hrec hquorum hcommit =>
      have hr := hinv.recorded hc hstate hrec hfine bytes now
      have hleaves := hleaves c' e
      rw [hcommit] at hleaves
      obtain ⟨hjob, hepoch, hrest⟩ := honCommit c' e
      refine Inv.rest (hr.leaves (noted_quorum _ hstate hrec hquorum) hleaves) fun x hx => ?_
      cases hx
      exact ⟨hjob.trans hr.job, hepoch.trans hr.epoch.symm, hrest⟩
    | @failed e t c' err s' m hstate hrec hquorum hcommit =>
      have hr := hinv.recorded hc hstate hrec hfine bytes now
      have hstate' : c'.state = .awaitingAcks e t := (recordAck_state hrec).trans hstate
      have hleaves := hleaves c' e
      rw [hcommit] at hleaves
      have hcut := progress_cut H (c'.commitData e now) w₁.files cut
      -- a commit that fails without the process stopping has written nothing
      have hsame : s'.files = w₁.files := by
        generalize progress H (c'.commitData e now) ⟨w₁.files, cutScript cut⟩ = p at hleaves hcut
        generalize hfs : s'.files = fs' at hleaves
        cases hleaves with
        | nothing _ => rfl
        | metadata _ _ => cases hcut
        | manifest _ _ _ => cases hcut _ rfl
      dsimp only
      rw [hsame]
      rcases honError c' e err with hstay | ⟨hjob, hepoch, hrest⟩
      · rw [hstay]
        exact hr.inv hstate'
      · refine Inv.rest (fun e' he' => ⟨(hr.sealed e' he').1.le, (hr.sealed e' he').2⟩) fun x hx => ?_
        cases hx
        exact ⟨hjob.trans hr.job, hepoch.trans hr.epoch.symm, hrest⟩
    | @stopped e t c' s' hstate hrec hquorum hcommit =>
      have hr := hinv.recorded hc hstate hrec hfine bytes now
      have hleaves := hleaves c' e
      rw [hcommit] at hleaves
      exact Inv.rest (hr.leaves (noted_quorum _ hstate hrec hquorum) hleaves) fun x hx => nomatch hx

end Deliver

/-- Recovery reads only, and takes up the latest valid epoch if there is one. -/
lemma recoverFromStorage_spec (H : Host Bytes) (c : CheckpointCoordinator) (s : Backend Path Bytes) :
    (recoverFromStorage H c s).2.files = s.files ∧ ∀ r c', (recoverFromStorage H c s).1 = .ok (r, c') →
        (∃ e, (latestValidEpoch H c.jobId).eval s.files = .ok e ∧
          c' = { c with currentEpoch := e, state := .committed e }) ∨
        (latestValidEpoch H c.jobId).eval s.files = .error (.failed .noValidEpoch) ∧ c' = c := by
  have hro := latestValidEpoch_readOnly H c.jobId
  have hfiles := hro.files s
  have hans := hro.answer s
  rw [recoverFromStorage, StoreM.bind_apply, StoreM.attempt]
  rcases hl : latestValidEpoch H c.jobId s with ⟨(_ | err) | e, s'⟩
  · rw [hl] at hfiles
    exact ⟨hfiles, fun _ _ h => by cases h⟩
  · rw [hl] at hfiles hans
    cases err with
    | noValidEpoch =>
      refine ⟨hfiles, fun r c' h => ?_⟩
      cases h
      rcases hans with hans | hans | ⟨msg, hans⟩
      · exact .inr ⟨hans.symm, rfl⟩
      · cases hans
      · cases hans
    | _ => exact ⟨hfiles, fun _ _ h => by cases h⟩
  · rw [hl] at hfiles
    have hmeta := (readEpochMetadata_readOnly H e).files s'
    dsimp only
    rw [StoreM.bind_apply]
    rcases hm : readEpochMetadata H e s' with ⟨_ | metadata, s''⟩
    · rw [hm] at hmeta
      exact ⟨hmeta.trans hfiles, fun _ _ h => by cases h⟩
    rw [hm] at hmeta
    refine ⟨hmeta.trans hfiles, fun r c' h => ?_⟩
    cases h
    exact .inl ⟨e, hro.eval_of_ok (congrArg Prod.fst hl), rfl⟩

section

variable (hinv : Inv H job w)

include hinv

lemma Inv.down : Inv H job { w with coord := none } :=
  ⟨hinv.sealed, (fun _ h => nomatch h), (fun _ h => nomatch h), (fun _ h => nomatch h)⟩

lemma Inv.restart (coordinatorId : Text) (interval expected : ℕ)
    (cut : Option ℕ) : Inv H job (w.act H job (.restart coordinatorId interval expected cut)) := by
  have hspec := recoverFromStorage_spec H (.new job coordinatorId interval expected) ⟨w.files, cutScript cut⟩
  simp only [act]
  generalize recoverFromStorage H (.new job coordinatorId interval expected)
    ⟨w.files, cutScript cut⟩ = out at hspec
  obtain ⟨res, s⟩ := out
  obtain ⟨hfiles, hres⟩ := hspec
  cases res with
  | error h =>
    dsimp only
    rw [hfiles]
    exact hinv.down
  | ok rc =>
    obtain ⟨r, c⟩ := rc
    dsimp only
    rw [hfiles]
    have hjobId : (CheckpointCoordinator.new job coordinatorId interval expected).jobId = job := rfl
    rcases hres r c rfl with ⟨e, hlatest, rfl⟩ | ⟨hnone, rfl⟩
    · obtain ⟨-, hmax⟩ := hinv.latest_iff.mp (hjobId ▸ hlatest)
      refine Inv.rest (fun e' he' => ⟨hmax e' he', hinv.sealed e' he'⟩) fun x hx => ?_
      cases hx
      exact ⟨rfl, rfl, nofun⟩
    · have hskipped := skipped_of_noValidEpoch hnone
      refine Inv.rest (e := 0) (fun e' he' => absurd (hinv.valid_iff.mpr he') (hskipped e').not_valid) fun x hx => ?_
      cases hx
      exact ⟨rfl, rfl, nofun⟩

/-- The condition on a step. -/
def Fine (w : World Bytes) : Event Bytes → Prop
  | .receiveAck ack _ _ _ => AckFine w ack
  | .checkpointAck ack _ _ _ => AckFine w ack
  | _ => True

variable (H job) in
/-- Every event of the run meets the condition when it happens. -/
def FineRun : World Bytes → List (Event Bytes) → Prop := Runs.Along (World.act H job) Fine

lemma Inv.onCoord {f : CheckpointCoordinator → CheckpointCoordinator}
    (h : ∀ c, w.coord = some c → Inv H job { w with coord := some (f c) }) :
    Inv H job (w.onCoord f) := by
  unfold World.onCoord
  cases hc : w.coord with
  | none =>
    have hw : { w with coord := none } = w := by rw [← hc]
    rw [map_none, hw]
    exact hinv
  | some c => exact h c hc

lemma Inv.act {ev : Event Bytes} (hfine : Fine w ev) : Inv H job (w.act H job ev) := by
  cases ev with
  | initiate now => exact hinv.onCoord fun c hc => hinv.initiate hc ⟨rfl, rfl, rfl, rfl⟩ rfl
  | initiateSavepoint label now =>
    refine hinv.onCoord fun c hc => ?_
    have hsame : SameQuorum c { c with pendingIsSavepoint := true, pendingSavepointLabel := label } :=
      ⟨rfl, rfl, rfl, rfl⟩
    exact hinv.initiate hc hsame rfl
  | tryTick elapsed timeout now => exact hinv.onCoord fun c hc => hinv.tryTick hc elapsed timeout now
  | setExpectedTaskCount count => exact hinv.onCoord fun c hc => hinv.same hc ⟨rfl, rfl, rfl, rfl⟩ rfl
  | abortEpoch reason => exact hinv.onCoord fun c hc => hinv.abortEpoch hc reason
  | snapshot operatorId taskId bytes => exact hinv.written operatorId taskId bytes
  | receiveAck ack bytes now cut =>
    exact hinv.deliver hfine (fun c s => receiveAck_run H c ack now s) (fun c e => ⟨rfl, rfl, nofun⟩)
      (fun c e err => .inl rfl) bytes cut
  | checkpointAck ack bytes now cut =>
    exact hinv.deliver hfine (fun c s => checkpointAck_run H c ack now s) (fun c e => ⟨rfl, rfl, nofun⟩)
      (fun c e err => .inr ⟨rfl, rfl, nofun⟩) bytes cut
  | crash => exact hinv.down
  | restart coordinatorId interval expected cut => exact hinv.restart coordinatorId interval expected cut

lemma Inv.run {events : List (Event Bytes)} (hfine : FineRun H job w events) : Inv H job (w.run H job events) :=
  Runs.Along.invariant (I := Inv H job) (fun _ _ hfine hinv => hinv.act hfine) hfine hinv

end

lemma Inv.cold : Inv H job (cold : World Bytes) :=
  ⟨fun _ he => absurd rfl he, (fun _ h => nomatch h), (fun _ h => nomatch h), (fun _ h => nomatch h)⟩

/-! ## Manifests stay -/

lemma HasManifest.insert (h : HasManifest files e) (p : Path) (b : Bytes) : HasManifest (files.insert p b) e := by
  unfold HasManifest
  by_cases hp : manifestPath e = p
  · rw [← hp, lookup_insert]
    simp
  · rw [lookup_insert_ne hp]
    exact h

lemma HasManifest.commit (h : HasManifest files e) {commit : PendingCommit} {p : Progress}
    (hleaves : CommitLeaves H commit files p r files') : HasManifest files' e := by
  cases hleaves with
  | nothing _ => exact h
  | metadata _ _ => exact h.insert _ _
  | manifest _ _ hfiles =>
    unfold HasManifest
    rw [hfiles _ (by simp [manifestPath])]
    exact (h.insert _ _).insert _ _

section

variable (h : HasManifest w.files e)

include h

lemma HasManifest.deliver (hrun : ∀ c s, AckRun H onCommit onError c ack now s (call c ack now s)) (bytes : Bytes)
    (cut : Option ℕ) : HasManifest (w.deliver call ack bytes now cut).files e := by
  unfold World.deliver
  cases hc : w.coord with
  | none => exact h
  | some c =>
    have hprep : HasManifest ((w.prepared c ack bytes).noted c ack now).files e := by
      have hnoted : ((w.prepared c ack bytes).noted c ack now).files = (w.prepared c ack bytes).files := by
        unfold noted
        split
        · split
          · split <;> rfl
          · rfl
        · rfl
      rw [hnoted, prepared]
      split
      · dsimp only
        split
        · exact h.insert _ _
        · exact h
      · exact h
    dsimp only
    set w₁ := (w.prepared c ack bytes).noted c ack now with hw₁
    have hend := hrun c ⟨w₁.files, cutScript cut⟩
    have hleaves : ∀ {commit r s'}, commitStorage H commit ⟨w₁.files, cutScript cut⟩ = (r, s') → HasManifest s'.files e := by
      intro commit r s' hcommit
      have h := hprep.commit (commitStorage_leaves H commit ⟨w₁.files, cutScript cut⟩)
      rwa [hcommit] at h
    generalize call c ack now ⟨w₁.files, cutScript cut⟩ = out at hend
    cases hend with
    | refused m hno => exact hprep
    | recorded hstate hrec _ => exact hprep
    | committed _ _ _ hcommit => exact hleaves hcommit
    | failed _ _ _ _ hcommit => exact hleaves hcommit
    | stopped _ _ _ hcommit => exact hleaves hcommit

lemma HasManifest.act (ev : Event Bytes) : HasManifest (w.act H job ev).files e := by
  cases ev with
  | snapshot operatorId taskId bytes =>
    simp only [World.act, World.written]
    split
    · exact h
    split
    · split
      · exact h
      · exact h.insert _ _
    · exact h
  | receiveAck ack bytes now cut => exact h.deliver (fun c s => receiveAck_run H c ack now s) bytes cut
  | checkpointAck ack bytes now cut => exact h.deliver (fun c s => checkpointAck_run H c ack now s) bytes cut
  | restart coordinatorId interval expected cut =>
    have hspec := (recoverFromStorage_spec H (.new job coordinatorId interval expected)
      ⟨w.files, cutScript cut⟩).1
    simp only [World.act]
    split <;> (next heq => rw [heq] at hspec; rw [show _ = w.files from hspec]; exact h)
  | _ => exact h

lemma HasManifest.run (events : List (Event Bytes)) : HasManifest (w.run H job events).files e :=
  Runs.run_invariant (I := fun w : World Bytes => HasManifest w.files e) (fun _ ev h => h.act ev) events h

end

/-- In every run in which the paths of acknowledged snapshots can be recorded and no two tasks share one,
whatever commit is cut short wherever: the latest valid epoch is the newest one with a manifest; the
files of every epoch with a manifest are the metadata and the snapshots that its quorum acknowledged;
and an epoch that was valid at some point of the run is still valid. -/
theorem newest_sealed_is_latest (events : List (Event Bytes))
    (hfine : FineRun H job World.cold events) : let w := World.cold.run H job events
    (∀ e, (latestValidEpoch H job).eval w.files = .ok e ↔
      HasManifest w.files e ∧ ∀ e', HasManifest w.files e' → e' ≤ e) ∧
    (∀ e, HasManifest w.files e → ∃ q, w.quorums.lookup e = some q ∧
      w.files.lookup (metadataPath e) = some (H.toJson q.metadata) ∧
      ∀ s ∈ q.metadata.operatorSnapshots,
        ∃ b, q.bytes.lookup s.taskId = some b ∧ w.files.lookup s.snapshotPath = some b) ∧
    ∀ before after, events = before ++ after → ∀ e,
      Valid H job (World.cold.run H job before).files e → Valid H job w.files e := by
  have hinv : Inv H job (cold.run H job events) := Inv.cold.run hfine
  refine ⟨fun e => hinv.latest_iff, fun e he => ?_, fun before after hsplit e hvalid => ?_⟩
  · obtain ⟨q, hq, hsealed⟩ := hinv.sealed e he
    obtain ⟨fs, hfiles, -⟩ := hsealed.sealed
    exact ⟨q, hq, hfiles.metadataFile, hsealed.bytes⟩
  refine hinv.valid_iff.mpr ?_
  have hrun : cold.run H job events = (cold.run H job before).run H job after := by
    rw [hsplit]
    exact Runs.run_append _ _ _
  rw [hrun]
  exact HasManifest.run hvalid.manifest after

/-! ## Two runs -/

def ackBy (operatorId : Text) (epoch : ℕ) : CheckpointAckRequest :=
  ⟨['j'], operatorId, ['t'], epoch, 1, [], some (Krishiv.State.snapshotPath epoch operatorId ['t']), []⟩

/-- Epoch 1 is cut before its manifest, then tried again with another snapshot and cut before its hint. -/
def cutRun : List (Event Tagged) :=
  [.restart ['c'] 10 1 none, .initiate 0, .receiveAck (ackBy ['o'] 1) (.raw 1) 0 (some 4),
    .restart ['c'] 10 1 none, .initiate 0, .receiveAck (ackBy ['o'] 1) (.raw 2) 0 (some 5),
    .restart ['c'] 10 1 none]

lemma ackFine_of_no_acks (hacks : w.coord.map (fun c => c.pendingAcks.entries) = some [])
    (hrec : Recordable ack.epoch (snapshotRel ack.operatorId ack.taskId)) : AckFine w ack := by
  intro c hc _ p _
  refine ⟨hrec, fun task other hlook => ?_⟩
  rw [hc, map_some, some.injEq] at hacks
  have hmem := mem_lookup_iff.mp hlook
  rw [hacks] at hmem
  cases hmem

/-- After both cuts epoch 1 is the latest valid epoch, with the snapshot of its second quorum. -/
theorem cutRun_recovered : let w := World.cold.run Host.tagged ['j'] cutRun
    (w.coord.map CheckpointCoordinator.state = some (.committed 1) ∧
      w.files.lookup (Krishiv.State.snapshotPath 1 ['o'] ['t']) = some (.raw 2)) ∧
    (∀ e, (latestValidEpoch Host.tagged ['j']).eval w.files = .ok e ↔
      HasManifest w.files e ∧ ∀ e', HasManifest w.files e' → e' ≤ e) ∧
    (∀ e, HasManifest w.files e → ∃ q, w.quorums.lookup e = some q ∧
      w.files.lookup (metadataPath e) = some (Host.tagged.toJson q.metadata) ∧
      ∀ s ∈ q.metadata.operatorSnapshots,
        ∃ b, q.bytes.lookup s.taskId = some b ∧ w.files.lookup s.snapshotPath = some b) ∧
    ∀ before after, cutRun = before ++ after → ∀ e,
      Valid Host.tagged ['j'] (World.cold.run Host.tagged ['j'] before).files e →
        Valid Host.tagged ['j'] w.files e := by
  have hrec : Recordable 1 (snapshotRel ['o'] ['t']) := by
    unfold Recordable
    decide +kernel
  have hfine : FineRun Host.tagged ['j'] cold cutRun := by
    refine ⟨trivial, trivial, ?_, trivial, trivial, ?_, trivial, trivial⟩
    · exact ackFine_of_no_acks (by decide +kernel) hrec
    · exact ackFine_of_no_acks (by decide +kernel) hrec
  exact ⟨by decide +kernel, newest_sealed_is_latest cutRun hfine⟩

/-- One task, whose operator id has a tab in it; nothing is cut. -/
def tabRun : List (Event Tagged) :=
  [.restart ['c'] 10 1 none, .initiate 0, .receiveAck (ackBy ['a', '\t', 'b'] 1) (.raw 7) 0 none]

/-- The epoch is committed and has a manifest, and there is no valid epoch. -/
theorem tabRun_unreadable : (World.cold.run Host.tagged ['j'] tabRun).coord.map CheckpointCoordinator.state =
        some (.committed 1) ∧
      HasManifest (World.cold.run Host.tagged ['j'] tabRun).files 1 ∧
      (latestValidEpoch Host.tagged ['j']).eval (World.cold.run Host.tagged ['j'] tabRun).files =
        .error (.failed .noValidEpoch) := by
  refine ⟨by decide +kernel, by unfold HasManifest; decide +kernel, by decide +kernel⟩

end CrashSafety

end Krishiv.Scheduler
