import Krishiv.Scheduler.RestoreActivation

/-!
# What a failed restore costs

Activation deletes the newer epochs before it writes, and a restore from a savepoint writes over the live
epoch file by file. So a restore that fails in between has cost something: `prunedRun_lost` loses the
newest epoch and then fails at the hint.

`costs_nothing_iff` says exactly when no fault can cost a valid epoch: for an activation, if its checks
reject it or no valid epoch is newer; for a savepoint, if it is rejected, the live epoch is not valid, or
the files that it puts back are already there.
-/

namespace Krishiv.Scheduler

open Krishiv.State StoreM List

/-- A restore, by the function that is called. -/
inductive RestoreCall where
  | activate (ctx : RestoreContext) (epoch : ℕ) (leaderFencingToken : Option ℕ)
  | savepoint (epoch currentFencingToken : ℕ)

variable {Bytes : Type} (H : Host Bytes) (R : Rescale Bytes) (jobId : Text)

/-- The files after a call that failed or during which the process stopped. -/
def RestoreCall.filesOnFailure : RestoreCall → Backend Path Bytes → Option (KVMap Path Bytes)
  | .activate ctx epoch token => (activateJobRestore H R ctx jobId epoch token).filesOnFailure
  | .savepoint epoch token => (restoreSavepoint H jobId epoch token).filesOnFailure

/-- The epochs that were valid are valid with the same contents. -/
def Preserved (files files' : KVMap Path Bytes) : Prop :=
  ∀ e, Valid H jobId files e →
    Valid H jobId files' e ∧ ∀ rel, files'.lookup (.checkpoint e rel) = files.lookup (.checkpoint e rel)

def RestoreCall.CostsNothing (call : RestoreCall) (files : KVMap Path Bytes) : Prop :=
  ∀ script files', call.filesOnFailure H R jobId ⟨files, script⟩ = some files' →
    Preserved H jobId files files'

/-- No epoch is there to be deleted, and what a savepoint puts back is already there. -/
def RestoreCall.Harmless : RestoreCall → KVMap Path Bytes → Prop
  | .activate ctx epoch token, files =>
    ∀ found, (restoreChecks H ctx jobId epoch token).eval files = .ok found → ∀ e, Valid H jobId files e → e ≤ epoch
  | .savepoint epoch token, files =>
    ∀ found, (restoreReads H jobId epoch token).eval files = .ok found → Valid H jobId files epoch →
      ∀ f ∈ epochFiles H found.1 found.2.2, files.lookup (.checkpoint epoch f.1) = some f.2

variable {H R jobId} {files : KVMap Path Bytes} {ctx : RestoreContext} {epoch : ℕ} {token : Option ℕ}

/-- The contents decide the validity. -/
lemma preserved_of_lookup {files' : KVMap Path Bytes} (h : ∀ e rel, Valid H jobId files e →
      files'.lookup (.checkpoint e rel) = files.lookup (.checkpoint e rel)) : Preserved H jobId files files' := by
  intro e he
  refine ⟨?_, fun rel => h e rel he⟩
  unfold Valid
  rw [validateEpoch_congr fun rel => h e rel he]
  exact he

lemma preserved_refl : Preserved H jobId files files := preserved_of_lookup fun _ _ _ => rfl

/-! ## Activation -/

/-- With nothing newer nothing is deleted. -/
lemma pruneNewer_files {s : Backend Path Bytes} (h : ∀ e, Valid H jobId s.files e → e ≤ epoch) :
    (pruneNewer H jobId epoch s).2.files = s.files := by
  have hlooks := (listValidEpochs_looks H jobId).mapError (g := invalidJob
    s!"cannot list checkpoint epochs for job {String.ofList jobId}: ")
  have hfiles := hlooks.files s
  unfold pruneNewer
  rw [bind_apply]
  rcases hrun : (listValidEpochs H jobId).mapError _ s with ⟨r, s₁⟩
  rw [hrun] at hfiles
  cases r with
  | error e => exact hfiles
  | ok l =>
    have hvalid := listValidEpochs_valid (mapError_eq_ok.mp hrun)
    have hnone : l.filter (epoch < ·) = [] := by
      refine filter_eq_nil_iff.mpr fun e he => ?_
      have hle := h e (hvalid e he)
      simp only [decide_eq_true_eq]
      omega
    dsimp only
    rw [hnone]
    exact hfiles

/-- With something newer a fault during the deletion takes a file of a valid epoch. -/
lemma pruneNewer_fault {e : ℕ} (he : Valid H jobId files e) (hlt : epoch < e) :
    ∃ n err s, pruneNewer H jobId epoch ⟨files, List.replicate n .done ++ [.done, .late ""]⟩ = (.error err, s) ∧
      ∃ e' rel, Valid H jobId files e' ∧ s.files.lookup (.checkpoint e' rel) ≠ files.lookup (.checkpoint e' rel) := by
  obtain ⟨l, hl, hmem⟩ : ∃ l, (listValidEpochs H jobId).eval files = .ok l ∧
      ∀ e, Valid H jobId files e → e ∈ l := listValidEpochs_eval
  obtain ⟨n, hn⟩ := (listValidEpochs_looks H jobId).steady.calls files
  have hlist := hn [.done, .late ""]
  rw [hl] at hlist
  have hvalid := listValidEpochs_valid hlist
  have hnewer : e ∈ l.filter (epoch < ·) := mem_filter.mpr ⟨hmem e he, decide_eq_true hlt⟩
  rcases hfilter : l.filter (epoch < ·) with _ | ⟨first, rest⟩
  · rw [hfilter] at hnewer
    cases hnewer
  -- the first epoch to be deleted is valid, so it has a file
  have hfirst : Valid H jobId files first := by
    refine hvalid first (mem_of_mem_filter (p := (epoch < ·)) ?_)
    rw [hfilter]
    exact mem_cons_self
  have hdir : inCheckpoint first (manifestPath first) = true := by simp [inCheckpoint, manifestPath]
  obtain ⟨q, err, s, hdelete, hbelow, hlost⟩ := deletePrefix_fault hdir hfirst.manifest
  obtain ⟨err', hdelete'⟩ := mapError_error (g := invalidJob
    (s!"cannot prune checkpoint epoch {first} after restoring job {String.ofList jobId} " ++
      s!"to epoch {epoch}: ")) hdelete
  refine ⟨n, err', s, ?_, first, ?_⟩
  · unfold pruneNewer
    rw [bind_ok (mapError_eq_ok.mpr hlist), hfilter]
    exact bind_error hdelete'
  cases q with
  | checkpoint e' rel =>
    have he' : e' = first := by simpa [inCheckpoint] using hbelow
    subst he'
    exact ⟨rel, hfirst, hlost⟩
  | savepoint e' rel | hint | other path => cases hbelow

lemma activateJobRestore_preserves (h : (RestoreCall.activate ctx epoch token).Harmless H jobId files)
    (script : List CallOutcome) :
    Preserved H jobId files (activateJobRestore H R ctx jobId epoch token ⟨files, script⟩).2.files := by
  have hchecks : Observes (restoreChecks H ctx jobId epoch token) := restoreChecks_observes
  have hfiles := hchecks.files ⟨files, script⟩
  have hgenuine := hchecks.genuine ⟨files, script⟩
  unfold activateJobRestore
  rw [bind_apply]
  rcases hrun : restoreChecks H ctx jobId epoch token ⟨files, script⟩ with ⟨r, s₁⟩
  rw [hrun] at hfiles hgenuine
  have hs₁ : s₁.files = files := hfiles
  cases r with
  | error e =>
    rw [hs₁]
    exact preserved_refl
  | ok found =>
    have hnewer := h found (hgenuine found rfl)
    have hepoch := restoreChecks_ok (hgenuine found rfl)
    have hprune : (pruneNewer H jobId epoch s₁).2.files = files := by
      rw [pruneNewer_files (by rwa [hs₁]), hs₁]
    -- what follows the deletions writes elsewhere
    have hrestored : Within (Rewritten (epoch + 1)) (writeRestored H R ctx jobId epoch token found.1) :=
      writeRestored_within found.1 hepoch
    have hwrites := hrestored.bind fun restored =>
      (Within.ofExcept ((found.2.activateRestoredEpoch restored token).mapError (invalidJob
        s!"cannot activate checkpoint epoch {restored.epoch} for job {String.ofList jobId}: "))).bind
          fun coord => Within.pure (restored, coord)
    refine preserved_of_lookup fun e rel he => ?_
    have houtside : ¬ Rewritten (epoch + 1) (.checkpoint e rel) := by
      rintro (⟨rel', heq⟩ | heq)
      · cases heq
        have hle := hnewer _ he
        omega
      · cases heq
    dsimp only
    rw [bind_apply]
    rcases hrun' : pruneNewer H jobId epoch s₁ with ⟨r', s₂⟩
    rw [hrun'] at hprune
    have hs₂ : s₂.files = files := hprune
    cases r' with
    | error e => rw [hs₂]
    | ok u => exact (hwrites s₂ _ houtside).trans (by rw [hs₂])

/-- A run of the checks that finds no fault, and a fault in the deletion. -/
lemma activateJobRestore_fault {found : CheckpointMetadata × CheckpointCoordinator} {e : ℕ}
    (hfound : (restoreChecks H ctx jobId epoch token).eval files = .ok found)
    (he : Valid H jobId files e) (hlt : epoch < e) :
    ∃ script files', (activateJobRestore H R ctx jobId epoch token).filesOnFailure ⟨files, script⟩ =
        some files' ∧ ¬ Preserved H jobId files files' := by
  obtain ⟨n, err, s, hprune, e', rel, he', hlost⟩ := pruneNewer_fault he hlt
  have hchecks : Observes (restoreChecks H ctx jobId epoch token) := restoreChecks_observes
  obtain ⟨k, hk⟩ := hchecks.steady.calls files
  have hrun := hk (replicate n .done ++ [.done, .late ""])
  rw [hfound] at hrun
  refine ⟨_, s.files, filesOnFailure_of_error ((bind_ok hrun).trans (bind_error hprune)), fun hsame => ?_⟩
  exact hlost ((hsame e' he').2 rel)

/-! ## Savepoints -/

variable {currentFencingToken : ℕ}

lemma restoreSavepoint_preserves (h : (RestoreCall.savepoint epoch currentFencingToken).Harmless H jobId files)
    (script : List CallOutcome) :
    Preserved H jobId files (restoreSavepoint H jobId epoch currentFencingToken ⟨files, script⟩).2.files := by
  refine preserved_of_lookup fun e rel he => ?_
  by_cases hepoch : e = epoch
  · subst hepoch
    have hreads := restoreReads_readOnly H jobId e currentFencingToken
    have hfiles := hreads.files ⟨files, script⟩
    have hgenuine : ∀ a, (restoreReads H jobId e currentFencingToken ⟨files, script⟩).1 = .ok a →
        (restoreReads H jobId e currentFencingToken).eval files = .ok a := fun a ha => hreads.eval_of_ok ha
    rw [restoreSavepoint_eq, bind_apply]
    rcases hrun : restoreReads H jobId e currentFencingToken ⟨files, script⟩ with ⟨r, s₁⟩
    rw [hrun] at hfiles hgenuine
    have hs₁ : s₁.files = files := hfiles
    cases r with
    | error err => rw [hs₁]
    | ok found =>
      -- every write puts back what is there
      have hthere := h found (hgenuine found rfl) he
      have hkeeps : Keeps (fun files' => ∀ p, files'.lookup p = files.lookup p)
          (writeFiles H (.checkpoint e) found.1 found.2.2 >>= fun _ => pure found.2.1) := by
        rw [writeFiles_eq_forM]
        exact (forM_write_same hthere).bind fun _ => .pure _
      exact hkeeps s₁ (fun p => by rw [hs₁]) _
  · have hwithin := restoreSavepoint_within H jobId epoch currentFencingToken
    refine hwithin ⟨files, script⟩ _ ?_
    rintro ⟨rel', heq⟩
    cases heq
    exact hepoch rfl

/-- A fault behind the first write that changes a file. -/
lemma restoreSavepoint_fault {found : Bytes × CheckpointMetadata × List (Text × Bytes)}
    (hfound : (restoreReads H jobId epoch currentFencingToken).eval files = .ok found)
    (hvalid : Valid H jobId files epoch) (hdiffers : ∃ f ∈ epochFiles H found.1 found.2.2,
      files.lookup (.checkpoint epoch f.1) ≠ some f.2) :
    ∃ script files', (restoreSavepoint H jobId epoch currentFencingToken).filesOnFailure ⟨files, script⟩ =
        some files' ∧ ¬ Preserved H jobId files files' := by
  obtain ⟨n, err, s, hwrites, f, -, hlost⟩ : ∃ n e s, ((epochFiles H found.1 found.2.2).forM fun f =>
          (StoreM.write (.checkpoint epoch f.1) f.2 : Io Bytes Unit))
        ⟨files, replicate n .done ++ [.late ""]⟩ = (.error e, s) ∧ ∃ f ∈ epochFiles H found.1 found.2.2,
        s.files.lookup (.checkpoint epoch f.1) ≠ files.lookup (.checkpoint epoch f.1) :=
    forM_write_fault (fun f : Text × Bytes => Path.checkpoint epoch f.1) Prod.snd hdiffers
  obtain ⟨k, hk⟩ := (restoreReads_readOnly H jobId epoch currentFencingToken).steady.calls files
  have hrun := hk (replicate n .done ++ [.late ""])
  rw [hfound] at hrun
  have hfail : restoreSavepoint H jobId epoch currentFencingToken
      ⟨files, replicate k .done ++ (replicate n .done ++ [.late ""])⟩ = (.error err, s) := by
    rw [restoreSavepoint_eq, bind_ok hrun, writeFiles_eq_forM]
    exact bind_error hwrites
  refine ⟨_, s.files, filesOnFailure_of_error hfail, fun hsame => ?_⟩
  exact hlost ((hsame epoch hvalid).2 f.1)

/-! ## Exactly when nothing is lost -/

/-- Over every pattern of failures and every moment at which the process stops. -/
theorem costs_nothing_iff (H : Host Bytes) (R : Rescale Bytes) (jobId : Text) (call : RestoreCall)
    (files : KVMap Path Bytes) :
    call.CostsNothing H R jobId files ↔ call.Harmless H jobId files := by
  constructor
  · intro hcosts
    cases call with
    | activate ctx epoch token =>
      intro found hfound e he
      by_contra hlt
      obtain ⟨script, files', hfail, hlost⟩ := activateJobRestore_fault hfound he (by omega)
      exact hlost (hcosts script files' hfail)
    | savepoint epoch token =>
      intro found hfound hvalid f hf
      by_contra hdiffers
      obtain ⟨script, files', hfail, hlost⟩ := restoreSavepoint_fault hfound hvalid ⟨f, hf, hdiffers⟩
      exact hlost (hcosts script files' hfail)
  · intro hharmless script files' hfail
    cases call with
    | activate ctx epoch token =>
      rw [← files_of_filesOnFailure hfail]
      exact activateJobRestore_preserves hharmless script
    | savepoint epoch token =>
      rw [← files_of_filesOnFailure hfail]
      exact restoreSavepoint_preserves hharmless script

/-! ## Two failed restores -/

def epochMetadata (epoch : ℕ) : CheckpointMetadata where
  version := CheckpointMetadata.currentVersion
  epoch := epoch
  jobId := ['j']
  fencingToken := 1
  coordinatorId := none
  timestampMs := 0
  sourceOffsets := []
  operatorSnapshots := []
  isSavepoint := false
  savepointLabel := none
  icebergSnapshotId := none
  kafkaOffsets := none
  sinkTransactions := []
  streamingProfile := none

/-- Two sealed epochs, and a savepoint of the second. -/
def twoEpochs : KVMap Path Tagged :=
  let setUp : Io Tagged (ℕ × CheckpointMetadata) := do
    writeFiles Host.tagged (.checkpoint 1) (.json (epochMetadata 1)) []
    writeFiles Host.tagged (.checkpoint 2) (.json (epochMetadata 2)) []
    createSavepointAtEpoch Host.tagged ['j'] 2 none
  (setUp ⟨∅, []⟩).2.files

/-- The snapshots as they are. -/
def Rescale.unchanged : Rescale Tagged where
  isEmpty _ := false
  redistributeSnapshots snapshots _ := .ok snapshots

/-- Activate epoch 1. -/
def toEpochOne : RestoreCall :=
  .activate ⟨true, ['c'], some (.new ['j'] ['c'] 10 1), false, [], 0⟩ 1 none

/-- Put the savepoint of epoch 2 back. -/
def toSavepointTwo : RestoreCall := .savepoint 2 1

/-- Epoch 2 is valid. An activation of epoch 1 whose hint is refused has deleted it; a restore of its
savepoint that stops before the manifest has replaced its metadata. -/
theorem prunedRun_lost : Valid Host.tagged ['j'] twoEpochs 2 ∧
      (∃ files', toEpochOne.filesOnFailure Host.tagged .unchanged ['j']
          ⟨twoEpochs, List.replicate 14 .done ++ [.refused "disk full"]⟩ = some files' ∧
        ¬ Valid Host.tagged ['j'] files' 2) ∧
      ∃ files', toSavepointTwo.filesOnFailure Host.tagged .unchanged ['j']
          ⟨twoEpochs, List.replicate 4 .done ++ [.stop]⟩ = some files' ∧
        files'.lookup (metadataPath 2) ≠ twoEpochs.lookup (metadataPath 2) := by
  refine ⟨by unfold Valid; decide +kernel, ?_, ?_⟩
  · have hpruned : (toEpochOne.filesOnFailure Host.tagged .unchanged ['j']
        ⟨twoEpochs, replicate 14 .done ++ [.refused "disk full"]⟩).map
          ((validateEpoch Host.tagged ['j'] 2).eval ·) = some (.ok false) := by decide +kernel
    obtain ⟨files', hfail, hinvalid⟩ := Option.map_eq_some_iff.mp hpruned
    refine ⟨files', hfail, fun hvalid => ?_⟩
    cases hvalid.symm.trans hinvalid
  · have hreplaced : (toSavepointTwo.filesOnFailure Host.tagged .unchanged ['j']
        ⟨twoEpochs, replicate 4 .done ++ [.stop]⟩).map (·.lookup (metadataPath 2)) =
          some (some (.json { epochMetadata 2 with isSavepoint := true })) := by decide +kernel
    obtain ⟨files', hfail, hmeta⟩ := Option.map_eq_some_iff.mp hreplaced
    refine ⟨files', hfail, ?_⟩
    rw [hmeta]
    decide +kernel

end Krishiv.Scheduler
