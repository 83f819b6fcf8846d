import Krishiv.Lib.Runs
import Krishiv.Scheduler.CommitWrites
import Krishiv.State.Savepoints

/-!
# Savepoints over the life of a job

A savepoint is a copy of a committed epoch in a directory of its own, which commits, deletions of epochs
and restores do not touch. Creating one does touch it: a second creation for the same epoch writes over
the first savepoint, and when one of its writes fails it deletes the directory, with the first savepoint
in it (`recreatedRun_gone`).

If no creation names an epoch that already has a savepoint, and the path check accepts the snapshot paths
of the copied epoch, then every savepoint can be restored with the metadata and the snapshots it was
created with until it is deleted (`savepoints_immutable`).
-/

namespace Krishiv.Scheduler

open Krishiv.State List AList StoreM Prod

namespace SavepointHistory

open CheckpointCoordinator StoreM

structure World (Bytes : Type) where
  files : KVMap Path Bytes
  /-- Ghost: by epoch, what was saved by the first creation that returned since the last deletion. -/
  made : KVMap ℕ (CheckpointMetadata × List (Text × Bytes))

/-- Every event comes with the fate of its storage calls. -/
inductive Event (Bytes : Type) where
  | snapshot (epoch : ℕ) (operatorId taskId : Text) (bytes : Bytes) (script : List CallOutcome)
  | commit (commit : { commit : PendingCommit // Placed commit }) (script : List CallOutcome)
  | deleteEpoch (epoch : ℕ) (script : List CallOutcome)
  | createSavepoint (label : Option Text) (script : List CallOutcome)
  | createSavepointAtEpoch (epoch : ℕ) (label : Option Text) (script : List CallOutcome)
  | restoreSavepoint (epoch token : ℕ) (script : List CallOutcome)
  | deleteSavepoint (epoch : ℕ) (script : List CallOutcome)

variable {Bytes : Type} (H : Host Bytes) (job : Text)

namespace World

def cold : World Bytes := ⟨∅, ∅⟩

/-- The world after a creation that ended with `out`. -/
def created (w : World Bytes) (label : Option Text) :
    Except (Halt CheckpointError) (ℕ × CheckpointMetadata) × Backend Path Bytes → World Bytes
  | (.ok (e, _), s) =>
    match w.made.lookup e, (createReads H job e label).eval w.files with
    | none, .ok saved => ⟨s.files, w.made.insert e saved⟩
    | _, _ => { w with files := s.files }
  | (.error _, s) => { w with files := s.files }

def act (w : World Bytes) : Event Bytes → World Bytes
  | .snapshot epoch operatorId taskId bytes script =>
    { w with files := (writeOperatorSnapshot epoch operatorId taskId bytes ⟨w.files, script⟩).2.files }
  | .commit commit script => { w with files := (commitStorage H commit.1 ⟨w.files, script⟩).2.files }
  | .deleteEpoch epoch script => { w with files := (deleteEpoch epoch ⟨w.files, script⟩).2.files }
  | .createSavepoint label script => w.created H job label (createSavepoint H job label ⟨w.files, script⟩)
  | .createSavepointAtEpoch epoch label script =>
    w.created H job label (createSavepointAtEpoch H job epoch label ⟨w.files, script⟩)
  | .restoreSavepoint epoch token script =>
    { w with files := (restoreSavepoint H job epoch token ⟨w.files, script⟩).2.files }
  | .deleteSavepoint epoch script => ⟨(deleteSavepoint epoch ⟨w.files, script⟩).2.files, w.made.erase epoch⟩

def run (w : World Bytes) (events : List (Event Bytes)) : World Bytes := Runs.run (act H job) w events

end World

open World

/-! ## Metadata names the places of snapshots -/

/-- The declared snapshots are at places where tasks write them. -/
def InPlace (metadata : CheckpointMetadata) : Prop :=
  ∀ s ∈ metadata.operatorSnapshots, ∃ e operatorId taskId,
    s.snapshotPath = Krishiv.State.snapshotPath e operatorId taskId

/-- All metadata files, of epochs and of savepoints, are `InPlace`. -/
def MetadataInPlace (files : KVMap Path Bytes) : Prop :=
  ∀ p, (∃ e, p = metadataPath e ∨ p = Path.savepoint e metadataJson) → ∀ bytes metadata,
    files.lookup p = some bytes → H.fromJson bytes = .ok metadata → InPlace metadata

variable {H job} {files : KVMap Path Bytes} {epoch : ℕ} {w : World Bytes}

lemma MetadataInPlace.insert (h : MetadataInPlace H files) {p : Path} {b : Bytes}
    (hp : (∃ e, p = metadataPath e ∨ p = Path.savepoint e metadataJson) →
      ∀ metadata, H.fromJson b = .ok metadata → InPlace metadata) : MetadataInPlace H (files.insert p b) := by
  intro q hq bytes metadata hlook hjson
  by_cases heq : q = p
  · subst heq
    rw [lookup_insert] at hlook
    cases hlook
    exact hp hq metadata hjson
  · rw [lookup_insert_ne heq] at hlook
    exact h q hq bytes metadata hlook hjson

lemma MetadataInPlace.erase (h : MetadataInPlace H files) (p : Path) : MetadataInPlace H (files.erase p) := by
  intro q hq bytes metadata hlook hjson
  by_cases heq : q = p
  · subst heq
    rw [lookup_erase] at hlook
    cases hlook
  · rw [lookup_erase_ne heq] at hlook
    exact h q hq bytes metadata hlook hjson

variable {e : ℕ}

/-- A path that is neither a metadata file of an epoch nor one of a savepoint. -/
lemma not_metadata_of_checkpoint {rel : Text} (h : rel ≠ metadataJson) :
    ¬ ∃ e', Path.checkpoint e rel = metadataPath e' ∨ Path.checkpoint e rel = .savepoint e' metadataJson := by
  rintro ⟨e', heq | heq⟩
  · exact h (by injection heq)
  · cases heq

lemma not_metadata_of_savepoint {rel : Text} (h : rel ≠ metadataJson) :
    ¬ ∃ e', Path.savepoint e rel = metadataPath e' ∨ Path.savepoint e rel = .savepoint e' metadataJson := by
  rintro ⟨e', heq | heq⟩
  · cases heq
  · exact h (by injection heq)

lemma metadataJson_ne_manifestSha256 : metadataJson ≠ manifestSha256 := by
  rw [metadataJson_chars, manifestSha256_chars]
  decide

lemma deletePrefix_keeps (below : Path → Bool) : Keeps (MetadataInPlace H) (deletePrefix below : Io Bytes Unit) :=
  (ReadOnly.list _).keeps.bind fun _ =>
    .forM fun p _ => .call fun _ hq => hq.erase p

variable {fs : List (Text × Bytes)}

/-- Writing an epoch whose metadata is in place and whose snapshots stay away from the metadata. -/
lemma writeFiles_keeps {dir : Text → Path} {metadataBytes : Bytes}
    (hdir : ∀ rel ≠ metadataJson, ¬ ∃ e, dir rel = metadataPath e ∨ dir rel = Path.savepoint e metadataJson)
    (hmeta : ∀ metadata, H.fromJson metadataBytes = .ok metadata → InPlace metadata) (hfs : Apart fs) :
    Keeps (MetadataInPlace H) (writeFiles H dir metadataBytes fs) := by
  refine (Keeps.call fun _ hq => hq.insert fun _ => hmeta).bind fun _ => Keeps.bind ?_ fun _ => ?_
  · exact .forM fun f hf => .call fun _ hq => hq.insert fun hp => absurd hp (hdir _ (hfs f hf).1)
  · exact .call fun _ hq =>
      hq.insert fun hp => absurd hp (hdir _ metadataJson_ne_manifestSha256.symm)

variable {metadata : CheckpointMetadata}

/-- Declared snapshots in place are apart from metadata and manifest. -/
lemma apart_of_inPlace (h : InPlace metadata)
    (hdeclared : metadata.operatorSnapshots.map OperatorSnapshotRef.snapshotPath =
      fs.map fun f => .checkpoint epoch f.1) : Apart fs := by
  intro f hf
  have hmem : Path.checkpoint epoch f.1 ∈ metadata.operatorSnapshots.map OperatorSnapshotRef.snapshotPath := by
    rw [hdeclared]
    exact mem_map_of_mem hf
  obtain ⟨s, hs, hpath⟩ := mem_map.mp hmem
  obtain ⟨e, operatorId, taskId, hplace⟩ := h s hs
  have hrel : f.1 = snapshotRel operatorId taskId := by
    rw [hplace] at hpath
    injection hpath with h₁ h₂
    exact h₂.symm
  rw [hrel]
  exact ⟨snapshotRel_ne_metadata _ _, snapshotRel_ne_manifest _ _⟩

/-! ## The invariant -/

variable (H job) in
structure Inv (w : World Bytes) : Prop where
  inPlace : MetadataInPlace H w.files
  saved : ∀ e x, w.made.lookup e = some x → Saved H w.files job e x.1 x.2

/-- A step that keeps the metadata in place and does not touch the savepoints that were made. -/
lemma Inv.frame (hinv : Inv H job w) {files' : KVMap Path Bytes} (hplace : MetadataInPlace H files')
    (hsame : ∀ e x, w.made.lookup e = some x → ∀ rel,
      files'.lookup (.savepoint e rel) = w.files.lookup (.savepoint e rel)) : Inv H job { w with files := files' } :=
  ⟨hplace, fun e x hx => (hinv.saved e x hx).congr (hsame e x hx)⟩

lemma Inv.commit (hinv : Inv H job w) (commit : { commit : PendingCommit // Placed commit })
    (script : List CallOutcome) : Inv H job (w.act H job (.commit commit script)) := by
  obtain ⟨commit, hplaced⟩ := commit
  have hleaves := commitStorage_leaves H commit ⟨w.files, script⟩
  have hjson : ∀ metadata, H.fromJson (H.toJson commit.metadata) = .ok metadata → InPlace metadata := by
    intro metadata h
    rw [H.fromJson_toJson] at h
    cases h
    exact fun s hs => ⟨_, _, _, hplaced.places s hs⟩
  have hmeta : MetadataInPlace H (withMetadata H commit w.files) := hinv.inPlace.insert fun _ => hjson
  simp only [act]
  generalize commitStorage H commit ⟨w.files, script⟩ = out at hleaves
  obtain ⟨r, s⟩ := out
  generalize hp : progress H commit ⟨w.files, script⟩ = p at hleaves
  generalize hs : s.files = files' at hleaves
  cases hleaves with
  | nothing _ => exact hinv
  | metadata _ _ =>
    refine hinv.frame hmeta fun e x _ rel => lookup_insert_ne fun heq => ?_
    cases heq
  | @manifest _ fs _ _ _ hfiles =>
    have hman : MetadataInPlace H (withManifest H commit fs w.files) :=
      hmeta.insert fun hp => absurd hp (not_metadata_of_checkpoint metadataJson_ne_manifestSha256.symm)
    refine hinv.frame (fun p hp bytes metadata hlook => ?_) fun e x _ rel => ?_
    · have hhint : p ≠ Path.hint := by
        obtain ⟨e, rfl | rfl⟩ := hp
        · simp [metadataPath]
        · simp
      rw [hfiles p hhint] at hlook
      exact hman p hp bytes metadata hlook
    · rw [hfiles _ (by simp), withManifest, withMetadata, lookup_insert_ne, lookup_insert_ne]
      · simp [metadataPath]
      · simp [manifestPath]

lemma Inv.restore (hinv : Inv H job w) (e token : ℕ) (script : List CallOutcome) :
    Inv H job (w.act H job (.restoreSavepoint e token script)) := by
  refine hinv.frame ?_ fun e' x _ rel => ?_
  · rw [restoreSavepoint_eq, bind_apply]
    have hro := restoreReads_readOnly H job e token
    have hfiles := hro.files ⟨w.files, script⟩
    rcases hr : restoreReads H job e token ⟨w.files, script⟩ with ⟨_ | x, s⟩
    · rw [hr] at hfiles
      exact hfiles ▸ hinv.inPlace
    obtain ⟨metadataBytes, metadata, fs⟩ := x
    have hread := restoreReads_ok (hro.eval_of_ok (congrArg fst hr))
    have hmeta : InPlace metadata := hinv.inPlace _ ⟨e, .inr rfl⟩ _ _ hread.metadataFile hread.parsed
    have hkeeps : Keeps (MetadataInPlace H)
        (writeFiles H (.checkpoint e) metadataBytes fs >>= fun _ => pure metadata) := by
      refine Keeps.bind (writeFiles_keeps (fun rel hrel => not_metadata_of_checkpoint hrel) ?_
        (apart_of_inPlace hmeta hread.declared)) fun _ => .pure _
      intro metadata' h
      rw [hread.parsed] at h
      cases h
      exact hmeta
    rw [hr] at hfiles
    exact hkeeps s (hfiles ▸ hinv.inPlace)
  · refine restoreSavepoint_within H job e token ⟨w.files, script⟩ _ ?_
    rintro ⟨rel', heq⟩
    cases heq

/-! ## Creations -/

variable (H) in
/-- The epoch has no savepoint, and the path check accepts the snapshot paths of the epoch. -/
def CreateFine (w : World Bytes) (e : ℕ) : Prop :=
  w.made.lookup e = none ∧ ∀ bytes stored, w.files.lookup (metadataPath e) = some bytes →
    H.fromJson bytes = .ok stored → ∀ s ∈ stored.operatorSnapshots, ∀ rel,
      s.snapshotPath = .checkpoint e rel → validateManifestRelativePath rel e = .ok ()

variable {s : Backend Path Bytes}

lemma Inv.createAt (hinv : Inv H job w) (hfine : CreateFine H w e) (label : Option Text)
    (hfiles : s.files = w.files) : Inv H job (w.created H job label (createSavepointAtEpoch H job e label s)) := by
  have hro := createReads_readOnly H job e label
  have hsame := hro.files s
  rw [createSavepointAtEpoch_eq, bind_apply]
  rcases hr : createReads H job e label s with ⟨_ | x, s₁⟩
  · rw [hr] at hsame
    have hw : { w with files := s₁.files } = w := by rw [show s₁.files = s.files from hsame, hfiles]
    dsimp only [created]
    rw [hw]
    exact hinv
  obtain ⟨metadata, fs⟩ := x
  have heval : (createReads H job e label).eval w.files = .ok (metadata, fs) :=
    hfiles ▸ hro.eval_of_ok (congrArg fst hr)
  have hread := createReads_ok heval
  obtain ⟨bytes, stored, hbytes, hjson, hmetadata⟩ := hread.stored
  have hsnaps : metadata.operatorSnapshots = stored.operatorSnapshots := by rw [hmetadata]
  have hmeta : InPlace metadata := by
    intro snap hsnap
    rw [hsnaps] at hsnap
    exact hinv.inPlace _ ⟨e, .inl rfl⟩ _ _ hbytes hjson snap hsnap
  have hapart := apart_of_inPlace hmeta hread.declared
  rw [hr] at hsame
  have hs₁ : s₁.files = w.files := Eq.trans hsame hfiles
  -- what the writes keep, whatever happens to them
  have hplace : MetadataInPlace H (createWrites H e metadata fs s₁).2.files := by
    have hkeeps : Keeps (MetadataInPlace H) (createWrites H e metadata fs) := by
      refine Keeps.handle (writeFiles_keeps (fun rel hrel => not_metadata_of_savepoint hrel) ?_ hapart)
        fun error => Keeps.bind (.handle (deletePrefix_keeps _) fun _ => .pure _) fun _ => .throw _
      intro metadata' h
      rw [H.fromJson_toJson] at h
      cases h
      exact hmeta
    exact hkeeps s₁ (hs₁ ▸ hinv.inPlace)
  have hother : ∀ e' ≠ e, ∀ rel, (createWrites H e metadata fs s₁).2.files.lookup (.savepoint e' rel) =
      w.files.lookup (.savepoint e' rel) := by
    intro e' hne rel
    rw [← hs₁]
    refine createWrites_within H e (S := fun p => ∃ rel, p = .savepoint e rel) (fun rel => ⟨rel, rfl⟩)
      metadata s₁ _ ?_
    rintro ⟨rel', heq⟩
    exact hne (by injection heq)
  have hkept : Inv H job { w with files := (createWrites H e metadata fs s₁).2.files } := by
    refine hinv.frame hplace fun e' x hx rel => hother e' ?_ rel
    rintro rfl
    rw [hfine.1] at hx
    cases hx
  dsimp only
  rw [bind_apply]
  rcases hw : createWrites H e metadata fs s₁ with ⟨_ | u, s₂⟩
  · rw [hw] at hkept
    exact hkept
  rw [hw] at hkept hother
  have hpaths : ∀ f ∈ fs, validateManifestRelativePath f.1 e = .ok () := by
    intro f hf
    have hmem : Path.checkpoint e f.1 ∈ metadata.operatorSnapshots.map OperatorSnapshotRef.snapshotPath := by
      rw [hread.declared]
      exact mem_map_of_mem hf
    obtain ⟨snap, hsnap, hpath⟩ := mem_map.mp hmem
    exact hfine.2 bytes stored hbytes hjson snap (hsnaps ▸ hsnap) f.1 hpath
  simp only [pure_apply, created, hfine.1, heval]
  refine ⟨hkept.inPlace, fun e' x hx => ?_⟩
  by_cases he : e' = e
  · subst he
    rw [lookup_insert] at hx
    cases hx
    exact saved_of_create hread hpaths hapart hw
  · rw [lookup_insert_ne he] at hx
    exact hkept.saved e' x hx

/-- A creation that returned has saved what it read. -/
lemma create_returned {e e' : ℕ} {label : Option Text}
    (h : (createSavepointAtEpoch H job e label s).1 = .ok (e', metadata)) :
    e' = e ∧ ∃ fs, (createReads H job e label).eval s.files = .ok (metadata, fs) := by
  have hout : createSavepointAtEpoch H job e label s =
      (.ok (e', metadata), (createSavepointAtEpoch H job e label s).2) := Prod.ext h rfl
  rw [createSavepointAtEpoch_eq] at hout
  obtain ⟨⟨md, fs⟩, s₁, hreads, hout⟩ := bind_eq_ok.mp hout
  obtain ⟨_, s₂, -, hout⟩ := bind_eq_ok.mp hout
  cases hout
  exact ⟨rfl, fs, (createReads_readOnly H job e label).eval_of_ok (congrArg fst hreads)⟩

/-! ## Whole runs -/

section Run

variable (H job)

/-- The condition on a step. -/
def Fine (w : World Bytes) : Event Bytes → Prop
  | .createSavepoint _ _ => ∀ e, (latestValidEpoch H job).eval w.files = .ok e → CreateFine H w e
  | .createSavepointAtEpoch epoch _ _ => CreateFine H w epoch
  | _ => True

def FineRun : World Bytes → List (Event Bytes) → Prop := Runs.Along (World.act H job) (Fine H job)

/-- What a creation returns to its caller. -/
def World.answer (w : World Bytes) : Event Bytes → Option (ℕ × CheckpointMetadata)
  | .createSavepoint label script => (createSavepoint H job label ⟨w.files, script⟩).1.toOption
  | .createSavepointAtEpoch epoch label script =>
    (createSavepointAtEpoch H job epoch label ⟨w.files, script⟩).1.toOption
  | _ => none

end Run

lemma Inv.cold : Inv H job (cold : World Bytes) where
  inPlace p _ bytes metadata hlook _ := by cases hlook
  saved e x hx := by cases hx

/-- A program that keeps the metadata in place and works outside the savepoints. -/
lemma Inv.outside {α : Type} (hinv : Inv H job w) {m : Io Bytes α} (hkeeps : Keeps (MetadataInPlace H) m)
    {S : Path → Prop} (hwithin : Within S m) (hS : ∀ e rel, ¬ S (.savepoint e rel))
    (script : List CallOutcome) : Inv H job { w with files := (m ⟨w.files, script⟩).2.files } :=
  hinv.frame (hkeeps ⟨w.files, script⟩ hinv.inPlace) fun e _ _ rel => hwithin ⟨w.files, script⟩ _ (hS e rel)

lemma Inv.act (hinv : Inv H job w) {ev : Event Bytes} (hfine : Fine H job w ev) : Inv H job (w.act H job ev) := by
  cases ev with
  | snapshot e operatorId taskId bytes script =>
    have hkeeps : Keeps (MetadataInPlace H) (writeOperatorSnapshot e operatorId taskId bytes) :=
      .call fun _ hq => hq.insert fun hp =>
        absurd hp (not_metadata_of_checkpoint (snapshotRel_ne_metadata _ _))
    refine hinv.outside hkeeps (S := fun p => p = Krishiv.State.snapshotPath e operatorId taskId)
      (.write _ rfl) (fun e rel heq => ?_) script
    cases heq
  | commit commit script => exact hinv.commit commit script
  | deleteEpoch e script =>
    exact hinv.outside (deletePrefix_keeps _) (deletePrefix_within _)
      (fun _ _ h => Bool.false_ne_true h) script
  | createSavepoint label script =>
    have hro := latestValidEpoch_readOnly H job
    have hfiles := hro.files ⟨w.files, script⟩
    simp only [World.act, createSavepoint]
    rw [bind_apply]
    rcases hr : latestValidEpoch H job ⟨w.files, script⟩ with ⟨_ | e, s⟩
    · rw [hr] at hfiles
      have hw : { w with files := s.files } = w := by rw [show s.files = w.files from hfiles]
      dsimp only [created]
      rw [hw]
      exact hinv
    · rw [hr] at hfiles
      exact hinv.createAt (hfine e (hro.eval_of_ok (congrArg fst hr))) label hfiles
  | createSavepointAtEpoch e label script => exact hinv.createAt hfine label rfl
  | restoreSavepoint e token script => exact hinv.restore e token script
  | deleteSavepoint e script =>
    refine ⟨deletePrefix_keeps _ ⟨w.files, script⟩ hinv.inPlace, fun e' x hx => ?_⟩
    by_cases he : e' = e
    · rw [he] at hx
      simp only [World.act, lookup_erase] at hx
      cases hx
    · simp only [World.act, lookup_erase_ne he] at hx
      refine (hinv.saved e' x hx).congr fun rel => deletePrefix_within _ ⟨w.files, script⟩ _ ?_
      simpa [inSavepoint] using he

variable {events : List (Event Bytes)}

lemma Inv.run (hinv : Inv H job w) (hfine : FineRun H job w events) : Inv H job (w.run H job events) :=
  Runs.Along.invariant (I := Inv H job) (fun _ _ hfine hinv => hinv.act hfine) hfine hinv

lemma ok_of_toOption {ε α : Type} {x : Except ε α} {a : α} (h : x.toOption = some a) : x = .ok a := by
  cases x with
  | error e => cases h
  | ok b => cases h; rfl

/-- A creation that returned, where none had before, is recorded with what it read. -/
lemma made_of_created {label : Option Text}
    {out : Except (Halt CheckpointError) (ℕ × CheckpointMetadata) × Backend Path Bytes}
    (hout : out.1 = .ok (e, metadata)) (hnone : w.made.lookup e = none)
    (hreads : (createReads H job e label).eval w.files = .ok (metadata, fs)) :
    (w.created H job label out).made.lookup e = some (metadata, fs) := by
  obtain ⟨r, s⟩ := out
  cases hout
  simp only [created, hnone, hreads]
  exact lookup_insert _

lemma made_of_answer {ev : Event Bytes} (hfine : Fine H job w ev) (hanswer : w.answer H job ev = some (e, metadata)) :
    ∃ label fs, (createReads H job e label).eval w.files = .ok (metadata, fs) ∧
      (w.act H job ev).made.lookup e = some (metadata, fs) := by
  cases ev with
  | createSavepoint label script =>
    have hout : (createSavepoint H job label ⟨w.files, script⟩).1 = .ok (e, metadata) :=
      ok_of_toOption hanswer
    have hpair : createSavepoint H job label ⟨w.files, script⟩ =
      (.ok (e, metadata), (createSavepoint H job label ⟨w.files, script⟩).2) := Prod.ext hout rfl
    obtain ⟨latest, s, hlatest, hcreate⟩ := bind_eq_ok.mp hpair
    have hro := latestValidEpoch_readOnly H job
    have hfiles := hro.files ⟨w.files, script⟩
    rw [hlatest] at hfiles
    obtain ⟨rfl, fs, hreads⟩ := create_returned (congrArg fst hcreate)
    rw [show s.files = w.files from hfiles] at hreads
    exact ⟨label, fs, hreads, made_of_created hout
      (hfine e (hro.eval_of_ok (congrArg fst hlatest))).1 hreads⟩
  | createSavepointAtEpoch epoch label script =>
    have hout : (createSavepointAtEpoch H job epoch label ⟨w.files, script⟩).1 = .ok (e, metadata) :=
      ok_of_toOption hanswer
    obtain ⟨rfl, fs, hreads⟩ := create_returned hout
    exact ⟨label, fs, hreads, made_of_created hout hfine.1 hreads⟩
  | _ => cases hanswer

variable {x : CheckpointMetadata × List (Text × Bytes)}

lemma made_created (h : w.made.lookup e = some x) (label : Option Text)
    (out : Except (Halt CheckpointError) (ℕ × CheckpointMetadata) × Backend Path Bytes) :
    (w.created H job label out).made.lookup e = some x := by
  obtain ⟨_ | ⟨e', md⟩, s⟩ := out
  · exact h
  simp only [created]
  split
  · next hnone _ =>
    rw [lookup_insert_ne]
    · exact h
    · rintro rfl
      rw [h] at hnone
      cases hnone
  · exact h

/-- What was made stays recorded until it is deleted. -/
lemma made_run (h : w.made.lookup e = some x) (hkept : ∀ script, .deleteSavepoint e script ∉ events) :
    (w.run H job events).made.lookup e = some x := by
  induction events generalizing w with
  | nil => exact h
  | cons ev events ih =>
    refine ih ?_ fun script hmem => hkept script (mem_cons_of_mem _ hmem)
    cases ev with
    | createSavepoint label script => exact made_created h _ _
    | createSavepointAtEpoch epoch label script => exact made_created h _ _
    | deleteSavepoint epoch script =>
      have hne : e ≠ epoch := by
        rintro rfl
        exact hkept script mem_cons_self
      exact (lookup_erase_ne hne).trans h
    | _ => exact h

/-- Restoring a saved savepoint without faults returns its metadata and puts its snapshots back. -/
lemma restore_of_saved {e token : ℕ} (h : Saved H files job e metadata fs) (htoken : metadata.fencingToken ≤ token) :
    ∃ s, restoreSavepoint H job e token ⟨files, []⟩ = (.ok metadata, s) ∧
      Written H s.files (.checkpoint e) (H.toJson metadata) fs := by
  have hreads : State.restoreReads H job e token ⟨files, []⟩ = (.ok (H.toJson metadata, metadata, fs), ⟨files, []⟩) :=
    Prod.ext (h.restoreReads htoken) ((restoreReads_readOnly H job e token).quiet files)
  obtain ⟨s, hs⟩ := writeFiles_quiet H (.checkpoint e) (H.toJson metadata) fs files
  refine ⟨s, ?_, written_of_ok (checkpoint_injective e) h.apart h.same hs⟩
  rw [restoreSavepoint_eq, bind_ok hreads, bind_ok hs]
  rfl

/-- In every run in which no creation names an epoch that has a savepoint, and the path check accepts the
snapshot paths of the epochs that are copied: once a creation has returned, and until the savepoint is
deleted, restoring it returns the metadata that the creation returned and puts back the bytes that its
snapshots had then. -/
theorem savepoints_immutable {before after : List (Event Bytes)} {ev : Event Bytes}
    (hfine : FineRun H job World.cold (before ++ ev :: after)) {e token : ℕ}
    {metadata : CheckpointMetadata}
    (hanswer : (World.cold.run H job before).answer H job ev = some (e, metadata))
    (hkept : ∀ script, .deleteSavepoint e script ∉ after) (htoken : metadata.fencingToken ≤ token) :
    ∃ s, restoreSavepoint H job e token ⟨(World.cold.run H job (before ++ ev :: after)).files, []⟩ =
        (.ok metadata, s) ∧
      ∀ snap ∈ metadata.operatorSnapshots, ∃ b,
        (World.cold.run H job before).files.lookup snap.snapshotPath = some b ∧
          s.files.lookup snap.snapshotPath = some b := by
  obtain ⟨-, hev, -⟩ := Runs.along_append.mp hfine
  obtain ⟨label, fs, hreads, hmade⟩ := made_of_answer hev hanswer
  have hread := createReads_ok hreads
  have hinv : Inv H job (cold.run H job (before ++ ev :: after)) := Inv.cold.run hfine
  have hnow : (cold.run H job (before ++ ev :: after)).made.lookup e = some (metadata, fs) := by
    have hrun : cold.run H job (before ++ ev :: after) =
        ((cold.run H job before).act H job ev).run H job after := Runs.run_append _ _ _
    rw [hrun]
    exact made_run hmade hkept
  obtain ⟨s, hrestore, hwritten⟩ := restore_of_saved (hinv.saved e _ hnow) htoken
  refine ⟨s, hrestore, fun snap hsnap => ?_⟩
  -- each declared snapshot is one of the files that were read
  have hmem : snap.snapshotPath ∈ fs.map fun f => Path.checkpoint e f.1 := by
    rw [← hread.declared]
    exact mem_map_of_mem hsnap
  obtain ⟨f, hf, hpath⟩ := mem_map.mp hmem
  rw [← hpath]
  exact ⟨f.2, hread.snapshotFiles f hf, hwritten.snapshotFiles f hf⟩

/-! ## Two runs -/

/-- The metadata of epoch 1 with one snapshot. -/
def firstMetadata : CheckpointMetadata where
  version := CheckpointMetadata.currentVersion
  epoch := 1
  jobId := ['j']
  fencingToken := 1
  coordinatorId := none
  timestampMs := 0
  sourceOffsets := []
  operatorSnapshots := [⟨['o'], ['t'], Krishiv.State.snapshotPath 1 ['o'] ['t']⟩]
  isSavepoint := false
  savepointLabel := none
  icebergSnapshotId := none
  kafkaOffsets := none
  sinkTransactions := []
  streamingProfile := none

def firstCommit : { commit : PendingCommit // Placed commit } :=
  ⟨⟨['j'], 1, firstMetadata, firstMetadata.operatorSnapshots⟩,
    ⟨rfl, fun snap hsnap => by rw [mem_singleton.mp hsnap]; rfl⟩⟩

/-- Epoch 1 is written and committed. -/
def committedRun : List (Event Tagged) :=
  [.snapshot 1 ['o'] ['t'] (.raw 5) [], .commit firstCommit []]

/-- What creating the savepoint of epoch 1 without a label returns. -/
def savedMetadata : CheckpointMetadata := { firstMetadata with isSavepoint := true }

/-- Then the savepoint is made, the epoch deleted, and a restore stops before its manifest. -/
def deletedRun : List (Event Tagged) :=
  [.deleteEpoch 1 [], .restoreSavepoint 1 1 (List.replicate 8 .done ++ [.stop])]

lemma createFine_committedRun : CreateFine Host.tagged (cold.run Host.tagged ['j'] committedRun) 1 := by
  refine ⟨by decide +kernel, fun bytes stored hbytes hjson snap hsnap rel hpath => ?_⟩
  have hstored : (cold.run Host.tagged ['j'] committedRun).files.lookup (metadataPath 1) =
      some (.json firstMetadata) := by decide +kernel
  rw [hstored] at hbytes
  cases hbytes
  cases hjson
  rw [mem_singleton.mp hsnap] at hpath
  cases hpath
  decide +kernel

/-- The savepoint outlives its epoch and an interrupted restore. -/
theorem deletedRun_restored : (World.cold.run Host.tagged ['j'] committedRun).answer Host.tagged ['j']
        (.createSavepointAtEpoch 1 none []) = some (1, savedMetadata) ∧
      ∃ s, restoreSavepoint Host.tagged ['j'] 1 1 ⟨(World.cold.run Host.tagged ['j']
            (committedRun ++ .createSavepointAtEpoch 1 none [] :: deletedRun)).files, []⟩ =
          (.ok savedMetadata, s) ∧
        ∀ snap ∈ savedMetadata.operatorSnapshots, ∃ b,
          (World.cold.run Host.tagged ['j'] committedRun).files.lookup snap.snapshotPath = some b ∧
            s.files.lookup snap.snapshotPath = some b := by
  have hanswer : (cold.run Host.tagged ['j'] committedRun).answer Host.tagged ['j']
      (.createSavepointAtEpoch 1 none []) = some (1, savedMetadata) := by decide +kernel
  have hfine : FineRun Host.tagged ['j'] cold
      (committedRun ++ .createSavepointAtEpoch 1 none [] :: deletedRun) :=
    ⟨trivial, trivial, createFine_committedRun, trivial, trivial, trivial⟩
  refine ⟨hanswer, savepoints_immutable hfine hanswer (fun script hmem => ?_) le_rfl⟩
  simp [deletedRun] at hmem

/-- The savepoint of epoch 1 is created twice, and the first write of the second time is refused. -/
def recreatedRun : List (Event Tagged) :=
  committedRun ++ [.createSavepointAtEpoch 1 none [],
    .createSavepointAtEpoch 1 none [.done, .done, .done, .refused "disk full"]]

/-- The first creation returned, no savepoint was deleted by a caller, and there is nothing to restore. -/
theorem recreatedRun_gone : (World.cold.run Host.tagged ['j'] committedRun).answer Host.tagged ['j']
        (.createSavepointAtEpoch 1 none []) = some (1, savedMetadata) ∧
      (restoreSavepoint Host.tagged ['j'] 1 1 ⟨(World.cold.run Host.tagged ['j'] recreatedRun).files, []⟩).1 =
          .error (.failed (.corrupt 1 "savepoint manifest is missing")) := by
  exact ⟨by decide +kernel, by decide +kernel⟩

end SavepointHistory

end Krishiv.Scheduler
