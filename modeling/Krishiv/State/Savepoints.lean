import Krishiv.State.SealedEpoch

/-!
# Creating and restoring savepoints

Both operations read first and then write the files of one epoch, metadata first and manifest last
(`createSavepointAtEpoch_eq`, `restoreSavepoint_eq`). A savepoint that was created is `Saved`; restoring
one that is saved reads back exactly what was written (`Saved.restoreReads`).
-/

namespace Krishiv.State

open StoreM List AList ReadOnly StoreM IntegrityManifest Within

variable {Bytes : Type} {H : Host Bytes} {files : KVMap Path Bytes} {s s' : Backend Path Bytes}
  {jobId : Text} {epoch : ℕ} {dir : Text → Path} {metadataBytes : Bytes} {fs : List (Text × Bytes)}

/-! ## Where the operations write -/

/-- Deleting below a directory touches nothing else. -/
lemma deletePrefix_within (below : Path → Bool) :
    Within (fun p => below p = true) (deletePrefix below : Io Bytes Unit) := by
  refine (readOnly (list _)).bind_of fun s l s' hl => forM fun p hp => .remove ?_
  obtain ⟨q, hq⟩ := list_ok hl p hp
  split_ifs at hq with hbelow
  cases hq
  exact hbelow

/-- A fault can take away the first file below a directory. -/
lemma deletePrefix_fault {below : Path → Bool} {p : Path} (hbelow : below p = true) (hp : files.lookup p ≠ none) :
    ∃ q e s, deletePrefix below ⟨files, [.done, .late ""]⟩ = (.error e, s) ∧
      below q = true ∧ s.files.lookup q ≠ files.lookup q := by
  let paths := (files.keys.filterMap fun q => if below q then some q else none).dedup
  have hmem : p ∈ paths := by
    refine mem_dedup.mpr (mem_filterMap.mpr ⟨p, ?_, if_pos hbelow⟩)
    exact AList.mem_keys.mp (lookup_isSome.mp (Option.isSome_iff_ne_none.mpr hp))
  have hrun : deletePrefix below ⟨files, [.done, .late ""]⟩ =
      (paths.forM remove : Io Bytes Unit) ⟨files, [.late ""]⟩ := rfl
  rcases hpaths : paths with _ | ⟨q, rest⟩
  · rw [hpaths] at hmem
    cases hmem
  obtain ⟨q', hkey, hq⟩ : ∃ q' ∈ files.keys, (if below q' then some q' else none) = some q :=
    mem_filterMap.mp (mem_dedup.mp (hpaths ▸ mem_cons_self : q ∈ paths))
  split_ifs at hq with hbelow'
  cases hq
  rw [hrun, hpaths]
  refine ⟨q, _, _, rfl, hbelow', ?_⟩
  have hgone : (files.erase q).lookup q = none := lookup_erase q files
  intro heq
  have hthere := lookup_isSome.mpr (AList.mem_keys.mpr hkey)
  rw [← heq] at hthere
  exact Option.isSome_iff_ne_none.mp hthere hgone

/-- The files of an epoch in the order in which they are written. -/
def epochFiles (H : Host Bytes) (metadataBytes : Bytes) (fs : List (Text × Bytes)) : List (Text × Bytes) :=
  ((metadataJson, metadataBytes) :: fs) ++
    [(manifestSha256, H.toUtf8 (manifestOf H metadataBytes fs).serialize)]

lemma writeFiles_eq_forM (dir : Text → Path) (metadataBytes : Bytes) (fs : List (Text × Bytes)) :
    writeFiles H dir metadataBytes fs = (epochFiles H metadataBytes fs).forM fun f => write (dir f.1) f.2 := by
  rw [epochFiles, forM_concat]
  exact (bind_assoc _ _ _).symm

lemma writeFiles_within {S : Path → Prop} (hdir : ∀ rel, S (dir rel)) :
    Within S (writeFiles H dir metadataBytes fs) :=
  (Within.write _ (hdir _)).bind fun _ =>
    (forM fun _ _ => .write _ (hdir _)).bind fun _ => .write _ (hdir _)

/-- The files after all writes were done. -/
lemma writeFiles_ok {u : Unit} (h : writeFiles H dir metadataBytes fs s = (.ok u, s')) :
    s'.files = (fs.foldl (fun files f => files.insert (dir f.1) f.2)
      (s.files.insert (dir metadataJson) metadataBytes)).insert (dir manifestSha256)
        (H.toUtf8 (manifestOf H metadataBytes fs).serialize) := by
  obtain ⟨_, s₁, hmeta, h⟩ := bind_eq_ok.mp h
  obtain ⟨_, s₂, hfs, h⟩ := bind_eq_ok.mp h
  rw [write_ok h, forM_write_ok hfs, write_ok hmeta]

/-- Without faults all writes are done. -/
lemma writeFiles_quiet (H : Host Bytes) (dir : Text → Path) (metadataBytes : Bytes)
    (fs : List (Text × Bytes)) (files : KVMap Path Bytes) :
    ∃ s, writeFiles H dir metadataBytes fs ⟨files, []⟩ = (.ok (), s) := by
  obtain ⟨files', hfs⟩ : ∃ files', (fs.forM fun f => (write (dir f.1) f.2 : Io Bytes Unit))
      ⟨files.insert (dir metadataJson) metadataBytes, []⟩ = (.ok (), ⟨files', []⟩) :=
    forM_write_quiet (fun f : Text × Bytes => dir f.1) Prod.snd fs _
  exact ⟨_, bind_eq_ok.mpr ⟨_, _, rfl, bind_eq_ok.mpr ⟨_, _, hfs, rfl⟩⟩⟩

/-- What the files hold after all writes were done, where `fs` gives each path one content and does not
touch metadata or manifest. -/
structure Written (H : Host Bytes) (files : KVMap Path Bytes) (dir : Text → Path) (metadataBytes : Bytes)
    (fs : List (Text × Bytes)) : Prop where
  metadataFile : files.lookup (dir metadataJson) = some metadataBytes
  manifestFile : files.lookup (dir manifestSha256) = some (H.toUtf8 (manifestOf H metadataBytes fs).serialize)
  snapshotFiles : ∀ f ∈ fs, files.lookup (dir f.1) = some f.2

/-- Snapshot paths that are none of the two files of their own. -/
def Apart (fs : List (Text × Bytes)) : Prop := ∀ f ∈ fs, f.1 ≠ metadataJson ∧ f.1 ≠ manifestSha256

lemma written_of_ok (hdir : Function.Injective dir) (hapart : Apart fs)
    (hsame : ∀ f ∈ fs, ∀ g ∈ fs, f.1 = g.1 → f.2 = g.2) {u : Unit}
    (h : writeFiles H dir metadataBytes fs s = (.ok u, s')) : Written H s'.files dir metadataBytes fs := by
  have hmeta : metadataJson ≠ manifestSha256 := by
    rw [metadataJson_chars, manifestSha256_chars]
    decide
  rw [writeFiles_ok h]
  refine ⟨?_, lookup_insert _, fun f hf => ?_⟩
  · rw [lookup_insert_ne fun heq => hmeta (hdir heq),
      lookup_foldl_insert_of_ne fun f hf heq => (hapart f hf).1 (hdir heq)]
    exact lookup_insert _
  · rw [lookup_insert_ne fun heq => (hapart f hf).2 (hdir heq)]
    exact lookup_foldl_insert_of_mem hf fun g hg heq => hsame g hg f hf (hdir heq)

/-! ## Creating -/

lemma readRequiredManifest_readOnly (H : Host Bytes) (path : Path) (epoch : ℕ) :
    ReadOnly (readRequiredManifest H path epoch) := by
  refine (readOptionalManifest_readOnly H path epoch).bind fun manifest => ?_
  cases manifest with
  | none => exact .throw _
  | some manifest => exact .pure _

variable {manifest : IntegrityManifest}

lemma readRequiredManifest_ok {path : Path} (h : (readRequiredManifest H path epoch).eval files = .ok manifest) :
    ∃ bytes, files.lookup path = some bytes ∧ ofBytes H bytes = .ok manifest := by
  obtain ⟨found, hfound, h⟩ := (readOptionalManifest_readOnly H _ _).eval_bind_ok.mp h
  cases found with
  | none => cases h
  | some found =>
    cases h
    rw [readOptionalManifest_eval] at hfound
    cases hbytes : files.lookup path with
    | none => rw [hbytes] at hfound; cases hfound
    | some bytes =>
      cases hman : ofBytes H bytes with
      | error e => simp only [hbytes, hman] at hfound; cases hfound
      | ok m =>
        simp only [hbytes, hman] at hfound
        cases hfound
        exact ⟨bytes, rfl, hman⟩

variable {m : IntegrityManifest}

lemma trimmed_of_ofBytes {bytes : Bytes} (h : ofBytes H bytes = .ok m) : m.Trimmed := by
  rw [ofBytes] at h
  split at h
  · cases h
  · exact trimmed_of_deserialize h

lemma readRequiredManifest_of_ok {path : Path} {bytes : Bytes}
    (hbytes : files.lookup path = some bytes) (hman : ofBytes H bytes = .ok manifest) :
    (readRequiredManifest H path epoch).eval files = .ok manifest := by
  rw [readRequiredManifest, (readOptionalManifest_readOnly H _ _).eval_bind, readOptionalManifest_eval,
    hbytes]
  simp only [hman]
  rfl

lemma readDeclared_readOnly (H : Host Bytes) (jobId : Text) (epoch : ℕ) (m : IntegrityManifest)
    (snaps : List OperatorSnapshotRef) : ReadOnly (readDeclared H jobId epoch m snaps) := by
  induction snaps with
  | nil => exact .pure _
  | cons snap rest ih =>
    refine bind (.ofExcept _) fun rel => bind (.read _) fun data => ?_
    cases data with
    | none => exact .throw _
    | some data =>
      dsimp only
      split_ifs
      · exact ih.bind fun others => .pure _
      · exact .throw _

lemma snapshotRelativePath_ok {snap : OperatorSnapshotRef} {rel : Text} :
    snapshotRelativePath jobId epoch snap = .ok rel ↔ snap.snapshotPath = .checkpoint epoch rel := by
  unfold snapshotRelativePath
  cases snap.snapshotPath with
  | checkpoint e r =>
    dsimp only
    split_ifs with he
    · subst he
      simp
    · simp [he]
  | savepoint e r | hint | other p => simp

variable {snaps : List OperatorSnapshotRef}

/-- The declared snapshots are read from their places, and the manifest covers them. -/
lemma readDeclared_ok (h : (readDeclared H jobId epoch m snaps).eval files = .ok fs) :
    snaps.map OperatorSnapshotRef.snapshotPath = fs.map (fun f => .checkpoint epoch f.1) ∧
      ∀ f ∈ fs, files.lookup (.checkpoint epoch f.1) = some f.2 ∧ m.contains f.1 = true := by
  induction snaps generalizing fs with
  | nil =>
    cases h
    exact ⟨rfl, fun f hf => nomatch hf⟩
  | cons snap rest ih =>
    obtain ⟨rel, hrel, h⟩ := eval_ofExcept_bind_ok.mp h
    have hpath := snapshotRelativePath_ok.mp hrel
    rw [eval_read_bind, hpath] at h
    cases hdata : files.lookup (.checkpoint epoch rel) with
    | none => rw [hdata] at h; cases h
    | some data =>
      rw [hdata] at h
      dsimp only at h
      split_ifs at h with hver
      · obtain ⟨others, hrest, h⟩ := (readDeclared_readOnly H jobId epoch m rest).eval_bind_ok.mp h
        cases h
        obtain ⟨hpaths, hfiles⟩ := ih hrest
        refine ⟨by rw [map_cons, map_cons, hpath, hpaths], forall_mem_cons.mpr ⟨⟨hdata, ?_⟩, hfiles⟩⟩
        unfold verify at hver
        rw [SortedMap.contains]
        cases hlook : m.lookup rel with
        | none => rw [hlook] at hver; cases hver
        | some hash => rfl
      · cases h

section Create

variable (H) (jobId : Text) (epoch : ℕ) (label : Option Text)

/-- The part of creating a savepoint that reads: its metadata and its files. -/
def createReads : Io Bytes (CheckpointMetadata × List (Text × Bytes)) := do
  let sourceManifest ← readRequiredManifest H (manifestPath epoch) epoch
  match ← readEpochMetadata H epoch with
  | none => StoreM.throw .noValidEpoch
  | some stored => do
    StoreM.ofExcept (validateMetadataIdentity stored jobId epoch)
    let metadata := { stored with isSavepoint := true, savepointLabel := label }
    let files ← readDeclared H jobId epoch sourceManifest metadata.operatorSnapshots
    pure (metadata, files)

/-- The part that writes. A failure takes back the whole directory. -/
def createWrites (metadata : CheckpointMetadata) (fs : List (Text × Bytes)) : Io Bytes Unit :=
  StoreM.handle (writeFiles H (.savepoint epoch) (H.toJson metadata) fs) fun error => do
    cleanupPartialPrefix epoch
    StoreM.throw error

lemma createSavepointAtEpoch_eq : createSavepointAtEpoch H jobId epoch label =
      createReads H jobId epoch label >>= fun x => createWrites H epoch x.1 x.2 >>= fun _ => pure (epoch, x.1) := by
  unfold createSavepointAtEpoch createReads createWrites
  rw [bind_assoc]
  refine congrArg _ (funext fun m => ?_)
  rw [bind_assoc]
  refine congrArg _ (funext fun stored => ?_)
  cases stored with
  | none => rfl
  | some stored =>
    simp only [bind_assoc]
    rfl

lemma createReads_readOnly : ReadOnly (createReads H jobId epoch label) := by
  refine (readRequiredManifest_readOnly H _ _).bind fun m =>
    (readEpochMetadata_readOnly H epoch).bind fun stored => ?_
  cases stored with
  | none => exact .throw _
  | some stored => exact bind (.ofExcept _) fun _ => (readDeclared_readOnly H _ _ _ _).bind fun _ => .pure _

lemma createWrites_within {S : Path → Prop} (hdir : ∀ rel, S (.savepoint epoch rel))
    (metadata : CheckpointMetadata) : Within S (createWrites H epoch metadata fs) := by
  refine handle (writeFiles_within hdir) fun error => bind ?_ fun _ => .throw _
  refine handle ((deletePrefix_within _).mono fun p hp => ?_) fun _ => .pure _
  cases p with
  | savepoint e rel =>
    have he : e = epoch := by simpa [inSavepoint] using hp
    rw [he]
    exact hdir rel
  | _ => cases hp

end Create

variable {metadata : CheckpointMetadata}

lemma readEpochMetadata_ok (h : (readEpochMetadata H epoch).eval files = .ok (some metadata)) :
    ∃ bytes, files.lookup (metadataPath epoch) = some bytes ∧ H.fromJson bytes = .ok metadata := by
  rw [readEpochMetadata, eval_read_bind] at h
  cases hbytes : files.lookup (metadataPath epoch) with
  | none => rw [hbytes] at h; cases h
  | some bytes =>
    cases hjson : H.fromJson bytes with
    | error e => simp only [hbytes, hjson] at h; cases h
    | ok m =>
      simp only [hbytes, hjson] at h
      cases h
      exact ⟨bytes, rfl, hjson⟩

/-- What creating a savepoint has read. -/
structure CreateRead (H : Host Bytes) (files : KVMap Path Bytes) (jobId : Text) (epoch : ℕ)
    (label : Option Text) (metadata : CheckpointMetadata) (fs : List (Text × Bytes)) : Prop where
  stored : ∃ bytes stored, files.lookup (metadataPath epoch) = some bytes ∧
    H.fromJson bytes = .ok stored ∧ metadata = { stored with isSavepoint := true, savepointLabel := label }
  identity : validateMetadataIdentity metadata jobId epoch = .ok ()
  declared : metadata.operatorSnapshots.map OperatorSnapshotRef.snapshotPath =
    fs.map fun f => .checkpoint epoch f.1
  snapshotFiles : ∀ f ∈ fs, files.lookup (.checkpoint epoch f.1) = some f.2
  trimmed : ∀ f ∈ fs, Text.trim f.1 = f.1

lemma createReads_ok {label : Option Text} (h : (createReads H jobId epoch label).eval files = .ok (metadata, fs)) :
    CreateRead H files jobId epoch label metadata fs := by
  obtain ⟨m, hman, h⟩ := (readRequiredManifest_readOnly H _ _).eval_bind_ok.mp h
  obtain ⟨found, hmeta, h⟩ := (readEpochMetadata_readOnly H epoch).eval_bind_ok.mp h
  cases found with
  | none => cases h
  | some stored =>
    obtain ⟨_, hid, h⟩ := eval_ofExcept_bind_ok.mp h
    obtain ⟨fs', hfs, h⟩ := (readDeclared_readOnly H _ _ _ _).eval_bind_ok.mp h
    cases h
    obtain ⟨bytes, hbytes, hjson⟩ := readEpochMetadata_ok hmeta
    obtain ⟨hpaths, hfiles⟩ := readDeclared_ok hfs
    refine ⟨⟨bytes, stored, hbytes, hjson, rfl⟩, hid, hpaths, fun f hf => (hfiles f hf).1, fun f hf => ?_⟩
    -- the source manifest was parsed, so its paths are trimmed
    obtain ⟨mbytes, -, hparse⟩ := readRequiredManifest_ok hman
    obtain ⟨hash, hhash⟩ := Option.isSome_iff_exists.mp (hfiles f hf).2
    exact trimmed_of_ofBytes hparse _ (SortedMap.mem_entries_iff.mpr hhash)

/-! ## Savepoints that are there -/

/-- The savepoint of the epoch is there with this metadata and these snapshots. -/
structure Saved (H : Host Bytes) (files : KVMap Path Bytes) (jobId : Text) (epoch : ℕ)
    (metadata : CheckpointMetadata) (fs : List (Text × Bytes)) : Prop where
  written : Written H files (.savepoint epoch) (H.toJson metadata) fs
  identity : validateMetadataIdentity metadata jobId epoch = .ok ()
  declared : metadata.operatorSnapshots.map OperatorSnapshotRef.snapshotPath =
    fs.map fun f => .checkpoint epoch f.1
  recordable : ∀ f ∈ fs, Recordable epoch f.1
  same : ∀ f ∈ fs, ∀ g ∈ fs, f.1 = g.1 → f.2 = g.2
  apart : Apart fs

/-- A savepoint depends on its own files only. -/
lemma Saved.congr {files' : KVMap Path Bytes} (h : Saved H files jobId epoch metadata fs)
    (heq : ∀ rel, files'.lookup (.savepoint epoch rel) = files.lookup (.savepoint epoch rel)) :
    Saved H files' jobId epoch metadata fs := by
  refine ⟨⟨?_, ?_, fun f hf => ?_⟩, h.identity, h.declared, h.recordable, h.same, h.apart⟩
  · exact (heq _).trans h.written.metadataFile
  · exact (heq _).trans h.written.manifestFile
  · exact (heq _).trans (h.written.snapshotFiles f hf)

lemma savepoint_injective (epoch : ℕ) : Function.Injective (Path.savepoint epoch) := by
  intro a b h
  injection h

lemma checkpoint_injective (epoch : ℕ) : Function.Injective (Path.checkpoint epoch) := by
  intro a b h
  injection h

/-- A creation that returned has left the savepoint there. -/
lemma saved_of_create {label : Option Text} {u : Unit} (hread : CreateRead H files jobId epoch label metadata fs)
    (hpaths : ∀ f ∈ fs, validateManifestRelativePath f.1 epoch = .ok ()) (hapart : Apart fs)
    (h : createWrites H epoch metadata fs s = (.ok u, s')) : Saved H s'.files jobId epoch metadata fs := by
  have hsame : ∀ f ∈ fs, ∀ g ∈ fs, f.1 = g.1 → f.2 = g.2 := by
    intro f hf g hg heq
    have hg' := hread.snapshotFiles g hg
    rw [← heq, hread.snapshotFiles f hf] at hg'
    exact Option.some.inj hg'
  have hwrite : writeFiles H (.savepoint epoch) (H.toJson metadata) fs s = (.ok u, s') := by
    rw [createWrites, handle_apply] at h
    rcases hw : writeFiles H (.savepoint epoch) (H.toJson metadata) fs s with ⟨(_ | e) | v, s₁⟩
    · rw [hw] at h
      cases h
    · rw [hw] at h
      obtain ⟨_, s₂, -, h⟩ := bind_eq_ok.mp h
      cases h
    · rw [hw] at h
      exact h
  exact ⟨written_of_ok (savepoint_injective epoch) hapart hsame hwrite, hread.identity, hread.declared,
    fun f hf => ⟨hpaths f hf, hread.trimmed f hf⟩, hsame, hapart⟩

/-! ## Restoring -/

lemma readSavepointFiles_readOnly (jobId : Text) (epoch : ℕ) (m : IntegrityManifest)
    (snaps : List OperatorSnapshotRef) : ReadOnly (readSavepointFiles jobId epoch m snaps : Io Bytes _) := by
  induction snaps with
  | nil => exact .pure _
  | cons snap rest ih =>
    refine bind (.ofExcept _) fun rel => ?_
    split_ifs
    · refine bind (.read _) fun data => ?_
      cases data with
      | none => exact .throw _
      | some data => exact ih.bind fun others => .pure _
    · exact .throw _

section Restore

variable (H) (jobId : Text) (epoch token : ℕ)

/-- The manifest of a savepoint, which must be there. -/
def savepointManifest : Io Bytes IntegrityManifest :=
  StoreM.handle (readRequiredManifest H (.savepoint epoch manifestSha256) epoch) fun e =>
    match e with
    | .noValidEpoch => StoreM.throw (.corrupt epoch "savepoint manifest is missing")
    | e => StoreM.throw e

/-- Metadata, as bytes and parsed, and snapshots of a savepoint with this manifest. -/
def restoreFrom (manifest : IntegrityManifest) :
    Io Bytes (Bytes × CheckpointMetadata × List (Text × Bytes)) := do
  if ← validateManifestEntries H (.savepoint epoch) epoch manifest then
    match ← StoreM.read (.savepoint epoch metadataJson) with
    | none => StoreM.throw .noValidEpoch
    | some metadataBytes =>
      match H.fromJson metadataBytes with
      | .error e => StoreM.throw (.corrupt epoch s!"savepoint metadata JSON parse: {e}")
      | .ok metadata => do
        StoreM.ofExcept (validateMetadataIdentity metadata jobId epoch)
        StoreM.ofExcept (validateFencingTokenForRestore metadata token)
        let files ← readSavepointFiles jobId epoch manifest metadata.operatorSnapshots
        pure (metadataBytes, metadata, files)
  else StoreM.throw (.corrupt epoch "savepoint manifest validation failed")

/-- The part of restoring that reads. -/
def restoreReads : Io Bytes (Bytes × CheckpointMetadata × List (Text × Bytes)) := do
  restoreFrom H jobId epoch token (← savepointManifest H epoch)

lemma restoreSavepoint_eq : restoreSavepoint H jobId epoch token = restoreReads H jobId epoch token >>= fun x =>
        writeFiles H (.checkpoint epoch) x.1 x.2.2 >>= fun _ => pure x.2.1 := by
  unfold restoreSavepoint restoreReads savepointManifest restoreFrom
  rw [bind_assoc]
  refine congrArg _ (funext fun m => ?_)
  rw [bind_assoc]
  refine congrArg _ (funext fun valid => ?_)
  cases valid with
  | false => rfl
  | true =>
    simp only [if_true]
    rw [bind_assoc]
    refine congrArg _ (funext fun bytes => ?_)
    cases bytes with
    | none => rfl
    | some bytes =>
      dsimp only
      cases H.fromJson bytes with
      | error e => rfl
      | ok metadata =>
        simp only [bind_assoc]
        rfl

lemma savepointManifest_readOnly : ReadOnly (savepointManifest H epoch) := by
  refine (readRequiredManifest_readOnly H _ _).handle (fun e => ?_) fun msg => rfl
  split <;> exact .throw _

lemma savepointManifest_ok_iff (files : KVMap Path Bytes) : (savepointManifest H epoch).eval files = .ok manifest ↔
      (readRequiredManifest H (.savepoint epoch manifestSha256) epoch).eval files = .ok manifest := by
  rw [savepointManifest, (readRequiredManifest_readOnly H _ _).eval_handle]
  rcases (readRequiredManifest H (.savepoint epoch manifestSha256) epoch).eval files with (_ | err) | m
  · rfl
  · cases err <;> simp
  · rfl

lemma restoreFrom_readOnly (manifest : IntegrityManifest) : ReadOnly (restoreFrom H jobId epoch token manifest) := by
  refine (validateManifestEntries_reads (S := fun _ => True) (fun _ => trivial)
    manifest).toReadOnly.bind fun valid => ?_
  split_ifs
  · refine bind (.read _) fun bytes => ?_
    cases bytes with
    | none => exact .throw _
    | some bytes =>
      dsimp only
      split
      · exact .throw _
      · exact bind (.ofExcept _) fun _ => bind (.ofExcept _) fun _ =>
          (readSavepointFiles_readOnly _ _ _ _).bind fun _ => .pure _
  · exact .throw _

lemma restoreReads_readOnly : ReadOnly (restoreReads H jobId epoch token) :=
  (savepointManifest_readOnly H epoch).bind fun m => restoreFrom_readOnly H jobId epoch token m

/-- Restoring writes below the live epoch only. -/
lemma restoreSavepoint_within : Within (InEpoch epoch) (restoreSavepoint H jobId epoch token) := by
  rw [restoreSavepoint_eq]
  exact (readOnly (restoreReads_readOnly H jobId epoch token)).bind fun x =>
    (writeFiles_within fun rel => ⟨rel, rfl⟩).bind fun _ => .pure _

end Restore

lemma readSavepointFiles_eval
    (hdeclared : snaps.map OperatorSnapshotRef.snapshotPath = fs.map fun f => .checkpoint epoch f.1)
    (hcov : ∀ f ∈ fs, m.contains f.1 = true) (hfiles : ∀ f ∈ fs, files.lookup (.savepoint epoch f.1) = some f.2) :
    (readSavepointFiles jobId epoch m snaps).eval files = .ok fs := by
  induction snaps generalizing fs with
  | nil =>
    have hnil : fs = [] := by simpa using hdeclared.symm
    rw [hnil]
    rfl
  | cons snap rest ih =>
    cases fs with
    | nil => cases hdeclared
    | cons f fs =>
      rw [map_cons, map_cons, cons.injEq] at hdeclared
      rw [readSavepointFiles, snapshotRelativePath_ok.mpr hdeclared.1, eval_ok_bind,
        if_pos (hcov f (by simp))]
      rw [eval_read_bind, hfiles f (by simp)]
      rw [(readSavepointFiles_readOnly _ _ _ _).eval_bind,
        ih hdeclared.2 (fun g hg => hcov g (by simp [hg])) fun g hg => hfiles g (by simp [hg])]
      rfl

lemma readSavepointFiles_ok (h : (readSavepointFiles jobId epoch m snaps).eval files = .ok fs) :
    snaps.map OperatorSnapshotRef.snapshotPath = fs.map (fun f => .checkpoint epoch f.1) ∧
      ∀ f ∈ fs, files.lookup (.savepoint epoch f.1) = some f.2 ∧ m.contains f.1 = true := by
  induction snaps generalizing fs with
  | nil =>
    cases h
    exact ⟨rfl, fun f hf => nomatch hf⟩
  | cons snap rest ih =>
    obtain ⟨rel, hrel, h⟩ := eval_ofExcept_bind_ok.mp h
    split_ifs at h with hcov
    · rw [eval_read_bind] at h
      split at h
      · cases h
      next data hdata =>
      obtain ⟨others, hrest, h⟩ := (readSavepointFiles_readOnly _ _ _ _).eval_bind_ok.mp h
      cases h
      obtain ⟨hpaths, hfiles⟩ := ih hrest
      exact ⟨by rw [map_cons, map_cons, snapshotRelativePath_ok.mp hrel, hpaths],
        forall_mem_cons.mpr ⟨⟨hdata, hcov⟩, hfiles⟩⟩
    · cases h

/-- What restoring a savepoint has read. -/
structure RestoreRead (H : Host Bytes) (files : KVMap Path Bytes) (jobId : Text) (epoch : ℕ)
    (metadataBytes : Bytes) (metadata : CheckpointMetadata) (fs : List (Text × Bytes)) : Prop where
  metadataFile : files.lookup (.savepoint epoch metadataJson) = some metadataBytes
  parsed : H.fromJson metadataBytes = .ok metadata
  identity : validateMetadataIdentity metadata jobId epoch = .ok ()
  declared : metadata.operatorSnapshots.map OperatorSnapshotRef.snapshotPath =
    fs.map fun f => .checkpoint epoch f.1
  snapshotFiles : ∀ f ∈ fs, files.lookup (.savepoint epoch f.1) = some f.2
  recordable : ∀ f ∈ fs, Recordable epoch f.1

lemma restoreFrom_ok {token : ℕ} (hm : m.Trimmed)
    (h : (restoreFrom H jobId epoch token m).eval files = .ok (metadataBytes, metadata, fs)) :
    RestoreRead H files jobId epoch metadataBytes metadata fs := by
  have hentries : ReadOnly (validateManifestEntries H (.savepoint epoch) epoch m) :=
    (validateManifestEntries_reads (S := fun _ => True) (fun _ => trivial) _).toReadOnly
  obtain ⟨valid, hvalid, h⟩ := hentries.eval_bind_ok.mp h
  cases valid with
  | false => cases h
  | true =>
    simp only [if_true] at h
    rw [eval_read_bind] at h
    cases hmeta : files.lookup (.savepoint epoch metadataJson) with
    | none => rw [hmeta] at h; cases h
    | some bytes =>
      cases hjson : H.fromJson bytes with
      | error e => simp only [hmeta, hjson] at h; cases h
      | ok md =>
        simp only [hmeta, hjson] at h
        obtain ⟨_, hid, h⟩ := eval_ofExcept_bind_ok.mp h
        obtain ⟨-, -, h⟩ := eval_ofExcept_bind_ok.mp h
        obtain ⟨fs', hfs, h⟩ := (readSavepointFiles_readOnly _ _ _ _).eval_bind_ok.mp h
        cases h
        obtain ⟨hpaths, hfiles⟩ := readSavepointFiles_ok hfs
        refine ⟨hmeta, hjson, hid, hpaths, fun f hf => (hfiles f hf).1, fun f hf => ?_⟩
        obtain ⟨hash, hhash⟩ := Option.isSome_iff_exists.mp (hfiles f hf).2
        have hmem := SortedMap.mem_entries_iff.mpr hhash
        exact ⟨(validateManifestEntries_true_iff.mp hvalid).paths _ hmem, hm _ hmem⟩

lemma restoreReads_ok {token : ℕ}
    (h : (restoreReads H jobId epoch token).eval files = .ok (metadataBytes, metadata, fs)) :
    RestoreRead H files jobId epoch metadataBytes metadata fs := by
  obtain ⟨m, hman, h⟩ := (savepointManifest_readOnly H epoch).eval_bind_ok.mp h
  obtain ⟨bytes, -, hbytes⟩ := readRequiredManifest_ok ((savepointManifest_ok_iff H epoch files).mp hman)
  exact restoreFrom_ok (trimmed_of_ofBytes hbytes) h

/-- Restoring a saved savepoint reads back what was saved. -/
lemma Saved.restoreReads (h : Saved H files jobId epoch metadata fs) {token : ℕ}
    (htoken : metadata.fencingToken ≤ token) :
    (restoreReads H jobId epoch token).eval files = .ok (H.toJson metadata, metadata, fs) := by
  have hman : (readRequiredManifest H (.savepoint epoch manifestSha256) epoch).eval files =
      .ok (manifestOf H (H.toJson metadata) fs) :=
    readRequiredManifest_of_ok h.written.manifestFile (ofBytes_manifestOf h.recordable)
  have hmatch : Matches H files (.savepoint epoch) epoch (manifestOf H (H.toJson metadata) fs) :=
    matches_manifestOf h.written.metadataFile h.written.snapshotFiles fun f hf => (h.recordable f hf).1
  have hentries : ReadOnly (validateManifestEntries H (.savepoint epoch) epoch
      (manifestOf H (H.toJson metadata) fs)) :=
    (validateManifestEntries_reads (S := fun _ => True) (fun _ => trivial) _).toReadOnly
  have htoken' : validateFencingTokenForRestore metadata token = .ok () := by
    simp [validateFencingTokenForRestore, htoken]
  rw [State.restoreReads, (savepointManifest_readOnly H epoch).eval_bind,
    (savepointManifest_ok_iff H epoch files).mpr hman]
  dsimp only
  rw [restoreFrom, hentries.eval_bind, validateManifestEntries_true_iff.mpr hmatch]
  simp only [if_true]
  rw [eval_read_bind, h.written.metadataFile]
  simp only [H.fromJson_toJson]
  rw [h.identity, htoken', eval_ok_bind, eval_ok_bind, (readSavepointFiles_readOnly _ _ _ _).eval_bind,
    readSavepointFiles_eval h.declared (fun f hf => contains_manifestOf (.inr ⟨f.2, hf⟩))
      h.written.snapshotFiles]
  rfl

end Krishiv.State
