import Krishiv.State.ValidEpoch

/-!
# Sealing an epoch

An epoch is sealed by writing its metadata, its snapshots and last a manifest computed from them. The
manifest can be read back, and the epoch validates, exactly if every snapshot path is one that a manifest
line carries unchanged and that the path check accepts (`Sealed.valid_iff`).
-/

namespace Krishiv.State

open StoreM IntegrityManifest SortedMap

variable {Bytes : Type} {H : Host Bytes} {files : KVMap Path Bytes} {jobId : Text} {epoch : ℕ}

/-! ## Paths that can be recorded -/

/-- The path check accepts the path, and it has no blanks at its ends. -/
def Recordable (epoch : ℕ) (rel : Text) : Prop :=
  validateManifestRelativePath rel epoch = .ok () ∧ Text.trim rel = rel

lemma ne_nil_of_relative {path : Text} (h : validateManifestRelativePath path epoch = .ok ()) : path ≠ [] := by
  rintro rfl
  cases h

lemma not_control_of_relative {path : Text} (h : validateManifestRelativePath path epoch = .ok ()) :
    ∀ c ∈ path, Text.isControl c = false := by
  unfold validateManifestRelativePath at h
  split at h
  · cases h
  split at h
  · cases h
  split at h
  · cases h
  · next hfind =>
    intro c hc
    simpa using List.find?_eq_none.mp hfind c hc

lemma Recordable.clean {rel : Text} (h : Recordable epoch rel) : IntegrityManifest.CleanPath rel where
  ne_nil := ne_nil_of_relative h.1
  head := by
    have hhead := Text.head_trim rel
    rwa [h.2] at hhead
  last := by
    have hlast := Text.last_trim rel
    rwa [h.2] at hlast
  lineFeed := by
    intro hmem
    have hcontrol := not_control_of_relative h.1 '\n' hmem
    exact absurd hcontrol (by decide)

lemma metadataJson_chars : metadataJson = ['m', 'e', 't', 'a', 'd', 'a', 't', 'a', '.', 'j', 's', 'o', 'n'] := by
  decide +kernel

lemma manifestSha256_chars :
    manifestSha256 = ['m', 'a', 'n', 'i', 'f', 'e', 's', 't', '.', 's', 'h', 'a', '2', '5', '6'] := by
  decide +kernel

lemma metadataJson_recordable (epoch : ℕ) : Recordable epoch metadataJson := by
  rw [metadataJson_chars]
  refine ⟨?_, by decide⟩
  rfl

section

variable (operatorId taskId : Text)

/-- The place of a snapshot is neither that of the metadata nor that of the manifest. -/
lemma slash_mem_snapshotRel : '/' ∈ snapshotRel operatorId taskId := by
  simp [snapshotRel]

lemma snapshotRel_ne_metadata : snapshotRel operatorId taskId ≠ metadataJson := by
  intro h
  have hmem := slash_mem_snapshotRel operatorId taskId
  rw [h, metadataJson_chars] at hmem
  exact absurd hmem (by decide)

lemma snapshotRel_ne_manifest : snapshotRel operatorId taskId ≠ manifestSha256 := by
  intro h
  have hmem := slash_mem_snapshotRel operatorId taskId
  rw [h, manifestSha256_chars] at hmem
  exact absurd hmem (by decide)

end

lemma metadataPath_ne_manifestPath (e e' : ℕ) : metadataPath e ≠ manifestPath e' := by
  intro h
  have hrel : metadataJson = manifestSha256 := by
    injection h
  rw [metadataJson_chars, manifestSha256_chars] at hrel
  exact absurd hrel (by decide)

/-! ## The manifest of some files -/

variable {fs : List (Text × Bytes)} {m : IntegrityManifest}

lemma mem_foldl_insertBytes {e : Text × Text} (h : e ∈ (fs.foldl (fun m f => m.insertBytes H f.1 f.2) m).entries) :
    e ∈ m.entries ∨ ∃ b, (e.1, b) ∈ fs ∧ e.2 = H.sha256Hex b := by
  induction fs generalizing m with
  | nil => exact .inl h
  | cons f fs ih =>
    rcases ih h with h | ⟨b, hb, hhash⟩
    · rcases mem_insertEntry h with rfl | h
      · exact .inr ⟨f.2, by simp, rfl⟩
      · exact .inl h
    · exact .inr ⟨b, by simp [hb], hhash⟩

variable {metadataBytes : Bytes}

lemma mem_manifestOf {e : Text × Text} (h : e ∈ (manifestOf H metadataBytes fs).entries) :
    e = (metadataJson, H.sha256Hex metadataBytes) ∨ ∃ b, (e.1, b) ∈ fs ∧ e.2 = H.sha256Hex b := by
  rcases mem_foldl_insertBytes h with h | h
  · rcases mem_insertEntry h with h | h
    · exact .inl h
    · cases h
  · exact .inr h

lemma contains_insert {p q hash : Text} (h : m.contains p = true) : (m.insert q hash).contains p = true := by
  rw [contains, lookup_insert]
  split_ifs
  · rfl
  · exact h

lemma contains_insertBytes (m : IntegrityManifest) (p : Text) (b : Bytes) :
    (m.insertBytes H p b).contains p = true := by
  unfold insertBytes
  rw [contains, lookup_insert, if_pos rfl]
  rfl

lemma contains_foldl_insertBytes {p : Text} (h : m.contains p = true ∨ ∃ b, (p, b) ∈ fs) :
    (fs.foldl (fun m f => m.insertBytes H f.1 f.2) m).contains p = true := by
  induction fs generalizing m with
  | nil =>
    rcases h with h | ⟨b, hb⟩
    · exact h
    · cases hb
  | cons f fs ih =>
    refine ih ?_
    rcases h with h | ⟨b, hb⟩
    · exact .inl (contains_insert h)
    · rcases List.mem_cons.mp hb with rfl | hb
      · exact .inl (contains_insertBytes _ _ _)
      · exact .inr ⟨b, hb⟩

lemma contains_manifestOf {p : Text} (h : p = metadataJson ∨ ∃ b, (p, b) ∈ fs) :
    (manifestOf H metadataBytes fs).contains p = true := by
  refine contains_foldl_insertBytes (h.imp_left ?_)
  rintro rfl
  exact contains_insertBytes _ _ _

/-- The manifest of some files matches them where they are. -/
lemma matches_manifestOf {dir : Text → Path} (hmeta : files.lookup (dir metadataJson) = some metadataBytes)
    (hfs : ∀ f ∈ fs, files.lookup (dir f.1) = some f.2)
    (hpaths : ∀ f ∈ fs, validateManifestRelativePath f.1 epoch = .ok ()) :
    Matches H files dir epoch (manifestOf H metadataBytes fs) where
  metadata := contains_manifestOf (.inl rfl)
  paths e he := by
    rcases mem_manifestOf he with rfl | ⟨b, hb, -⟩
    · exact (metadataJson_recordable epoch).1
    · exact hpaths _ hb
  hashes e he := by
    rcases mem_manifestOf he with rfl | ⟨b, hb, hhash⟩
    · exact ⟨metadataBytes, hmeta, rfl⟩
    · exact ⟨b, hfs _ hb, hhash.symm⟩

/-- A manifest with recordable paths is read back from its bytes. -/
lemma ofBytes_manifestOf (h : ∀ f ∈ fs, Recordable epoch f.1) :
    ofBytes H (H.toUtf8 (manifestOf H metadataBytes fs).serialize) = .ok (manifestOf H metadataBytes fs) := by
  rw [ofBytes, H.fromUtf8_toUtf8]
  refine deserialize_serialize fun e he => ?_
  rcases mem_manifestOf he with rfl | ⟨b, hb, hhash⟩
  · exact ⟨(metadataJson_recordable epoch).clean, H.isHex_sha256Hex _⟩
  · rw [hhash]
    exact ⟨(h _ hb).clean, H.isHex_sha256Hex b⟩

/-! ## Sealed epochs -/

lemma snapshotsCovered_true_iff {manifest : IntegrityManifest} {snapshots : List OperatorSnapshotRef} :
    snapshotsCovered jobId epoch manifest snapshots = .ok true ↔
      ∀ s ∈ snapshots, ∃ rel, s.snapshotPath = .checkpoint epoch rel ∧
        validateManifestRelativePath rel epoch = .ok () ∧ manifest.contains rel = true := by
  induction snapshots with
  | nil => simp [snapshotsCovered]
  | cons s rest ih =>
    rw [snapshotsCovered, List.forall_mem_cons, ← ih, Except.bind_eq_ok_iff]
    constructor
    · rintro ⟨rel, hrel, h⟩
      obtain ⟨⟨⟩, hpath, h⟩ := Except.bind_eq_ok_iff.mp h
      split_ifs at h with hcov
      · refine ⟨⟨rel, ?_, hpath, hcov⟩, h⟩
        unfold snapshotRelativePath at hrel
        split at hrel
        · next e rel' hsnap =>
          split_ifs at hrel with he
          cases hrel
          rw [hsnap, he]
        · cases hrel
      · cases h
    · rintro ⟨⟨rel, hsnap, hpath, hcov⟩, h⟩
      refine ⟨rel, ?_, ?_⟩
      · simp [snapshotRelativePath, hsnap]
      · rw [hpath]
        simpa [bind, Except.bind, hcov] using h

/-- The files that a commit leaves behind: metadata, snapshots and the manifest computed from them. -/
structure Sealed (H : Host Bytes) (files : KVMap Path Bytes) (epoch : ℕ) (metadata : CheckpointMetadata)
    (fs : List (Text × Bytes)) : Prop where
  metadataFile : files.lookup (metadataPath epoch) = some (H.toJson metadata)
  manifestFile : files.lookup (manifestPath epoch) =
    some (H.toUtf8 (manifestOf H (H.toJson metadata) fs).serialize)
  snapshotFiles : ∀ f ∈ fs, files.lookup (.checkpoint epoch f.1) = some f.2
  declared : metadata.operatorSnapshots.map OperatorSnapshotRef.snapshotPath =
    fs.map fun f => .checkpoint epoch f.1

variable {metadata : CheckpointMetadata}

lemma validateCheckpointMetadataContract_toJson
    (hid : validateMetadataIdentity metadata jobId epoch = .ok ()) (manifest : IntegrityManifest) :
    validateCheckpointMetadataContract H (H.toJson metadata) jobId epoch manifest =
      snapshotsCovered jobId epoch manifest metadata.operatorSnapshots := by
  rw [validateCheckpointMetadataContract, H.fromJson_toJson]
  dsimp only
  rw [hid]
  rfl

/-- A sealed epoch is valid exactly if all its snapshot paths can be recorded. -/
lemma Sealed.valid_iff (h : Sealed H files epoch metadata fs)
    (hid : validateMetadataIdentity metadata jobId epoch = .ok ()) :
    Valid H jobId files epoch ↔ ∀ f ∈ fs, Recordable epoch f.1 := by
  have hdeclared : ∀ p, (∃ s ∈ metadata.operatorSnapshots, s.snapshotPath = p) ↔
      ∃ f ∈ fs, Path.checkpoint epoch f.1 = p := by
    intro p
    rw [← List.mem_map, ← List.mem_map (f := fun f : Text × Bytes => Path.checkpoint epoch f.1), h.declared]
  rw [State.valid_iff]
  constructor
  · rintro ⟨bytes, manifest, metadataBytes, hbytes, hman, -, hmeta, hcon⟩ f hf
    rw [h.metadataFile] at hmeta
    cases hmeta
    rw [validateCheckpointMetadataContract_toJson hid] at hcon
    obtain ⟨s, hs, hpath⟩ := (hdeclared _).mpr ⟨f, hf, rfl⟩
    obtain ⟨rel, hrel, hok, hcov⟩ := snapshotsCovered_true_iff.mp hcon s hs
    rw [hpath] at hrel
    cases hrel
    refine ⟨hok, ?_⟩
    -- the manifest was parsed, so its paths are trimmed
    obtain ⟨hash, hhash⟩ := Option.isSome_iff_exists.mp hcov
    rw [ofBytes] at hman
    split at hman
    · cases hman
    · exact trimmed_of_deserialize hman _ (mem_entries_iff.mpr hhash)
  · intro hrec
    refine ⟨_, manifestOf H (H.toJson metadata) fs, _, h.manifestFile, ofBytes_manifestOf hrec,
      matches_manifestOf h.metadataFile h.snapshotFiles fun f hf => (hrec f hf).1, h.metadataFile, ?_⟩
    rw [validateCheckpointMetadataContract_toJson hid, snapshotsCovered_true_iff]
    intro s hs
    obtain ⟨f, hf, hpath⟩ := (hdeclared _).mp ⟨s, hs, rfl⟩
    exact ⟨f.1, hpath.symm, (hrec f hf).1, contains_manifestOf (.inr ⟨f.2, hf⟩)⟩

end Krishiv.State
