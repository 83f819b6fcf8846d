import Krishiv.State.CheckpointIo

/-!
# What makes an epoch valid

Validating an epoch reads files below the epoch only and raises only two kinds of error
(`validateEpoch_reads`). It answers true exactly if there is a manifest in canonical form, every listed
file is there with its hash, and the metadata is that of the epoch and declares covered files
(`valid_iff`). The latest valid epoch is the valid epoch above which all others are skipped
(`latestValidEpoch_ok_iff`).
-/

namespace Krishiv.State

open StoreM List CheckpointMetadata

variable {Bytes : Type} {H : Host Bytes} {files files' : KVMap Path Bytes} {jobId : Text} {epoch : ℕ}

/-! ## What validation reads and raises -/

/-- The paths below an epoch. -/
def InEpoch (epoch : ℕ) (p : Path) : Prop := ∃ rel, p = .checkpoint epoch rel

/-- Errors that mean a damaged or foreign epoch and not a failing storage. -/
inductive Damage : CheckpointError → Prop
  | corrupt (epoch : ℕ) (message : String) : Damage (.corrupt epoch message)
  | version (v : ℕ) : Damage (.incompatibleVersion v)

variable {err : CheckpointError}

lemma validateManifestRelativePath_error {path : Text}
    (h : validateManifestRelativePath path epoch = .error err) : ∃ m, err = .corrupt epoch m := by
  unfold validateManifestRelativePath at h
  split at h
  · cases h; exact ⟨_, rfl⟩
  split at h
  · cases h; exact ⟨_, rfl⟩
  split at h
  · cases h; exact ⟨_, rfl⟩
  · split at h
    · cases h; exact ⟨_, rfl⟩
    · cases h

lemma snapshotRelativePath_error {snapshot : OperatorSnapshotRef}
    (h : snapshotRelativePath jobId epoch snapshot = .error err) : ∃ m, err = .corrupt epoch m := by
  simp only [snapshotRelativePath] at h
  split at h
  · split_ifs at h
    cases h; exact ⟨_, rfl⟩
  · cases h; exact ⟨_, rfl⟩

lemma snapshotsCovered_error {manifest : IntegrityManifest} {snapshots : List OperatorSnapshotRef}
    (h : snapshotsCovered jobId epoch manifest snapshots = .error err) : ∃ m, err = .corrupt epoch m := by
  induction snapshots with
  | nil => cases h
  | cons snapshot rest ih =>
    rw [snapshotsCovered] at h
    cases hrel : snapshotRelativePath jobId epoch snapshot with
    | error e =>
      rw [hrel] at h
      cases h
      exact snapshotRelativePath_error hrel
    | ok rel =>
      cases hpath : validateManifestRelativePath rel epoch with
      | error e =>
        rw [hrel] at h
        simp only [bind, Except.bind, hpath] at h
        cases h
        exact validateManifestRelativePath_error hpath
      | ok u =>
        rw [hrel] at h
        simp only [bind, Except.bind, hpath] at h
        split_ifs at h
        exact ih h

lemma validateMetadataIdentity_error {metadata : CheckpointMetadata}
    (h : validateMetadataIdentity metadata jobId epoch = .error err) : Damage err := by
  unfold validateMetadataIdentity validate at h
  by_cases hversion : minSupportedVersion ≤ metadata.version ∧ metadata.version ≤ currentVersion
  · rw [if_pos hversion] at h
    change (if metadata.jobId ≠ jobId then _ else _) = _ at h
    split_ifs at h <;> (cases h; exact .corrupt _ _)
  · rw [if_neg hversion] at h
    cases h
    exact .version _

lemma validateCheckpointMetadataContract_error {bytes : Bytes} {manifest : IntegrityManifest}
    (h : validateCheckpointMetadataContract H bytes jobId epoch manifest = .error err) : Damage err := by
  simp only [validateCheckpointMetadataContract] at h
  split at h
  · cases h; exact .corrupt _ _
  next metadata _ =>
  cases hid : validateMetadataIdentity metadata jobId epoch with
  | error e =>
    rw [hid] at h
    cases h
    exact validateMetadataIdentity_error hid
  | ok u =>
    rw [hid] at h
    obtain ⟨m, rfl⟩ := snapshotsCovered_error h
    exact .corrupt _ _

variable {dir : Text → Path} {S : Path → Prop}

lemma validateFrom_reads (hdir : ∀ rel, S (dir rel)) (entries : List (Text × Text))
    (reads : List (Bytes × Text)) : Reads S Damage (validateFrom H dir epoch reads entries) := by
  induction entries generalizing reads with
  | nil => exact .pure _
  | cons entry rest ih =>
    obtain ⟨path, expected⟩ := entry
    rw [validateFrom]
    by_cases hcut : max H.poolWidth 1 ≤ reads.length ∧ mismatch H reads = true
    · rw [if_pos hcut]
      exact .pure _
    rw [if_neg hcut]
    refine Reads.bind (.ofExcept fun e he => ?_) fun _ => Reads.bind (.read (hdir path)) fun data => ?_
    · obtain ⟨m, rfl⟩ := validateManifestRelativePath_error he
      exact .corrupt _ _
    · cases data with
      | none => exact .pure _
      | some data => exact ih _

lemma validateManifestEntries_reads (hdir : ∀ rel, S (dir rel)) (manifest : IntegrityManifest) :
    Reads S Damage (validateManifestEntries H dir epoch manifest) := by
  unfold validateManifestEntries
  split_ifs
  · exact validateFrom_reads hdir _ _
  · exact .pure _

lemma readOptionalManifest_reads {path : Path} (hpath : S path) :
    Reads S Damage (readOptionalManifest H path epoch) := by
  refine Reads.bind (.read hpath) fun bytes => ?_
  cases bytes with
  | none => exact .pure _
  | some bytes =>
    dsimp only
    split
    · exact .throw (.corrupt _ _)
    · exact .pure _

lemma readOptionalManifest_readOnly (H : Host Bytes) (path : Path) (epoch : ℕ) :
    ReadOnly (readOptionalManifest H path epoch) :=
  (readOptionalManifest_reads (S := fun _ => True) trivial).toReadOnly

lemma readEpochMetadata_readOnly (H : Host Bytes) (epoch : ℕ) : ReadOnly (readEpochMetadata H epoch) := by
  refine ReadOnly.bind (.read _) fun bytes => ?_
  cases bytes with
  | none => exact .pure _
  | some bytes =>
    dsimp only
    split
    · exact .throw _
    · exact .pure _

lemma validateEpoch_reads (H : Host Bytes) (jobId : Text) (epoch : ℕ) :
    Reads (InEpoch epoch) Damage (validateEpoch H jobId epoch) := by
  refine (readOptionalManifest_reads ⟨_, rfl⟩).bind fun manifest => ?_
  cases manifest with
  | none => exact .pure _
  | some manifest =>
    refine (validateManifestEntries_reads (fun rel => ⟨rel, rfl⟩) manifest).bind fun ok => ?_
    cases ok with
    | false => exact .pure _
    | true =>
      refine Reads.bind (.read ⟨_, rfl⟩) fun bytes => ?_
      cases bytes with
      | none => exact .pure _
      | some bytes => exact .ofExcept fun e he => validateCheckpointMetadataContract_error he

/-! ## Validity -/

/-- `validate_epoch` answers true. -/
def Valid (H : Host Bytes) (jobId : Text) (files : KVMap Path Bytes) (epoch : ℕ) : Prop :=
  (validateEpoch H jobId epoch).eval files = .ok true

/-- Every file that the manifest lists is there with its hash. -/
structure Matches (H : Host Bytes) (files : KVMap Path Bytes) (dir : Text → Path) (epoch : ℕ)
    (manifest : IntegrityManifest) : Prop where
  metadata : manifest.contains metadataJson = true
  paths : ∀ e ∈ manifest.entries, validateManifestRelativePath e.1 epoch = .ok ()
  hashes : ∀ e ∈ manifest.entries, ∃ data, files.lookup (dir e.1) = some data ∧ H.sha256Hex data = e.2

variable {reads : List (Bytes × Text)}

lemma mismatch_cons {data : Bytes} {expected : Text} : mismatch H ((data, expected) :: reads) = false ↔
      H.sha256Hex data = expected ∧ mismatch H reads = false := by
  simp [mismatch]

/-- The hashes are compared in chunks, but what is compared in the end is every hash. -/
lemma validateFrom_true_iff {entries : List (Text × Text)} :
    (validateFrom H dir epoch reads entries).eval files = .ok true ↔
      mismatch H reads = false ∧ ∀ e ∈ entries, validateManifestRelativePath e.1 epoch = .ok () ∧
        ∃ data, files.lookup (dir e.1) = some data ∧ H.sha256Hex data = e.2 := by
  induction entries generalizing reads with
  | nil => simp [validateFrom]
  | cons entry rest ih =>
    obtain ⟨path, expected⟩ := entry
    rw [validateFrom]
    by_cases hcut : max H.poolWidth 1 ≤ reads.length ∧ mismatch H reads = true
    · rw [if_pos hcut]
      simp [hcut.2]
    rw [if_neg hcut, (ReadOnly.ofExcept _).eval_bind]
    cases hpath : validateManifestRelativePath path epoch with
    | error err =>
      simp only [StoreM.ofExcept, eval_throw, reduceCtorEq, false_iff]
      rintro ⟨-, hall⟩
      have h := (hall (path, expected) (by simp)).1
      rw [hpath] at h
      cases h
    | ok u =>
      simp only [StoreM.ofExcept, eval_pure]
      rw [ReadOnly.eval_read_bind]
      cases hdata : files.lookup (dir path) with
      | none =>
        simp only [eval_pure, Except.ok.injEq, Bool.false_eq_true, false_iff]
        rintro ⟨-, hall⟩
        obtain ⟨data, hlook, -⟩ := (hall (path, expected) (by simp)).2
        rw [hdata] at hlook
        cases hlook
      | some data =>
        simp only [ih, mismatch_cons, forall_mem_cons, hpath, hdata, Option.some.injEq,
          exists_eq_left', true_and]
        by_cases hfull : max H.poolWidth 1 ≤ reads.length
        · have hclean : mismatch H reads = false := by
            simpa using fun h => hcut ⟨hfull, h⟩
          simp only [hfull, if_true, hclean, true_and]
          simp [mismatch]
        · simp only [hfull, if_false]
          tauto

lemma validateManifestEntries_true_iff {manifest : IntegrityManifest} :
    (validateManifestEntries H dir epoch manifest).eval files = .ok true ↔ Matches H files dir epoch manifest := by
  unfold validateManifestEntries
  by_cases hmeta : manifest.contains metadataJson = true
  · rw [if_pos hmeta, validateFrom_true_iff]
    constructor
    · rintro ⟨-, hall⟩
      exact ⟨hmeta, fun e he => (hall e he).1, fun e he => (hall e he).2⟩
    · intro h
      exact ⟨rfl, fun e he => ⟨h.paths e he, h.hashes e he⟩⟩
  · rw [if_neg hmeta]
    simp only [eval_pure, Except.ok.injEq, Bool.false_eq_true, false_iff]
    exact fun h => hmeta h.metadata

lemma readOptionalManifest_eval (path : Path) : (readOptionalManifest H path epoch).eval files =
      match files.lookup path with
      | none => .ok none
      | some bytes =>
        match IntegrityManifest.ofBytes H bytes with
        | .error e => .error (.failed (.corrupt epoch s!"manifest parse: {e.display}"))
        | .ok manifest => .ok (some manifest) := by
  rw [readOptionalManifest, ReadOnly.eval_read_bind]
  cases files.lookup path with
  | none => rfl
  | some bytes =>
    cases hman : IntegrityManifest.ofBytes H bytes with
    | error e => simp only [hman]; rfl
    | ok manifest => simp only [hman]; rfl

lemma validateEpoch_of_no_manifest (h : files.lookup (manifestPath epoch) = none) :
    (validateEpoch H jobId epoch).eval files = .ok false := by
  rw [validateEpoch, (readOptionalManifest_readOnly H _ _).eval_bind, readOptionalManifest_eval, h]
  rfl

lemma validateCheckpointManifest_true_iff {manifest : IntegrityManifest} :
    (validateCheckpointManifest H jobId epoch manifest).eval files = .ok true ↔
      Matches H files (.checkpoint epoch) epoch manifest ∧ ∃ metadataBytes,
        files.lookup (metadataPath epoch) = some metadataBytes ∧
          validateCheckpointMetadataContract H metadataBytes jobId epoch manifest = .ok true := by
  have hentries : Reads (InEpoch epoch) Damage (validateManifestEntries H (.checkpoint epoch) epoch manifest) :=
    validateManifestEntries_reads (fun rel => ⟨rel, rfl⟩) manifest
  rw [← validateManifestEntries_true_iff, validateCheckpointManifest, hentries.eval_bind]
  rcases (validateManifestEntries H (.checkpoint epoch) epoch manifest).eval files with e | matched
  · simp
  cases matched with
  | false => simp
  | true =>
    simp only [if_true, true_and]
    rw [ReadOnly.eval_read_bind]
    cases files.lookup (metadataPath epoch) with
    | none => simp
    | some metadataBytes =>
      simp only [Option.some.injEq, exists_eq_left']
      cases validateCheckpointMetadataContract H metadataBytes jobId epoch manifest with
      | error e => simp [StoreM.ofExcept]
      | ok covered => simp [StoreM.ofExcept]

/-- What an epoch needs to be valid. -/
lemma valid_iff : Valid H jobId files epoch ↔ ∃ bytes manifest metadataBytes,
    files.lookup (manifestPath epoch) = some bytes ∧ IntegrityManifest.ofBytes H bytes = .ok manifest ∧
      Matches H files (.checkpoint epoch) epoch manifest ∧ files.lookup (metadataPath epoch) = some metadataBytes ∧
      validateCheckpointMetadataContract H metadataBytes jobId epoch manifest = .ok true := by
  unfold Valid
  rw [validateEpoch, (readOptionalManifest_readOnly H _ _).eval_bind, readOptionalManifest_eval]
  cases files.lookup (manifestPath epoch) with
  | none => simp
  | some bytes =>
    cases hman : IntegrityManifest.ofBytes H bytes with
    | error e => simp [hman]
    | ok manifest => simp [hman, validateCheckpointManifest_true_iff]

/-- Validity depends on the files of the epoch only. -/
lemma validateEpoch_congr (h : ∀ rel, files.lookup (.checkpoint epoch rel) = files'.lookup (.checkpoint epoch rel)) :
    (validateEpoch H jobId epoch).eval files = (validateEpoch H jobId epoch).eval files' :=
  (validateEpoch_reads H jobId epoch).depends files files' fun p hp => by
    obtain ⟨rel, rfl⟩ := hp
    exact h rel

/-! ## The latest valid epoch -/

/-- The search for a valid epoch passes over this one. -/
def Skipped (H : Host Bytes) (jobId : Text) (files : KVMap Path Bytes) (epoch : ℕ) : Prop :=
  (validateEpoch H jobId epoch).eval files = .ok false ∨
    ∃ e m, (validateEpoch H jobId epoch).eval files = .error (.failed (.corrupt e m))

lemma Skipped.not_valid (h : Skipped H jobId files epoch) : ¬ Valid H jobId files epoch := by
  intro hv
  rcases h with h | ⟨e, m, h⟩
  · rw [Valid, h] at hv; cases hv
  · rw [Valid, h] at hv; cases hv

lemma Skipped.congr (h : Skipped H jobId files epoch)
    (heq : ∀ rel, files'.lookup (.checkpoint epoch rel) = files.lookup (.checkpoint epoch rel)) :
    Skipped H jobId files' epoch := by
  unfold Skipped at h ⊢
  rw [validateEpoch_congr heq]
  exact h

lemma firstValid_readOnly (H : Host Bytes) (jobId : Text) (candidates : List ℕ) :
    ReadOnly (firstValid H jobId candidates) := by
  induction candidates with
  | nil => exact .throw _
  | cons e rest ih =>
    refine ReadOnly.bind (ReadOnly.handle (validateEpoch_reads H jobId e).toReadOnly (fun err => ?_)
      fun msg => rfl) fun valid => ?_
    · split
      · exact .pure _
      · exact .throw _
    · cases valid with
      | true => exact .pure _
      | false => exact ih

lemma latestValidEpoch_readOnly (H : Host Bytes) (jobId : Text) : ReadOnly (latestValidEpoch H jobId : Io Bytes ℕ) :=
  (ReadOnly.list _).bind fun _ => firstValid_readOnly H jobId _

lemma firstValid_eval_cons (e : ℕ) (rest : List ℕ) : (firstValid H jobId (e :: rest)).eval files =
      match (validateEpoch H jobId e).eval files with
      | .ok true => .ok e
      | .ok false => (firstValid H jobId rest).eval files
      | .error (.failed (.corrupt _ _)) => (firstValid H jobId rest).eval files
      | .error err => .error err := by
  have hval := (validateEpoch_reads H jobId e).toReadOnly
  rw [firstValid]
  refine (ReadOnly.eval_bind ?_ files).trans ?_
  · refine hval.handle (fun err => ?_) fun msg => rfl
    split
    · exact .pure _
    · exact .throw _
  · rw [hval.eval_handle]
    rcases (validateEpoch H jobId e).eval files with (_ | err) | b
    · rfl
    · cases err <;> rfl
    · cases b <;> rfl

/-- The first element of a kind: the head, or it comes after it. -/
lemma first_cons_iff {p q : ℕ → Prop} {e x : ℕ} {rest : List ℕ} :
    (∃ before after, e :: rest = before ++ x :: after ∧ (∀ y ∈ before, p y) ∧ q x) ↔
      (e = x ∧ q x) ∨ p e ∧ ∃ before after, rest = before ++ x :: after ∧ (∀ y ∈ before, p y) ∧ q x := by
  constructor
  · rintro ⟨before, after, heq, hbefore, hx⟩
    cases before with
    | nil =>
      cases heq
      exact .inl ⟨rfl, hx⟩
    | cons y before =>
      cases heq
      rw [forall_mem_cons] at hbefore
      exact .inr ⟨hbefore.1, before, after, rfl, hbefore.2, hx⟩
  · rintro (⟨rfl, hx⟩ | ⟨he, before, after, rfl, hbefore, hx⟩)
    · exact ⟨[], rest, rfl, nofun, hx⟩
    · exact ⟨e :: before, after, rfl, forall_mem_cons.mpr ⟨he, hbefore⟩, hx⟩

variable {candidates : List ℕ}

/-- The first candidate that validates, with all candidates before it skipped. -/
lemma firstValid_ok_iff : (firstValid H jobId candidates).eval files = .ok epoch ↔
      ∃ before after, candidates = before ++ epoch :: after ∧
        (∀ e ∈ before, Skipped H jobId files e) ∧ Valid H jobId files epoch := by
  induction candidates with
  | nil => simp [firstValid]
  | cons e rest ih =>
    have hhead : e = epoch ∧ Valid H jobId files epoch ↔
        e = epoch ∧ (validateEpoch H jobId e).eval files = .ok true :=
      and_congr_right fun heq => by rw [heq, Valid]
    rw [firstValid_eval_cons, first_cons_iff, ← ih, hhead, Skipped]
    -- the validation finds the epoch, passes it over, or ends the search with its error
    rcases (validateEpoch H jobId e).eval files with (_ | err) | b
    · simp
    · cases err <;> simp
    · cases b <;> simp

lemma firstValid_none (h : (firstValid H jobId candidates).eval files = .error (.failed .noValidEpoch)) :
    ∀ e ∈ candidates, Skipped H jobId files e := by
  induction candidates with
  | nil => simp
  | cons e rest ih =>
    rw [firstValid_eval_cons] at h
    rcases hv : (validateEpoch H jobId e).eval files with (_ | err) | b
    · rw [hv] at h; cases h
    · have hdamage := (validateEpoch_reads H jobId e).raises files err hv
      rw [hv] at h
      cases hdamage with
      | corrupt e' m => exact forall_mem_cons.mpr ⟨.inr ⟨e', m, hv⟩, ih h⟩
      | version v => cases h
    · rw [hv] at h
      cases b with
      | false => exact forall_mem_cons.mpr ⟨.inl hv, ih h⟩
      | true => cases h

lemma mem_epochCandidatesNewestFirst {names : List DirEntry} :
    epoch ∈ epochCandidatesNewestFirst names ↔ DirEntry.epoch epoch ∈ names := by
  simp only [epochCandidatesNewestFirst, mem_reverse, mem_insertionSort, mem_filterMap]
  constructor
  · rintro ⟨entry, hmem, hparse⟩
    cases entry with
    | epoch e => cases hparse; exact hmem
    | file => cases hparse
  · exact fun h => ⟨_, h, rfl⟩

lemma epochCandidatesNewestFirst_sorted (names : List DirEntry) :
    (epochCandidatesNewestFirst names).Pairwise (· ≥ ·) := by
  rw [epochCandidatesNewestFirst, pairwise_reverse]
  exact pairwise_insertionSort _ _

/-- The candidates that the search starts from. -/
def candidatesOf (files : KVMap Path Bytes) : List ℕ :=
  epochCandidatesNewestFirst (files.keys.filterMap checkpointEntry).dedup

lemma latestValidEpoch_eval :
    (latestValidEpoch H jobId).eval files = (firstValid H jobId (candidatesOf files)).eval files := by
  rw [latestValidEpoch, (ReadOnly.list _).eval_bind]
  rfl

/-- An epoch with files is a candidate. -/
lemma mem_candidatesOf {rel : Text} (h : files.lookup (.checkpoint epoch rel) ≠ none) :
    epoch ∈ candidatesOf files := by
  rw [candidatesOf, mem_epochCandidatesNewestFirst, mem_dedup, mem_filterMap]
  refine ⟨.checkpoint epoch rel, ?_, rfl⟩
  exact AList.mem_keys.mp (AList.lookup_isSome.mp (Option.isSome_iff_ne_none.mpr h))

/-- An epoch that is not a candidate has no manifest. -/
lemma skipped_of_not_mem (h : epoch ∉ candidatesOf files) : Skipped H jobId files epoch := by
  refine .inl (validateEpoch_of_no_manifest ?_)
  by_contra hne
  exact h (mem_candidatesOf hne)

lemma Valid.manifest (h : Valid H jobId files epoch) : files.lookup (manifestPath epoch) ≠ none := by
  obtain ⟨bytes, -, -, hbytes, -⟩ := valid_iff.mp h
  rw [hbytes]
  simp

/-- The latest valid epoch is the valid one above which all others are skipped. -/
lemma latestValidEpoch_ok_iff : (latestValidEpoch H jobId).eval files = .ok epoch ↔
      Valid H jobId files epoch ∧ ∀ e > epoch, Skipped H jobId files e := by
  rw [latestValidEpoch_eval, firstValid_ok_iff]
  have hsorted := epochCandidatesNewestFirst_sorted (files.keys.filterMap checkpointEntry).dedup
  constructor
  · rintro ⟨before, after, heq, hbefore, hvalid⟩
    refine ⟨hvalid, fun e he => ?_⟩
    by_cases hmem : e ∈ candidatesOf files
    · rw [heq] at hmem
      rcases mem_append.mp hmem with hmem | hmem
      · exact hbefore e hmem
      -- the candidates after the answer are older
      change (candidatesOf files).Pairwise (· ≥ ·) at hsorted
      rw [heq, pairwise_append] at hsorted
      rcases mem_cons.mp hmem with rfl | hmem
      · exact absurd he (lt_irrefl _)
      · have hle := rel_of_pairwise_cons hsorted.2.1 hmem
        omega
    · exact skipped_of_not_mem hmem
  · rintro ⟨hvalid, habove⟩
    obtain ⟨before, after, heq, hnot⟩ := eq_append_cons_of_mem (mem_candidatesOf hvalid.manifest)
    refine ⟨before, after, heq, fun e he => habove e ?_, hvalid⟩
    change (candidatesOf files).Pairwise (· ≥ ·) at hsorted
    rw [heq, pairwise_append] at hsorted
    have hge := hsorted.2.2 e he epoch (by simp)
    have hne : e ≠ epoch := fun h => hnot (h ▸ he)
    omega

lemma skipped_of_noValidEpoch (h : (latestValidEpoch H jobId).eval files = .error (.failed .noValidEpoch)) (e : ℕ) :
    Skipped H jobId files e := by
  rw [latestValidEpoch_eval] at h
  by_cases hmem : e ∈ candidatesOf files
  · exact firstValid_none h e hmem
  · exact skipped_of_not_mem hmem

/-! ## Listing the valid epochs -/

lemma validAmong_looks (H : Host Bytes) (jobId : Text) (candidates : List ℕ) :
    Looks (validAmong H jobId candidates) := by
  induction candidates with
  | nil => exact .pure _
  | cons e rest ih =>
    have hvalid := (validateEpoch_reads H jobId e).toLooks
    exact (hvalid.handle fun _ => .pure _).bind fun _ => ih.bind fun _ => .pure _

lemma listValidEpochs_looks (H : Host Bytes) (jobId : Text) : Looks (listValidEpochs H jobId) :=
  (ReadOnly.list _).toLooks.bind fun _ => (validAmong_looks H jobId _).bind fun _ => .pure _

variable {s s' : Backend Path Bytes}

/-- Faults can hide a valid epoch, but what is listed is valid. -/
lemma validAmong_valid {l : List ℕ}
    (h : validAmong H jobId candidates s = (.ok l, s')) : ∀ e ∈ l, Valid H jobId s.files e := by
  induction candidates generalizing s l s' with
  | nil =>
    cases h
    intro e he
    cases he
  | cons c rest ih =>
    have hreads := (validateEpoch_reads H jobId c).toReadOnly
    obtain ⟨valid, s₁, hhandle, h⟩ := bind_eq_ok.mp h
    obtain ⟨others, s₂, hothers, hl⟩ := bind_eq_ok.mp h
    cases hl
    have hfiles : s₁.files = s.files := by
      have hlooks := (hreads.toLooks.handle fun _ => Looks.pure false).files s
      rwa [hhandle] at hlooks
    have hrest : ∀ e ∈ others, Valid H jobId s.files e := by
      have hlist := ih hothers
      rwa [hfiles] at hlist
    intro e he
    cases valid with
    | false => exact hrest e he
    | true =>
      rcases mem_cons.mp he with rfl | he
      · -- true is an answer of the validation, as the handler gives false
        refine hreads.eval_of_ok (s := s) ?_
        rw [handle_apply] at hhandle
        rcases hrun : validateEpoch H jobId e s with ⟨(_ | err) | answer, s₃⟩
        · rw [hrun] at hhandle
          cases hhandle
        · rw [hrun] at hhandle
          cases hhandle
        · rw [hrun] at hhandle
          cases hhandle
          rfl
      · exact hrest e he

lemma listValidEpochs_valid {l : List ℕ}
    (h : listValidEpochs H jobId s = (.ok l, s')) : ∀ e ∈ l, Valid H jobId s.files e := by
  obtain ⟨names, s₁, hnames, h⟩ := bind_eq_ok.mp h
  obtain ⟨valid, s₂, hvalid, h⟩ := bind_eq_ok.mp h
  cases h
  have hfiles : s₁.files = s.files := by
    have hlist := (ReadOnly.list (ε := CheckpointError) checkpointEntry).files s
    rwa [hnames] at hlist
  intro e he
  rw [← hfiles]
  exact validAmong_valid hvalid e ((mem_insertionSort _).mp he)

/-- Without faults no valid candidate is left out. -/
lemma validAmong_eval (candidates : List ℕ) : ∃ l, (validAmong H jobId candidates).eval files = .ok l ∧
      ∀ e ∈ candidates, Valid H jobId files e → e ∈ l := by
  induction candidates with
  | nil => exact ⟨[], rfl, fun e he => nomatch he⟩
  | cons c rest ih =>
    obtain ⟨others, hothers, hmem⟩ := ih
    have hreads := (validateEpoch_reads H jobId c).toReadOnly
    have hlooks := hreads.toLooks.handle fun _ => Looks.pure false
    have hanswer : ∃ valid, (StoreM.handle (validateEpoch H jobId c) fun _ => pure false).eval files =
        .ok valid ∧ (Valid H jobId files c → valid = true) := by
      rw [hreads.eval_handle]
      rcases hv : (validateEpoch H jobId c).eval files with (_ | err) | valid
      · exact absurd hv (hreads.steady.ends files)
      · refine ⟨false, rfl, fun hvalid => ?_⟩
        cases hvalid.symm.trans hv
      · refine ⟨valid, rfl, fun hvalid => ?_⟩
        cases hvalid.symm.trans hv
        rfl
    obtain ⟨valid, heval, hvalid⟩ := hanswer
    refine ⟨if valid then c :: others else others, ?_, fun e he hv => ?_⟩
    · rw [validAmong, eval_bind_of_quiet hlooks.quiet, heval]
      dsimp only
      rw [eval_bind_of_quiet (validAmong_looks H jobId rest).quiet, hothers]
      rfl
    · rcases mem_cons.mp he with rfl | he
      · rw [hvalid hv]
        exact mem_cons_self
      · split_ifs
        · exact mem_cons_of_mem c (hmem e he hv)
        · exact hmem e he hv

lemma listValidEpochs_eval :
    ∃ l, (listValidEpochs H jobId).eval files = .ok l ∧ ∀ e, Valid H jobId files e → e ∈ l := by
  let names := (files.keys.filterMap checkpointEntry).dedup
  obtain ⟨l, hl, hmem⟩ : ∃ l, (validAmong H jobId (names.filterMap DirEntry.parse)).eval files = .ok l ∧
      ∀ e ∈ names.filterMap DirEntry.parse, Valid H jobId files e → e ∈ l := validAmong_eval _
  refine ⟨l.insertionSort (· ≤ ·), ?_, fun e he => ?_⟩
  · rw [listValidEpochs, (ReadOnly.list _).eval_bind]
    change (validAmong H jobId (names.filterMap DirEntry.parse) >>= _).eval files = _
    rw [eval_bind_of_quiet (validAmong_looks H jobId _).quiet, hl]
    rfl
  · have hcand : e ∈ candidatesOf files := mem_candidatesOf he.manifest
    rw [candidatesOf, epochCandidatesNewestFirst, mem_reverse, mem_insertionSort] at hcand
    rw [mem_insertionSort]
    exact hmem e hcand he

end Krishiv.State
