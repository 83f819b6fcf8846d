import Krishiv.Lib.KVMap

/-!
# Two-phase commit into a directory of Parquet files

`LocalParquetTwoPhaseCommitSink` stages a batch as `<epoch>-<id>.parquet.tmp`, publishes it by renaming
the file to `<epoch>-<id>.parquet`, and discards it by removing the staged file.
`EpochTransactionLog` keeps the open batches of a job and the handles that were prepared under each
epoch, in memory only.

The directory is two maps from handles, one for each of the two names. A `Disk` says on which files the
operating system fails; the text of its failure is left out of the messages. A write that fails half-way
leaves a staged file that no handle refers to, and is left out, as are the quality rules, which this
sink is not given here. Epochs are below `u64::MAX`.
-/

namespace Krishiv.Connectors

open List AList

inductive ConnectorError where
  | parquet (message : String)
  | protocol (message : String)
  | io (message : String)
deriving DecidableEq

/-- What names the two files of a staged write. -/
structure ParquetCommitHandle where
  epoch : ℕ
  id : ℕ
deriving DecidableEq

namespace ParquetCommitHandle

def finalName (h : ParquetCommitHandle) : String :=
  toString h.epoch ++ "-" ++ toString h.id ++ ".parquet"

def stagingName (h : ParquetCommitHandle) : String := h.finalName ++ ".tmp"

end ParquetCommitHandle

/-- The output directory. -/
structure Dir (β : Type) where
  staging : KVMap ParquetCommitHandle β
  final : KVMap ParquetCommitHandle β

/-- Whether the operating system lets the files of a handle be created, renamed and removed. -/
abbrev Disk := ParquetCommitHandle → Bool

variable {β : Type}

def Dir.empty : Dir β := ⟨∅, ∅⟩

/-! ## The sink -/

/-- The first name from `id` on that is neither staged nor final; `left` is how far the counter is from
`u64::MAX`. -/
def freeId (dir : Dir β) (epoch : ℕ) : ℕ → ℕ → Option ℕ
  | 0, _ => none
  | left + 1, id =>
    if (dir.final.lookup ⟨epoch, id⟩).isSome || (dir.staging.lookup ⟨epoch, id⟩).isSome then
      freeId dir epoch left (id + 1)
    else some id

/-- `prepare`, with the counter of handles. -/
def prepare (disk : Disk) (dir : Dir β) (nextHandle epoch : ℕ) (batch : β) :
    Dir β × ℕ × Except ConnectorError ParquetCommitHandle :=
  match freeId dir epoch (2 ^ 64 - 1 - nextHandle) nextHandle with
  | none => (dir, 2 ^ 64 - 1, .error (.parquet "parquet 2pc prepare: handle ID overflow"))
  | some id =>
    let handle : ParquetCommitHandle := ⟨epoch, id⟩
    if disk handle then
      ({ dir with staging := dir.staging.insert handle batch }, id + 1, .ok handle)
    else
      (dir, id + 1, .error (.parquet ("parquet 2pc prepare: cannot create " ++ handle.stagingName)))

/-- `commit`: a missing staged file is fine where the final one exists. -/
def commit (disk : Disk) (dir : Dir β) (handle : ParquetCommitHandle) : Dir β × Except ConnectorError Unit :=
  let rename := "parquet 2pc commit: rename \"" ++ handle.stagingName ++ "\" to \"" ++
    handle.finalName ++ "\""
  if disk handle then
    match dir.staging.lookup handle with
    | some batch => (⟨dir.staging.erase handle, dir.final.insert handle batch⟩, .ok ())
    | none =>
      if (dir.final.lookup handle).isSome then (dir, .ok ())
      else (dir, .error (.io (rename ++ ": staging missing and final absent")))
  else (dir, .error (.io rename))

/-- `abort`: removing a file that is not there is fine. -/
def abort (disk : Disk) (dir : Dir β) (handle : ParquetCommitHandle) : Dir β × Except ConnectorError Unit :=
  if disk handle then ({ dir with staging := dir.staging.erase handle }, .ok ())
  else (dir, .error (.io ("parquet 2pc abort: remove \"" ++ handle.stagingName ++ "\"")))

/-- `finalize_prepared`: the handle is read off the staged name. -/
def finalizePrepared (disk : Disk) (dir : Dir β) (preparePath : ParquetCommitHandle)
    (commits : Bool) : Dir β × Except ConnectorError Unit :=
  if commits then commit disk dir preparePath else abort disk dir preparePath

/-! ## The transaction log -/

/-- The handles prepared under an epoch, by epoch in ascending order. -/
abbrev Prepared := List (ℕ × List ParquetCommitHandle)

structure EpochTransactionLog (β : Type) where
  nextHandle : ℕ
  opened : List β
  prepared : Prepared

structure PreparedSinkRef where
  epoch : ℕ
  preparePath : ParquetCommitHandle
deriving DecidableEq

/-- Every handle of some epochs. -/
def Prepared.handles (p : Prepared) : List ParquetCommitHandle := (p.map Prod.snd).flatten

namespace EpochTransactionLog

def new : EpochTransactionLog β := ⟨0, [], []⟩

/-- `stage`, of a batch that has rows. -/
def stage (log : EpochTransactionLog β) (batch : β) : EpochTransactionLog β :=
  { log with opened := log.opened ++ [batch] }

/-- Prepare batches in order; a failure takes back what this call has staged, as far as it can. -/
def prepareAll (disk : Disk) (epoch : ℕ) : List β → List ParquetCommitHandle → Dir β → ℕ →
    Dir β × ℕ × Except ConnectorError (List ParquetCommitHandle)
  | [], handles, dir, next => (dir, next, .ok handles)
  | batch :: batches, handles, dir, next =>
    match prepare disk dir next epoch batch with
    | (dir, next, .ok handle) => prepareAll disk epoch batches (handles ++ [handle]) dir next
    | (dir, next, .error e) =>
      (handles.foldl (fun dir handle => (abort disk dir handle).1) dir, next, .error e)

/-- `pre_commit`. -/
def preCommit (disk : Disk) (dir : Dir β) (log : EpochTransactionLog β) (epoch : ℕ) :
    Dir β × EpochTransactionLog β × Except ConnectorError Unit :=
  match log.prepared.getLast? with
  | some (maxPrepared, _) =>
    if epoch ≤ maxPrepared then
      (dir, log, .error (.protocol ("pre_commit epoch " ++ toString epoch ++
        " is not greater than already prepared epoch " ++ toString maxPrepared ++
        "; checkpoint epochs must be monotonic")))
    else go
  | none => go
where
  go : Dir β × EpochTransactionLog β × Except ConnectorError Unit :=
    if log.opened.isEmpty then (dir, log, .ok ())
    else
      match prepareAll disk epoch log.opened [] dir log.nextHandle with
      | (dir, next, .error e) => (dir, { log with nextHandle := next }, .error e)
      | (dir, next, .ok handles) => (dir, ⟨next, [], log.prepared ++ [(epoch, handles)]⟩, .ok ())

/-- Settle handles in order, with how many were; the one that fails and the rest are left. -/
def settleHandles (op : Dir β → ParquetCommitHandle → Dir β × Except ConnectorError Unit) :
    List ParquetCommitHandle → Dir β → ℕ → Dir β × ℕ × List ParquetCommitHandle × Option ConnectorError
  | [], dir, count => (dir, count, [], none)
  | handle :: handles, dir, count =>
    match op dir handle with
    | (dir, .ok ()) => settleHandles op handles dir (count + 1)
    | (dir, .error e) => (dir, count, handle :: handles, some e)

/-- Settle epochs in order; the handles that are left go back under their epochs. -/
def settleEpochs (op : Dir β → ParquetCommitHandle → Dir β × Except ConnectorError Unit) :
    Prepared → Dir β → ℕ → Dir β × ℕ × Prepared × Option ConnectorError
  | [], dir, count => (dir, count, [], none)
  | (epoch, handles) :: epochs, dir, count =>
    match settleHandles op handles dir count with
    | (dir, count, _, none) => settleEpochs op epochs dir count
    | (dir, count, left, some e) => (dir, count, (epoch, left) :: epochs, some e)

/-- The outcome of a settling pass. -/
def outcome (count : ℕ) : Option ConnectorError → Except ConnectorError ℕ
  | none => .ok count
  | some e => .error e

/-- `commit_through`. -/
def commitThrough (disk : Disk) (dir : Dir β) (log : EpochTransactionLog β) (epoch : ℕ) :
    Dir β × EpochTransactionLog β × Except ConnectorError ℕ :=
  let due := log.prepared.filter (·.1 ≤ epoch)
  let later := log.prepared.filter (epoch < ·.1)
  let (dir, count, left, failed) := settleEpochs (commit disk) due dir 0
  (dir, { log with prepared := left ++ later }, outcome count failed)

/-- `abort_after`: the open batches are dropped in any case. -/
def abortAfter (disk : Disk) (dir : Dir β) (log : EpochTransactionLog β) (epoch : ℕ) :
    Dir β × EpochTransactionLog β × Except ConnectorError ℕ :=
  let kept := log.prepared.filter (·.1 ≤ epoch)
  let due := log.prepared.filter (epoch < ·.1)
  let (dir, count, left, failed) := settleEpochs (abort disk) due dir 0
  (dir, { log with opened := [], prepared := kept ++ left }, outcome count failed)

/-- `prepared_refs`. -/
def preparedRefs (log : EpochTransactionLog β) : List PreparedSinkRef :=
  (log.prepared.map fun e => e.2.map fun handle => ⟨e.1, handle⟩).flatten

end EpochTransactionLog

open EpochTransactionLog

/-! ## The registry of a job

An executor has at most one participant for a job, and none before its task has started. -/

/-- `restore_to`, with the counts of commits and aborts. -/
def restoreTo (disk : Disk) (dir : Dir β) (log : Option (EpochTransactionLog β)) (epoch : ℕ) :
    Dir β × Option (EpochTransactionLog β) × Except ConnectorError (ℕ × ℕ) :=
  match log with
  | none => (dir, none, .ok (0, 0))
  | some log =>
    match log.commitThrough disk dir epoch with
    | (dir, log, .error e) => (dir, some log, .error e)
    | (dir, log, .ok committed) =>
      match log.abortAfter disk dir epoch with
      | (dir, log, .error e) => (dir, some log, .error e)
      | (dir, log, .ok aborted) => (dir, some log, .ok (committed, aborted))

/-- Finalize transactions from their staged names, up to the first failure. -/
def finalizeAll (disk : Disk) (commits : Bool) : List ParquetCommitHandle → Dir β → Dir β × Except ConnectorError Unit
  | [], dir => (dir, .ok ())
  | path :: paths, dir =>
    match finalizePrepared disk dir path commits with
    | (dir, .error e) => (dir, .error e)
    | (dir, .ok ()) => finalizeAll disk commits paths dir

/-- `recover_prepared_refs`: without a participant the references are passed over. -/
def recoverPreparedRefs (disk : Disk) (dir : Dir β) (log : Option (EpochTransactionLog β))
    (commitPaths abortPaths : List ParquetCommitHandle) : Dir β × Except ConnectorError (ℕ × ℕ) :=
  match log with
  | none => (dir, .ok (0, 0))
  | some _ =>
    match finalizeAll disk true commitPaths dir with
    | (dir, .error e) => (dir, .error e)
    | (dir, .ok ()) =>
      match finalizeAll disk false abortPaths dir with
      | (dir, .error e) => (dir, .error e)
      | (dir, .ok ()) => (dir, .ok (commitPaths.length, abortPaths.length))

/-! ## What the operations do to the directory -/

/-- The staged and the final file of a handle. -/
def Dir.at (dir : Dir β) (h : ParquetCommitHandle) : Option β × Option β :=
  (dir.staging.lookup h, dir.final.lookup h)

/-- Only files of `hs` have changed, and as `P` says. -/
def Changes (P : Option β × Option β → Option β × Option β → Prop) (hs : List ParquetCommitHandle)
    (dir dir' : Dir β) : Prop :=
  ∀ h, dir'.at h = dir.at h ∨ (h ∈ hs ∧ P (dir.at h) (dir'.at h))

/-- A staged file becomes final. -/
def Publishes (a a' : Option β × Option β) : Prop := ∃ b, a.1 = some b ∧ a' = (none, some b)

/-- A staged file disappears. -/
def Drops (a a' : Option β × Option β) : Prop := a' = (none, a.2)

variable {a b c : Option β × Option β}

lemma Publishes.trans (h : Publishes a b) (h' : Publishes b c) : Publishes a c := by
  obtain ⟨x, -, hb⟩ := h
  obtain ⟨y, hy, -⟩ := h'
  rw [hb] at hy
  cases hy

lemma Drops.trans (h : Drops a b) (h' : Drops b c) : Drops a c := by
  unfold Drops at *
  rw [h', h]

variable {P : Option β × Option β → Option β × Option β → Prop} {hs : List ParquetCommitHandle}

namespace Changes

variable {hs' : List ParquetCommitHandle} {d d' d'' : Dir β}

lemma refl (hs : List ParquetCommitHandle) (d : Dir β) : Changes P hs d d := fun _ => .inl rfl

lemma mono (h : Changes P hs d d') (hsub : hs ⊆ hs') : Changes P hs' d d' :=
  fun x => (h x).imp_right fun hx => ⟨hsub hx.1, hx.2⟩

lemma trans (htrans : ∀ a b c, P a b → P b c → P a c) (h : Changes P hs d d')
    (h' : Changes P hs d' d'') : Changes P hs d d'' := by
  intro x
  rcases h x with hsame | ⟨hmem, hP⟩
  · rcases h' x with hsame' | ⟨hmem', hP'⟩
    · exact .inl (hsame'.trans hsame)
    · exact .inr ⟨hmem', hsame ▸ hP'⟩
  · rcases h' x with hsame' | ⟨-, hP'⟩
    · exact .inr ⟨hmem, hsame'.symm ▸ hP⟩
    · exact .inr ⟨hmem, htrans _ _ _ hP hP'⟩

variable {x : ParquetCommitHandle}

lemma at_eq (h : Changes P hs d d') (hx : x ∉ hs) : d'.at x = d.at x :=
  (h x).resolve_right fun hmem => hx hmem.1

lemma keeps {K : Option β × Option β → Prop} (h : Changes P hs d d')
    (hP : ∀ a b, P a b → K a → K b) (hx : K (d.at x)) : K (d'.at x) := by
  rcases h x with hsame | ⟨-, hmoved⟩
  · rwa [hsame]
  · exact hP _ _ hmoved hx

end Changes

lemma commit_changes (disk : Disk) (dir : Dir β) (h : ParquetCommitHandle) :
    Changes Publishes [h] dir (commit disk dir h).1 := by
  intro x
  unfold commit
  split
  · split
    · next b hb =>
      by_cases hx : x = h
      · subst hx
        refine .inr ⟨mem_singleton_self x, b, hb, ?_⟩
        rw [Dir.at, lookup_erase, lookup_insert]
      · exact .inl (by rw [Dir.at, Dir.at, lookup_erase_ne hx, lookup_insert_ne hx])
    · split <;> exact .inl rfl
  · exact .inl rfl

variable {dir dir' : Dir β} {disk : Disk} {h : ParquetCommitHandle}

lemma commit_ok (hok : commit disk dir h = (dir', .ok ())) : (dir'.at h).2.isSome = true := by
  unfold commit at hok
  split at hok
  · split at hok
    · cases hok
      rw [Dir.at, lookup_insert]
      rfl
    split at hok
    · next hfinal =>
      cases hok
      exact hfinal
    · cases hok
  · cases hok

lemma abort_changes (disk : Disk) (dir : Dir β) (h : ParquetCommitHandle) :
    Changes Drops [h] dir (abort disk dir h).1 := by
  intro x
  unfold abort
  split
  · by_cases hx : x = h
    · subst hx
      refine .inr ⟨mem_singleton_self x, ?_⟩
      rw [Drops, Dir.at, lookup_erase]
      rfl
    · exact .inl (by rw [Dir.at, Dir.at, lookup_erase_ne hx])
  · exact .inl rfl

lemma abort_ok (hok : abort disk dir h = (dir', .ok ())) : (dir'.at h).1 = none := by
  unfold abort at hok
  split at hok
  · cases hok
    rw [Dir.at, lookup_erase]
  · cases hok

variable {r : Except ConnectorError Unit}

section Settle

variable {op : Dir β → ParquetCommitHandle → Dir β × Except ConnectorError Unit} {Q : Option β × Option β → Prop}

/-- What a settling pass needs to know of its operation: what it changes, that its changes add up, and
what holds of a file once it is settled. -/
structure Settles (op : Dir β → ParquetCommitHandle → Dir β × Except ConnectorError Unit)
    (P : Option β × Option β → Option β × Option β → Prop) (Q : Option β × Option β → Prop) :
    Prop where
  changes : ∀ dir h, Changes P [h] dir (op dir h).1
  trans : ∀ a b c, P a b → P b c → P a c
  ok : ∀ dir dir' h, op dir h = (dir', .ok ()) → Q (dir'.at h)
  stays : ∀ a b, P a b → Q a → Q b

section

variable (disk : Disk)

lemma commit_settles : Settles (commit disk) (@Publishes β) (fun a => a.2.isSome = true) where
  changes := commit_changes disk
  trans _ _ _ := Publishes.trans
  ok _ _ _ := commit_ok
  stays := by
    rintro a b ⟨x, -, rfl⟩ -
    rfl

lemma abort_settles : Settles (abort disk) (@Drops β) (fun a => a.1 = none) where
  changes := abort_changes disk
  trans _ _ _ := Drops.trans
  ok _ _ _ := abort_ok
  stays := by
    rintro a b h -
    rw [h]

/-- Files on which the operation does not fail. -/
structure Total (op : Dir β → ParquetCommitHandle → Dir β × Except ConnectorError Unit)
    (P : Option β × Option β → Option β × Option β → Prop)
    (R : ParquetCommitHandle → Option β × Option β → Prop) : Prop where
  ok : ∀ dir h, R h (dir.at h) → ∃ dir', op dir h = (dir', .ok ())
  stays : ∀ h a b, P a b → R h a → R h b

lemma commit_totals : Total (commit disk) (@Publishes β) (fun h a => disk h = true ∧ a ≠ (none, none)) where
  ok := by
    rintro dir h ⟨hdisk, hfile⟩
    unfold commit
    rw [if_pos hdisk]
    cases hs : dir.staging.lookup h with
    | some b => exact ⟨_, rfl⟩
    | none =>
      cases hf : dir.final.lookup h with
      | some b => exact ⟨dir, by rw [Option.isSome_some]; rfl⟩
      | none => exact absurd (by rw [Dir.at, hs, hf]) hfile
  stays := by
    rintro h a b ⟨x, -, rfl⟩ ⟨hdisk, -⟩
    exact ⟨hdisk, by simp⟩

lemma abort_totals : Total (abort disk) (@Drops β) (fun h _ => disk h = true) where
  ok := by
    intro dir h hdisk
    exact ⟨_, by rw [abort, if_pos hdisk]⟩
  stays _ _ _ _ hdisk := hdisk

end

lemma settleHandles_append (hs hs' : List ParquetCommitHandle) (d : Dir β) (n : ℕ) :
    settleHandles op (hs ++ hs') d n = match settleHandles op hs d n with
      | (d, n, _, none) => settleHandles op hs' d n
      | (d, n, left, some e) => (d, n, left ++ hs', some e) := by
  induction hs generalizing d n with
  | nil => rfl
  | cons x hs ih =>
    rw [cons_append, settleHandles, settleHandles]
    rcases op d x with ⟨d₁, e | _⟩
    · rfl
    · exact ih d₁ (n + 1)

namespace Settles

variable {d d' : Dir β}

section

variable (hop : Settles op P Q)

include hop

/-- A pass over handles settles each of them or leaves it; if it does not fail none is left. -/
lemma handles {hs left : List ParquetCommitHandle} {n n' : ℕ} {failed : Option ConnectorError}
    (h : settleHandles op hs d n = (d', n', left, failed)) :
    Changes P hs d d' ∧ left ⊆ hs ∧ (∀ x ∈ hs, x ∈ left ∨ Q (d'.at x)) ∧ (failed = none → left = []) := by
  induction hs generalizing d n with
  | nil =>
    cases h
    exact ⟨.refl _ _, Subset.refl _, by simp, fun _ => rfl⟩
  | cons x hs ih =>
    have hone := hop.changes d x
    have hok := hop.ok d
    unfold settleHandles at h
    rcases hx : op d x with ⟨d₁, e | _⟩
    · rw [hx] at h hone
      cases h
      exact ⟨hone.mono (by simp), Subset.refl _, fun y hy => .inl hy, fun hf => by cases hf⟩
    rw [hx] at h hone
    obtain ⟨hrest, hsub, hall, hnone⟩ := ih h
    exact ⟨(hone.mono (by simp)).trans hop.trans (hrest.mono (by simp)), subset_cons_of_subset _ hsub,
      forall_mem_cons.mpr ⟨.inr (hrest.keeps hop.stays (hok d₁ x hx)), hall⟩, hnone⟩

/-- A pass over epochs is one over their handles; what is left stays under its epoch. -/
lemma epochs_flat {p left : Prepared} {n n' : ℕ} {failed : Option ConnectorError}
    (h : settleEpochs op p d n = (d', n', left, failed)) :
    settleHandles op p.handles d n = (d', n', left.handles, failed) ∧
      (∀ e ∈ left, ∃ e' ∈ p, e.1 = e'.1 ∧ e.2 ⊆ e'.2) ∧ (failed = none → left = []) := by
  induction p generalizing d n with
  | nil =>
    cases h
    exact ⟨rfl, by simp, fun _ => rfl⟩
  | cons entry p ih =>
    obtain ⟨epoch, hs⟩ := entry
    rw [show Prepared.handles ((epoch, hs) :: p) = hs ++ Prepared.handles p from rfl, settleHandles_append]
    unfold settleEpochs at h
    rcases hhs : settleHandles op hs d n with ⟨d₁, n₁, left₁, _ | e⟩
    · rw [hhs] at h
      obtain ⟨hflat, hunder, hnone⟩ := ih h
      refine ⟨hflat, fun e he => ?_, hnone⟩
      obtain ⟨e', he', hsame⟩ := hunder e he
      exact ⟨e', mem_cons_of_mem _ he', hsame⟩
    · rw [hhs] at h
      obtain ⟨-, hsub, -⟩ := hop.handles hhs
      cases h
      refine ⟨rfl, forall_mem_cons.mpr ⟨⟨(epoch, hs), mem_cons_self, rfl, hsub⟩, fun e' he' => ?_⟩, nofun⟩
      exact ⟨e', mem_cons_of_mem _ he', rfl, Subset.refl _⟩

variable {R : ParquetCommitHandle → Option β × Option β → Prop}

lemma handles_total (htot : Total op P R) {hs : List ParquetCommitHandle}
    {d : Dir β} {n : ℕ} (h : ∀ x ∈ hs, R x (d.at x)) : (settleHandles op hs d n).2.2.2 = none := by
  induction hs generalizing d n with
  | nil => rfl
  | cons x hs ih =>
    have hone := hop.changes d x
    obtain ⟨d₁, hx⟩ := htot.ok d x (h x mem_cons_self)
    unfold settleHandles
    rw [hx] at hone ⊢
    exact ih fun y hy => hone.keeps (htot.stays y) (h y (mem_cons_of_mem _ hy))

lemma epochs_total (htot : Total op P R) {p : Prepared} {d : Dir β} {n : ℕ} (h : ∀ x ∈ p.handles, R x (d.at x)) :
    (settleEpochs op p d n).2.2.2 = none := by
  have hnone := hop.handles_total htot (n := n) h
  rw [(hop.epochs_flat rfl).1] at hnone
  exact hnone

end

variable {disk : Disk} {commits : Bool} {paths : List ParquetCommitHandle}

/-- Finalizing from staged names is such a pass. -/
lemma finalizeAll_eq (disk : Disk) (commits : Bool) (paths : List ParquetCommitHandle) (d : Dir β) (n : ℕ) :
    finalizeAll disk commits paths d =
      let settled := settleHandles (finalizePrepared disk · · commits) paths d n
      (settled.1, match settled.2.2.2 with | none => .ok () | some e => .error e) := by
  induction paths generalizing d n with
  | nil => rfl
  | cons x paths ih =>
    unfold finalizeAll settleHandles
    rcases finalizePrepared disk d x commits with ⟨d₁, e | _⟩
    · rfl
    · exact ih d₁ (n + 1)

section

variable (hop : Settles (finalizePrepared disk · · commits) P Q)

include hop

lemma finalizeAll_changes (h : finalizeAll disk commits paths d = (d', r)) :
    Changes P paths d d' ∧ (r = .ok () → ∀ x ∈ paths, Q (d'.at x)) := by
  rw [finalizeAll_eq disk commits paths d 0] at h
  rcases hs : settleHandles (finalizePrepared disk · · commits) paths d 0 with
    ⟨d₁, n, left, failed⟩
  rw [hs] at h
  cases h
  obtain ⟨hchanges, -, hall, hnone⟩ := hop.handles hs
  refine ⟨hchanges, fun hr x hx => (hall x hx).resolve_left ?_⟩
  cases failed with
  | none => simp [hnone rfl]
  | some e => cases hr

lemma finalizeAll_total (htot : Total (finalizePrepared disk · · commits) P R) (h : ∀ x ∈ paths, R x (d.at x)) :
    (finalizeAll disk commits paths d).2 = .ok () := by
  rw [finalizeAll_eq disk commits paths d 0]
  dsimp only
  rw [hop.handles_total htot h]

end

end Settles

end Settle

/-! ## Preparing -/

/-- Files of `hs` were staged under free names, and nothing else has changed. -/
def Added (hs : List ParquetCommitHandle) (dir dir' : Dir β) : Prop :=
  (∀ h ∉ hs, dir'.at h = dir.at h) ∧ ∀ h ∈ hs, dir.at h = (none, none) ∧ (dir'.at h).2 = none

lemma freeId_free {dir : Dir β} {epoch left id k : ℕ} (h : freeId dir epoch left id = some k) :
    dir.at ⟨epoch, k⟩ = (none, none) := by
  induction left generalizing id with
  | zero => cases h
  | succ left ih =>
    unfold freeId at h
    split at h
    · exact ih h
    next htaken =>
    cases h
    simp only [Bool.or_eq_true, not_or, Bool.not_eq_true, Option.isSome_eq_false_iff,
      Option.isNone_iff_eq_none] at htaken
    rw [Dir.at, htaken.1, htaken.2]

variable {next' : ℕ}

lemma prepare_ok {next epoch : ℕ} {batch : β} {handle : ParquetCommitHandle}
    (h : prepare disk dir next epoch batch = (dir', next', .ok handle)) :
    handle.epoch = epoch ∧ dir.at handle = (none, none) ∧ dir'.at handle = (some batch, none) ∧
      ∀ x, x ≠ handle → dir'.at x = dir.at x := by
  unfold prepare at h
  split at h
  · cases h
  next id hid =>
  have hfree := freeId_free hid
  dsimp only at h
  split at h
  · cases h
    refine ⟨rfl, hfree, ?_, fun x hx => ?_⟩
    · rw [Dir.at, lookup_insert, show dir.final.lookup ⟨epoch, id⟩ = none from
        congrArg Prod.snd hfree]
    · rw [Dir.at, Dir.at, lookup_insert_ne hx]
  · cases h

lemma prepare_error {next epoch : ℕ} {batch : β} {e : ConnectorError}
    (h : prepare disk dir next epoch batch = (dir', next', .error e)) : dir' = dir := by
  unfold prepare at h
  split at h
  · cases h
    rfl
  dsimp only at h
  split at h
  · cases h
  · cases h
    rfl

lemma foldl_abort_added {drop : List ParquetCommitHandle} (h : Added hs dir dir') (hsub : drop ⊆ hs) :
    Added hs dir (drop.foldl (fun d x => (abort disk d x).1) dir') := by
  induction drop generalizing dir' with
  | nil => exact h
  | cons x drop ih =>
    refine ih ⟨fun y hy => ?_, fun y hy => ⟨(h.2 y hy).1, ?_⟩⟩ fun y hy => hsub (mem_cons_of_mem _ hy)
    · rw [(abort_changes disk dir' x).at_eq fun hmem => hy (hsub (by simp [mem_singleton.mp hmem])), h.1 y hy]
    · rcases abort_changes disk dir' x y with hsame | ⟨-, hdrop⟩
      · rw [hsame, (h.2 y hy).2]
      · rw [hdrop, (h.2 y hy).2]

/-- Everything is staged in order under free names of the epoch, or something failed and the directory
may have kept some new staged files. -/
lemma prepareAll_spec (done : List β) {epoch : ℕ} {batches : List β}
    {handles : List ParquetCommitHandle} {dir₀ dir : Dir β} {next : ℕ}
    {r : Except ConnectorError (List ParquetCommitHandle)} (hadd : Added handles dir₀ dir)
    (hstaged : handles.map (fun h => (dir.at h).1) = done.map some) (hepoch : ∀ h ∈ handles, h.epoch = epoch)
    (h : prepareAll disk epoch batches handles dir next = (dir', next', r)) :
    (∃ e hs, r = .error e ∧ Added hs dir₀ dir') ∨ ∃ hs, r = .ok hs ∧ Added hs dir₀ dir' ∧
    hs.map (fun h => (dir'.at h).1) = (done ++ batches).map some ∧ ∀ h ∈ hs, h.epoch = epoch := by
  induction batches generalizing done handles dir next with
  | nil =>
    cases h
    exact .inr ⟨handles, rfl, hadd, by rw [append_nil, hstaged], hepoch⟩
  | cons b batches ih =>
    unfold prepareAll at h
    rcases hb : prepare disk dir next epoch b with ⟨dir₁, next₁, e | x⟩
    · rw [hb] at h
      cases h
      rw [prepare_error hb]
      exact .inl ⟨e, handles, rfl, foldl_abort_added hadd (Subset.refl _)⟩
    rw [hb] at h
    obtain ⟨hx, hfree, hnew, hframe⟩ := prepare_ok hb
    -- the new name is none of those staged so far
    have hfresh : x ∉ handles := by
      intro hmem
      obtain ⟨i, hi, rfl⟩ := mem_iff_getElem.mp hmem
      have hone := congrArg (·[i]?) hstaged
      simp only [getElem?_map, getElem?_eq_getElem hi, Option.map_some] at hone
      rw [hfree] at hone
      cases hd : done[i]? with
      | none => simp [hd] at hone
      | some v => simp [hd] at hone
    have hsame : ∀ y ∈ handles, dir₁.at y = dir.at y := fun y hy =>
      hframe y fun heq => hfresh (heq ▸ hy)
    have hrest := @ih (done ++ [b]) (handles ++ [x]) dir₁ next₁ ⟨fun y hy => ?_, fun y hy => ?_⟩ ?_
      (fun y hy => ?_) h
    · simpa using hrest
    · rw [mem_append, not_or, mem_singleton] at hy
      rw [hframe y hy.2, hadd.1 y hy.1]
    · rcases mem_append.mp hy with hy | hy
      · rw [hsame y hy]
        exact hadd.2 y hy
      rw [mem_singleton] at hy
      subst hy
      rw [hnew, ← hadd.1 y hfresh, hfree]
      exact ⟨rfl, rfl⟩
    · rw [map_append, map_append, ← hstaged, map_singleton, map_singleton, hnew]
      congr 1
      exact map_congr_left fun y hy => by rw [hsame y hy]
    · rcases mem_append.mp hy with hy | hy
      · exact hepoch y hy
      · rw [mem_singleton.mp hy]
        exact hx

/-! ## The transaction log, as a whole -/

lemma Prepared.mem_handles {p : Prepared} : h ∈ p.handles ↔ ∃ e ∈ p, h ∈ e.2 := by
  simp only [Prepared.handles, mem_flatten, mem_map, exists_exists_and_eq_and]

namespace EpochTransactionLog

variable {disk : Disk} {dir : Dir β} {log log' : EpochTransactionLog β} {epoch : ℕ}

lemma mem_preparedRefs {ref : PreparedSinkRef} :
    ref ∈ log.preparedRefs ↔ ∃ e ∈ log.prepared, e.1 = ref.epoch ∧ ref.preparePath ∈ e.2 := by
  simp only [preparedRefs, mem_flatten, mem_map]
  constructor
  · rintro ⟨_, ⟨e, he, rfl⟩, hmem⟩
    obtain ⟨h, hh, rfl⟩ := mem_map.mp hmem
    exact ⟨e, he, rfl, hh⟩
  · rintro ⟨e, he, hepoch, hh⟩
    exact ⟨_, ⟨e, he, rfl⟩, mem_map.mpr ⟨_, hh, by rw [hepoch]⟩⟩

/-- A barrier prepares the open batches in order, or fails and leaves them open. -/
lemma preCommit_spec (h : log.preCommit disk dir epoch = (dir', log', r)) :
    (∃ e hs, r = .error e ∧ Added hs dir dir' ∧ log'.opened = log.opened ∧ log'.prepared = log.prepared) ∨
    ∃ hs, r = .ok () ∧ Added hs dir dir' ∧ hs.map (fun x => (dir'.at x).1) = log.opened.map some ∧
      (∀ x ∈ hs, x.epoch = epoch) ∧ log'.opened = [] ∧
      (hs = [] ∧ log'.prepared = log.prepared ∨ log'.prepared = log.prepared ++ [(epoch, hs)]) := by
  have hnone : Added [] dir dir := ⟨fun _ _ => rfl, by simp⟩
  have hcases : (∃ e, (dir, log, .error e) = (dir', log', r)) ∨
      preCommit.go disk dir log epoch = (dir', log', r) := by
    unfold preCommit at h
    split at h
    · split at h
      · exact .inl ⟨_, h⟩
      · exact .inr h
    · exact .inr h
  rcases hcases with ⟨e, h⟩ | h
  · cases h
    exact .inl ⟨e, [], rfl, hnone, rfl, rfl⟩
  unfold preCommit.go at h
  split at h
  · next hempty =>
    cases h
    have hopen := List.isEmpty_iff.mp hempty
    exact .inr ⟨[], rfl, hnone, by rw [hopen]; rfl, by simp, hopen, .inl ⟨rfl, rfl⟩⟩
  rcases hall : prepareAll disk epoch log.opened [] dir log.nextHandle with ⟨d, n, e | hs⟩
  · rw [hall] at h
    cases h
    rcases prepareAll_spec [] hnone rfl (by simp) hall with
      ⟨e', hs, -, hadd⟩ | ⟨hs, hok, -⟩
    · exact .inl ⟨e, hs, rfl, hadd, rfl, rfl⟩
    · cases hok
  · rw [hall] at h
    cases h
    rcases prepareAll_spec [] hnone rfl (by simp) hall with
      ⟨e, _, herr, -⟩ | ⟨hs', hok, hadd, hstaged, hepoch⟩
    · cases herr
    · cases hok
      exact .inr ⟨hs, rfl, hadd, hstaged, hepoch, rfl, .inr rfl⟩

/-- A completion publishes what was prepared up to the epoch, as far as the disk lets it. -/
lemma commitThrough_spec {r : Except ConnectorError ℕ} (h : log.commitThrough disk dir epoch = (dir', log', r)) :
    Changes Publishes (Prepared.handles (log.prepared.filter (·.1 ≤ epoch))) dir dir' ∧ log'.opened = log.opened ∧
    log'.prepared.filter (epoch < ·.1) = log.prepared.filter (epoch < ·.1) ∧
    (∀ e ∈ log'.prepared, ∃ e' ∈ log.prepared, e.1 = e'.1 ∧ e.2 ⊆ e'.2) ∧
    (∀ x ∈ Prepared.handles (log.prepared.filter (·.1 ≤ epoch)),
      x ∈ log'.prepared.handles ∨ (dir'.at x).2.isSome = true) ∧
    (r.isOk = true → log'.prepared.filter (·.1 ≤ epoch) = []) := by
  unfold commitThrough at h
  rcases hs : settleEpochs (commit disk) (log.prepared.filter (·.1 ≤ epoch)) dir 0 with
    ⟨d, count, left, failed⟩
  simp only [hs, Prod.mk.injEq] at h
  obtain ⟨rfl, rfl, rfl⟩ := h
  obtain ⟨hflat, hleft, hnone⟩ := (commit_settles disk).epochs_flat hs
  obtain ⟨hchanges, -, hall, -⟩ := (commit_settles disk).handles hflat
  have hleftEpoch : ∀ e ∈ left, e.1 ≤ epoch := by
    intro e he
    obtain ⟨e', he', heq, -⟩ := hleft e he
    have := of_decide_eq_true (mem_filter.mp he').2
    omega
  refine ⟨hchanges, rfl, ?_, fun e he => ?_, fun x hx => ?_, fun hok => ?_⟩
  · rw [filter_append, filter_eq_nil_iff.mpr (by simpa using hleftEpoch), nil_append, filter_filter]
    simp
  · rcases mem_append.mp he with he | he
    · obtain ⟨e', he', hsame⟩ := hleft e he
      exact ⟨e', (mem_filter.mp he').1, hsame⟩
    · exact ⟨e, (mem_filter.mp he).1, rfl, Subset.refl _⟩
  · refine (hall x hx).imp_left fun hmem => ?_
    obtain ⟨e, he, hxe⟩ := Prepared.mem_handles.mp hmem
    exact Prepared.mem_handles.mpr ⟨e, mem_append_left _ he, hxe⟩
  · cases failed with
    | some e => cases hok
    | none =>
      rw [hnone rfl, nil_append, filter_filter, filter_eq_nil_iff]
      intro e _
      simp

section

variable (hdisk : ∀ h, disk h = true)

include hdisk

lemma commitThrough_total (h : ∀ x ∈ Prepared.handles (log.prepared.filter (·.1 ≤ epoch)), dir.at x ≠ (none, none)) :
    ∃ dir' log' n, log.commitThrough disk dir epoch = (dir', log', .ok n) := by
  have hnone := (commit_settles disk).epochs_total (commit_totals disk) (n := 0) fun x hx => ⟨hdisk x, h x hx⟩
  unfold commitThrough
  rcases hs : settleEpochs (commit disk) (log.prepared.filter (·.1 ≤ epoch)) dir 0 with
    ⟨d, count, left, failed⟩
  rw [hs] at hnone
  cases hnone
  simp only [hs]
  exact ⟨_, _, count, rfl⟩

/-- A rollback removes what was prepared after the epoch; it needs the disk. -/
lemma abortAfter_spec : ∃ dir' n, log.abortAfter disk dir epoch =
        (dir', { log with opened := [], prepared := log.prepared.filter (·.1 ≤ epoch) }, .ok n) ∧
      Changes Drops (Prepared.handles (log.prepared.filter (epoch < ·.1))) dir dir' := by
  have hnone := (abort_settles disk).epochs_total (abort_totals disk) (n := 0)
    (p := log.prepared.filter (epoch < ·.1)) (d := dir) fun x _ => hdisk x
  unfold abortAfter
  rcases hs : settleEpochs (abort disk) (log.prepared.filter (epoch < ·.1)) dir 0 with
    ⟨d, count, left, failed⟩
  obtain ⟨hflat, -, hleft⟩ := (abort_settles disk).epochs_flat hs
  have hchanges := ((abort_settles disk).handles hflat).1
  rw [hs] at hnone
  cases hnone
  simp only [hs, hleft rfl, append_nil]
  exact ⟨d, count, rfl, hchanges⟩

/-- A restore publishes what was prepared up to the epoch and removes the rest. -/
lemma restoreTo_ok (hheld : ∀ x ∈ Prepared.handles (log.prepared.filter (·.1 ≤ epoch)), dir.at x ≠ (none, none)) :
    ∃ dir₁ dir₂ log' n, restoreTo disk dir (some log) epoch = (dir₂, some log', .ok n) ∧
      log'.opened = [] ∧ log'.prepared = [] ∧
      Changes Publishes (Prepared.handles (log.prepared.filter (·.1 ≤ epoch))) dir dir₁ ∧
      (∀ x ∈ Prepared.handles (log.prepared.filter (·.1 ≤ epoch)),
        x ∈ Prepared.handles (log.prepared.filter (epoch < ·.1)) ∨ (dir₁.at x).2.isSome = true) ∧
      Changes Drops (Prepared.handles (log.prepared.filter (epoch < ·.1))) dir₁ dir₂ := by
  obtain ⟨dir₁, log₁, n, hct⟩ := commitThrough_total hdisk hheld
  obtain ⟨hpub, -, hahead, -, hall, hdone⟩ := commitThrough_spec hct
  have hdone := hdone rfl
  obtain ⟨dir₂, n', hab, hdrop⟩ := @abortAfter_spec β disk dir₁ log₁ epoch hdisk
  rw [hahead] at hdrop
  refine ⟨dir₁, dir₂, { log₁ with opened := [], prepared := log₁.prepared.filter (·.1 ≤ epoch) },
    (n, n'), ?_, rfl, hdone, hpub, fun x hx => ?_, hdrop⟩
  · simp [restoreTo, hct, hab]
  -- nothing up to the epoch is left in the log
  refine (hall x hx).imp_left fun hmem => ?_
  obtain ⟨e, he, hxe⟩ := Prepared.mem_handles.mp hmem
  rw [← hahead]
  refine Prepared.mem_handles.mpr ⟨e, mem_filter.mpr ⟨he, decide_eq_true ?_⟩, hxe⟩
  by_contra hle
  have : e ∈ log₁.prepared.filter (·.1 ≤ epoch) := mem_filter.mpr ⟨he, decide_eq_true (not_lt.mp hle)⟩
  rw [hdone] at this
  cases this

/-- A directive that only commits publishes the files it lists. -/
lemma recoverPreparedRefs_ok {paths : List ParquetCommitHandle} (hheld : ∀ x ∈ paths, dir.at x ≠ (none, none)) :
    ∃ dir' n, recoverPreparedRefs disk dir (some log) paths [] = (dir', .ok n) ∧
      Changes Publishes paths dir dir' ∧ ∀ x ∈ paths, (dir'.at x).2.isSome = true := by
  have hsettles : Settles (finalizePrepared disk · · true) (@Publishes β)
      (fun a => a.2.isSome = true) := commit_settles disk
  rcases hall : finalizeAll disk true paths dir with ⟨dir', r⟩
  have hok : r = .ok () := by
    have h := hsettles.finalizeAll_total (commit_totals disk) fun x hx => ⟨hdisk x, hheld x hx⟩
    rw [hall] at h
    exact h
  obtain ⟨hpub, hfinal⟩ := hsettles.finalizeAll_changes hall
  subst hok
  exact ⟨dir', _, by simp only [recoverPreparedRefs, hall, finalizeAll]; rfl, hpub, hfinal rfl⟩

end

end EpochTransactionLog

end Krishiv.Connectors
