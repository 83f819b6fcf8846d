import Krishiv.Scheduler.SinkCheckpoints

/-!
# Output is committed exactly once

The latest epoch in the checkpoint store fixes a *point*: up to where each source has been read, and
which staged files belong to it. A batch before that point must end up in one final file, and no batch
after it may be final.

The files of the point are found in two places, the logs of the executors and the metadata of the
epoch. `Files` says that every batch before the point has exactly one file, which is final or listed in
the metadata; `LogOk` that the log of an executor holds the batches after the point in order, and
of its files before the point all that are still staged; `AckOk` the same of an acknowledgement that is
waiting for the others. An executor that crashes takes its log with it. Then only the metadata knows
its files, and a restore that does not list them leaves them staged for good.
-/

namespace Krishiv.Scheduler.Sink

open Krishiv.Connectors List Prepared EpochTransactionLog Function

variable {X : Type}

/-! ## The point -/

/-- What the latest epoch of the store fixes; before the first, the origin of every source. -/
structure Point (X : Type) where
  epoch : ℕ
  offsets : X → ℕ
  refs : List ParquetCommitHandle

def CheckpointMetadata.point (m : CheckpointMetadata X) : Point X :=
  ⟨m.epoch, m.sourceOffsets, m.sinkTransactions.map SinkTransactionRef.preparePath⟩

def point (storage : List (CheckpointMetadata X)) : Point X :=
  ((latest storage).map CheckpointMetadata.point).getD ⟨0, fun _ => 0, []⟩

/-- The batch in the files of a handle. -/
def content (dir : Dir (Batch X)) (h : ParquetCommitHandle) : Option (Batch X) :=
  (dir.at h).1.or (dir.at h).2

/-- The file counts as output of the point. -/
def Carries (p : Point X) (dir : Dir (Batch X)) (h : ParquetCommitHandle) (b : Batch X) : Prop :=
  content dir h = some b ∧ ((dir.at h).2.isSome = true ∨ h ∈ p.refs)

structure Files (p : Point X) (dir : Dir (Batch X)) : Prop where
  excl : ∀ h, (dir.at h).1 = none ∨ (dir.at h).2 = none
  visible : ∀ h b, (dir.at h).2 = some b → b.position < p.offsets b.executor
  refs : ∀ h ∈ p.refs, ∃ b, content dir h = some b ∧ b.position < p.offsets b.executor
  cover : ∀ b : Batch X, b.position < p.offsets b.executor → ∃! h, Carries p dir h b

/-- The handles prepared up to an epoch, and after it. -/
def doneHandles (log : EpochTransactionLog (Batch X)) (epoch : ℕ) : List ParquetCommitHandle :=
  Prepared.handles (log.prepared.filter (·.1 ≤ epoch))

def aheadHandles (log : EpochTransactionLog (Batch X)) (epoch : ℕ) : List ParquetCommitHandle :=
  Prepared.handles (log.prepared.filter (epoch < ·.1))

/-- The batches of an executor from one position up to another. -/
def span (i : X) (first last : ℕ) : List (Batch X) :=
  (List.range' first (last - first)).map (⟨i, ·⟩)

/-- The log of an executor. One for which a restore is waiting need not be in order. -/
structure LogOk (p : Point X) (dir : Dir (Batch X)) (current : ℕ) (pending : Bool) (i : X)
    (log : EpochTransactionLog (Batch X)) (next : ℕ) : Prop where
  done : ∀ h ∈ doneHandles log p.epoch, h ∈ p.refs ∧ ∃ k, content dir h = some ⟨i, k⟩
  ahead : ∀ h ∈ aheadHandles log p.epoch, h ∉ p.refs ∧ ∃ k, (dir.at h).1 = some ⟨i, k⟩
  bound : pending = false → ∀ e ∈ log.prepared, e.1 ≤ current
  le : pending = false → p.offsets i ≤ next
  order : pending = false → (aheadHandles log p.epoch).map (fun h => (dir.at h).1) ++
    log.opened.map some = (span i (p.offsets i) next).map some
  settled : pending = false → ∀ h ∈ p.refs, ∀ k, (dir.at h).1 = some ⟨i, k⟩ → h ∈ doneHandles log p.epoch

/-- The references of an acknowledgement beyond the point. -/
def aheadRefs (ack : CheckpointAck) (epoch : ℕ) : List ParquetCommitHandle :=
  (ack.sinkTransactions.filter (epoch < ·.epoch)).map SinkTransactionRef.preparePath

def ackPaths (ack : CheckpointAck) : List ParquetCommitHandle :=
  ack.sinkTransactions.map SinkTransactionRef.preparePath

/-- An acknowledgement. The executor may have crashed since. -/
structure AckOk (p : Point X) (dir : Dir (Batch X)) (current : ℕ) (i : X)
    (log : Option (EpochTransactionLog (Batch X))) (ack : CheckpointAck) : Prop where
  le : p.offsets i ≤ ack.offset
  ahead : (aheadRefs ack p.epoch).map (fun h => (dir.at h).1) = (span i (p.offsets i) ack.offset).map some
  done : ∀ r ∈ ack.sinkTransactions, r.epoch ≤ p.epoch → r.preparePath ∈ p.refs
  bound : ∀ r ∈ ack.sinkTransactions, r.epoch ≤ current
  log : ∀ l, log = some l → aheadHandles l p.epoch = aheadRefs ack p.epoch ∧ l.prepared.handles ⊆ ackPaths ack
  settled : ∀ h ∈ p.refs, ∀ k, (dir.at h).1 = some ⟨i, k⟩ → h ∈ ackPaths ack

/-! ## Changes of the directory -/

variable {p : Point X} {dir dir' : Dir (Batch X)} {h : ParquetCommitHandle} {hs : List ParquetCommitHandle}
  {b : Batch X}

lemma content_staged (hs : (dir.at h).1 = some b) : content dir h = some b := by
  rw [content, hs, Option.some_or]

lemma content_congr (hs : dir'.at h = dir.at h) : content dir' h = content dir h := by
  rw [content, content, hs]

/-- Publishing changes no content. -/
lemma content_publish (hch : Changes Publishes hs dir dir') (h : ParquetCommitHandle) :
    content dir' h = content dir h := by
  rcases hch h with hsame | ⟨-, b, hb, h'⟩
  · exact content_congr hsame
  · rw [content, content, hb, h']
    rfl

/-- What is staged afterwards was staged before. -/
lemma staged_of_publish (hch : Changes Publishes hs dir dir') (hb : (dir'.at h).1 = some b) :
    (dir.at h).1 = some b := by
  rcases hch h with hsame | ⟨-, c, -, hc⟩
  · rw [← hsame, hb]
  · rw [hc] at hb
    cases hb

lemma Files.publish (hf : Files p dir) (hch : Changes Publishes hs dir dir') (hsub : hs ⊆ p.refs) : Files p dir' := by
  have hcontent := content_publish hch
  refine ⟨fun h => ?_, fun h b hb => ?_, fun h hh => ?_, fun b hb => ?_⟩
  · rcases hch h with hsame | ⟨-, b, -, h'⟩
    · rw [hsame]
      exact hf.excl h
    · exact .inl (by rw [h'])
  · rcases hch h with hsame | ⟨hmem, b', hb', h'⟩
    · exact hf.visible h b (by rw [← hsame, hb])
    -- a listed file
    obtain ⟨c, hc, hlt⟩ := hf.refs h (hsub hmem)
    rw [content_staged hb'] at hc
    rw [h'] at hb
    cases hc
    cases hb
    exact hlt
  · rw [hcontent]
    exact hf.refs h hh
  · have hcarries : ∀ x, Carries p dir' x b ↔ Carries p dir x b := by
      intro x
      rw [Carries, Carries, hcontent]
      rcases hch x with hsame | ⟨hmem, -⟩
      · rw [hsame]
      · simp [hsub hmem]
    simpa only [hcarries] using hf.cover b hb

/-- Files that are not listed and not final can come and go. -/
lemma Files.frame (hf : Files p dir) (hout : ∀ h ∉ hs, dir'.at h = dir.at h)
    (hin : ∀ h ∈ hs, h ∉ p.refs ∧ (dir.at h).2 = none ∧ (dir'.at h).2 = none) : Files p dir' := by
  refine ⟨fun h => ?_, fun h b hb => ?_, fun h hh => ?_, fun b hb => ?_⟩
  · by_cases hmem : h ∈ hs
    · exact .inr (hin h hmem).2.2
    · rw [hout h hmem]
      exact hf.excl h
  · by_cases hmem : h ∈ hs
    · rw [(hin h hmem).2.2] at hb
      cases hb
    · exact hf.visible h b (by rw [← hout h hmem, hb])
  · rw [content_congr (hout h fun hmem => (hin h hmem).1 hh)]
    exact hf.refs h hh
  · have hcarries : ∀ x, Carries p dir' x b ↔ Carries p dir x b := by
      intro x
      by_cases hmem : x ∈ hs
      · obtain ⟨hrefs, hfinal, hfinal'⟩ := hin x hmem
        simp [Carries, hrefs, hfinal, hfinal']
      · rw [Carries, Carries, content_congr (hout x hmem), hout x hmem]
    simpa only [hcarries] using hf.cover b hb

variable {log : EpochTransactionLog (Batch X)}

lemma mem_handles_filter {q : ℕ × List ParquetCommitHandle → Bool} (hh : h ∈ handles (log.prepared.filter q)) :
    h ∈ log.prepared.handles := by
  obtain ⟨e, he, hmem⟩ := mem_handles.mp hh
  exact mem_handles.mpr ⟨e, (mem_filter.mp he).1, hmem⟩

variable {current next : ℕ} {pending : Bool} {i : X} {log' : EpochTransactionLog (Batch X)}
  {logs : Option (EpochTransactionLog (Batch X))} {ack : CheckpointAck}

lemma mem_done_or_ahead (epoch : ℕ) (hh : h ∈ log.prepared.handles) :
    h ∈ doneHandles log epoch ∨ h ∈ aheadHandles log epoch := by
  obtain ⟨e, he, hmem⟩ := mem_handles.mp hh
  rcases Nat.lt_or_ge epoch e.1 with hlt | hge
  · exact .inr (mem_handles.mpr ⟨e, mem_filter.mpr ⟨he, decide_eq_true hlt⟩, hmem⟩)
  · exact .inl (mem_handles.mpr ⟨e, mem_filter.mpr ⟨he, decide_eq_true hge⟩, hmem⟩)

section

variable (hl : LogOk p dir current pending i log next)

include hl

/-- A log rests on its own files, and on those that the point lists not being staged. -/
lemma LogOk.of_dir (hdone : ∀ x ∈ doneHandles log p.epoch, content dir' x = content dir x)
    (hahead : ∀ x ∈ aheadHandles log p.epoch, dir'.at x = dir.at x)
    (hstaged : ∀ x ∈ p.refs, ∀ b, (dir'.at x).1 = some b → (dir.at x).1 = some b) :
    LogOk p dir' current pending i log next := by
  refine ⟨fun x hx => ?_, fun x hx => ?_, hl.bound, hl.le, fun hp => ?_, fun hp x hx k hk =>
    hl.settled hp x hx k (hstaged x hx _ hk)⟩
  · rw [hdone x hx]
    exact hl.done x hx
  · rw [hahead x hx]
    exact hl.ahead x hx
  · rw [map_congr_left fun x hx => by rw [hahead x hx]]
    exact hl.order hp

/-- The files of a log are those of its executor. -/
lemma LogOk.owned (hh : h ∈ log.prepared.handles) : ∃ k, content dir h = some ⟨i, k⟩ := by
  rcases mem_done_or_ahead p.epoch hh with hdone | hahead
  · exact (hl.done h hdone).2
  · obtain ⟨k, hk⟩ := (hl.ahead h hahead).2
    exact ⟨k, content_staged hk⟩

lemma LogOk.congr (hrefs : ∀ x ∈ p.refs, dir'.at x = dir.at x)
    (hown : ∀ x k, content dir x = some ⟨i, k⟩ → dir'.at x = dir.at x) : LogOk p dir' current pending i log next := by
  have hlog : ∀ x ∈ log.prepared.handles, dir'.at x = dir.at x := by
    intro x hx
    obtain ⟨k, hk⟩ := hl.owned hx
    exact hown x k hk
  exact hl.of_dir (fun x hx => content_congr (hlog x (mem_handles_filter hx)))
    (fun x hx => hlog x (mem_handles_filter hx)) fun x hx b hb => by rw [← hrefs x hx, hb]

lemma LogOk.publish (hch : Changes Publishes hs dir dir') (hsub : hs ⊆ p.refs) :
    LogOk p dir' current pending i log next :=
  hl.of_dir (fun x _ => content_publish hch x)
    (fun x hx => hch.at_eq fun hmem => (hl.ahead x hx).1 (hsub hmem)) fun _ _ _ hb => staged_of_publish hch hb

end

section

variable (ha : AckOk p dir current i logs ack)

include ha

lemma AckOk.of_dir (hahead : ∀ x ∈ aheadRefs ack p.epoch, dir'.at x = dir.at x)
    (hstaged : ∀ x ∈ p.refs, ∀ b, (dir'.at x).1 = some b → (dir.at x).1 = some b) :
    AckOk p dir' current i logs ack := by
  refine ⟨ha.le, ?_, ha.done, ha.bound, ha.log, fun x hx k hk => ha.settled x hx k (hstaged x hx _ hk)⟩
  rw [← ha.ahead]
  exact map_congr_left fun x hx => by rw [hahead x hx]

/-- What an acknowledgement names beyond the point is staged there. -/
lemma AckOk.staged {h : ParquetCommitHandle} (hh : h ∈ aheadRefs ack p.epoch) :
    ∃ k, p.offsets i ≤ k ∧ k < ack.offset ∧ (dir.at h).1 = some ⟨i, k⟩ := by
  have hmem : (dir.at h).1 ∈ (span i (p.offsets i) ack.offset).map some := by
    rw [← ha.ahead]
    exact mem_map_of_mem hh
  have hle := ha.le
  simp only [span, map_map, mem_map, mem_range'_1, comp_apply] at hmem
  obtain ⟨k, hk, heq⟩ := hmem
  exact ⟨k, hk.1, by omega, heq.symm⟩

lemma AckOk.congr (hrefs : ∀ x ∈ p.refs, dir'.at x = dir.at x)
    (hown : ∀ x k, content dir x = some ⟨i, k⟩ → dir'.at x = dir.at x) : AckOk p dir' current i logs ack := by
  refine ha.of_dir (fun x hx => ?_) fun x hx b hb => by rw [← hrefs x hx, hb]
  obtain ⟨k, -, -, hk⟩ := ha.staged hx
  exact hown x k (content_staged hk)

end

lemma AckOk.publish (hf : Files p dir) (ha : AckOk p dir current i logs ack)
    (hch : Changes Publishes hs dir dir') (hsub : hs ⊆ p.refs) : AckOk p dir' current i logs ack := by
  refine ha.of_dir (fun x hx => hch.at_eq fun hmem => ?_) fun _ _ _ hb => staged_of_publish hch hb
  obtain ⟨k, hk, -, hstaged⟩ := ha.staged hx
  obtain ⟨b, hb, hlt⟩ := hf.refs x (hsub hmem)
  rw [content_staged hstaged] at hb
  cases hb
  exact absurd hlt (not_lt.mpr hk)

/-- No staged file of the executor is listed by the point. -/
def Cleared (p : Point X) (dir : Dir (Batch X)) (i : X) : Prop :=
  ∀ h ∈ p.refs, ∀ k, (dir.at h).1 ≠ some ⟨i, k⟩

lemma Cleared.of_dir (hc : Cleared p dir i)
    (h : ∀ x ∈ p.refs, ∀ b, (dir'.at x).1 = some b → (dir.at x).1 = some b) : Cleared p dir' i :=
  fun x hx k hk => hc x hx k (h x hx _ hk)

lemma Cleared.congr (hc : Cleared p dir i) (h : ∀ x ∈ p.refs, dir'.at x = dir.at x) : Cleared p dir' i :=
  hc.of_dir fun x hx b hb => by rw [← h x hx, hb]

lemma Cleared.publish (hc : Cleared p dir i) (hch : Changes Publishes hs dir dir') : Cleared p dir' i :=
  hc.of_dir fun _ _ _ hb => staged_of_publish hch hb

/-! ## What a log holds -/

lemma Files.refs_held (hf : Files p dir) (hh : h ∈ p.refs) : content dir h ≠ none := by
  obtain ⟨b, hb, -⟩ := hf.refs h hh
  rw [hb]
  nofun

/-- A file of the point that has a content can be published. -/
lemma Files.present (hf : Files p dir) (hh : h ∈ p.refs) : dir.at h ≠ (none, none) := by
  intro hnone
  refine hf.refs_held hh ?_
  rw [content, hnone]
  rfl

lemma Files.not_staged (hf : Files p dir) (hfinal : (dir.at h).2.isSome = true) : (dir.at h).1 = none := by
  refine (hf.excl h).resolve_right fun hnone => ?_
  rw [hnone] at hfinal
  cases hfinal

lemma Added.content_none (hadd : Added hs dir dir') (hh : h ∈ hs) : content dir h = none := by
  rw [content, (hadd.2 h hh).1]
  rfl

/-- A new file is none that had a content. -/
lemma Added.at_eq (hadd : Added hs dir dir') (hh : content dir h ≠ none) : dir'.at h = dir.at h :=
  hadd.1 h fun hmem => hh (Added.content_none hadd hmem)

lemma Files.add (hf : Files p dir) (hadd : Added hs dir dir') : Files p dir' :=
  hf.frame hadd.1 fun h hh => ⟨fun hrefs => hf.refs_held hrefs (Added.content_none hadd hh),
    by rw [(hadd.2 h hh).1], (hadd.2 h hh).2⟩

lemma LogOk.add (hf : Files p dir) (hl : LogOk p dir current pending i log next)
    (hadd : Added hs dir dir') : LogOk p dir' current pending i log next :=
  hl.congr (fun _ hx => Added.at_eq hadd (hf.refs_held hx)) fun _ _ hx => Added.at_eq hadd (by rw [hx]; nofun)

/-- The log after the open batches have been prepared under a new epoch. -/
lemma LogOk.preCommit {epoch : ℕ} (hf : Files p dir) (hl : LogOk p dir current false i log next)
    (hadd : Added hs dir dir') (hstaged : hs.map (fun x => (dir'.at x).1) = log.opened.map some)
    (hopen : log'.opened = [])
    (hprep : hs = [] ∧ log'.prepared = log.prepared ∨ log'.prepared = log.prepared ++ [(epoch, hs)])
    (hlt : p.epoch < epoch) (hle : epoch ≤ current) : LogOk p dir' current false i log' next := by
  have hl' := hl.add hf hadd
  have hdone : doneHandles log' p.epoch = doneHandles log p.epoch := by
    unfold doneHandles
    rcases hprep with ⟨-, h⟩ | h
    · rw [h]
    · rw [h, filter_append, filter_cons_of_neg (by simpa using hlt), filter_nil, append_nil]
  have hahead : aheadHandles log' p.epoch = aheadHandles log p.epoch ++ hs := by
    unfold aheadHandles
    rcases hprep with ⟨hnil, h⟩ | h
    · rw [h, hnil, append_nil]
    · rw [h, filter_append, filter_cons_of_pos (by simpa using hlt), filter_nil]
      simp [handles]
  refine ⟨fun h hh => ?_, fun h hh => ?_, fun _ e he => ?_, hl.le, fun _ => ?_, fun _ h hh k hk => ?_⟩
  · rw [hdone] at hh
    exact hl'.done h hh
  · rw [hahead] at hh
    rcases mem_append.mp hh with hh | hh
    · exact hl'.ahead h hh
    refine ⟨fun hrefs => hf.refs_held hrefs (Added.content_none hadd hh), ?_⟩
    -- an open batch is one of the span
    have hmem : (dir'.at h).1 ∈ log.opened.map some := by
      rw [← hstaged]
      exact mem_map_of_mem hh
    have hspan : (dir'.at h).1 ∈ (span i (p.offsets i) next).map some := by
      rw [← hl.order rfl]
      exact mem_append_right _ hmem
    simp only [span, map_map, mem_map, comp_apply] at hspan
    obtain ⟨k, -, hk⟩ := hspan
    exact ⟨k, hk.symm⟩
  · rcases hprep with ⟨-, h⟩ | h
    · rw [h] at he
      exact hl.bound rfl e he
    rw [h, mem_append, mem_singleton] at he
    rcases he with he | rfl
    · exact hl.bound rfl e he
    · exact hle
  · rw [hahead, hopen, map_append, hstaged, map_nil, append_nil]
    exact hl'.order rfl
  · rw [hdone]
    exact hl'.settled rfl h hh k hk

/-- The log after a completion or the first half of a restore. -/
lemma LogOk.commitThrough (hl : LogOk p dir current pending i log next) (hf : Files p dir')
    (hch : Changes Publishes (doneHandles log p.epoch) dir dir') (hopen : log'.opened = log.opened)
    (hahead : log'.prepared.filter (p.epoch < ·.1) = log.prepared.filter (p.epoch < ·.1))
    (hsub : ∀ e ∈ log'.prepared, ∃ e' ∈ log.prepared, e.1 = e'.1 ∧ e.2 ⊆ e'.2)
    (hleft : ∀ x ∈ doneHandles log p.epoch, x ∈ log'.prepared.handles ∨ (dir'.at x).2.isSome = true) :
    LogOk p dir' current pending i log' next := by
  have hl' := hl.publish hch fun x hx => (hl.done x hx).1
  have haheads : aheadHandles log' p.epoch = aheadHandles log p.epoch := by
    rw [aheadHandles, hahead, aheadHandles]
  refine ⟨fun h hh => hl'.done h ?_, ?_, fun hp e he => ?_, hl.le, ?_, fun hp h hh k hk => ?_⟩
  · obtain ⟨e, he, hmem⟩ := mem_handles.mp hh
    obtain ⟨he, hle⟩ := mem_filter.mp he
    obtain ⟨e', he', hepoch, hsub⟩ := hsub e he
    exact mem_handles.mpr ⟨e', mem_filter.mpr ⟨he', hepoch ▸ hle⟩, hsub hmem⟩
  · rw [haheads]
    exact hl'.ahead
  · obtain ⟨e', he', hepoch, -⟩ := hsub e he
    exact hepoch ▸ hl.bound hp e' he'
  · rw [haheads, hopen]
    exact hl'.order
  · have hmem := hl'.settled hp h hh k hk
    rcases hleft h hmem with hin | hfinal
    · refine (mem_done_or_ahead p.epoch hin).resolve_right fun hin => ?_
      rw [haheads] at hin
      exact (hl'.ahead h hin).1 hh
    · -- a file that is still staged is not final
      rw [hf.not_staged hfinal] at hk
      cases hk

lemma span_succ {first last : ℕ} (hle : first ≤ last) :
    span i first (last + 1) = span i first last ++ [⟨i, last⟩] := by
  rw [span, show last + 1 - first = last - first + 1 by omega, range'_concat, map_append, span]
  simp [hle]

lemma LogOk.stage (hl : LogOk p dir current pending i log next) :
    LogOk p dir current pending i (log.stage ⟨i, next⟩) (next + 1) := by
  refine ⟨hl.done, hl.ahead, hl.bound, fun hp => Nat.le_succ_of_le (hl.le hp), fun hp => ?_, hl.settled⟩
  rw [span_succ (hl.le hp), map_append, ← hl.order hp, append_assoc]
  simp [EpochTransactionLog.stage, aheadHandles]

/-- A log that holds nothing, at the point. -/
lemma LogOk.fresh (hopen : log.opened = []) (hprep : log.prepared = [])
    (hnone : Cleared p dir i) : LogOk p dir current pending i log (p.offsets i) := by
  refine ⟨?_, ?_, fun _ e he => ?_, fun _ => le_rfl, fun _ => ?_, fun _ h hh k hk =>
    absurd hk (hnone h hh k)⟩
  · simp [doneHandles, hprep, handles]
  · simp [aheadHandles, hprep, handles]
  · rw [hprep] at he
    cases he
  · simp [aheadHandles, hprep, hopen, handles, span]

lemma LogOk.new_waiting (hp : pending = true) : LogOk p dir current pending i .new next := by
  subst hp
  refine ⟨?_, ?_, nofun, nofun, nofun, nofun⟩
  · simp [doneHandles, new, handles]
  · simp [aheadHandles, new, handles]

structure ExecutorOk (p : Point X) (dir : Dir (Batch X)) (current : ℕ) (pending : Bool) (i : X)
    (x : Executor X) : Prop where
  log : ∀ log, x.log = some log → LogOk p dir current pending i log x.next
  bare : x.log = none → x.next = 0

lemma ExecutorOk.mono {current' : ℕ} {pending' : Bool} {x : Executor X} (hx : ExecutorOk p dir current pending i x)
    (h : pending' = false → pending = false ∧ current ≤ current') : ExecutorOk p dir current' pending' i x := by
  refine ⟨fun log hlog => ?_, hx.bare⟩
  have hl := hx.log log hlog
  exact ⟨hl.done, hl.ahead, fun hp e he => (hl.bound (h hp).1 e he).trans (h hp).2,
    fun hp => hl.le (h hp).1, fun hp => hl.order (h hp).1, fun hp => hl.settled (h hp).1⟩

/-! ## Acknowledgements -/

lemma ackPaths_ackRefs (offset : ℕ) : ackPaths ⟨offset, World.ackRefs log⟩ = log.prepared.handles := by
  simp only [ackPaths, World.ackRefs, preparedRefs, handles, map_map, map_flatten]
  congr 1
  refine map_congr_left fun e _ => ?_
  simp [comp_def]

lemma aheadRefs_ackRefs (offset epoch : ℕ) :
    aheadRefs ⟨offset, World.ackRefs log⟩ epoch = aheadHandles log epoch := by
  simp only [aheadRefs, World.ackRefs, preparedRefs, aheadHandles]
  induction log.prepared with
  | nil => rfl
  | cons e rest ih =>
    rw [map_cons, flatten_cons, map_append, filter_append, map_append, ih]
    by_cases hlt : epoch < e.1
    · rw [filter_cons_of_pos (by simpa using hlt)]
      simp [handles, filter_map, comp_def, hlt]
    · rw [filter_cons_of_neg (by simpa using hlt)]
      simp [filter_map, hlt]

/-- The acknowledgement of a log without open batches. -/
lemma LogOk.ackOk (hl : LogOk p dir current false i log next) (hopen : log.opened = []) :
    AckOk p dir current i (some log) ⟨next, World.ackRefs log⟩ := by
  have horder := hl.order rfl
  rw [hopen, map_nil, append_nil] at horder
  have hentry : ∀ r ∈ World.ackRefs log, ∃ e ∈ log.prepared, e.1 = r.epoch ∧ r.preparePath ∈ e.2 := by
    intro r hr
    obtain ⟨ref, href, rfl⟩ := mem_map.mp hr
    exact mem_preparedRefs.mp href
  refine ⟨hl.le rfl, ?_, fun r hr hle => ?_, fun r hr => ?_, ?_, fun h hh k hk => ?_⟩
  · rw [aheadRefs_ackRefs]
    exact horder
  · obtain ⟨e, he, hepoch, hmem⟩ := hentry r hr
    refine (hl.done _ (mem_handles.mpr ⟨e, mem_filter.mpr ⟨he, ?_⟩, hmem⟩)).1
    exact decide_eq_true (hepoch ▸ hle)
  · obtain ⟨e, he, hepoch, -⟩ := hentry r hr
    exact hepoch ▸ hl.bound rfl e he
  · rintro l ⟨⟩
    rw [aheadRefs_ackRefs, ackPaths_ackRefs]
    exact ⟨rfl, Subset.refl _⟩
  · rw [ackPaths_ackRefs]
    exact mem_handles_filter (hl.settled rfl h hh k hk)

lemma mem_ackPaths (hh : h ∈ ackPaths ack) (ha : AckOk p dir current i logs ack) :
    h ∈ p.refs ∨ h ∈ aheadRefs ack p.epoch := by
  obtain ⟨r, hr, rfl⟩ := mem_map.mp hh
  rcases Nat.lt_or_ge p.epoch r.epoch with hlt | hge
  · exact .inr (mem_map_of_mem (mem_filter.mpr ⟨hr, decide_eq_true hlt⟩))
  · exact .inl (ha.done r hr hge)

lemma AckOk.add (hf : Files p dir) (ha : AckOk p dir current i logs ack)
    (hadd : Added hs dir dir') : AckOk p dir' current i logs ack :=
  ha.congr (fun _ hx => Added.at_eq hadd (hf.refs_held hx)) fun _ _ hx => Added.at_eq hadd (by rw [hx]; nofun)

/-- The process is gone, and its log. -/
lemma AckOk.crash (ha : AckOk p dir current i logs ack) : AckOk p dir current i none ack :=
  ⟨ha.le, ha.ahead, ha.done, ha.bound, nofun, ha.settled⟩

/-! ## A new point -/

lemma span_append (i : X) {first mid last : ℕ} (h : first ≤ mid) (h' : mid ≤ last) :
    span i first mid ++ span i mid last = span i first last := by
  unfold span
  rw [← map_append, show last - first = (mid - first) + (last - mid) by omega, ← range'_append_1]
  congr 3
  omega

lemma length_span (i : X) (first last : ℕ) : (span i first last).length = last - first := by
  simp [span]

section Seal

variable {p' : Point X} {acks : X → CheckpointAck} {logs : X → Option (EpochTransactionLog (Batch X))}
  (hacks : ∀ i, AckOk p dir current i (logs i) (acks i)) (hoff : ∀ i, p'.offsets i = (acks i).offset)
  (hrefs : ∀ h, h ∈ p'.refs ↔ ∃ i, h ∈ ackPaths (acks i))

include hacks hrefs

/-- What the new point lists is listed already, or staged beyond the old one. -/
lemma mem_refs_seal (hh : h ∈ p'.refs) : h ∈ p.refs ∨ ∃ i, h ∈ aheadRefs (acks i) p.epoch := by
  obtain ⟨i, hi⟩ := (hrefs h).mp hh
  exact (mem_ackPaths hi (hacks i)).imp_right fun hahead => ⟨i, hahead⟩

/-- A batch before the old point keeps its file. -/
lemma Files.cover_old (hf : Files p dir) {k : ℕ} (hold : k < p.offsets i) : ∃! h, Carries p' dir h ⟨i, k⟩ := by
  obtain ⟨h, ⟨hcontent, hout⟩, huniq⟩ := hf.cover ⟨i, k⟩ hold
  refine ⟨h, ⟨hcontent, ?_⟩, ?_⟩
  · rcases hf.excl h with hstaged | hfinal
    · left
      rw [content, hstaged, Option.none_or] at hcontent
      rw [hcontent]
      rfl
    · right
      rw [content, hfinal, Option.or_none] at hcontent
      have hin : h ∈ p.refs := hout.resolve_left (by rw [hfinal]; nofun)
      exact (hrefs h).mpr ⟨i, (hacks i).settled h hin k hcontent⟩
  · rintro y ⟨hy, hyout⟩
    refine huniq y ⟨hy, hyout.imp_right fun hin => (mem_refs_seal hacks hrefs hin).resolve_right ?_⟩
    rintro ⟨j, hj⟩
    obtain ⟨k', hk', -, hstaged⟩ := (hacks j).staged hj
    rw [content_staged hstaged] at hy
    cases hy
    exact absurd hold (not_lt.mpr hk')

/-- A batch beyond it is in the acknowledgement of its executor, once. -/
lemma Files.cover_new (hf : Files p dir) {k : ℕ} (hnew : p.offsets i ≤ k)
    (hlt : k < (acks i).offset) : ∃! h, Carries p' dir h ⟨i, k⟩ := by
  have hnodup : ((aheadRefs (acks i) p.epoch).map fun h => (dir.at h).1).Nodup := by
    rw [(hacks i).ahead, span, map_map]
    refine (nodup_range' 1).map fun a b hab => ?_
    cases hab
    rfl
  have hmem : some (⟨i, k⟩ : Batch X) ∈ (aheadRefs (acks i) p.epoch).map fun h => (dir.at h).1 := by
    rw [(hacks i).ahead, span, map_map]
    exact mem_map.mpr ⟨k, mem_range'_1.mpr (by omega), rfl⟩
  obtain ⟨h, hh, hstaged⟩ := mem_map.mp hmem
  have hpath : h ∈ p'.refs := by
    obtain ⟨r, hr, rfl⟩ := mem_map.mp hh
    exact (hrefs _).mpr ⟨i, mem_map_of_mem (mem_filter.mp hr).1⟩
  refine ⟨h, ⟨content_staged hstaged, .inr hpath⟩, ?_⟩
  rintro y ⟨hy, hyout⟩
  rcases hyout.imp_right (mem_refs_seal hacks hrefs) with hfinal | hin | ⟨j, hj⟩
  · obtain ⟨b, hb⟩ := Option.isSome_iff_exists.mp hfinal
    have hnone := (hf.excl y).resolve_right (by rw [hb]; nofun)
    rw [content, hnone, Option.none_or] at hy
    exact absurd (hf.visible y _ hy) (not_lt.mpr hnew)
  · obtain ⟨b, hb, hlt⟩ := hf.refs y hin
    rw [hy] at hb
    cases hb
    exact absurd hlt (not_lt.mpr hnew)
  · obtain ⟨k', -, -, hstaged'⟩ := (hacks j).staged hj
    rw [content_staged hstaged'] at hy
    cases hy
    exact inj_on_of_nodup_map hnodup hj hh (hstaged'.trans hstaged.symm)

include hoff in
/-- An epoch for which all executors have acknowledged becomes the point. -/
lemma Files.seal (hf : Files p dir) : Files p' dir := by
  have hgrow : ∀ i, p.offsets i ≤ p'.offsets i := fun i => hoff i ▸ (hacks i).le
  refine ⟨hf.excl, fun h b hb => (hf.visible h b hb).trans_le (hgrow _), fun h hh => ?_, ?_⟩
  · rcases mem_refs_seal hacks hrefs hh with hin | ⟨i, hin⟩
    · obtain ⟨b, hb, hlt⟩ := hf.refs h hin
      exact ⟨b, hb, hlt.trans_le (hgrow _)⟩
    · obtain ⟨k, -, hlt, hk⟩ := (hacks i).staged hin
      exact ⟨⟨i, k⟩, content_staged hk, by rw [hoff]; exact hlt⟩
  · rintro ⟨i, k⟩ hlt
    rcases Nat.lt_or_ge k (p.offsets i) with hold | hnew
    · exact hf.cover_old hacks hrefs hold
    · exact hf.cover_new hacks hrefs hnew (hoff i ▸ hlt)

include hoff in
lemma LogOk.seal (hl : LogOk p dir current false i log next) (hlog : logs i = some log)
    (hepoch : p'.epoch = current) : LogOk p' dir current false i log next := by
  obtain ⟨hsame, hpaths⟩ := (hacks i).log log hlog
  have hall : log.prepared.filter (fun e => decide (e.1 ≤ current)) = log.prepared :=
    filter_eq_self.mpr fun e he => decide_eq_true (hl.bound rfl e he)
  have hnone : log.prepared.filter (fun e => decide (current < e.1)) = [] :=
    filter_eq_nil_iff.mpr fun e he => by
      have := hl.bound rfl e he
      simpa using this
  have hdone : doneHandles log p'.epoch = log.prepared.handles := by
    rw [doneHandles, hepoch, hall]
  have hahead : aheadHandles log p'.epoch = [] := by
    rw [aheadHandles, hepoch, hnone]
    rfl
  -- the batches still open are those after the acknowledgement
  have horder := hl.order rfl
  rw [hsame, (hacks i).ahead, ← map_append] at horder
  have horder := map_injective_iff.mpr (Option.some_injective _) horder
  have hle : (acks i).offset ≤ next := by
    have hlen := congrArg List.length horder
    rw [length_append, length_span, length_span] at hlen
    have h₁ := (hacks i).le
    have h₂ := hl.le rfl
    omega
  refine ⟨fun h hh => ?_, ?_, hl.bound, fun _ => by rw [hoff]; exact hle, fun _ => ?_, ?_⟩
  · rw [hdone] at hh
    exact ⟨(hrefs h).mpr ⟨i, hpaths hh⟩, hl.owned hh⟩
  · rw [hahead]
    nofun
  · rw [← span_append i (hacks i).le hle] at horder
    rw [hahead, hoff, map_nil, nil_append, append_cancel_left horder]
  intro _ h hh k hk
  rw [hdone]
  obtain ⟨j, hj⟩ := (hrefs h).mp hh
  rcases mem_ackPaths hj (hacks j) with hin | hin
  · exact mem_handles_filter (hl.settled rfl h hin k hk)
  obtain ⟨k', -, -, hk'⟩ := (hacks j).staged hin
  rw [hk] at hk'
  cases hk'
  rw [← hsame] at hin
  exact mem_handles_filter hin

end Seal

/-! ## What others rest on -/

/-- What the other executors rest on is kept. -/
structure Keeps (p : Point X) (i : X) (dir dir' : Dir (Batch X)) : Prop where
  files : Files p dir'
  log : ∀ j ≠ i, ∀ current pending log next, LogOk p dir current pending j log next →
    LogOk p dir' current pending j log next
  ack : ∀ j ≠ i, ∀ current logs ack, AckOk p dir current j logs ack → AckOk p dir' current j logs ack
  cleared : ∀ j, Cleared p dir j → Cleared p dir' j

lemma Keeps.trans {dir'' : Dir (Batch X)} (h : Keeps p i dir dir') (h' : Keeps p i dir' dir'') :
    Keeps p i dir dir'' :=
  ⟨h'.files, fun j hj _ _ _ _ hl => h'.log j hj _ _ _ _ (h.log j hj _ _ _ _ hl),
    fun j hj _ _ _ ha => h'.ack j hj _ _ _ (h.ack j hj _ _ _ ha),
    fun j hc => h'.cleared j (h.cleared j hc)⟩

lemma Keeps.publish (hf : Files p dir) (hch : Changes Publishes hs dir dir') (hsub : hs ⊆ p.refs) :
    Keeps p i dir dir' :=
  ⟨hf.publish hch hsub, fun _ _ _ _ _ _ hl => hl.publish hch hsub,
    fun _ _ _ _ _ ha => ha.publish hf hch hsub, fun _ hc => hc.publish hch⟩

lemma Keeps.drop (hf : Files p dir) (hl : LogOk p dir current pending i log next)
    (hch : Changes Drops (aheadHandles log p.epoch) dir dir') : Keeps p i dir dir' := by
  have hrefs : ∀ x ∈ p.refs, dir'.at x = dir.at x := fun x hx =>
    hch.at_eq fun hmem => (hl.ahead x hmem).1 hx
  -- a file that goes belongs to the executor
  have howned : ∀ j ≠ i, ∀ x k, content dir x = some ⟨j, k⟩ → dir'.at x = dir.at x := by
    intro j hj x k hx
    refine hch.at_eq fun hmem => hj ?_
    obtain ⟨-, k', hk'⟩ := hl.ahead x hmem
    rw [content_staged hk'] at hx
    cases hx
    rfl
  refine ⟨hf.frame (fun x hx => hch.at_eq hx) fun x hx => ?_, fun j hj _ _ _ _ hl' => hl'.congr hrefs (howned j hj),
    fun j hj _ _ _ ha => ha.congr hrefs (howned j hj), fun j hc => hc.congr hrefs⟩
  obtain ⟨hout, k, hk⟩ := hl.ahead x hx
  have hfinal := (hf.excl x).resolve_left (by rw [hk]; nofun)
  refine ⟨hout, hfinal, ?_⟩
  rcases hch x with hsame | ⟨-, hdrop⟩
  · rw [hsame, hfinal]
  · rw [hdrop, hfinal]

/-- After a restore nothing of the executor is left staged that the point lists. -/
lemma restore_cleared {dir₁ dir₂ dir₃ : Dir (Batch X)} {paths : List ParquetCommitHandle}
    (hl : LogOk p dir current pending i log next) (hf₁ : Files p dir₁) (hf₃ : Files p dir₃)
    (hpub : Changes Publishes (doneHandles log p.epoch) dir dir₁)
    (hdone : ∀ x ∈ doneHandles log p.epoch, x ∈ aheadHandles log p.epoch ∨ (dir₁.at x).2.isSome = true)
    (hdrop : Changes Drops (aheadHandles log p.epoch) dir₁ dir₂)
    (hpub' : Changes Publishes paths dir₂ dir₃) (hfinal : ∀ x ∈ paths, (dir₃.at x).2.isSome = true)
    (hlisted : ∀ h ∈ p.refs, ∀ k, (dir.at h).1 = some ⟨i, k⟩ → h ∈ log.prepared.handles ∨ h ∈ paths) :
    Cleared p dir₃ i := by
  intro h hh k hk
  have hahead : h ∉ aheadHandles log p.epoch := fun hmem => (hl.ahead h hmem).1 hh
  -- what is staged at the end has been so all along
  have hk₁ : (dir₁.at h).1 = some ⟨i, k⟩ := by rw [← hdrop.at_eq hahead, staged_of_publish hpub' hk]
  rcases hlisted h hh k (staged_of_publish hpub hk₁) with hlog | hpath
  · have hin := (mem_done_or_ahead p.epoch hlog).resolve_right hahead
    rw [hf₁.not_staged ((hdone h hin).resolve_left hahead)] at hk₁
    cases hk₁
  · rw [hf₃.not_staged (hfinal h hpath)] at hk
    cases hk

/-- Where no executor has a staged file that the point lists, the final files are the batches before
the point, each once. -/
lemma Files.exact (hf : Files p dir) (hclear : ∀ i, Cleared p dir i)
    (hb : b.position < p.offsets b.executor) : ∃! h, dir.final.lookup h = some b := by
  obtain ⟨h, ⟨hcontent, hout⟩, huniq⟩ := hf.cover b hb
  have hstaged : (dir.at h).1 = none := by
    rcases hout with hfinal | hrefs
    · exact hf.not_staged hfinal
    · by_contra hsome
      obtain ⟨c, hc⟩ := Option.ne_none_iff_exists'.mp hsome
      exact hclear c.executor h hrefs c.position hc
  refine ⟨h, ?_, fun y hy => huniq y ⟨?_, .inl ?_⟩⟩
  · rw [content, hstaged, Option.none_or] at hcontent
    exact hcontent
  · have hfinal : (dir.at y).2 = some b := hy
    rw [content, hf.not_staged (by rw [hfinal]; rfl), Option.none_or, hfinal]
  · have hfinal : (dir.at y).2 = some b := hy
    rw [hfinal]
    rfl

lemma Files.final_of_refs (hf : Files p dir) (hclear : ∀ i, Cleared p dir i) (hh : h ∈ p.refs) :
    (dir.final.lookup h).isSome = true := by
  obtain ⟨b, hb, hlt⟩ := hf.refs h hh
  rcases hf.excl h with hstaged | hfinal
  · rw [content, hstaged, Option.none_or] at hb
    exact Option.isSome_iff_exists.mpr ⟨b, hb⟩
  · rw [content, hfinal, Option.or_none] at hb
    exact absurd hb (hclear b.executor h hh b.position)

end Krishiv.Scheduler.Sink
