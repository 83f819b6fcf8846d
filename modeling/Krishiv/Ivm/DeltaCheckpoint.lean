import Krishiv.Ivm.Checkpoint
import Krishiv.Ivm.Scan

/-!
# Restoring a base and its slices

A flow with delta checkpoints enabled is fed and stepped, and cut at points where nothing is
pending. The accumulator of a source should hold what was fed since the last cut: a part that is in
the sources by now (`done`), then the pending queue. `feed` and ticks keep this. `feed_coalesced`
replaces the whole accumulator by the new delta, so it keeps it only while nothing of the source has
been committed since the cut.

`CutRun.Tracked` is the invariant; it also says what restoring the slices written so far gives.
-/

namespace Krishiv.Ivm

open Krishiv.Delta List DeltaBatch

variable {P : Type}

/-! ## Runs with cuts -/

inductive CutEvent where
  | feed (source : String) (d : DeltaBatch)
  | feedCoalesced (source : String) (d : DeltaBatch)
  | step (c : TickCtx)
  | cut

/-- The live flow, the states at the cuts (the base first), and the slices written. -/
structure CutRun (P : Type) where
  live : Inner P
  last : Inner P
  cuts : List (Inner P)
  slices : List SourceBlob

namespace CutRun

def start (s : Inner P) : CutRun P := ⟨s, s, [s], []⟩

def step [PlanLogic P] (env : Env P) (r : CutRun P) : CutEvent → CutRun P
  | .feed source d => { r with live := (Ivm.feed env r.live source d).1 }
  | .feedCoalesced source d => { r with live := (Ivm.feedCoalesced env r.live source d).1 }
  | .step c => { r with live := (stepDatafusion env r.live c).1 }
  | .cut =>
    match checkpointDelta r.live with
    | (s, .ok slice) => ⟨s, s, r.cuts ++ [s], r.slices ++ [slice]⟩
    | (s, .error _) => { r with live := s }

/-- A cut is taken when nothing is pending. Beyond that: what was accepted for a source since the last cut
has its columns and rows, a coalesced feed finds nothing of its source committed since the last cut, and a
tick finds rows with keys of their own and does not fail after it has replaced the sources. -/
def Fine (T : String → Schema) (K : String → Set Row) (r : CutRun P) : CutEvent → Prop
  | .feed _ _ => True
  | .feedCoalesced source _ => queueOf r.live.checkpointDeltas source = queueOf r.live.pending source
  | .step _ => KeysApart r.live.sourceSnapshots r.live.pending ∧ CommitCannotFail r.live r.live.pending
  | .cut => ∀ src, queueOf r.live.pending src = [] ∧ ∀ d ∈ queueOf r.live.checkpointDeltas src, d.Of (T src) (K src)

inductive FineCuts [PlanLogic P] (T : String → Schema) (K : String → Set Row) (env : Env P) (s : Inner P) :
    CutRun P → Prop
  | start : FineCuts T K env s (start s)
  | step {r : CutRun P} {e : CutEvent} : FineCuts T K env s r → r.Fine T K e → FineCuts T K env s (r.step env e)

end CutRun

/-! ## The accumulator -/

/-- What the accumulator of one source holds: deltas that are in the sources since the last cut, then
the pending ones. -/
structure Accumulates (src : String) (last s : Inner P) : Prop where
  parts : ∃ done, queueOf s.checkpointDeltas src = done ++ queueOf s.pending src ∧
    ∀ r, sourceNet s.sourceSnapshots src r = sourceNet last.sourceSnapshots src r + queueNet done r
  entry : ∀ ds, s.checkpointDeltas.lookup src = some ds → ds ≠ []

variable {T : String → Schema} {K : String → Set Row} {src : String} {last s s' : Inner P}

lemma Accumulates.congr (h : Accumulates src last s)
    (hsrc : s'.sourceSnapshots = s.sourceSnapshots) (hp : s'.pending = s.pending)
    (ha : s'.checkpointDeltas = s.checkpointDeltas) : Accumulates src last s' := by
  obtain ⟨done, hq, hnet⟩ := h.parts
  exact ⟨⟨done, by rw [ha, hp]; exact hq, by rw [hsrc]; exact hnet⟩, by rw [ha]; exact h.entry⟩

variable {d : DeltaBatch} {source : String}

/-- Queues that move together: an accepted delta joins what is kept of both. -/
lemma Accumulates.queued {keep : List DeltaBatch → List DeltaBatch}
    (h : Accumulates src last s) (hen : s.deltaCheckpointEnabled = true)
    (hkeep : ∀ done, queueOf s.checkpointDeltas source = done ++ queueOf s.pending source →
      keep (queueOf s.checkpointDeltas source) = done ++ keep (queueOf s.pending source))
    (hq : Queued keep source d s s') : Accumulates src last s' := by
  obtain ⟨done, hparts, hnet⟩ := h.parts
  rcases hq.moved with ⟨hp, ha⟩ | ⟨-, kept, -, -, hp, ha⟩
  · exact h.congr hq.sources hp ha
  rw [if_pos hen] at ha
  by_cases hs : src = source
  · subst hs
    have hq1 : s'.checkpointDeltas.lookup src = some _ := ha ▸ AList.lookup_insert _
    have hq2 : s'.pending.lookup src = some _ := hp ▸ AList.lookup_insert _
    refine ⟨⟨done, ?_, by rw [hq.sources]; exact hnet⟩, ?_⟩
    · rw [queueOf, queueOf, hq1, hq2, Option.getD_some, Option.getD_some, hkeep done hparts, append_assoc]
    · intro ds hds
      rw [hq1] at hds
      cases hds
      simp
  · have hq1 : s'.checkpointDeltas.lookup src = s.checkpointDeltas.lookup src := ha ▸ AList.lookup_insert_ne hs
    have hq2 : s'.pending.lookup src = s.pending.lookup src := hp ▸ AList.lookup_insert_ne hs
    refine ⟨⟨done, ?_, by rw [hq.sources]; exact hnet⟩, by rw [hq1]; exact h.entry⟩
    rwa [queueOf, queueOf, hq1, hq2]

/-- Batches of a source become a batch of it. -/
lemma concatQueue_typed {ds : List DeltaBatch} {t : Schema} {k : Set Row} (hne : ds ≠ [])
    (h : ∀ d ∈ ds, d.Of t k) : ∃ b, concatQueue ds = .ok b ∧ b.Of t k ∧ ∀ r, b.net r = queueNet ds r := by
  obtain ⟨b, hb⟩ : ∃ b, concatQueue ds = .ok b := by
    obtain ⟨b, hb, -⟩ := concat_of_parts hne h
    unfold concatQueue
    split
    · exact ⟨_, rfl⟩
    · exact ⟨b, by rw [hb]; rfl⟩
  obtain ⟨⟨d, hd, hschema⟩, hrows, hnet⟩ := concatQueue_spec hb
  refine ⟨b, hb, ⟨hschema ▸ (h d hd).schema_eq, fun p hp => ?_⟩, hnet⟩
  obtain ⟨x, hx, hmem⟩ := hrows p hp
  obtain ⟨q, hq, heq⟩ := mem_map.mp hmem
  exact heq ▸ (h x hx).rows_mem q hq

/-- A tick moves the pending part of the accumulator into the committed part, or moves nothing. -/
lemma Accumulates.tick [PlanLogic P] {last : Inner P} (env : Env P) (c : TickCtx)
    (h : Accumulates src last s) (hapart : KeysApart s.sourceSnapshots s.pending)
    (hfine : CommitCannotFail s s.pending) : Accumulates src last (stepDatafusion env s c).1 := by
  obtain ⟨done, hq, hnet⟩ := h.parts
  obtain ⟨⟨hacc, -, -⟩, hend⟩ := stepDatafusion_input env s c hapart hfine
  refine ⟨?_, by rw [hacc]; exact h.entry⟩
  rcases hend with ⟨-, hempty, hsources⟩ | ⟨-, hsame, hsources⟩
  · refine ⟨done ++ queueOf s.pending src, ?_, fun r => ?_⟩
    · rw [hacc, hempty src, hq, append_nil]
    · rw [hsources src r, hnet r, queueNet_append, add_assoc]
  · exact ⟨done, by rw [hacc, hsame src]; exact hq, by rw [hsources]; exact hnet⟩

/-! ## Restoring what was written -/

variable {slices : List SourceBlob} {slice : SourceBlob} {f : Inner P}

lemma restoreDeltas_snoc (h : restoreDeltas s slices = (f, .ok ())) :
    restoreDeltas s (slices ++ [slice]) = restoreDelta f slice := by
  induction slices generalizing s with
  | nil =>
    cases h
    show restoreDeltas f [slice] = _
    unfold restoreDeltas
    split
    · next s' e hs => rw [hs]
    · next s' hs => rw [hs]; rfl
  | cons x slices ih =>
    rw [cons_append]
    unfold restoreDeltas at h ⊢
    split at h
    · cases h
    · exact ih h

lemma restoreAll_snoc {base : SourceBlob} (h : restoreAll s base slices = (f, .ok ())) :
    restoreAll s base (slices ++ [slice]) = restoreDelta f slice := by
  unfold restoreAll at h ⊢
  split at h
  · cases h
  · exact restoreDeltas_snoc h

/-- Every source has its columns and rows. -/
def SourcesTyped (T : String → Schema) (K : String → Set Row) (s : Inner P) : Prop :=
  ∀ src source, s.sourceSnapshots.lookup src = some source → source.Typed (T src) (K src)

/-- Restoring a checkpoint of typed sources gives the same Z-sets back. -/
lemma restore_checkpoint (hK : ∀ src, TellApart (T src) (K src)) (h : SourcesTyped T K s) (fresh : Inner P) :
    ∃ base f, checkpoint s = .ok base ∧ restore fresh base = (f, .ok ()) ∧ SourcesTyped T K f ∧
      ∀ src r, sourceNet f.sourceSnapshots src r = sourceNet s.sourceSnapshots src r := by
  -- what is written can be read
  obtain ⟨base, hbase, hwritten⟩ : ∃ base, checkpoint s = .ok base ∧ ∀ src, Option.Rel (fun source z =>
      ∃ restored, Source.fromZset z = .ok restored ∧ restored.Typed (T src) (K src) ∧
        ∀ r, restored.net r = source.net r) (s.sourceSnapshots.lookup src) (base.lookup src) := by
    refine KVMap.mapM_rel fun src source hs => ?_
    obtain ⟨z, hz, hof, hnet⟩ := (h src source hs).zset
    obtain ⟨restored, hr, htyped, hrnet⟩ := Source.fromZset_typed (hK src) hof
    exact ⟨z, by rw [hz]; rfl, restored, hr, htyped, fun r => (hrnet r).trans (hnet r)⟩
  obtain ⟨sources, hdec, hread⟩ : ∃ sources, decodeSources base = .ok sources ∧
      ∀ src, Option.Rel (fun _ restored => restored.Typed (T src) (K src) ∧
        ∀ r, restored.net r = sourceNet s.sourceSnapshots src r) (base.lookup src) (sources.lookup src) := by
    refine KVMap.mapM_rel fun src z hz => ?_
    have hsource := hwritten src
    unfold sourceNet
    rw [hz] at hsource
    generalize s.sourceSnapshots.lookup src = source at hsource
    cases hsource with
    | some hread =>
      obtain ⟨restored, hr, htyped, hnet⟩ := hread
      exact ⟨restored, by rw [hr]; rfl, htyped, hnet⟩
  refine ⟨base, replaceSources fresh sources, hbase, by rw [restore, hdec], fun src source hs => ?_,
    fun src r => ?_⟩
  · have hsource := hread src
    rw [show sources.lookup src = some source from hs] at hsource
    generalize base.lookup src = z at hsource
    cases hsource with
    | some hsource => exact hsource.1
  show sourceNet sources src r = _
  have hsource := hwritten src
  have hrestored := hread src
  unfold sourceNet at hrestored ⊢
  generalize s.sourceSnapshots.lookup src = source at hsource hrestored ⊢
  generalize base.lookup src = z at hsource hrestored
  generalize sources.lookup src = restored at hrestored ⊢
  cases hsource with
  | none =>
    cases hrestored
    rfl
  | some _ =>
    cases hrestored with
    | some hnet => exact hnet.2 r

/-- A slice over typed sources: one copy of what is present after it, one owed copy of what is
owed, and the sources without an entry as they were. -/
lemma restoreDelta_typed (hK : ∀ src, TellApart (T src) (K src)) (h : SourcesTyped T K f)
    (hslice : ∀ src d, slice.lookup src = some d → d.Of (T src) (K src)) :
    ∃ f', restoreDelta f slice = (f', .ok ()) ∧ SourcesTyped T K f' ∧
      ∀ src r, sourceNet f'.sourceSnapshots src r = match slice.lookup src with
        | none => sourceNet f.sourceSnapshots src r
        | some d => (sourceNet f.sourceSnapshots src r + d.net r).sign := by
  have hone : ∀ src d, slice.lookup src = some d → ∃ source n,
      restoreEntry (f.sourceSnapshots.lookup src) d = .ok (source, n) ∧ source.Typed (T src) (K src) ∧
        ∀ r, source.net r = (sourceNet f.sourceSnapshots src r + d.net r).sign := fun src d hd =>
    restoreEntry_typed (hK src) (fun s hs => h src s hs) (hslice src d hd)
  obtain ⟨m, hm⟩ : ∃ m, KVMap.updateM (fun _ d cur => (restoreEntry cur d).map fun p => some p.1)
      slice f.sourceSnapshots = .ok m := by
    refine KVMap.updateM_total fun src d hd => ?_
    obtain ⟨source, n, hentry, -⟩ := hone src d hd
    exact ⟨some source, by rw [hentry]; rfl⟩
  obtain ⟨s', hs', hsources⟩ := restoreEntries_ok hm
  have hlookup : ∀ src, m.lookup src = match slice.lookup src with
      | none => f.sourceSnapshots.lookup src
      | some d => (restoreEntry (f.sourceSnapshots.lookup src) d).toOption.map Prod.fst := by
    intro src
    have hat := KVMap.updateM_spec hm src
    cases hd : slice.lookup src with
    | none =>
      rw [hd] at hat
      exact hat
    | some d =>
      rw [hd] at hat
      obtain ⟨o, ho, hnew⟩ := hat
      dsimp only at ho
      obtain ⟨source, n, hentry, -⟩ := hone src d hd
      rw [hentry] at ho
      cases ho
      rw [hnew]
      dsimp only
      rw [hentry]
      rfl
  refine ⟨replaceSources s' s'.sourceSnapshots, ?_, ?_, ?_⟩
  · unfold restoreDelta restoreDeltaEntries
    rw [hs']
  · intro src source hs
    have hs : m.lookup src = some source := by
      rw [← hsources]
      exact hs
    rw [hlookup src] at hs
    split at hs
    · exact h src source hs
    next d hd =>
    obtain ⟨source', n, hentry, htyped, -⟩ := hone src d hd
    rw [hentry] at hs
    cases hs
    exact htyped
  · intro src r
    show sourceNet s'.sourceSnapshots src r = _
    rw [hsources, sourceNet, hlookup src]
    split
    · rfl
    next d hd =>
    obtain ⟨source', n, hentry, -, hnet⟩ := hone src d hd
    rw [hentry]
    exact hnet r

/-! ## The run invariant -/

/-- No row of the source has another net weight than `0` or `1`. -/
def SetLike (s : Inner P) (src : String) : Prop :=
  ∀ r, sourceNet s.sourceSnapshots src r = 0 ∨ sourceNet s.sourceSnapshots src r = 1

/-- A source whose state lists every row once and owes none is set-like. -/
lemma setLike_of_rows (h : ∀ source, s.sourceSnapshots.lookup src = some source → source.state.deficit = none ∧
      ((source.state.positive.map RecordBatch.rows).flatten).Nodup) : SetLike s src := by
  intro r
  unfold sourceNet
  cases hs : s.sourceSnapshots.lookup src with
  | none => exact .inl rfl
  | some source =>
    obtain ⟨hdef, hnodup⟩ := h source hs
    have hcount : source.state.pos r ≤ 1 := by
      have hone : ZSet.count (source.state.positive.map RecordBatch.rows).flatten r ≤ 1 :=
        ZSet.nodup_iff_count.mp hnodup r
      rw [ZSet.count_flatten, map_map] at hone
      exact hone
    show source.state.net r = 0 ∨ source.state.net r = 1
    unfold SourceState.net SourceState.owed
    rw [hdef]
    show (source.state.pos r : ℤ) + 0 = 0 ∨ (source.state.pos r : ℤ) + 0 = 1
    omega

namespace CutRun

/-- The accumulators are right, and the slices restore to the sources at the last cut. -/
structure Tracked (T : String → Schema) (K : String → Set Row) (fresh : Inner P) (base : SourceBlob)
    (r : CutRun P) : Prop where
  enabled : r.live.deltaCheckpointEnabled = true
  accumulates : ∀ src, Accumulates src r.last r.live
  restored : ∃ f, restoreAll fresh base r.slices = (f, .ok ()) ∧ SourcesTyped T K f ∧
    ∀ src, (∀ c ∈ r.cuts, SetLike c src) → ∀ row,
      sourceNet f.sourceSnapshots src row = sourceNet r.last.sourceSnapshots src row

lemma tracked_start (hK : ∀ src, TellApart (T src) (K src)) (fresh : Inner P) (hen : s.deltaCheckpointEnabled = true)
    (hacc : s.checkpointDeltas = ∅) (hp : s.pending = ∅) (h : SourcesTyped T K s) :
    ∃ base, checkpoint s = .ok base ∧ (start s).Tracked T K fresh base := by
  obtain ⟨base, f, hbase, hf, htyped, hnet⟩ := restore_checkpoint hK h fresh
  have hrestored : restoreAll fresh base [] = (f, .ok ()) := by
    unfold restoreAll
    rw [hf]
    rfl
  refine ⟨base, hbase, hen, fun src => ?_, f, hrestored, htyped, fun src _ row => hnet src row⟩
  refine ⟨⟨[], ?_, fun r => ?_⟩, fun ds hds => ?_⟩
  · show queueOf s.checkpointDeltas src = [] ++ queueOf s.pending src
    rw [hacc, hp]
    rfl
  · show _ = _ + (0 : ℤ)
    rw [add_zero]
    rfl
  · rw [show (start s).live.checkpointDeltas = ∅ from hacc] at hds
    cases hds

variable {fresh : Inner P} {base : SourceBlob} {r : CutRun P}

/-- Only the live flow moves. -/
lemma Tracked.withLive (h : r.Tracked T K fresh base)
    (hen : s.deltaCheckpointEnabled = true) (hacc : ∀ src, Accumulates src r.last s) :
    ({ r with live := s } : CutRun P).Tracked T K fresh base :=
  ⟨hen, hacc, h.restored⟩

section

variable (env : Env P) (h : r.Tracked T K fresh base)

include h

lemma Tracked.feed [PlanLogic P] : (r.step env (.feed source d)).Tracked T K fresh base := by
  have hq := feed_queues env r.live source d
  exact h.withLive (hq.enabled.trans h.enabled) fun src => (h.accumulates src).queued h.enabled (fun _ h => h) hq

lemma Tracked.feedCoalesced [PlanLogic P]
    (heq : queueOf r.live.checkpointDeltas source = queueOf r.live.pending source) :
    (r.step env (.feedCoalesced source d)).Tracked T K fresh base := by
  have hq := feedCoalesced_queues env r.live source d
  refine h.withLive (hq.enabled.trans h.enabled) fun src =>
    (h.accumulates src).queued h.enabled (fun done hparts => ?_) hq
  -- the committed part is empty
  rw [heq] at hparts
  rw [self_eq_append_left.mp hparts]
  rfl

/-- A cut writes, per source, what was committed since the last one, and restoring it moves the
restored sources to this cut. -/
lemma Tracked.cut [PlanLogic P] (hK : ∀ src, TellApart (T src) (K src)) (hfine : r.Fine T K .cut) :
    (r.step env .cut).Tracked T K fresh base := by
  have hp : ∀ src, queueOf r.live.pending src = [] := fun src => (hfine src).1
  -- with nothing pending the accumulator is the committed part
  have hdone : ∀ src row, sourceNet r.live.sourceSnapshots src row =
      sourceNet r.last.sourceSnapshots src row + queueNet (queueOf r.live.checkpointDeltas src) row := by
    intro src
    obtain ⟨done, hq, hnet⟩ := (h.accumulates src).parts
    rw [hp src, append_nil] at hq
    rw [hq]
    exact hnet
  -- what the slice says of a source
  obtain ⟨slice, hslice, hentry⟩ : ∃ slice, (checkpointDelta r.live).2 = .ok slice ∧
      ∀ src, Option.Rel (fun ds d => d.Of (T src) (K src) ∧ ∀ row, d.net row = queueNet ds row)
        (r.live.checkpointDeltas.lookup src) (slice.lookup src) := by
    refine KVMap.mapM_rel fun src ds hds => ?_
    have hq : queueOf r.live.checkpointDeltas src = ds := by rw [queueOf, hds]; rfl
    obtain ⟨d, hd, hof, hnet⟩ := concatQueue_typed ((h.accumulates src).entry ds hds) (hq ▸ (hfine src).2)
    exact ⟨d, hd, hof, hnet⟩
  obtain ⟨f, hf, hftyped, hfnet⟩ := h.restored
  have hsliceTyped : ∀ src d, slice.lookup src = some d → d.Of (T src) (K src) := by
    intro src d hd
    have hsource := hentry src
    rw [hd] at hsource
    generalize r.live.checkpointDeltas.lookup src = ds at hsource
    cases hsource with
    | some hsource => exact hsource.1
  obtain ⟨f', hf', hftyped', hfnet'⟩ := restoreDelta_typed hK hftyped hsliceTyped
  have hstep : r.step env .cut = ⟨{ r.live with checkpointDeltas := ∅ },
      { r.live with checkpointDeltas := ∅ }, r.cuts ++ [{ r.live with checkpointDeltas := ∅ }],
      r.slices ++ [slice]⟩ := by
    unfold CutRun.step
    rw [show checkpointDelta r.live = ({ r.live with checkpointDeltas := ∅ }, .ok slice) from
      Prod.ext rfl hslice]
  rw [hstep]
  refine ⟨h.enabled, fun src => ?_, f', ?_, hftyped', ?_⟩
  · refine ⟨⟨[], ?_, fun row => ?_⟩, fun ds hds => by cases hds⟩
    · show ([] : List DeltaBatch) = [] ++ queueOf r.live.pending src
      rw [hp src]
      rfl
    · show _ = _ + (0 : ℤ)
      rw [add_zero]
  · rw [restoreAll_snoc hf]
    exact hf'
  · intro src hset row
    show sourceNet f'.sourceSnapshots src row = sourceNet r.live.sourceSnapshots src row
    have hold := hfnet src (fun c hc => hset c (mem_append_left _ hc)) row
    have hlive : SetLike r.live src :=
      hset { r.live with checkpointDeltas := ∅ } (mem_append_right _ (mem_singleton.mpr rfl))
    have hsum := hdone src row
    have hsource := hentry src
    rw [hfnet' src row, hold]
    unfold queueOf at hsum
    generalize r.live.checkpointDeltas.lookup src = ds at hsource hsum
    generalize slice.lookup src = d at hsource ⊢
    cases hsource with
    | none =>
      rw [hsum]
      show _ = _ + (0 : ℤ)
      rw [add_zero]
    | some hnet =>
      dsimp only [Option.getD_some] at hsum ⊢
      rw [hnet.2 row, ← hsum]
      -- a weight of `0` or `1` is its own sign
      rcases hlive row with h0 | h1
      · rw [h0]
        rfl
      · rw [h1]
        rfl

end

lemma FineCuts.tracked [PlanLogic P] {env : Env P} (hK : ∀ src, TellApart (T src) (K src))
    (h₀ : (CutRun.start s).Tracked T K fresh base) (hr : FineCuts T K env s r) : r.Tracked T K fresh base := by
  induction hr with
  | start => exact h₀
  | @step r e _ hf ih =>
    cases e with
    | feed source d => exact ih.feed env
    | feedCoalesced source d => exact ih.feedCoalesced env hf
    | step c =>
      have henabled := (stepDatafusion_input env r.live c hf.1 hf.2).1.enabled
      exact ih.withLive (henabled.trans ih.enabled) fun src => (ih.accumulates src).tick env c hf.1 hf.2
    | cut => exact ih.cut env hK hf

/-- In every run of fine events, restoring the base checkpoint and then the slices succeeds, and
gives every source that was set-like at all cuts the relation it had at the last one. -/
theorem base_and_slices_restore_last_cut [PlanLogic P] {env : Env P} {s : Inner P}
    (hK : ∀ src, TellApart (T src) (K src)) (hen : s.deltaCheckpointEnabled = true)
    (hacc : s.checkpointDeltas = ∅) (hp : s.pending = ∅)
    (htyped : SourcesTyped T K s) (hr : FineCuts T K env s r) (fresh : Inner P) :
    ∃ base f, checkpoint s = .ok base ∧ restoreAll fresh base r.slices = (f, .ok ()) ∧
      ∀ src, (∀ c ∈ r.cuts, SetLike c src) → ∀ row,
        sourcePos f.sourceSnapshots src row = sourcePos r.last.sourceSnapshots src row := by
  obtain ⟨base, hbase, h₀⟩ := tracked_start hK fresh hen hacc hp htyped
  obtain ⟨f, hf, -, hnet⟩ := (hr.tracked hK h₀).restored
  refine ⟨base, f, hbase, hf, fun src hset row => ?_⟩
  rw [sourcePos_eq, sourcePos_eq, hnet src hset row]

/-! ## A coalesced feed after a commit -/

/-- A scan of `t` with delta checkpoints on. -/
def checkpointedScan : Inner StatelessPlan :=
  enableDeltaCheckpoints (registerView scanEnv .new (scanView "v" "t"))

/-- One row is fed and committed. -/
def committedRow : CutRun StatelessPlan :=
  ((start checkpointedScan).step scanEnv (.feed "t" (keyDelta 1 1))).step scanEnv (.step .fresh)

/-- And written by a cut. -/
def oneSlice : CutRun StatelessPlan := committedRow.step scanEnv .cut

theorem oneSlice_restores : oneSlice.slices.length = 1 ∧
    ∃ (base : SourceBlob) (f : Inner StatelessPlan), checkpoint checkpointedScan = .ok base ∧
      restoreAll .new base oneSlice.slices = (f, .ok ()) ∧
      ∀ src, (∀ c ∈ oneSlice.cuts, SetLike c src) → ∀ row,
        sourcePos f.sourceSnapshots src row = sourcePos oneSlice.last.sourceSnapshots src row := by
  have hK : ∀ src : String, TellApart keySchema {[.int 1]} := fun _ =>
    ⟨fun _ hr _ hr' _ => hr.trans hr'.symm, fun _ _ => textual_of_renderable _ (by decide) _⟩
  have htyped : SourcesTyped (fun _ => keySchema) (fun _ => {[.int 1]}) checkpointedScan := by
    intro src source hs
    cases hs
  have hpending : committedRow.live.pending.entries = [] := by decide +kernel
  have hfed : ∀ e ∈ committedRow.live.checkpointDeltas.entries, ∀ d ∈ e.2, d = keyDelta 1 1 := by decide +kernel
  have hfine : FineCuts (fun _ => keySchema) (fun _ => {[.int 1]}) scanEnv checkpointedScan oneSlice := by
    refine .step (.step (.step .start trivial) ⟨?_, .inl (by decide +kernel)⟩) fun src => ⟨?_, fun d hd => ?_⟩
    · exact keysApart_of_keys (by decide +kernel) (by decide +kernel)
    · show queueOf committedRow.live.pending src = []
      unfold queueOf AList.lookup
      rw [hpending]
      rfl
    · rw [queueOf] at hd
      cases hlookup : (AList.lookup src committedRow.live.checkpointDeltas) with
      | none =>
        rw [show (AList.lookup src _) = none from hlookup] at hd
        cases hd
      | some ds =>
        rw [show (AList.lookup src _) = some ds from hlookup] at hd
        rw [hfed ⟨src, ds⟩ (AList.mem_lookup_iff.mp hlookup) d hd]
        exact ⟨rfl, by simp [keyDelta]⟩
  exact ⟨by decide +kernel, base_and_slices_restore_last_cut hK (by decide +kernel) rfl rfl htyped hfine .new⟩

/-- A coalesced feed of row `2` after row `1` is committed, and a cut. -/
def coalescedSlice : CutRun StatelessPlan :=
  ((committedRow.step scanEnv (.feedCoalesced "t" (keyDelta 2 1))).step scanEnv
    (.step .fresh)).step scanEnv .cut

/-- The accumulator forgets row `1`, so base and slice restore to row `2` alone, while the live flow
holds both rows, each once. -/
theorem coalesced_feed_forgets_committed : (∀ c ∈ coalescedSlice.cuts, SetLike c "t") ∧
    ∃ (base : SourceBlob) (f : Inner StatelessPlan), checkpoint checkpointedScan = .ok base ∧
      restoreAll .new base coalescedSlice.slices = (f, .ok ()) ∧
      sourcePos coalescedSlice.last.sourceSnapshots "t" [.int 1] = 1 ∧
      sourcePos f.sourceSnapshots "t" [.int 1] = 0 ∧
      sourcePos f.sourceSnapshots "t" [.int 2] = 1 := by
  refine ⟨fun c hc => setLike_of_rows ?_, ∅, (restoreAll .new ∅ coalescedSlice.slices).1, by rfl,
    Prod.ext rfl (by decide +kernel), by decide +kernel, by decide +kernel, by decide +kernel⟩
  have hcuts : ∀ c ∈ coalescedSlice.cuts, ((c.sourceSnapshots.lookup "t").all fun source =>
      source.state.deficit = none ∧
        ((source.state.positive.map RecordBatch.rows).flatten).Nodup) = true := by decide +kernel
  intro source hs
  have hc := hcuts c hc
  rw [hs] at hc
  simpa using hc

end CutRun

end Krishiv.Ivm
