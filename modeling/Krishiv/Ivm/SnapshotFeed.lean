import Krishiv.Ivm.Input
import Krishiv.Ivm.Scan
import Krishiv.Lib.Runs

/-!
# Snapshot feeds

`feed_snapshot` queues the difference between a snapshot of a source and the one fed before it. The
differences telescope: what is in the source and what is queued for it make up the snapshot that was fed
last. A snapshot without rows is not compared with anything, and the rows before it stay.
-/

namespace Krishiv.Ivm

open Krishiv.Delta

variable {P : Type}

/-- A flow, and the rows of the snapshot that a source was fed last. -/
structure SnapshotFed (P : Type) where
  flow : Inner P
  last : List Row

inductive SnapshotEvent
  | feed (batches : List RecordBatch)
  | step (c : TickCtx)

namespace SnapshotFed

def act [PlanLogic P] (env : Env P) (source : String) (w : SnapshotFed P) : SnapshotEvent → SnapshotFed P
  | .feed batches =>
    match feedSnapshot env w.flow source batches with
    | (s, .error _) => { w with flow := s }
    | (s, .ok ()) => ⟨s, batches.flatMap RecordBatch.rows⟩
  | .step c => { w with flow := (stepDatafusion env w.flow c).1 }

/-- A snapshot without rows is only fed to a source that has not been fed one with rows. A tick takes no row
for another. -/
def Fine (source : String) (w : SnapshotFed P) : SnapshotEvent → Prop
  | .feed batches =>
    batches.flatMap RecordBatch.rows = [] → w.flow.streamingPrevSnapshots.lookup source = none
  | .step _ => KeysApart w.flow.sourceSnapshots w.flow.pending ∧ CommitCannotFail w.flow w.flow.pending

/-- What is in the source and queued for it is the last snapshot: nothing, if none was fed. -/
structure Telescopes (source : String) (w : SnapshotFed P) : Prop where
  prev : ∀ r, countOf (w.flow.streamingPrevSnapshots.lookup source) r = ZSet.count w.last r
  net : ∀ r, sourceNet w.flow.sourceSnapshots source r + queueNet (queueOf w.flow.pending source) r =
    ZSet.count w.last r

end SnapshotFed

variable {batches : List RecordBatch}

/-- The rows of all batches, whether or not there are any. -/
lemma combineSnapshot_rows {b : Option RecordBatch} (h : combineSnapshot batches = .ok b) :
    (b.map RecordBatch.rows).getD [] = batches.flatMap RecordBatch.rows := by
  have hfilter : (batches.filter fun b => !b.rows.isEmpty).flatMap RecordBatch.rows =
      batches.flatMap RecordBatch.rows := by
    clear h
    induction batches with
    | nil => rfl
    | cons b bs ih => by_cases hb : b.rows = [] <;> simp [hb, ih]
  rw [← hfilter]
  unfold combineSnapshot at h
  split at h
  · next he =>
    cases h
    rw [he]
    rfl
  · next only he =>
    cases h
    rw [he]
    simp
  next first rest _ he =>
  rw [he]
  split at h
  · next hcat =>
    cases h
    rw [concatBatches_eq_ok hcat]
    rfl
  all_goals cases h

namespace SnapshotFed

variable {source : String} {w : SnapshotFed P} {env : Env P}

lemma Telescopes.feed [PlanLogic P] (h : Telescopes source w) (hfine : w.Fine source (.feed batches)) :
    Telescopes source (w.act env source (.feed batches)) := by
  have hq := feedSnapshot_queues env w.flow source batches
  simp only [act]
  generalize feedSnapshot env w.flow source batches = r at hq
  obtain ⟨s, e | _⟩ := r
  · rcases hq with ⟨hs, -⟩ | ⟨_, _, _, _, hok, _⟩
    · cases hs
      exact h
    · cases hok
  rcases hq with ⟨hs, hnone⟩ | ⟨new, d, hnew, hd, -, hprev, hsources, hpending⟩
  · -- no rows: the source never had any
    cases hs
    have hlast := (combineSnapshot_rows (hnone rfl)).symm
    have hzero : ∀ r, ZSet.count w.last r = 0 := by
      intro r
      rw [← h.prev r, hfine hlast]
      rfl
    rw [hlast]
    refine ⟨fun r => ?_, fun r => ?_⟩
    · exact (h.prev r).trans (hzero r)
    · exact (h.net r).trans (congrArg _ (hzero r))
  · have hlast := combineSnapshot_rows hnew
    rw [← hlast]
    refine ⟨fun r => ?_, fun r => ?_⟩
    · show countOf (s.streamingPrevSnapshots.lookup source) r = _
      rw [hprev, AList.lookup_insert]
      rfl
    have hnet := differentiate_net hd r
    have hold := h.net r
    rw [h.prev r] at hnet
    show sourceNet s.sourceSnapshots source r + queueNet (queueOf s.pending source) r = (new.count r : ℤ)
    rw [hsources]
    rcases hpending with ⟨hempty, hpending⟩ | ⟨-, hpending⟩
    · have hzero : d.net r = 0 := by
        rw [DeltaBatch.net, List.isEmpty_iff.mp hempty]
        rfl
      rw [hpending]
      omega
    · rw [hpending, queueOf_pushTo, if_pos rfl, queueNet_append]
      have hone : queueNet [d] r = d.net r := by simp [queueNet]
      omega

lemma Telescopes.step [PlanLogic P] (h : Telescopes source w) {c : TickCtx}
    (hfine : w.Fine source (.step c)) : Telescopes source (w.act env source (.step c)) := by
  obtain ⟨hfeeds, hend⟩ := stepDatafusion_input env w.flow c hfine.1 hfine.2
  refine ⟨fun r => ?_, fun r => ?_⟩
  · show countOf ((stepDatafusion env w.flow c).1.streamingPrevSnapshots.lookup source) r = _
    rw [hfeeds.snapshots]
    exact h.prev r
  show sourceNet (stepDatafusion env w.flow c).1.sourceSnapshots source r +
    queueNet (queueOf (stepDatafusion env w.flow c).1.pending source) r = _
  rcases hend with ⟨-, hqueue, hsources⟩ | ⟨-, hqueue, hsources⟩
  · rw [hqueue, hsources]
    exact (add_zero _).trans (h.net r)
  · rw [hqueue, hsources]
    exact h.net r

/-- The rows `ks` as a snapshot. -/
def keys (ks : List ℤ) : SnapshotEvent := .feed [⟨keySchema, ks.map ([.int ·])⟩]

end SnapshotFed

end Krishiv.Ivm
