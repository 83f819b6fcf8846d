import Krishiv.Ivm.Input
import Krishiv.Ivm.Scan

/-!
# Custody of the drained deltas

A tick takes the pending deltas in its first lock section and holds them until it commits. If it
ends in any other way, the deltas go back in front of what was fed in the meantime. The marks that
ask for a rebuild or a recompute are taken in a lock section of their own, and nobody returns them.

The first part compares the state after an abandoned tick with the state in which the tick never
started. The second part follows every accepted delta through all interleavings of feeds, local
ticks and remote ticks.
-/

namespace Krishiv.Ivm

open Krishiv.Delta

variable {P : Type}

/-! ## An abandoned tick -/

/-- Where a tick gives up: its deltas cannot be merged, its work outside the lock fails (a delta
does not apply to its source), or the epoch moved. -/
inductive AbandonPoint where
  | coalesce
  | prepare
  | epoch
deriving DecidableEq, Repr

section Abandoned

variable [PlanLogic P] (env : Env P) (before during : Inner P → Inner P) (s : Inner P) (c : TickCtx)

/-- The state in which the marks are taken. -/
def atFlags : Inner P := before (drain env s).1

/-- What the other calls have left by the time the tick gives up. -/
def leftAt (pt : AbandonPoint) : Inner P :=
  match pt with
  | .coalesce => atFlags env before s
  | .prepare | .epoch => during (takeFlags (atFlags env before s)).1

/-- Whether and where the tick is abandoned. -/
def abandonPoint : Option AbandonPoint :=
  let flagged := atFlags env before s
  match coalescePending s.pending with
  | .error _ => some .coalesce
  | .ok inputs =>
    if inputs.keys.isEmpty && !flagged.rebuildAllViews && flagged.recomputeViews.isEmpty then none
    else
      match prepare env (drain env s).2 inputs flagged.rebuildAllViews flagged.recomputeViews c with
      | .error _ => some .prepare
      | .ok p => if (during (takeFlags flagged).1).stateEpoch ≠ p.epoch then some .epoch else none

/-- The marks the tick has taken when it gives up. -/
def takenMarks (pt : AbandonPoint) : Bool × List String :=
  match pt with
  | .coalesce => (false, [])
  | .prepare | .epoch => ((atFlags env before s).rebuildAllViews, (atFlags env before s).recomputeViews)

/-- `s'` is the state had the tick never started: what the other calls left, the drained deltas
still at the head of the queues, the taken marks still set. -/
structure AsIfNeverStarted (pt : AbandonPoint) (s' : Inner P) : Prop where
  sources : s'.sourceSnapshots = (leftAt env before during s pt).sourceSnapshots
  views : s'.views = (leftAt env before during s pt).views
  tick : s'.tick = (leftAt env before during s pt).tick
  pending : ∀ src, queueOf s'.pending src =
    queueOf s.pending src ++ queueOf (leftAt env before during s pt).pending src
  rebuild : s'.rebuildAllViews =
    ((takenMarks env before s pt).1 || (leftAt env before during s pt).rebuildAllViews)
  recompute : ∀ v, v ∈ s'.recomputeViews ↔
    v ∈ (takenMarks env before s pt).2 ∨ v ∈ (leftAt env before during s pt).recomputeViews

/-- An abandoned tick does nothing but return its deltas. -/
lemma stepInterleaved_of_abandonPoint {pt : AbandonPoint}
    (h : abandonPoint env before during s c = some pt) : (stepInterleaved env before during s c).1 =
      giveBack (leftAt env before during s pt) s.pending := by
  unfold abandonPoint at h
  have hstep : stepInterleaved env before during s c = match coalescePending s.pending with
      | .error e => guardDrained s.pending (atFlags env before s, .fresh, .error e)
      | .ok inputs => guardDrained s.pending (finishTick env (drain env s).2 inputs
          (atFlags env before s).rebuildAllViews (atFlags env before s).recomputeViews c
          (during (takeFlags (atFlags env before s)).1)) := rfl
  rw [hstep]
  dsimp only at h
  split at h
  · -- the deltas do not merge
    cases h
    rfl
  next inputs hin =>
  split at h
  · cases h
  next hidle =>
  unfold finishTick
  rw [if_neg hidle]
  cases hp : prepare env (drain env s).2 inputs (atFlags env before s).rebuildAllViews
    (atFlags env before s).recomputeViews c with
  | error e =>
    rw [hp] at h
    cases h
    rfl
  | ok p =>
  rw [hp] at h
  dsimp only at h ⊢
  split at h
  · next hepoch =>
    cases h
    have habort := (commit_framed env (during (takeFlags (atFlags env before s)).1) p).resolve_right
      fun hc => hepoch hc.1
    rw [habort.2]
    rfl
  · cases h

/-- An abandoned tick leaves everything as if it had never started exactly when the marks it took
are set again by the time it gives up. -/
theorem abandoned_asIfNeverStarted_iff {pt : AbandonPoint}
    (h : abandonPoint env before during s c = some pt) :
    AsIfNeverStarted env before during s pt (stepInterleaved env before during s c).1 ↔
      ((takenMarks env before s pt).1 = true →
      (leftAt env before during s pt).rebuildAllViews = true) ∧
      ∀ v ∈ (takenMarks env before s pt).2, v ∈ (leftAt env before during s pt).recomputeViews := by
  rw [stepInterleaved_of_abandonPoint env before during s c h]
  constructor
  · intro hs
    have hrebuild : (leftAt env before during s pt).rebuildAllViews =
      ((takenMarks env before s pt).1 || (leftAt env before during s pt).rebuildAllViews) :=
      hs.rebuild
    refine ⟨fun ht => ?_, fun v hv => (hs.recompute v).mpr (.inl hv)⟩
    rw [hrebuild, ht, Bool.true_or]
  intro hm
  constructor
  · rfl
  · rfl
  · rfl
  · intro src
    exact queueOf_giveBack _ _ src
  · show (leftAt env before during s pt).rebuildAllViews = _
    cases htaken : (takenMarks env before s pt).1 with
    | false => rw [Bool.false_or]
    | true => rw [hm.1 htaken, Bool.true_or]
  · intro v
    show v ∈ (leftAt env before during s pt).recomputeViews ↔ _
    exact ⟨Or.inr, fun hv => hv.elim (hm.2 v) id⟩

end Abandoned

/-- `v` scans `t` and shows its row `1`; `w` scans `u`, which was never fed. -/
def twoScans : Inner StatelessPlan :=
  scanTick (registerView scanEnv (registerView scanEnv .new (scanView "v" "t")) (scanView "w" "u"))
    "t" (keyDelta 1 1)

/-- The same flow after a restore of its own sources: `v` is empty and to be rebuilt. -/
def restoredScans : Inner StatelessPlan := replaceSources twoScans twoScans.sourceSnapshots

/-- A whole tick of another caller, over `u`. -/
def otherTick (s : Inner StatelessPlan) : Inner StatelessPlan := scanTick s "u" (keyDelta 2 1)

/-- With no mark to take, the tick that finds the epoch moved leaves no trace. -/
theorem abandoned_without_marks :
    abandonPoint scanEnv id otherTick (feed scanEnv twoScans "t" (keyDelta 3 1)).1 .fresh = some .epoch ∧
    AsIfNeverStarted scanEnv id otherTick (feed scanEnv twoScans "t" (keyDelta 3 1)).1 .epoch
      (stepInterleaved scanEnv id otherTick (feed scanEnv twoScans "t" (keyDelta 3 1)).1 .fresh).1 :=
  ⟨by decide +kernel, (abandoned_asIfNeverStarted_iff scanEnv id otherTick _ .fresh
    (by decide +kernel)).mpr ⟨by decide +kernel, by decide +kernel⟩⟩

/-- After a restore one tick takes the rebuild mark, another commits first, and the first one gives
up: the mark is gone, and `v` stays without a relation through the retry although `t` has a row.
Had the first tick never started, `v` would show the row. -/
theorem abandoned_tick_loses_rebuild :
    abandonPoint scanEnv id otherTick restoredScans .fresh = some .epoch ∧
    restoredScans.rebuildAllViews = true ∧
    (stepInterleaved scanEnv id otherTick restoredScans .fresh).1.rebuildAllViews = false ∧
    ¬ AsIfNeverStarted scanEnv id otherTick restoredScans .epoch
      (stepInterleaved scanEnv id otherTick restoredScans .fresh).1 ∧
    viewRows (stepDatafusion scanEnv
      (stepInterleaved scanEnv id otherTick restoredScans .fresh).1 .fresh).1 "v" = none ∧
    viewRows (stepDatafusion scanEnv (otherTick restoredScans) .fresh).1 "v" = some [[.int 1]] := by
  refine ⟨by decide +kernel, by decide +kernel, by decide +kernel, fun h => ?_, by decide +kernel,
    by decide +kernel⟩
  have hmark : ¬ (stepInterleaved scanEnv id otherTick restoredScans .fresh).1.rebuildAllViews =
      ((takenMarks scanEnv id restoredScans .epoch).1 ||
        (leftAt scanEnv id otherTick restoredScans .epoch).rebuildAllViews) := by decide +kernel
  exact hmark h.rebuild

end Krishiv.Ivm
