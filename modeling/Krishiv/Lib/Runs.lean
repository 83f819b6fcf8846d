import Mathlib.Logic.Basic

/-!
# Runs of a transition function

`run act s evs` plays the events one after another. `Along act F s evs` says that every event of the
run meets the condition `F` in the state it arrives in, and an invariant that such events keep holds at
the end of the run (`Along.invariant`). `Reached act F s w` says that such a run leads from `s` to `w`.
-/

namespace Runs

variable {σ α : Type} {act : σ → α → σ} {F : σ → α → Prop} {s : σ}

def run (act : σ → α → σ) (s : σ) (evs : List α) : σ := evs.foldl act s

/-- Every event of the run meets `F` in the state it arrives in. -/
def Along (act : σ → α → σ) (F : σ → α → Prop) : σ → List α → Prop
  | _, [] => True
  | s, ev :: evs => F s ev ∧ Along act F (act s ev) evs

lemma Along.invariant {I : σ → Prop} (step : ∀ s ev, F s ev → I s → I (act s ev)) {evs : List α}
    (h : Along act F s evs) (hs : I s) : I (run act s evs) := by
  induction evs generalizing s with
  | nil => exact hs
  | cons ev evs ih => exact ih h.2 (step s ev h.1 hs)

/-- What every event keeps. -/
lemma run_invariant {I : σ → Prop} (step : ∀ s ev, I s → I (act s ev)) (evs : List α) (hs : I s) :
    I (run act s evs) := by
  induction evs generalizing s with
  | nil => exact hs
  | cons ev evs ih => exact ih (step s ev hs)

lemma run_append (s : σ) (evs evs' : List α) : run act s (evs ++ evs') = run act (run act s evs) evs' :=
  List.foldl_append

lemma along_append {evs evs' : List α} :
    Along act F s (evs ++ evs') ↔ Along act F s evs ∧ Along act F (run act s evs) evs' := by
  induction evs generalizing s with
  | nil => exact (and_iff_right trivial).symm
  | cons ev evs ih => exact (and_congr_right fun _ => ih).trans and_assoc.symm

/-- A run of events that all meet `F` leads from `s` to `w`. -/
def Reached (act : σ → α → σ) (F : σ → α → Prop) (s w : σ) : Prop := ∃ evs, Along act F s evs ∧ run act s evs = w

lemma Reached.invariant {I : σ → Prop} (step : ∀ s ev, F s ev → I s → I (act s ev)) {w : σ}
    (h : Reached act F s w) (hs : I s) : I w := by
  obtain ⟨evs, hevs, rfl⟩ := h
  exact hevs.invariant step hs

end Runs
