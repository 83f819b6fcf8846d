import Mathlib.Data.List.Basic

/-!
# Deterministic machines

A machine answers operations and can be observed. Two states are *indistinguishable* if every sequence
of operations is answered alike from both and leaves what is observed alike. Indistinguishable states
stay so under every operation, and a relation that every operation respects is contained in it
(`of_simulation`).
-/

structure Machine (σ α β ω : Type) where
  exec : σ → α → σ × β
  observe : σ → ω

namespace Machine

variable {σ α β ω : Type} {M : Machine σ α β ω} {s s' s'' : σ}

/-- The state after a sequence of operations. -/
def run (M : Machine σ α β ω) (s : σ) (ops : List α) : σ := ops.foldl (fun s a => (M.exec s a).1) s

/-- What a sequence of operations is answered. -/
def answers (M : Machine σ α β ω) : σ → List α → List β
  | _, [] => []
  | s, a :: ops => (M.exec s a).2 :: M.answers (M.exec s a).1 ops

def Indistinguishable (M : Machine σ α β ω) (s s' : σ) : Prop :=
  ∀ ops, M.answers s ops = M.answers s' ops ∧ M.observe (M.run s ops) = M.observe (M.run s' ops)

namespace Indistinguishable

lemma refl (s : σ) : M.Indistinguishable s s := fun _ => ⟨rfl, rfl⟩

section

variable (h : M.Indistinguishable s s')

include h

lemma symm : M.Indistinguishable s' s := fun ops => ⟨(h ops).1.symm, (h ops).2.symm⟩

lemma trans (h' : M.Indistinguishable s' s'') : M.Indistinguishable s s'' :=
  fun ops => ⟨(h ops).1.trans (h' ops).1, (h ops).2.trans (h' ops).2⟩

lemma observe_eq : M.observe s = M.observe s' := (h []).2

lemma answer_eq (a : α) : (M.exec s a).2 = (M.exec s' a).2 := by
  have hans := (h [a]).1
  simp only [answers, List.cons.injEq, and_true] at hans
  exact hans

lemma exec (a : α) : M.Indistinguishable (M.exec s a).1 (M.exec s' a).1 := by
  intro ops
  have hops := h (a :: ops)
  simp only [answers, List.cons.injEq] at hops
  exact ⟨hops.1.2, hops.2⟩

end

/-- Every relation that operations respect. -/
lemma of_simulation (R : σ → σ → Prop) (hobs : ∀ s s', R s s' → M.observe s = M.observe s')
    (hexec : ∀ s s' a, R s s' → (M.exec s a).2 = (M.exec s' a).2 ∧ R (M.exec s a).1 (M.exec s' a).1)
    (h : R s s') : M.Indistinguishable s s' := by
  intro ops
  induction ops generalizing s s' with
  | nil => exact ⟨rfl, hobs s s' h⟩
  | cons a ops ih =>
    obtain ⟨hans, hnext⟩ := hexec s s' a h
    obtain ⟨hrest, hend⟩ := ih hnext
    exact ⟨by rw [answers, answers, hans, hrest], hend⟩

end Indistinguishable

end Machine
