import Krishiv.Ivm.ViewOutput

/-!
# The kinds of plans

The kind of a plan is fixed when it is built: no application, seeding or watermark collection changes
it, and a plan that runs SQL seeds nothing.
-/

namespace Krishiv.Ivm

open Krishiv.Delta

/-- The kind of a plan is fixed when it is built, and a plan that runs SQL seeds nothing. -/
class LawfulPlanLogic (P : Type) [PlanLogic P] : Prop where
  kind_apply (p : P) (t : TickDeltas) : PlanLogic.kind (PlanLogic.apply p t).1 = PlanLogic.kind p
  kind_seed (p : P) (lookup : String → Option RecordBatch) :
    PlanLogic.kind (PlanLogic.seedFromSnapshots p lookup).1 = PlanLogic.kind p
  kind_gc (p : P) (watermarks : String → Option ℤ) :
    PlanLogic.kind (PlanLogic.gcWatermark p watermarks).1 = PlanLogic.kind p
  seed_diffBased (p : P) (lookup : String → Option RecordBatch) :
    PlanLogic.kind p = .diffBased → (PlanLogic.seedFromSnapshots p lookup).2 = .ok none

section ViewPlan

variable {Op J : Type} [Operator Op] [JoinOperator J]

lemma runChain_kind (inputs : HopInputs) (source : String) (hops : List (Stage Op J))
    (sides : List (ChainSide Op J)) : (runChain inputs source hops sides).1.kind = .incremental := by
  unfold runChain
  dsimp only
  split <;> rfl

lemma ViewPlan.kind_apply (p : ViewPlan Op J) (t : TickDeltas) : (p.apply t).1.kind = p.kind := by
  cases p with
  | stage s =>
    simp only [ViewPlan.apply]
    split
    · rfl
    · split <;> rfl
  | chain source hops sides => exact runChain_kind _ source hops sides
  | diffBased => rfl

lemma ViewPlan.kind_seed (p : ViewPlan Op J) (lookup : String → Option RecordBatch) :
    (p.seedFromSnapshots lookup).1.kind = p.kind := by
  cases p with
  | stage s =>
    unfold ViewPlan.seedFromSnapshots
    split
    · split
      · split <;> rfl
      · rfl
      · rfl
    · split <;> rfl
    · next h => cases h
    · next h => cases h
  | chain source hops sides => exact runChain_kind _ source hops sides
  | diffBased => rfl

lemma ViewPlan.kind_gc (p : ViewPlan Op J) (watermarks : String → Option ℤ) :
    (p.gcWatermark watermarks).1.kind = p.kind := by
  cases p with
  | stage s =>
    simp only [ViewPlan.gcWatermark]
    split <;> split <;> rfl
  | chain source hops sides =>
    simp only [ViewPlan.gcWatermark]
    split_ifs
    · rfl
    · split <;> rfl
  | diffBased => rfl

instance : LawfulPlanLogic (ViewPlan Op J) where
  kind_apply := ViewPlan.kind_apply
  kind_seed := ViewPlan.kind_seed
  kind_gc := ViewPlan.kind_gc
  seed_diffBased p lookup h := by
    cases p with
    | stage s | chain source hops sides => cases h
    | diffBased => rfl

end ViewPlan

end Krishiv.Ivm
