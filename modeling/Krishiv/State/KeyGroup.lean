import Mathlib.Data.List.TakeWhile
import Krishiv.Lib.EvenRanges

/-!
# Key groups and the tasks that own them

Three computations say which task owns a key group: a search in the list of ranges that a restore uses,
closed arithmetic, and the search of the row router in ranges that it computes on its own. They agree for
every parallelism (`taskForKeyGroup_owns`, `taskIndexForKeyGroup_owns`, `ownerOf_owns`), because all three
find the owner in the even division of the groups.
-/

namespace Krishiv.State

open EvenRanges List Nat

def numKeyGroups : ℕ := 32768

/-- An inclusive range. -/
structure KeyGroupRange where
  start : ℕ
  stop : ℕ
  deriving DecidableEq, Repr

def KeyGroupRange.contains (r : KeyGroupRange) (keyGroup : ℕ) : Bool :=
  decide (r.start ≤ keyGroup ∧ keyGroup ≤ r.stop)

/-- Ranges of the tasks `i`, `i + 1`, … up to `p`, the first of them starting at `start`. The bounds are
cut to 16 bits. -/
def rangesFrom (p : ℕ) : ℕ → ℕ → ℕ → List KeyGroupRange
  | 0, _, _ => []
  | k + 1, i, start =>
    let count := numKeyGroups / p + if i < numKeyGroups % p then 1 else 0
    let stop := start + count - 1
    ⟨start % 2 ^ 16, stop % 2 ^ 16⟩ :: rangesFrom p k (i + 1) (stop + 1)

def keyGroupRangesForParallelism (parallelism : ℕ) : List KeyGroupRange :=
  let p := max parallelism 1
  rangesFrom p p 0 0

def taskIndexForKeyGroup (keyGroup parallelism : ℕ) : ℕ :=
  let p := max parallelism 1
  let base := numKeyGroups / p
  let rem := numKeyGroups % p
  let fatSpan := rem * (base + 1)
  if keyGroup < fatSpan then keyGroup / (base + 1)
  else if base = 0 then p - 1
  else rem + (keyGroup - fatSpan) / base

/-- The number of elements before the first one that fails `q`. -/
def partitionPoint {α : Type} (q : α → Bool) (l : List α) : ℕ := (l.takeWhile q).length

structure KeyGroupRescaler where
  oldParallelism : ℕ
  newParallelism : ℕ
  newRanges : List KeyGroupRange

namespace KeyGroupRescaler

def new (oldParallelism newParallelism : ℕ) : KeyGroupRescaler where
  oldParallelism := max oldParallelism 1
  newParallelism := max newParallelism 1
  newRanges := keyGroupRangesForParallelism (max newParallelism 1)

def taskForKeyGroup (r : KeyGroupRescaler) (keyGroup : ℕ) : ℕ :=
  let idx := partitionPoint (fun range => decide (range.stop < keyGroup)) r.newRanges
  if idx < r.newRanges.length then idx else r.newParallelism - 1

end KeyGroupRescaler

open KeyGroupRescaler

/-! ## The row router -/

def rloopKeyGroupRange (subtask parallelism : ℕ) : KeyGroupRange :=
  let p := max parallelism 1
  let base := numKeyGroups / p
  let rem := numKeyGroups % p
  let start := subtask * base + min subtask rem
  let count := base + if subtask < rem then 1 else 0
  ⟨start, start + count - 1⟩

/-- The subtask to which rows of the group go. -/
def ownerOf (parallelism ownSubtask group : ℕ) : ℕ :=
  let ranges := (List.range parallelism).map fun i => rloopKeyGroupRange i parallelism
  (ranges.findIdx? fun r => decide (r.start ≤ group ∧ group ≤ r.stop)).getD ownSubtask

/-! ## Agreement -/

section Agreement

variable {p g : ℕ}

/-- Where a range ends, as an inclusive bound. -/
lemma range_count (p i : ℕ) :
    rangeStart numKeyGroups p i + (numKeyGroups / p + if i < numKeyGroups % p then 1 else 0) =
      rangeStart numKeyGroups p (i + 1) :=
  (rangeStart_succ _ _ _).symm

/-- There is a group before the end of every range. -/
lemma rangeStart_succ_pos (p i : ℕ) : 0 < rangeStart numKeyGroups p (i + 1) := by
  have hone : 0 < rangeStart numKeyGroups p 1 := by
    rw [rangeStart_succ, rangeStart_zero]
    split_ifs with h
    · exact lt_of_lt_of_le (succ_pos _) (le_add_left _ _)
    -- no remainder, so the groups are divided without rest
    have hrem : numKeyGroups % p = 0 := by omega
    have hdiv := div_add_mod numKeyGroups p
    rcases Nat.eq_zero_or_pos (numKeyGroups / p) with hzero | hpos
    · rw [hzero, hrem, mul_zero] at hdiv
      exact absurd hdiv (by decide)
    · omega
  exact lt_of_lt_of_le hone (rangeStart_mono (by omega))

lemma rangeStart_le (hp : 0 < p) {i : ℕ} (hi : i ≤ p) : rangeStart numKeyGroups p i ≤ numKeyGroups := by
  have hlast : rangeStart numKeyGroups p p = numKeyGroups := rangeStart_last hp
  have hmono : rangeStart numKeyGroups p i ≤ rangeStart numKeyGroups p p := rangeStart_mono hi
  omega

/-- The list of ranges, in closed form. Nothing is cut off. -/
lemma rangesFrom_eq (hp : 0 < p) (k i : ℕ) (hk : i + k = p) :
    rangesFrom p k i (rangeStart numKeyGroups p i) = (range' i k).map fun j =>
        ⟨rangeStart numKeyGroups p j, rangeStart numKeyGroups p (j + 1) - 1⟩ := by
  induction k generalizing i with
  | zero => rfl
  | succ k ih =>
    have hpos := rangeStart_succ_pos p i
    have hstart : rangeStart numKeyGroups p i ≤ numKeyGroups := rangeStart_le hp (by omega)
    have hstop : rangeStart numKeyGroups p (i + 1) ≤ numKeyGroups := rangeStart_le hp (by omega)
    have hgroups : numKeyGroups = 32768 := rfl
    rw [rangesFrom, range_count, Nat.sub_add_cancel hpos, ih (i + 1) (by omega), range'_succ,
      map_cons, mod_eq_of_lt (by omega), mod_eq_of_lt (by omega)]

lemma keyGroupRanges_eq (hp : 0 < p) : keyGroupRangesForParallelism p = (range p).map fun j =>
      ⟨rangeStart numKeyGroups p j, rangeStart numKeyGroups p (j + 1) - 1⟩ := by
  have hmax : max p 1 = p := by omega
  unfold keyGroupRangesForParallelism
  rw [hmax, range_eq_range']
  have h := rangesFrom_eq hp p 0 (by omega)
  rwa [rangeStart_zero] at h

lemma rloopKeyGroupRange_eq (hp : 0 < p) (i : ℕ) :
    rloopKeyGroupRange i p = ⟨rangeStart numKeyGroups p i, rangeStart numKeyGroups p (i + 1) - 1⟩ := by
  have hmax : max p 1 = p := by omega
  have hstart : i * (numKeyGroups / p) + min i (numKeyGroups % p) = rangeStart numKeyGroups p i := rfl
  unfold rloopKeyGroupRange
  dsimp only
  rw [hmax, hstart, range_count]

/-- The partition point is the index before which all elements pass and at which one fails. -/
lemma partitionPoint_map_range {α : Type} {q : α → Bool} {f : ℕ → α} {i : ℕ} (hi : i < p)
    (hbefore : ∀ j < i, q (f j) = true) (hat : q (f i) = false) : partitionPoint q ((range p).map f) = i := by
  have hlen : i < ((List.range p).map f).length := by simpa using hi
  have hfirst : ((List.range p).map f).findIdx (fun x => !q x) = i := by
    rw [findIdx_eq hlen]
    simp only [getElem_map, getElem_range, hat, Bool.not_false, true_and]
    intro j hj
    rw [hbefore j hj, Bool.not_true]
  unfold partitionPoint
  rw [takeWhile_eq_take_findIdx_not, hfirst, length_take]
  omega

lemma taskForKeyGroup_owns (old : ℕ) (hp : 0 < p) (hg : g < numKeyGroups) :
    (new old p).taskForKeyGroup g < p ∧ Owns numKeyGroups p ((new old p).taskForKeyGroup g) g := by
  obtain ⟨i, hi, howns⟩ := exists_owner hp hg
  have hmax : max p 1 = p := by omega
  have hranges : (new old p).newRanges = (List.range p).map fun j =>
      ⟨rangeStart numKeyGroups p j, rangeStart numKeyGroups p (j + 1) - 1⟩ := by
    rw [new, hmax]
    exact keyGroupRanges_eq hp
  have hpoint : partitionPoint (fun range => decide (range.stop < g)) (new old p).newRanges = i := by
    rw [hranges]
    apply partitionPoint_map_range hi
    · intro j hj
      have hle : rangeStart numKeyGroups p (j + 1) ≤ rangeStart numKeyGroups p i := rangeStart_mono hj
      have hpos := rangeStart_succ_pos p j
      have hstart := howns.1
      simp only [decide_eq_true_eq]
      omega
    · have hend := howns.2
      simp only [decide_eq_false_iff_not]
      omega
  have htask : (new old p).taskForKeyGroup g = i := by
    unfold taskForKeyGroup
    rw [hpoint, if_pos]
    rw [hranges, length_map, length_range]
    exact hi
  rw [htask]
  exact ⟨hi, howns⟩

lemma ownerOf_owns (own : ℕ) (hp : 0 < p) (hg : g < numKeyGroups) :
    ownerOf p own g < p ∧ Owns numKeyGroups p (ownerOf p own g) g := by
  obtain ⟨i, hi, howns⟩ := exists_owner hp hg
  have howner : ownerOf p own g = i := by
    unfold ownerOf
    dsimp only
    have hfind : ((List.range p).map fun i => rloopKeyGroupRange i p).findIdx?
        (fun r => decide (r.start ≤ g ∧ g ≤ r.stop)) = some i := by
      rw [findIdx?_eq_some_iff_getElem]
      simp only [getElem_map, getElem_range, rloopKeyGroupRange_eq hp, decide_eq_true_eq]
      have hstart := howns.1
      have hend := howns.2
      refine ⟨by simpa using hi, by omega, fun j hj => ?_⟩
      have hle : rangeStart numKeyGroups p (j + 1) ≤ rangeStart numKeyGroups p i := rangeStart_mono hj
      have hpos := rangeStart_succ_pos p j
      omega
    rw [hfind]
    rfl
  rw [howner]
  exact ⟨hi, howns⟩

/-- The restore and the row router send a group to the same task. -/
lemma taskForKeyGroup_eq_ownerOf (old own : ℕ) (hp : 0 < p) (hg : g < numKeyGroups) :
    (new old p).taskForKeyGroup g = ownerOf p own g :=
  (taskForKeyGroup_owns old hp hg).2.unique (ownerOf_owns own hp hg).2

/-- The closed arithmetic finds the owner too. -/
lemma taskIndexForKeyGroup_owns (hp : 0 < p) (hg : g < numKeyGroups) :
    Owns numKeyGroups p (taskIndexForKeyGroup g p) g := by
  obtain ⟨i, hi, howns⟩ := exists_owner hp hg
  have hmax : max p 1 = p := by omega
  have hdiv := div_add_mod numKeyGroups p
  obtain ⟨hstart, hend⟩ := howns
  have howns : Owns numKeyGroups p i g := ⟨hstart, hend⟩
  rw [rangeStart_succ] at hend
  unfold rangeStart at hstart hend
  suffices h : taskIndexForKeyGroup g p = i by rwa [h]
  unfold taskIndexForKeyGroup
  dsimp only
  rw [hmax]
  generalize numKeyGroups / p = base at *
  generalize numKeyGroups % p = rem at *
  by_cases hrem : i < rem
  · -- one of the larger ranges, all of which have `base + 1` groups
    rw [min_eq_left hrem.le] at hstart hend
    rw [if_pos hrem] at hend
    have hlow : i * (base + 1) ≤ g := by rw [mul_succ]; omega
    have hhigh : g < (i + 1) * (base + 1) := by rw [succ_mul, mul_succ]; omega
    have hspan : (i + 1) * (base + 1) ≤ rem * (base + 1) := mul_le_mul_right _ hrem
    rw [if_pos (by omega)]
    exact Nat.div_eq_of_lt_le hlow hhigh
  · have hle : rem ≤ i := by omega
    rw [min_eq_right hle] at hstart hend
    rw [if_neg hrem] at hend
    have hsplit : i * base = rem * base + (i - rem) * base := by
      rw [← Nat.add_mul, Nat.add_sub_cancel' hle]
    have hspan : rem * (base + 1) = rem * base + rem := mul_succ _ _
    have hbase : base ≠ 0 := by
      rintro rfl
      omega
    rw [if_neg (by omega), if_neg hbase]
    have hquot : (g - rem * (base + 1)) / base = i - rem := by
      apply Nat.div_eq_of_lt_le
      · omega
      · rw [succ_mul]
        omega
    omega

/-! ## The division as a whole -/

/-- The groups of a range, and their number. -/
lemma contains_iff_owns (hp : 0 < p) {i : ℕ} {r : KeyGroupRange} (h : (keyGroupRangesForParallelism p)[i]? = some r) :
    (∀ g, r.contains g = true ↔ Owns numKeyGroups p i g) ∧
      r.stop + 1 - r.start = numKeyGroups / p + if i < numKeyGroups % p then 1 else 0 := by
  rw [keyGroupRanges_eq hp, getElem?_map, Option.map_eq_some_iff] at h
  obtain ⟨j, hj, rfl⟩ := h
  obtain ⟨-, rfl⟩ := List.getElem?_eq_some_iff.mp hj
  have hpos := rangeStart_succ_pos p i
  have hcount := range_count p i
  rw [getElem_range]
  refine ⟨fun g => ?_, ?_⟩
  · rw [KeyGroupRange.contains, decide_eq_true_iff, Owns]
    dsimp only
    omega
  · dsimp only
    rw [Nat.sub_add_cancel hpos, ← hcount, Nat.add_sub_cancel_left]

/-- There is a range for each task; no group is in two of them, and their sizes differ by one at most. Every
group is in the range of one task, which both lookups return. -/
theorem key_groups_divided (hp : 0 < p) : (keyGroupRangesForParallelism p).length = p ∧
    (∀ (i j : ℕ) r s, (keyGroupRangesForParallelism p)[i]? = some r →
      (keyGroupRangesForParallelism p)[j]? = some s →
      (∀ g, r.contains g = true → s.contains g = true → i = j) ∧
        r.stop + 1 - r.start ≤ s.stop + 1 - s.start + 1) ∧
    ∀ g < numKeyGroups, ∃ (i : ℕ) (r : _), (keyGroupRangesForParallelism p)[i]? = some r ∧
      r.contains g = true ∧ taskIndexForKeyGroup g p = i ∧
        ∀ old, (KeyGroupRescaler.new old p).taskForKeyGroup g = i := by
  have hlen : (keyGroupRangesForParallelism p).length = p := by
    rw [keyGroupRanges_eq hp, length_map, length_range]
  refine ⟨hlen, fun i j r s hr hs => ⟨fun g hg hg' => ?_, ?_⟩, fun g hg => ?_⟩
  · exact (((contains_iff_owns hp hr).1 g).mp hg).unique (((contains_iff_owns hp hs).1 g).mp hg')
  · rw [(contains_iff_owns hp hr).2, (contains_iff_owns hp hs).2]
    split <;> split <;> omega
  obtain ⟨i, hi, howns⟩ := exists_owner hp hg
  have hr := getElem?_eq_getElem (hlen.symm ▸ hi)
  refine ⟨i, _, hr, ((contains_iff_owns hp hr).1 g).mpr howns, ?_, fun old => ?_⟩
  · exact (taskIndexForKeyGroup_owns hp hg).unique howns
  · exact (taskForKeyGroup_owns old hp hg).2.unique howns

theorem key_groups_divided_five : 0 < 5 ∧ (keyGroupRangesForParallelism 5).length = 5 ∧
    (∀ (i j : ℕ) r s, (keyGroupRangesForParallelism 5)[i]? = some r →
      (keyGroupRangesForParallelism 5)[j]? = some s →
      (∀ g, r.contains g = true → s.contains g = true → i = j) ∧
        r.stop + 1 - r.start ≤ s.stop + 1 - s.start + 1) ∧
    ∀ g < numKeyGroups, ∃ (i : ℕ) (r : _), (keyGroupRangesForParallelism 5)[i]? = some r ∧
      r.contains g = true ∧ taskIndexForKeyGroup g 5 = i ∧
        ∀ old, (KeyGroupRescaler.new old 5).taskForKeyGroup g = i :=
  ⟨by decide, key_groups_divided (by decide)⟩

end Agreement

end Krishiv.State
