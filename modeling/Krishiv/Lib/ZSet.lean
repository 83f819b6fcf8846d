import Mathlib.Algebra.BigOperators.Group.List.Basic
import Mathlib.Data.List.Count
import Mathlib.Data.List.Flatten
import Mathlib.Data.List.Induction
import Mathlib.Data.List.Nodup
import Mathlib.Tactic.Ring

/-!
# Z-sets as weighted lists

A Z-set over `α` is written down as a list of rows with integer weights; the same row may
occur several times. What the list denotes is `weight l : α → ℤ`, the net weight of every
row, and two lists stand for the same Z-set when their weights agree.

Three operations live here: `consolidate` (one entry per row, no zero weights, rows in the
order of their first occurrence), `expand` (the positive part as a plain list, a row of
weight `k` occurring `k` times) and `negative` (the entries of negative weight).
-/

namespace ZSet

open List List
open Prod (ext fst snd)

variable {α : Type} [DecidableEq α]

/-! ## Net weight -/

/-- Net weight of `a`: the sum of the weights of all its entries. -/
def weight : List (α × ℤ) → α → ℤ
  | [], _ => 0
  | (b, w) :: l, a => (if b = a then w else 0) + weight l a

@[simp] lemma weight_nil (a : α) : weight ([] : List (α × ℤ)) a = 0 := rfl

lemma weight_cons (b : α) (w : ℤ) (l : List (α × ℤ)) (a : α) :
    weight ((b, w) :: l) a = (if b = a then w else 0) + weight l a := rfl

@[simp] lemma weight_append (l l' : List (α × ℤ)) (a : α) : weight (l ++ l') a = weight l a + weight l' a := by
  induction l with
  | nil => simp
  | cons p l ih => obtain ⟨b, w⟩ := p; simp [weight_cons, ih, add_assoc]

lemma weight_flatten (ls : List (List (α × ℤ))) (a : α) : weight ls.flatten a = (ls.map (weight · a)).sum := by
  induction ls with
  | nil => rfl
  | cons l ls ih => simp [ih]

variable {l : List (α × ℤ)} {a : α}

lemma weight_eq_zero_of_notMem (h : a ∉ l.map fst) : weight l a = 0 := by
  induction l with
  | nil => rfl
  | cons p l ih =>
    obtain ⟨b, w⟩ := p
    simp only [map_cons, mem_cons, not_or] at h
    rw [weight_cons, if_neg (Ne.symm h.1), ih h.2, add_zero]

/-- In a list with one entry per row, the weight of an entry is the net weight. -/
lemma weight_eq_of_mem (hn : (l.map fst).Nodup) {w : ℤ} (h : (a, w) ∈ l) : weight l a = w := by
  induction l with
  | nil => simp at h
  | cons p l ih =>
    obtain ⟨b, v⟩ := p
    simp only [map_cons, nodup_cons] at hn
    rw [weight_cons]
    rcases mem_cons.mp h with heq | hmem
    · obtain ⟨rfl, rfl⟩ := Prod.mk.inj heq
      rw [if_pos rfl, weight_eq_zero_of_notMem hn.1, add_zero]
    have hne : b ≠ a := by
      rintro rfl
      exact hn.1 (mem_map_of_mem (f := fst) hmem)
    rw [if_neg hne, zero_add, ih hn.2 hmem]

/-- Two ways to rename the rows that agree on which rows become the one in question. -/
lemma weight_map_congr {β γ δ : Type} [DecidableEq γ] [DecidableEq δ] {f : β → γ} {g : β → δ}
    {l : List (β × ℤ)} {b : γ} {c : δ} (h : ∀ p ∈ l, f p.1 = b ↔ g p.1 = c) :
    weight (l.map fun p => (f p.1, p.2)) b = weight (l.map fun p => (g p.1, p.2)) c := by
  induction l with
  | nil => rfl
  | cons p l ih =>
    rw [map_cons, map_cons, weight_cons, weight_cons, ih fun q hq => h q (mem_cons_of_mem _ hq)]
    simp [h p mem_cons_self]

/-! ## Multisets as plain lists -/

/-- How often `a` occurs in a list of rows. -/
def count (rows : List α) (a : α) : ℕ := List.count a rows

@[simp] lemma count_nil (a : α) : count ([] : List α) a = 0 := rfl

lemma count_cons (b : α) (rows : List α) (a : α) : count (b :: rows) a = count rows a + if b = a then 1 else 0 := by
  simp [count, List.count_cons]

@[simp] lemma count_append (rows rows' : List α) (a : α) :
    count (rows ++ rows') a = count rows a + count rows' a := by
  simp [count]

lemma count_flatten (ls : List (List α)) (a : α) : count ls.flatten a = (ls.map (count · a)).sum := by
  induction ls with
  | nil => rfl
  | cons l ls ih => simp [ih]

variable {rows : List α}

lemma perm_iff_count {rows' : List α} : rows.Perm rows' ↔ ∀ a, count rows a = count rows' a :=
  List.perm_iff_count

lemma nodup_iff_count : rows.Nodup ↔ ∀ a, count rows a ≤ 1 := nodup_iff_count_le_one

lemma count_pos_iff : 0 < count rows a ↔ a ∈ rows := List.count_pos_iff

lemma eq_nil_of_count (h : ∀ a, count rows a = 0) : rows = [] :=
  eq_nil_iff_forall_not_mem.mpr fun a ha => by
    have := count_pos_iff.mpr ha
    have := h a
    omega

/-! ## Insertions, deletions, negation -/

/-- Every row with the same weight. -/
def uniform (w : ℤ) (rows : List α) : List (α × ℤ) := rows.map fun r => (r, w)

lemma weight_uniform (w : ℤ) (rows : List α) (a : α) : weight (uniform w rows) a = w * count rows a := by
  induction rows with
  | nil => simp [uniform]
  | cons r rows ih =>
    have hcons : uniform w (r :: rows) = (r, w) :: uniform w rows := rfl
    rw [hcons, weight_cons, ih, count_cons]
    by_cases h : r = a
    · subst h; simp [mul_add, add_comm]
    · simp [h]

/-- All weights with the opposite sign. -/
def negate (l : List (α × ℤ)) : List (α × ℤ) := l.map fun p => (p.1, -p.2)

@[simp] lemma weight_negate (l : List (α × ℤ)) (a : α) : weight (negate l) a = -weight l a := by
  induction l with
  | nil => simp [negate]
  | cons p l ih =>
    obtain ⟨b, w⟩ := p
    have hcons : negate ((b, w) :: l) = (b, -w) :: negate l := rfl
    rw [hcons, weight_cons, weight_cons, ih]
    split <;> ring

/-! ## Consolidation -/

/-- Add `w` to the entry of `a`, appending the entry when there is none. -/
def addWeight (a : α) (w : ℤ) : List (α × ℤ) → List (α × ℤ)
  | [] => [(a, w)]
  | (b, v) :: l => if b = a then (b, v + w) :: l else (b, v) :: addWeight a w l

section

variable (a : α) (w : ℤ) (l : List (α × ℤ))

lemma weight_addWeight (x : α) : weight (addWeight a w l) x = (if a = x then w else 0) + weight l x := by
  induction l with
  | nil => simp [addWeight, weight_cons]
  | cons p l ih =>
    obtain ⟨b, v⟩ := p
    by_cases hb : b = a
    · subst hb
      simp only [addWeight, if_true, weight_cons]
      split <;> ring
    · simp only [addWeight, if_neg hb, weight_cons, ih]
      ring

lemma keys_addWeight : (addWeight a w l).map fst = if a ∈ l.map fst then l.map fst else l.map fst ++ [a] := by
  induction l with
  | nil => simp [addWeight]
  | cons p l ih =>
    obtain ⟨b, v⟩ := p
    by_cases hb : b = a
    · subst hb; simp [addWeight]
    · have hab : a ≠ b := Ne.symm hb
      simp only [addWeight, if_neg hb, map_cons, ih, mem_cons, hab, false_or]
      split <;> simp

end

/-- Sum the weights of equal rows, rows in the order of their first occurrence. -/
def collect (l : List (α × ℤ)) : List (α × ℤ) :=
  l.foldl (fun acc p => addWeight p.1 p.2 acc) []

section

variable (l : List (α × ℤ))

lemma collect_snoc (p : α × ℤ) : collect (l ++ [p]) = addWeight p.1 p.2 (collect l) := by
  rw [collect, foldl_append]
  rfl

lemma weight_collect (a : α) : weight (collect l) a = weight l a := by
  induction l using reverseRecOn with
  | nil => rfl
  | append_singleton l p ih => rw [collect_snoc, weight_addWeight, ih, weight_append, weight_cons, weight_nil,
      add_zero, add_comm]

/-- Where a row occurs first. -/
def position (l : List (α × ℤ)) (a : α) : ℕ := (l.map Prod.fst).idxOf a

/-- The rows of the list, in the order of their first occurrence. -/
lemma keys_collect : (∀ a, a ∈ (collect l).map fst ↔ a ∈ l.map fst) ∧
    ((collect l).map fst).Pairwise fun a b => position l a < position l b := by
  unfold position
  induction l using reverseRecOn with
  | nil => simp [collect]
  | append_singleton l p ih =>
    obtain ⟨hmem, horder⟩ := ih
    -- the rows there already keep their places
    have hold : ((collect l).map fst).Pairwise fun a b =>
        (l.map fst ++ [p.1]).idxOf a < (l.map fst ++ [p.1]).idxOf b := by
      refine horder.imp_of_mem fun ha hb hab => ?_
      rwa [idxOf_append_of_mem ((hmem _).mp ha), idxOf_append_of_mem ((hmem _).mp hb)]
    rw [collect_snoc, keys_addWeight, map_append, map_singleton]
    split_ifs with hp
    · refine ⟨fun a => ?_, hold⟩
      rw [mem_append, mem_singleton, hmem, iff_self_or]
      rintro rfl
      exact (hmem _).mp hp
    · refine ⟨fun a => ?_, pairwise_append.mpr ⟨hold, pairwise_singleton _ _, fun a ha b hb => ?_⟩⟩
      · rw [mem_append, mem_append, hmem]
      rw [mem_singleton.mp hb, idxOf_append_of_mem ((hmem a).mp ha),
        idxOf_append_of_notMem fun h => hp ((hmem _).mpr h)]
      have hlt := idxOf_lt_length_of_mem ((hmem a).mp ha)
      omega

/-- The canonical form: one entry per row, none of weight zero. -/
def consolidate (l : List (α × ℤ)) : List (α × ℤ) := (collect l).filter fun p => p.2 ≠ 0

lemma weight_filter_ne_zero (a : α) : weight (l.filter fun p => p.2 ≠ 0) a = weight l a := by
  induction l with
  | nil => rfl
  | cons p l ih =>
    obtain ⟨b, w⟩ := p
    by_cases hw : w = 0
    · subst hw; simpa [weight_cons] using ih
    · rw [filter_cons_of_pos (by simpa using hw), weight_cons, weight_cons, ih]

@[simp] lemma weight_consolidate (a : α) : weight (consolidate l) a = weight l a := by
  rw [consolidate, weight_filter_ne_zero, weight_collect]

end

variable {p : α × ℤ}

/-- Consolidation invents no rows. -/
lemma mem_of_mem_consolidate (h : p ∈ consolidate l) : p.1 ∈ l.map fst :=
  ((keys_collect l).1 p.1).mp (mem_map_of_mem (mem_filter.mp h).1)

lemma keys_consolidate_order (l : List (α × ℤ)) :
    ((consolidate l).map fst).Pairwise fun a b => position l a < position l b :=
  (keys_collect l).2.sublist (filter_sublist.map fst)

lemma nodup_keys_consolidate (l : List (α × ℤ)) : ((consolidate l).map fst).Nodup :=
  (keys_consolidate_order l).imp fun h heq => absurd (heq ▸ h) (lt_irrefl _)

lemma ne_zero_of_mem_consolidate (h : p ∈ consolidate l) : p.2 ≠ 0 := by
  simpa using (mem_filter.mp h).2

/-- The entries of the canonical form are the rows of non-zero weight with that weight. -/
lemma mem_consolidate {w : ℤ} : (a, w) ∈ consolidate l ↔ weight l a = w ∧ w ≠ 0 := by
  constructor
  · intro h
    have hw := weight_eq_of_mem (nodup_keys_consolidate l) h
    rw [weight_consolidate] at hw
    exact ⟨hw, ne_zero_of_mem_consolidate h⟩
  rintro ⟨hw, hne⟩
  by_contra hnot
  have hkey : a ∉ (consolidate l).map fst := by
    intro hmem
    obtain ⟨⟨b, v⟩, hb, rfl⟩ := mem_map.mp hmem
    have hv := weight_eq_of_mem (nodup_keys_consolidate l) hb
    rw [weight_consolidate, hw] at hv
    exact hnot (hv ▸ hb)
  have hz := weight_eq_zero_of_notMem hkey
  rw [weight_consolidate, hw] at hz
  exact hne hz

private lemma addWeight_of_notMem {w : ℤ} (h : a ∉ l.map fst) : addWeight a w l = l ++ [(a, w)] := by
  induction l with
  | nil => rfl
  | cons p l ih =>
    obtain ⟨b, v⟩ := p
    rw [map_cons, mem_cons, not_or] at h
    rw [addWeight, if_neg (Ne.symm h.1), ih h.2]
    rfl

/-- A list in canonical form stays as it is. -/
lemma consolidate_of_nodup (hn : (l.map fst).Nodup) (h : ∀ p ∈ l, p.2 ≠ 0) : consolidate l = l := by
  have hcollect : collect l = l := by
    clear h
    induction l using reverseRecOn with
    | nil => rfl
    | append_singleton l p ih =>
      rw [map_append, map_singleton, nodup_append] at hn
      rw [collect_snoc, ih hn.1]
      exact addWeight_of_notMem fun hp => hn.2.2 _ hp _ mem_cons_self rfl
  rw [consolidate, hcollect]
  exact filter_eq_self.mpr (by simpa using h)

/-! ## Positive and negative part -/

/-- The positive part as a plain list: a row of weight `k > 0` occurs `k` times. -/
def expand (l : List (α × ℤ)) : List α := l.flatMap fun p => List.replicate p.2.toNat p.1

lemma count_expand (hn : (l.map fst).Nodup) (a : α) : count (expand l) a = (weight l a).toNat := by
  induction l with
  | nil => rfl
  | cons p l ih =>
    obtain ⟨b, w⟩ := p
    simp only [map_cons, nodup_cons] at hn
    have hcons : expand ((b, w) :: l) = replicate w.toNat b ++ expand l := rfl
    have hrep : count (replicate w.toNat b) a = if b = a then w.toNat else 0 := by
      simp [count, count_replicate]
    rw [hcons, count_append, ih hn.2, hrep, weight_cons]
    by_cases hb : b = a
    · subst hb
      simp [weight_eq_zero_of_notMem hn.1]
    · simp [hb]

lemma weight_of_all_one (h : ∀ p ∈ l, p.2 = 1) (a : α) : weight l a = count (l.map fst) a := by
  have hl : uniform 1 (l.map fst) = l := by
    rw [uniform, map_map]
    refine (map_congr_left fun p hp => ?_).trans l.map_id
    exact ext rfl (h p hp).symm
  have hw := weight_uniform 1 (l.map fst) a
  rwa [hl, one_mul] at hw

/-- The entries of negative weight. -/
def negative (l : List (α × ℤ)) : List (α × ℤ) := l.filter fun p => p.2 < 0

lemma weight_negative (hn : (l.map fst).Nodup) (a : α) : weight (negative l) a = min (weight l a) 0 := by
  induction l generalizing a with
  | nil => rfl
  | cons p l ih =>
    obtain ⟨b, w⟩ := p
    simp only [map_cons, nodup_cons] at hn
    have hb0 := weight_eq_zero_of_notMem hn.1
    have hnb0 : weight (negative l) b = 0 := by rw [ih hn.2, hb0]; rfl
    by_cases hw : w < 0
    · rw [negative, filter_cons_of_pos (by simpa using hw), weight_cons, weight_cons]
      change _ + weight (negative l) a = _
      by_cases hb : b = a
      · subst hb; rw [hnb0, hb0]; simp; omega
      · simp [hb, ih hn.2]
    · rw [negative, filter_cons_of_neg (by simpa using hw), weight_cons]
      change weight (negative l) a = _
      by_cases hb : b = a
      · subst hb; rw [hnb0, hb0]; simp; omega
      · simp [hb, ih hn.2]

/-! ## Matching two multisets -/

/-- Match the rows of the second list against the pool: what is left of the list and what is left
of the pool. -/
def cancel : List α → List α → List α × List α
  | pool, [] => ([], pool)
  | pool, r :: rows =>
    if r ∈ pool then cancel (pool.erase r) rows
    else ((r :: (cancel pool rows).1), (cancel pool rows).2)

lemma count_cancel (pool rows : List α) (a : α) : count (cancel pool rows).1 a = count rows a - count pool a ∧
      count (cancel pool rows).2 a = count pool a - count rows a := by
  induction rows generalizing pool with
  | nil => simp [cancel]
  | cons r rows ih =>
    by_cases hr : r ∈ pool
    · have hpos : 0 < count pool r := count_pos_iff.mpr hr
      have herase : count (pool.erase r) a = count pool a - if r = a then 1 else 0 := by
        by_cases hra : r = a
        · subst hra; simp [count]
        · simp [count, hra, count_erase_of_ne (Ne.symm hra)]
      obtain ⟨h1, h2⟩ := ih (pool.erase r)
      simp only [cancel, if_pos hr, h1, h2, herase, count_cons]
      by_cases hra : r = a
      · subst hra; simp; omega
      · simp [hra]
    · have hzero : count pool r = 0 := Nat.eq_zero_of_not_pos fun h => hr (count_pos_iff.mp h)
      obtain ⟨h1, h2⟩ := ih pool
      simp only [cancel, if_neg hr, count_cons, h1, h2]
      by_cases hra : r = a
      · subst hra; simp [hzero]
      · simp [hra]

/-! ## Clamped accumulation

A multiset kept as positive multiplicities, where a retraction with nothing left to cancel is
dropped. -/

/-- Add `w` to the multiplicity of `a`; an entry that falls to zero or below goes. -/
def clampAdd (a : α) (w : ℤ) : List (α × ℤ) → List (α × ℤ)
  | [] => if 0 < w then [(a, w)] else []
  | (b, v) :: l =>
    if b = a then if v + w ≤ 0 then l else (b, v + w) :: l
    else (b, v) :: clampAdd a w l

/-- One entry per row, all multiplicities positive. -/
structure Positive (l : List (α × ℤ)) : Prop where
  nodup : (l.map Prod.fst).Nodup
  pos : ∀ p ∈ l, 0 < p.2

omit [DecidableEq α] in
lemma Positive.tail (h : Positive (p :: l)) : Positive l :=
  ⟨(nodup_cons.mp (by simpa using h.nodup)).2, fun q hq => h.pos q (by simp [hq])⟩

omit [DecidableEq α] in
lemma Positive.head_notMem (h : Positive (p :: l)) : p.1 ∉ l.map fst :=
  (nodup_cons.mp (by simpa using h.nodup)).1

lemma Positive.weight_nonneg (h : Positive l) (a : α) : 0 ≤ weight l a := by
  induction l with
  | nil => exact le_refl _
  | cons p l ih =>
    obtain ⟨b, v⟩ := p
    have hv : 0 < v := h.pos (b, v) (by simp)
    have hl := ih h.tail
    rw [weight_cons]
    split <;> omega

lemma keys_clampAdd_subset (a : α) (w : ℤ) (l : List (α × ℤ)) :
    ∀ x ∈ (clampAdd a w l).map fst, x = a ∨ x ∈ l.map fst := by
  induction l with
  | nil =>
    intro x hx
    unfold clampAdd at hx
    split at hx
    · exact Or.inl (by simpa using hx)
    · simp at hx
  | cons p l ih =>
    obtain ⟨b, v⟩ := p
    intro x hx
    unfold clampAdd at hx
    split at hx
    · split at hx
      · exact Or.inr (mem_cons_of_mem _ hx)
      · exact Or.inr hx
    rcases mem_cons.mp hx with hxb | hxl
    · exact Or.inr (by simp [hxb])
    · rcases ih x hxl with h | h
      · exact Or.inl h
      · exact Or.inr (mem_cons_of_mem _ h)

section

variable (h : Positive l) (a : α) (w : ℤ)

include h

lemma Positive.clampAdd : Positive (clampAdd a w l) := by
  induction l with
  | nil =>
    unfold ZSet.clampAdd
    split
    · next hw => exact ⟨by simp, by simpa using hw⟩
    · exact h
  | cons p l ih =>
    obtain ⟨b, v⟩ := p
    unfold ZSet.clampAdd
    split
    · split
      · exact h.tail
      next hw =>
      refine ⟨by simpa using h.nodup, forall_mem_cons.mpr ⟨?_, h.tail.pos⟩⟩
      show 0 < v + w
      omega
    · next hb =>
      have ih' := ih h.tail
      refine ⟨?_, forall_mem_cons.mpr ⟨h.pos _ (by simp), ih'.pos⟩⟩
      rw [map_cons, nodup_cons]
      refine ⟨fun hmem => ?_, ih'.nodup⟩
      rcases keys_clampAdd_subset a w l b hmem with hba | hbl
      · exact hb hba
      · exact h.head_notMem hbl

lemma weight_clampAdd (x : α) : weight (clampAdd a w l) x = if a = x then max (weight l x + w) 0 else weight l x := by
  induction l with
  | nil =>
    unfold clampAdd
    by_cases hw : 0 < w <;> by_cases hx : a = x <;> simp [hw, hx, weight_cons] <;> omega
  | cons p l ih =>
    obtain ⟨b, v⟩ := p
    have hb0 := weight_eq_zero_of_notMem h.head_notMem
    unfold clampAdd
    by_cases hb : b = a
    · subst hb
      rw [if_pos rfl]
      by_cases hx : b = x
      · subst hx
        split
        · rw [hb0, weight_cons, hb0]; simp; omega
        · rw [weight_cons, weight_cons, hb0]; simp; omega
      · split <;> simp [weight_cons, hx]
    · rw [if_neg hb, weight_cons, weight_cons, ih h.tail]
      by_cases hx : a = x
      · subst hx; simp [hb]
      · simp [hx]

/-- What is dropped is what is missing in the sum. -/
lemma sum_clampAdd : ((clampAdd a w l).map snd).sum = (l.map snd).sum + w + (-(weight l a + w)).toNat := by
  induction l with
  | nil =>
    unfold clampAdd
    split <;> simp <;> omega
  | cons p l ih =>
    obtain ⟨b, v⟩ := p
    have hb0 := weight_eq_zero_of_notMem h.head_notMem
    unfold clampAdd
    rw [weight_cons]
    split
    · next hb =>
      subst hb
      split <;> simp only [map_cons, sum_cons, hb0] <;> omega
    · simp only [map_cons, sum_cons, ih h.tail]
      omega

end

lemma getD_find? (hn : (l.map fst).Nodup) (a : α) : ((l.find? fun p => p.1 = a).map snd).getD 0 = weight l a := by
  induction l with
  | nil => rfl
  | cons p l ih =>
    rw [map_cons, nodup_cons] at hn
    rw [weight_cons]
    by_cases ha : p.1 = a
    · rw [find?_cons_of_pos (by simpa using ha), if_pos ha, weight_eq_zero_of_notMem (ha ▸ hn.1), add_zero]
      rfl
    · rw [find?_cons_of_neg (by simpa using ha), if_neg ha, zero_add, ih hn.2]

omit [DecidableEq α] in
lemma length_expand (h : ∀ p ∈ l, 0 < p.2) : ((expand l).length : ℤ) = (l.map snd).sum := by
  induction l with
  | nil => rfl
  | cons p l ih =>
    have hp := h p mem_cons_self
    have ih := ih fun q hq => h q (mem_cons_of_mem _ hq)
    simp only [expand, flatMap_cons, length_append, length_replicate, map_cons, sum_cons] at ih ⊢
    omega

end ZSet
