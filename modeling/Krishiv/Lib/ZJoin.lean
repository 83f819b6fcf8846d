import Mathlib.Algebra.BigOperators.Finsupp.Basic
import Mathlib.Algebra.Order.BigOperators.Group.Finset
import Mathlib.Data.Finsupp.Basic
import Mathlib.Tactic.Abel
import Krishiv.Lib.ZSet

/-!
# Z-sets as finitely supported functions, and their joins

What a weighted list stands for is a function of finite support (`toZ`). On such functions addition,
selection and the join of two Z-sets are algebra: selection is additive, the join is additive in each
argument (`join_add_left`, `join_add_right`), and the total weight of the rows with a property is
additive too (`total_add`). A relation without negative weights has a row with the property exactly if
that total is not zero (`total_eq_zero_iff`).

`pairs` is a join of two weighted lists through their keys, and `consolidateBy` merges the rows with
equal keys; both have the equation for the Z-set they stand for.
-/

namespace ZSet

open Finsupp List Finsupp

variable {α β γ κ : Type}

/-! ## From lists to functions -/

/-- The Z-set that a weighted list stands for. -/
noncomputable def toZ (l : List (α × ℤ)) : α →₀ ℤ := (l.map fun p => single p.1 p.2).sum

@[simp] lemma toZ_nil : toZ ([] : List (α × ℤ)) = 0 := rfl

@[simp] lemma toZ_cons (p : α × ℤ) (l : List (α × ℤ)) : toZ (p :: l) = single p.1 p.2 + toZ l := by
  simp [toZ]

@[simp] lemma toZ_append (l l' : List (α × ℤ)) : toZ (l ++ l') = toZ l + toZ l' := by
  simp [toZ]

lemma toZ_flatten (ls : List (List (α × ℤ))) : toZ ls.flatten = (ls.map toZ).sum := by
  induction ls with
  | nil => rfl
  | cons l ls ih => simp [ih]

lemma toZ_apply [DecidableEq α] (l : List (α × ℤ)) (a : α) : toZ l a = weight l a := by
  induction l with
  | nil => rfl
  | cons p l ih =>
    obtain ⟨b, w⟩ := p
    rw [toZ_cons, weight_cons, Finsupp.add_apply, ih, single_apply]

/-- A row that is not in the list has weight zero. -/
lemma mem_of_toZ_ne_zero {l : List (α × ℤ)} {a : α} (h : toZ l a ≠ 0) : ∃ p ∈ l, p.1 = a := by
  classical
  induction l with
  | nil => exact absurd rfl h
  | cons p l ih =>
    by_cases hp : p.1 = a
    · exact ⟨p, mem_cons_self, hp⟩
    · rw [toZ_cons, Finsupp.add_apply, single_apply, if_neg hp, zero_add] at h
      obtain ⟨q, hq, hqa⟩ := ih h
      exact ⟨q, mem_cons_of_mem _ hq, hqa⟩

/-- Lists that give their elements the same weights are equal as Z-sets. -/
lemma toZ_eq_of_weight [DecidableEq α] {l l' : List (α × ℤ)}
    (h : ∀ p ∈ l ++ l', weight l p.1 = weight l' p.1) : toZ l = toZ l' := by
  ext a
  by_cases ha : ∃ p ∈ l ++ l', p.1 = a
  · obtain ⟨p, hp, rfl⟩ := ha
    rw [toZ_apply, toZ_apply, h p hp]
  have hzero : ∀ m : List (α × ℤ), (∀ p ∈ m, p ∈ l ++ l') → toZ m a = 0 := by
    intro m hm
    by_contra hne
    obtain ⟨p, hp, hpa⟩ := mem_of_toZ_ne_zero hne
    exact ha ⟨p, hm p hp, hpa⟩
  rw [hzero l fun p hp => mem_append_left _ hp, hzero l' fun p hp => mem_append_right _ hp]

lemma toZ_map (f : α → β) (l : List (α × ℤ)) : toZ (l.map fun p => (f p.1, p.2)) = (toZ l).mapDomain f := by
  induction l with
  | nil => simp
  | cons p l ih => simp [ih, mapDomain_add]

lemma toZ_filter (p : α → Prop) [DecidablePred p] (l : List (α × ℤ)) :
    toZ (l.filter fun x => p x.1) = (toZ l).filter p := by
  induction l with
  | nil => exact (filter_zero p).symm
  | cons x l ih =>
    obtain ⟨a, w⟩ := x
    rw [toZ_cons, filter_add]
    by_cases ha : p a
    · rw [filter_cons_of_pos (by simpa using ha), toZ_cons, ih, filter_single_of_pos _ ha]
    · rw [filter_cons_of_neg (by simpa using ha), ih, filter_single_of_neg _ ha, zero_add]

lemma toZ_filter_ne_zero (l : List (α × ℤ)) : toZ (l.filter fun x => x.2 ≠ 0) = toZ l := by
  induction l with
  | nil => rfl
  | cons x l ih =>
    by_cases hx : x.2 = 0
    · rw [filter_cons_of_neg (by simpa using hx), toZ_cons, hx, ih, single_zero, zero_add]
    · rw [filter_cons_of_pos (by simpa using hx), toZ_cons, toZ_cons, ih]

@[simp] lemma toZ_consolidate [DecidableEq α] (l : List (α × ℤ)) : toZ (consolidate l) = toZ l := by
  ext a
  rw [toZ_apply, toZ_apply, weight_consolidate]

lemma toZ_scale (c : ℤ) (l : List (α × ℤ)) : toZ (l.map fun p => (p.1, c * p.2)) = c • toZ l := by
  induction l with
  | nil => exact (zsmul_zero c).symm
  | cons p l ih =>
    have hsingle : single p.1 (c * p.2) = c • single p.1 p.2 := by
      rw [← smul_eq_mul]
      exact map_zsmul (singleAddHom p.1) c p.2
    rw [map_cons, toZ_cons, toZ_cons, ih, zsmul_add, hsingle]

/-- Selecting by another property: what comes in and what goes out. -/
lemma filter_eq_add_sub (p q : α → Prop) [DecidablePred p] [DecidablePred q] (A : α →₀ ℤ) :
    A.filter q = A.filter p + ((A.filter fun a => ¬p a ∧ q a) - A.filter fun a => p a ∧ ¬q a) := by
  ext a
  by_cases hp : p a <;> by_cases hq : q a <;> simp [hp, hq]

variable {q : α → Prop} {A : α →₀ ℤ}

/-- Only the rows that are there matter. -/
lemma filter_congr_support {p : α → Prop} [DecidablePred p] [DecidablePred q]
    (h : ∀ a, A a ≠ 0 → (p a ↔ q a)) : A.filter p = A.filter q := by
  ext a
  rw [filter_apply, filter_apply]
  by_cases ha : A a = 0
  · simp [ha]
  · simp [h a ha]

/-- Selecting key by key. -/
lemma sum_filter_keys [DecidableEq κ] {key : α → κ} {p : α → Prop} [DecidablePred p] {keys : List κ}
    (hkeys : keys.Nodup) (A : α →₀ ℤ) (h : ∀ a, p a → key a ∈ keys) :
    (keys.map fun k => (A.filter fun a => key a = k).filter p).sum = A.filter p := by
  classical
  have hsome : (keys.map fun k => (A.filter fun a => key a = k).filter p).sum =
      (A.filter fun a => key a ∈ keys).filter p := by
    clear h
    induction keys with
    | nil =>
      refine ((filter_eq_zero_iff _ _).mpr fun a _ => ?_).symm
      exact filter_apply_neg _ _ not_mem_nil
    | cons k keys ih =>
      obtain ⟨hk, hkeys⟩ := nodup_cons.mp hkeys
      rw [map_cons, List.sum_cons, ih hkeys]
      ext a
      simp only [Finsupp.add_apply, filter_apply, mem_cons]
      by_cases hak : key a = k
      · simp [hak, hk]
      · simp [hak]
  rw [hsome]
  ext a
  simp only [filter_apply]
  split_ifs with hp hk
  · rfl
  · exact absurd (h a hp) hk
  · rfl

/-- Rows with a sign that depends on the row. -/
lemma toZ_filterMap_sign {f : α → Option ℤ} (hf : ∀ a, f a = none ∨ f a = some 1 ∨ f a = some (-1))
    (l : List (α × ℤ)) : toZ (l.filterMap fun x => (f x.1).map fun s => (x.1, s * x.2)) =
      ((toZ l).filter fun a => f a = some 1) - (toZ l).filter fun a => f a = some (-1) := by
  induction l with
  | nil => simp [filter_zero]
  | cons x l ih =>
    obtain ⟨a, w⟩ := x
    have hsingle : ∀ s, ((single a w).filter fun a => f a = some s) = if f a = some s then single a w else 0 := by
      intro s
      split_ifs with hs
      · exact filter_single_of_pos (fun a => f a = some s) hs
      · exact filter_single_of_neg (fun a => f a = some s) hs
    rw [toZ_cons, filter_add, filter_add, hsingle, hsingle, filterMap_cons]
    rcases hf a with ha | ha | ha
    · simp [ha, ih]
    · simp [ha, ih, add_sub_assoc]
    · simp [ha, ih]
      abel

/-! ## The weight of the rows with a property -/

/-- The sum of the weights of the rows with `p`. -/
noncomputable def total (p : α → Prop) [DecidablePred p] (A : α →₀ ℤ) : ℤ :=
  A.sum fun a w => if p a then w else 0

section Total

variable (p : α → Prop) [DecidablePred p]

@[simp] lemma total_zero : total p 0 = 0 := sum_zero_index

lemma total_add (A B : α →₀ ℤ) : total p (A + B) = total p A + total p B := by
  refine sum_add_index' (fun a => ?_) fun a w v => ?_
  · exact ite_self 0
  · split_ifs <;> simp

lemma total_single (a : α) (w : ℤ) : total p (single a w) = if p a then w else 0 :=
  sum_single_index (ite_self 0)

lemma total_toZ (l : List (α × ℤ)) : total p (toZ l) = ((l.filter fun x => p x.1).map Prod.snd).sum := by
  induction l with
  | nil => simp
  | cons x l ih =>
    rw [toZ_cons, total_add, total_single, ih]
    by_cases hx : p x.1
    · rw [if_pos hx, filter_cons_of_pos (by simpa using hx), map_cons, List.sum_cons]
    · rw [if_neg hx, filter_cons_of_neg (by simpa using hx), zero_add]

lemma sum_consolidate [DecidableEq α] (l : List (α × ℤ)) :
    ((consolidate l).map Prod.snd).sum = (l.map Prod.snd).sum := by
  have h := congrArg (total fun _ => True) (toZ_consolidate l)
  simpa only [total_toZ, decide_true, filter_true] using h

variable {p}

lemma total_congr [DecidablePred q] (h : ∀ a, A a ≠ 0 → (p a ↔ q a)) : total p A = total q A := by
  refine sum_congr fun a ha => ?_
  simp [h a (mem_support_iff.mp ha)]

/-- A sum in which the terms that are left out are zero. -/
lemma sum_filter_of_zero {M : Type*} [AddCommMonoid M] [DecidablePred q] {f : α → ℤ → M}
    (h : ∀ a, A a ≠ 0 → ¬q a → f a (A a) = 0) : (A.filter q).sum f = A.sum f := by
  classical
  rw [sum_filter_index, support_filter]
  refine Finset.sum_filter_of_ne fun a ha hf => ?_
  by_contra hq
  exact hf (h a (mem_support_iff.mp ha) hq)

lemma total_filter [DecidablePred q] (A : α →₀ ℤ) : total p (A.filter q) = total (fun a => q a ∧ p a) A := by
  have hboth : total p (A.filter q) = total (fun a => q a ∧ p a) (A.filter q) :=
    total_congr fun a ha => ⟨fun hp => ⟨by_contra fun hq => ha (filter_apply_neg _ _ hq), hp⟩, And.right⟩
  exact hboth.trans (sum_filter_of_zero fun a _ hq => if_neg fun h => hq h.1)

lemma total_nonneg (hA : ∀ a, 0 ≤ A a) : 0 ≤ total p A := by
  refine Finset.sum_nonneg fun a _ => ?_
  dsimp only
  split_ifs
  · exact hA a
  · exact le_rfl

/-- Without negative weights nothing cancels. -/
lemma total_eq_zero_iff (hA : ∀ a, 0 ≤ A a) : total p A = 0 ↔ ∀ a, p a → A a = 0 := by
  have hterm : ∀ a ∈ A.support, 0 ≤ (if p a then A a else 0) := by
    intro a _
    split_ifs
    · exact hA a
    · exact le_rfl
  unfold total Finsupp.sum
  rw [Finset.sum_eq_zero_iff_of_nonneg hterm]
  constructor
  · intro h a ha
    by_contra hne
    have hzero := h a (mem_support_iff.mpr hne)
    rw [if_pos ha] at hzero
    exact hne hzero
  · intro h a _
    split_ifs with ha
    · exact h a ha
    · rfl

end Total

/-! ## Joins -/

section Join

variable (m : α → β → Prop) [∀ a b, Decidable (m a b)] (out : α → β → γ)

/-- The matching pairs with the product of their weights. -/
noncomputable def join (A : α →₀ ℤ) (B : β →₀ ℤ) : γ →₀ ℤ :=
  A.sum fun a w => B.sum fun b v => if m a b then single (out a b) (w * v) else 0

/-- The pairs of one row on the left. -/
private lemma sum_right_add (a : α) (w : ℤ) (B B' : β →₀ ℤ) :
    ((B + B').sum fun b v => if m a b then single (out a b) (w * v) else 0) =
      (B.sum fun b v => if m a b then single (out a b) (w * v) else 0) +
        B'.sum fun b v => if m a b then single (out a b) (w * v) else 0 := by
  refine sum_add_index' (fun b => ?_) fun b v v' => ?_
  · split_ifs <;> simp
  · split_ifs
    · rw [mul_add, single_add]
    · rw [add_zero]

lemma join_add_right (A : α →₀ ℤ) (B B' : β →₀ ℤ) : join m out A (B + B') = join m out A B + join m out A B' := by
  unfold join
  simp only [sum_right_add]
  exact sum_add

lemma join_add_left (A A' : α →₀ ℤ) (B : β →₀ ℤ) : join m out (A + A') B = join m out A B + join m out A' B := by
  refine sum_add_index' (fun a => ?_) fun a w w' => ?_
  · simp
  rw [← sum_add]
  refine sum_congr fun b _ => ?_
  split_ifs
  · rw [add_mul, single_add]
  · rw [add_zero]

@[simp] lemma join_zero_left (B : β →₀ ℤ) : join m out 0 B = 0 := sum_zero_index

@[simp] lemma join_zero_right (A : α →₀ ℤ) : join m out A 0 = 0 := by
  simp [join]

lemma join_single (a : α) (w : ℤ) (b : β) (v : ℤ) :
    join m out (single a w) (single b v) = if m a b then single (out a b) (w * v) else 0 := by
  have hinner : ∀ (a : α) (w : ℤ), ((single b v).sum fun b v =>
      if m a b then single (out a b) (w * v) else 0) = if m a b then single (out a b) (w * v) else 0 := by
    intro a w
    exact sum_single_index (by simp)
  unfold join
  rw [sum_single_index]
  · exact hinner a w
  · rw [hinner]
    simp

variable {B : β →₀ ℤ}

lemma join_eq_zero (h : ∀ a b, A a ≠ 0 → B b ≠ 0 → ¬m a b) : join m out A B = 0 := by
  refine Finset.sum_eq_zero fun a ha => Finset.sum_eq_zero fun b hb => if_neg ?_
  exact h a b (mem_support_iff.mp ha) (mem_support_iff.mp hb)

/-- The change of a join in terms of the changes of its arguments. -/
lemma join_add_add (A dA : α →₀ ℤ) (B dB : β →₀ ℤ) : join m out (A + dA) (B + dB) =
      join m out A B + (join m out dA B + join m out A dB + join m out dA dB) := by
  rw [join_add_left, join_add_right, join_add_right]
  abel

lemma join_congr {m' : α → β → Prop} [∀ a b, Decidable (m' a b)]
    (h : ∀ a b, A a ≠ 0 → B b ≠ 0 → (m a b ↔ m' a b)) : join m out A B = join m' out A B := by
  refine sum_congr fun a ha => sum_congr fun b hb => ?_
  simp [h a b (mem_support_iff.mp ha) (mem_support_iff.mp hb)]

/-- Rows on the right that match no row of `A` do not count. -/
lemma join_filter_right {q : β → Prop} [DecidablePred q] (hq : ∀ a b, A a ≠ 0 → B b ≠ 0 → m a b → q b) :
    join m out A (B.filter q) = join m out A B := by
  refine sum_congr fun a ha => sum_filter_of_zero fun b hb hnot => if_neg fun hmatch => ?_
  exact hnot (hq a b (mem_support_iff.mp ha) hb hmatch)

/-- Rows on the left that match no row of `B` do not count. -/
lemma join_filter_left [DecidablePred q] (hq : ∀ a b, A a ≠ 0 → B b ≠ 0 → m a b → q a) :
    join m out (A.filter q) B = join m out A B := by
  refine sum_filter_of_zero fun a ha hnot => Finset.sum_eq_zero fun b hb => if_neg fun hmatch => ?_
  exact hnot (hq a b ha (mem_support_iff.mp hb) hmatch)

end Join

/-! ## Joins of lists -/

section Pairs

variable [DecidableEq κ] (keyA : α → κ) (keyB : β → κ) (out : α → β → γ)

/-- Every row on the left with the rows of its key on the right. -/
def pairs (l : List (α × ℤ)) (r : List (β × ℤ)) : List (γ × ℤ) :=
  l.flatMap fun x => (r.filter fun y => keyB y.1 = keyA x.1).map fun y => (out x.1 y.1, x.2 * y.2)

lemma toZ_pairs (l : List (α × ℤ)) (r : List (β × ℤ)) :
    toZ (pairs keyA keyB out l r) = join (fun a b => keyB b = keyA a) out (toZ l) (toZ r) := by
  induction l with
  | nil => simp [pairs]
  | cons x l ih =>
    have hrow : ∀ r : List (β × ℤ),
        toZ ((r.filter fun y => keyB y.1 = keyA x.1).map fun y => (out x.1 y.1, x.2 * y.2)) =
          join (fun a b => keyB b = keyA a) out (single x.1 x.2) (toZ r) := by
      intro r
      induction r with
      | nil => simp
      | cons y r ihr =>
        rw [toZ_cons, join_add_right, join_single, ← ihr]
        by_cases hy : keyB y.1 = keyA x.1
        · rw [filter_cons_of_pos (by simpa using hy), if_pos hy, map_cons, toZ_cons]
        · rw [filter_cons_of_neg (by simpa using hy), if_neg hy, zero_add]
    have hcons : pairs keyA keyB out (x :: l) r =
        ((r.filter fun y => keyB y.1 = keyA x.1).map fun y => (out x.1 y.1, x.2 * y.2)) ++
          pairs keyA keyB out l r := rfl
    rw [hcons, toZ_append, hrow, ih, toZ_cons, join_add_left]

end Pairs

/-! ## Merging rows with equal keys -/

section ConsolidateBy

variable [DecidableEq κ]

/-- Add `w` to the group of `k`, starting it with `a` if there is none. -/
def addGroup (k : κ) (a : α) (w : ℤ) : List (κ × α × ℤ) → List (κ × α × ℤ)
  | [] => [(k, a, w)]
  | (k', b, v) :: l => if k' = k then (k', b, v + w) :: l else (k', b, v) :: addGroup k a w l

/-- One row for every key, the first one, with the weights of all rows of the key; no zero weights. -/
def consolidateBy (l : List (κ × α × ℤ)) : List (α × ℤ) :=
  ((l.foldl (fun acc e => addGroup e.1 e.2.1 e.2.2 acc) []).map Prod.snd).filter fun x => x.2 ≠ 0

section

variable {k : κ} {a : α} {w : ℤ} {g l : List (κ × α × ℤ)}

private lemma mem_addGroup {x : κ × α × ℤ} (h : x ∈ addGroup k a w g) :
    x ∈ g ∨ x = (k, a, w) ∨ ∃ b v, (k, b, v) ∈ g ∧ x = (k, b, v + w) := by
  induction g with
  | nil => exact .inr (.inl (mem_singleton.mp h))
  | cons y g ih =>
    obtain ⟨k', b, v⟩ := y
    rw [addGroup] at h
    split_ifs at h with hk
    · rcases mem_cons.mp h with rfl | h
      · exact .inr (.inr ⟨b, v, by rw [hk]; exact mem_cons_self, by rw [hk]⟩)
      · exact .inl (mem_cons_of_mem _ h)
    · rcases mem_cons.mp h with rfl | h
      · exact .inl mem_cons_self
      · rcases ih h with h | h | ⟨c, u, hmem, h⟩
        exacts [.inl (mem_cons_of_mem _ h), .inr (.inl h), .inr (.inr ⟨c, u, mem_cons_of_mem _ hmem, h⟩)]

private lemma keys_addGroup :
    (addGroup k a w g).map Prod.fst = if k ∈ g.map Prod.fst then g.map Prod.fst else g.map Prod.fst ++ [k] := by
  induction g with
  | nil => rfl
  | cons y g ih =>
    obtain ⟨k', b, v⟩ := y
    rw [addGroup]
    split_ifs with hk <;> simp_all [eq_comm]

/-- What holds of every row and stays true when a weight is added holds of all groups. -/
private lemma forall_groups {Q : κ × α × ℤ → Prop} (hstart : ∀ x ∈ g, Q x) (hnew : ∀ e ∈ l, Q e)
    (hadd : ∀ e ∈ l, ∀ b v, Q (e.1, b, v) → Q (e.1, b, v + e.2.2)) :
    ∀ x ∈ l.foldl (fun acc e => addGroup e.1 e.2.1 e.2.2 acc) g, Q x := by
  induction l generalizing g with
  | nil => exact hstart
  | cons e l ih =>
    refine ih (fun x hx => ?_) (fun e' he' => hnew e' (mem_cons_of_mem _ he'))
      fun e' he' => hadd e' (mem_cons_of_mem _ he')
    rcases mem_addGroup hx with h | rfl | ⟨b, v, hmem, rfl⟩
    exacts [hstart x h, hnew e mem_cons_self, hadd e mem_cons_self b v (hstart _ hmem)]

private lemma nodup_groups (h : (g.map Prod.fst).Nodup) :
    ((l.foldl (fun acc e => addGroup e.1 e.2.1 e.2.2 acc) g).map Prod.fst).Nodup := by
  induction l generalizing g with
  | nil => exact h
  | cons e l ih =>
    refine ih ?_
    rw [keys_addGroup]
    split_ifs with hk
    · exact h
    · exact (nodup_append_comm.mp (nodup_cons.mpr ⟨hk, h⟩))

end

variable {key : α → κ} {rows : List (α × ℤ)}

/-- Every key is represented by one row. -/
lemma nodup_consolidateBy : ((consolidateBy (rows.map fun p => (key p.1, p))).map Prod.fst).Nodup := by
  have hkeyed := forall_groups (Q := fun x => x.1 = key x.2.1) (g := []) (l := rows.map fun p => (key p.1, p))
    nofun (fun e he => by obtain ⟨q, -, rfl⟩ := mem_map.mp he; rfl) fun _ _ _ _ h => h
  have hkeys := nodup_groups (g := []) (l := rows.map fun p => (key p.1, p)) nodup_nil
  rw [consolidateBy]
  generalize (rows.map fun p => (key p.1, p)).foldl (fun acc e => addGroup e.1 e.2.1 e.2.2 acc) [] = g at hkeyed hkeys ⊢
  refine (filter_sublist.map Prod.fst).nodup ?_
  rw [map_map]
  refine Nodup.of_map key ?_
  rw [map_map]
  exact map_congr_left hkeyed ▸ hkeys

lemma mem_of_mem_consolidateBy {p : α × ℤ} (hp : p ∈ consolidateBy (rows.map fun p => (key p.1, p))) :
    p.1 ∈ rows.map Prod.fst := by
  obtain ⟨x, hx, rfl⟩ := mem_map.mp (mem_filter.mp hp).1
  exact forall_groups (Q := fun x => x.2.1 ∈ rows.map Prod.fst) (g := [])
    (l := rows.map fun p => (key p.1, p)) nofun
    (fun e he => by obtain ⟨q, hq, rfl⟩ := mem_map.mp he; exact mem_map_of_mem hq) (fun _ _ _ _ h => h) x hx

/-- A row of negative weight stands for a key of which some row has a negative weight; the first row of the
key comes before that one. -/
lemma mem_of_neg_consolidateBy {l l' : List (α × ℤ)} (hl' : ∀ p ∈ l', 0 ≤ p.2) {p : α × ℤ}
    (hp : p ∈ consolidateBy ((l ++ l').map fun p => (key p.1, p))) (hneg : p.2 < 0) : p.1 ∈ l.map Prod.fst := by
  rw [consolidateBy, map_append, foldl_append] at hp
  obtain ⟨x, hx, rfl⟩ := mem_map.mp (mem_filter.mp hp).1
  have hfirst := forall_groups (Q := fun x => x.2.1 ∈ l.map Prod.fst) (g := []) (l := l.map fun p => (key p.1, p))
    nofun (fun e he => by obtain ⟨q, hq, rfl⟩ := mem_map.mp he; exact mem_map_of_mem hq) fun _ _ _ _ h => h
  refine forall_groups (Q := fun x => x.2.2 < 0 → x.2.1 ∈ l.map Prod.fst) (fun y hy _ => hfirst y hy)
    (fun e he hlt => ?_) (fun e he b v hv hlt => ?_) x hx hneg
  all_goals
    obtain ⟨q, hq, rfl⟩ := mem_map.mp he
    have hnonneg := hl' q hq
    dsimp only at hlt
  · omega
  · exact hv (by dsimp only; omega)

variable [DecidableEq α]

private lemma addGroup_keyed {m : List (α × ℤ)} {a : α} (w : ℤ) (h : ∀ q ∈ m, key q.1 = key a → q.1 = a) :
    addGroup (key a) a w (m.map fun p => (key p.1, p)) = (addWeight a w m).map fun p => (key p.1, p) := by
  induction m with
  | nil => rfl
  | cons q m ih =>
    have hq : key q.1 = key a ↔ q.1 = a := ⟨h q mem_cons_self, congrArg key⟩
    rw [map_cons, addGroup, addWeight]
    simp only [hq]
    split_ifs
    · rfl
    · rw [ih fun p hp => h p (mem_cons_of_mem _ hp)]
      rfl

/-- If the rows have keys of their own, rows are merged exactly if they are equal. -/
lemma consolidateBy_eq (h : ∀ p ∈ rows, ∀ q ∈ rows, key p.1 = key q.1 → p.1 = q.1) :
    consolidateBy (rows.map fun p => (key p.1, p)) = consolidate rows := by
  have hgroups : (rows.map fun p => (key p.1, p)).foldl (fun acc e => addGroup e.1 e.2.1 e.2.2 acc) [] =
      (collect rows).map fun p => (key p.1, p) := by
    induction rows using List.reverseRecOn with
    | nil => rfl
    | append_singleton l p ih =>
      rw [map_append, foldl_append, ih fun p hp q hq =>
        h p (mem_append_left _ hp) q (mem_append_left _ hq), collect_snoc]
      refine addGroup_keyed _ fun q hq hkey => ?_
      obtain ⟨q', hq', heq⟩ := mem_map.mp (((keys_collect l).1 q.1).mp (mem_map_of_mem hq))
      rw [← heq] at hkey ⊢
      exact h q' (mem_append_left _ hq') p (by simp) hkey
  rw [consolidateBy, hgroups, map_map]
  exact congrArg _ (map_id _)

end ConsolidateBy

end ZSet
