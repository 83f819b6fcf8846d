import Krishiv.Ivm.Scan

/-!
# The deduplication window of a source

A source may deliver an insertion again. `dedupFilter` therefore keeps the hashes of the insertions it
let through, in a queue and in a set, and forgets the oldest ones when the window is full. In every run
the set holds what the queue holds and the window stays within its capacity (`DedupWindow.Inv`).

The window is written row by row. When a row cannot be hashed, the hashes of the rows before it stay,
although none of these rows was fed, and the rows are dropped when the batch is delivered again.
-/

namespace Krishiv.Ivm

open List Krishiv.Delta

/-! ## The window -/

/-- The set is the queue, which holds nothing twice and not more than the capacity. -/
structure DedupWindow.Inv (cap : ℕ) (w : DedupWindow) : Prop where
  seen_eq : w.seen = w.order
  nodup : w.order.Nodup
  length_le : w.order.length ≤ cap

lemma filter_notMem_take {l : List ℕ} (h : l.Nodup) (n : ℕ) : l.filter (fun x => x ∉ l.take n) = l.drop n := by
  induction l generalizing n with
  | nil => simp
  | cons a l ih =>
    obtain ⟨ha, hl⟩ := nodup_cons.mp h
    cases n with
    | zero => simp
    | succ n =>
      rw [take_succ_cons, drop_succ_cons, ← ih hl n, filter_cons_of_neg (by simp)]
      exact filter_congr fun x hx => by grind

variable {P : Type} (env : Env P) (cap evict : ℕ) (sch : Schema) {rows : List (Row × ℤ)} {w : DedupWindow}

lemma DedupWindow.Inv.remember {cap : ℕ} (hw : w.Inv cap) (hcap : 1 ≤ cap) {h : ℕ} (hfresh : h ∉ w.seen) :
    (w.remember cap evict h).Inv cap := by
  obtain ⟨order, seen⟩ := w
  obtain ⟨hseen, hnodup, hle⟩ := hw
  dsimp only at hseen hnodup hle hfresh
  subst hseen
  have hpush : ∀ l : List ℕ, l.Sublist seen → (l ++ [h]).Nodup := fun l hl => by
    rw [nodup_append_comm, singleton_append, nodup_cons]
    exact ⟨fun hmem => hfresh (hl.subset hmem), hnodup.sublist hl⟩
  unfold remember
  dsimp only
  split
  · refine ⟨by simp only [filter_notMem_take hnodup], hpush _ (drop_sublist _ _), ?_⟩
    rw [length_append, length_drop, length_singleton]
    omega
  · refine ⟨rfl, hpush _ (Sublist.refl _), ?_⟩
    simp only [length_append, length_singleton]
    omega

/-! ## Row by row -/

/-- What the filter does with one more row. -/
def dedupRow (p : Row × ℤ) : DedupWindow × IvmResult (List (Row × ℤ)) → DedupWindow × IvmResult (List (Row × ℤ))
  | (w, .error e) => (w, .error e)
  | (w, .ok out) =>
    if p.2 ≤ 0 then (w, .ok (out ++ [p]))
    else match hashRow env sch p.1 with
      | .error e => (w, .error e)
      | .ok h => if h ∈ w.seen then (w, .ok out) else (w.remember cap evict h, .ok (out ++ [p]))

lemma dedupFilter_snoc (p : Row × ℤ) : dedupFilter env cap evict sch (rows ++ [p]) w =
    dedupRow env cap evict sch p (dedupFilter env cap evict sch rows w) := by
  -- a kept row stays in front
  have hkept : ∀ (q : Row × ℤ) st, (dedupRow env cap evict sch p st).map id (Except.map (q :: ·)) =
      dedupRow env cap evict sch p (st.map id (Except.map (q :: ·))) := by
    rintro q ⟨w, _ | out⟩
    · rfl
    dsimp only [dedupRow, Prod.map, Except.map, id]
    split_ifs
    · rfl
    cases hashRow env sch p.1 with
    | error e => rfl
    | ok h => dsimp only; split_ifs <;> rfl
  induction rows generalizing w with
  | nil => grind [dedupFilter, dedupRow, Except.map]
  | cons q rows ih =>
    obtain ⟨row, weight⟩ := q
    simp only [cons_append, dedupFilter, ih]
    split_ifs
    · exact hkept _ _
    cases hashRow env sch row with
    | error e => rfl
    | ok h =>
      dsimp only
      split_ifs
      · rfl
      · exact hkept _ _

lemma DedupWindow.Inv.dedupFilter {cap : ℕ} (hw : w.Inv cap) (hcap : 1 ≤ cap) :
    (dedupFilter env cap evict sch rows w).1.Inv cap := by
  induction rows generalizing w with
  | nil => exact hw
  | cons p rows ih => grind [Ivm.dedupFilter, DedupWindow.Inv.remember]

/-- The window of a source after some batches. -/
def windowAfter (bs : List DeltaBatch) : DedupWindow :=
  bs.foldl (fun w d => (dedupFilter env cap evict d.schema d.rows w).1) ⟨[], []⟩

lemma inv_windowAfter {cap : ℕ} (hcap : 1 ≤ cap) (bs : List DeltaBatch) : (windowAfter env cap evict bs).Inv cap :=
  foldlRecOn bs _ ⟨rfl, nodup_nil, Nat.zero_le _⟩ fun _ hw d _ => hw.dedupFilter env evict d.schema hcap

/-! ## A batch that fails -/

/-- Every insertion that stands before one without a hash is a retained one. -/
def RetainedBefore (rows : List (Row × ℤ)) (w : DedupWindow) : Prop :=
  ∀ pre p post e, rows = pre ++ p :: post → 0 < p.2 → hashRow env sch p.1 = .error e →
    ∀ q ∈ pre, 0 < q.2 → ∃ h ∈ w.seen, hashRow env sch q.1 = .ok h

lemma dedupFilter_retained (h : ∀ q ∈ rows, 0 < q.2 → ∃ h ∈ w.seen, hashRow env sch q.1 = .ok h) :
    (dedupFilter env cap evict sch rows w).1 = w := by
  induction rows with
  | nil => rfl
  | cons p rows ih => grind [dedupFilter]

lemma dedupFilter_error {e : IvmError} (hret : RetainedBefore env sch rows w)
    (h : (dedupFilter env cap evict sch rows w).2 = .error e) : (dedupFilter env cap evict sch rows w).1 = w := by
  induction rows using reverseRecOn with
  | nil => rfl
  | append_singleton rows p ih =>
    rw [dedupFilter_snoc] at h ⊢
    rcases hr : dedupFilter env cap evict sch rows w with ⟨w', _ | out⟩ <;> rw [hr] at ih h
    · exact ih (fun pre q post e hrows => hret pre q (post ++ [p]) e (by simp [hrows])) h
    -- the last row is the one that fails
    obtain ⟨hpos, hp⟩ : 0 < p.2 ∧ hashRow env sch p.1 = .error e := by grind [dedupRow]
    have hkept := dedupFilter_retained env cap evict sch (hret rows p [] e rfl hpos hp)
    rw [hr] at hkept
    simp only [dedupRow, hp, if_neg (not_le.mpr hpos)]
    exact hkept

/-- The window after any batches, and what becomes of one more row of the next one. A batch that fails
leaves no hash when the insertions before the failing row were retained. -/
theorem input_deduplicated (bs : List DeltaBatch) :
    let w := windowAfter env (cap + 1) evict bs
    (∀ h, h ∈ w.seen ↔ h ∈ w.order) ∧ w.order.Nodup ∧ w.order.length ≤ cap + 1 ∧ ∀ sch rows,
      (∀ p out, (dedupFilter env (cap + 1) evict sch rows w).2 = .ok out →
        (dedupFilter env (cap + 1) evict sch (rows ++ [p]) w).2 = if p.2 ≤ 0 then .ok (out ++ [p]) else
          (hashRow env sch p.1).map fun h =>
            if h ∈ (dedupFilter env (cap + 1) evict sch rows w).1.order then out else out ++ [p]) ∧
      (RetainedBefore env sch rows w → ∀ e, (dedupFilter env (cap + 1) evict sch rows w).2 = .error e →
        (dedupFilter env (cap + 1) evict sch rows w).1 = w) := by
  intro w
  have hcap : 1 ≤ cap + 1 := Nat.le_add_left 1 cap
  have hinv : w.Inv (cap + 1) := inv_windowAfter env evict hcap bs
  refine ⟨by simp [hinv.seen_eq], hinv.nodup, hinv.length_le, fun sch rows => ⟨fun p out h => ?_, fun hret e =>
    dedupFilter_error env _ evict sch hret⟩⟩
  rw [dedupFilter_snoc, ← (hinv.dedupFilter env evict sch hcap).seen_eq]
  rcases hr : dedupFilter env (cap + 1) evict sch rows w with ⟨w', _ | out'⟩ <;> rw [hr] at h <;> cases h
  grind [dedupRow, Except.map]

/-- A row that was not fed, because a later one failed, is dropped when it comes again. -/
theorem unfed_row_dropped :
    let sch : Schema := [⟨"c", .nested "Struct(Timestamp(s, \"x\"))" false true, true⟩]
    let (w, out) := dedupFilter scanEnv 2 1 sch [([.null], 1), ([.nested "" 1], 1)] ⟨[], []⟩
    out.isOk = false ∧ w.order.length = 1 ∧ (dedupFilter scanEnv 2 1 sch [([.null], 1)] w).2 = .ok [] :=
  ⟨rfl, rfl, rfl⟩

end Krishiv.Ivm
