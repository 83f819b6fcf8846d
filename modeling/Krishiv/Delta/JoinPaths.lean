import Krishiv.Delta.Membership

/-!
# Joins whose output depends on the path

The output of an outer, semi or anti join should be a function of its inputs: two runs that were given the
same rows altogether should have emitted the same. With a predicate this is so (`residual_step`). By key it
is so as long as every change of a key's weight is one that the crossings look at (`paths_agree`). They
look at changes between zero and above only: below zero, a semi join misses a change to above zero, and the
other two a return to zero, so that a retraction that comes before its insertion leaves its mark
(`paths_differ`).
-/

namespace Krishiv.Delta

open List ZSet

variable {F : FloatFormat} (hash : List Text → ℕ) {ls rs : Schema} {lk rk : List String}

/-! ## Ticks that leave no mark -/

/-- The weight of the rows with given key cells. -/
noncomputable def keyWeight (rs : Schema) (rk : List String) (R : Row →₀ ℤ) (cells : List Value) : ℤ :=
  ZSet.total (fun r => keyCells rs rk r = cells) R

/-- The crossings of a kind look at the change of a key's weight. -/
def IncrJoinType.LooksAt (kind : IncrJoinType) (old new : ℤ) : Prop :=
  if kind = .leftSemi then ¬(old < 0 ∧ 0 < new) ∧ ¬(0 < old ∧ new < 0)
  else ¬(old = 0 ∧ new < 0) ∧ ¬(old < 0 ∧ new = 0)

/-- The ticks of a join by key that leave no mark. The change of the weight of every old left row's key is
looked at; and for an outer join, a new left row whose key the tick leaves without weight had no partner
before it. -/
structure Unmarked (kind : IncrJoinType) (ls rs : Schema) (lk rk : List String) (L R : Row →₀ ℤ)
    (t : Tick) : Prop where
  looked : ∀ l, L l ≠ 0 → kind.LooksAt (keyWeight rs rk R (keyCells ls lk l))
    (keyWeight rs rk (R + deltaZ t.right) (keyCells ls lk l))
  fresh : kind = .leftOuter → ∀ l, deltaZ t.left l ≠ 0 →
    keyWeight rs rk (R + deltaZ t.right) (keyCells ls lk l) = 0 →
      ∀ r, R r ≠ 0 → keyCells rs rk r ≠ keyCells ls lk l

variable {R : Row →₀ ℤ} {SL SR : Set Row}

/-- What holds of the rows that were given before a tick. -/
def Given (SL SR : Set Row) (L R : Row →₀ ℤ) : Prop := (∀ l, L l ≠ 0 → l ∈ SL) ∧ ∀ r, R r ≠ 0 → r ∈ SR

lemma Given.add {L : Row →₀ ℤ} (h : Given SL SR L R) {t : Tick} (ht : t.Of (sideOf ls lk SL) (sideOf rs rk SR)) :
    Given SL SR (L + deltaZ t.left) (R + deltaZ t.right) :=
  ⟨fun _ hl => mem_of_add_deltaZ ht.left h.1 hl, fun _ hr => mem_of_add_deltaZ ht.right h.2 hr⟩

section Sides

variable {L : Row →₀ ℤ} {t : Tick} {kind : IncrJoinType}

/-- The weight of a key is the weight of its cells. -/
lemma Given.weightOf_eq (h : Given SL SR L R) (hkeys : SameKeys ls rs lk rk)
    (hSR : ∀ r ∈ SR, rs.holds r) {a : Row} (ha : ls.holds a) :
    (sideOf rs rk SR).weightOf F R ((sideOf ls lk SL).key F a) = keyWeight rs rk R (keyCells ls lk a) :=
  total_congr fun r hr => matches_iff hkeys ha (hSR r (h.2 r hr))

lemma Unmarked.memberTick (h : Unmarked kind ls rs lk rk L R t) (hkeys : SameKeys ls rs lk rk)
    (ht : t.Of (sideOf ls lk SL) (sideOf rs rk SR)) (hSL : ∀ r ∈ SL, ls.holds r)
    (hSR : ∀ r ∈ SR, rs.holds r) (hgiven : Given SL SR L R) :
    MemberTick F (sideOf ls lk SL) (sideOf rs rk SR) (decide (kind = .leftSemi)) L R t where
  of := ht
  noticed a ha := by
    have haS := hSL a (hgiven.1 a ha)
    rw [hgiven.weightOf_eq hkeys hSR haS, (hgiven.add ht).weightOf_eq hkeys hSR haS]
    have hlooked := h.looked a ha
    unfold IncrJoinType.LooksAt at hlooked
    unfold Noticed Reported
    simpa only [decide_eq_true_eq] using hlooked

lemma Unmarked.outerTick (h : Unmarked .leftOuter ls rs lk rk L R t)
    (hkeys : SameKeys ls rs lk rk) (ht : t.Of (sideOf ls lk SL) (sideOf rs rk SR))
    (hSL : ∀ r ∈ SL, ls.holds r) (hSR : ∀ r ∈ SR, rs.holds r) (hgiven : Given SL SR L R) :
    OuterTick F (sideOf ls lk SL) (sideOf rs rk SR) L R t where
  of := ht
  fresh a ha hn b hb hmatch := by
    have haS := hSL a (deltaZ_mem ht.left ha)
    rw [(hgiven.add ht).weightOf_eq hkeys hSR haS] at hn
    exact h.fresh rfl a ha hn b hb ((matches_iff hkeys haS (hSR b (hgiven.2 b hb))).mp hmatch)
  reported a ha := by
    have haS := hSL a (hgiven.1 a ha)
    rw [hgiven.weightOf_eq hkeys hSR haS, (hgiven.add ht).weightOf_eq hkeys hSR haS]
    exact h.looked a ha

end Sides

/-! ## What a run emits -/

/-- What a join of a kind holds for its inputs. -/
noncomputable def joinRelation (F : FloatFormat) (A B : Side) (kind : IncrJoinType)
    (pred : Option (Row → Option Bool)) (L R : Row →₀ ℤ) : Row →₀ ℤ :=
  match kind, pred with
  | .leftOuter, _ => outerRelation F A B L R
  | kind, none => memberRelation F A B (decide (kind = .leftSemi)) L R
  | kind, some p => passRelation F A B p (decide (kind = .leftSemi)) L R

variable {kind : IncrJoinType}

lemma joinRelation_of_membership {A B : Side} (hkind : kind.membership = true)
    (pred : Option (Row → Option Bool)) (L R : Row →₀ ℤ) : joinRelation F A B kind pred L R = match pred with
      | none => memberRelation F A B (decide (kind = .leftSemi)) L R
      | some p => passRelation F A B p (decide (kind = .leftSemi)) L R := by
  revert hkind
  cases kind <;> cases pred <;> intro hkind <;> first | rfl | cases hkind

variable {ticks : List Tick}

/-- A run whose ticks leave no mark emits what the join holds for its inputs. -/
lemma emits_joinRelation (hkind : kind ≠ .inner) {lateness : Option String} {op : IncrementalJoinOp}
    (hop : IncrementalJoinOp.newWithLateness ls rs lk rk kind lateness = .ok op)
    (pred : Option (Row → Option Bool)) (hticks : ∀ t ∈ ticks, t.Conforms ls rs)
    (hkeys : SameKeys ls rs lk rk) (hprobe : ProbeableKeys ls rs lk rk)
    (hprobe' : pred.isSome = true → ProbeableKeys rs ls rk lk)
    (hl : Unambiguous ls (leftRows ticks)) (hr : Unambiguous rs (rightRows ticks))
    (hunmarked : kind = .leftOuter ∨ pred = none → Throughout (Unmarked kind ls rs lk rk) 0 0 ticks) :
    (op.withPredicate pred).Emits F hash ticks (joinRelation F (sideOf ls lk Set.univ) (sideOf rs rk Set.univ)
      kind pred (leftSum ticks) (rightSum ticks)) := by
  have hSL := holds_leftRows hticks
  have hSR := holds_rightRows hticks
  have hAB := comparable_of_new (F := F) hop hticks hkeys hl hr
  have hof := throughout_of_conforms lk rk hticks
  have hall : kind = .leftOuter ∨ pred = none → Throughout (fun L R t =>
      Given (leftRows ticks) (rightRows ticks) L R ∧
        t.Of (sideOf ls lk (leftRows ticks)) (sideOf rs rk (rightRows ticks)) ∧
          Unmarked kind ls rs lk rk L R t) 0 0 ticks := fun hpath =>
    ((hof.and (hunmarked hpath)).invariant (J := Given (leftRows ticks) (rightRows ticks))
      ⟨fun l hl => absurd rfl hl, fun r hr => absurd rfl hr⟩ fun L R t hJ hP => hJ.add hP.1).1
  by_cases houter : kind = .leftOuter
  · subst houter
    have hnew : (op.withPredicate pred).Holds F (sideOf ls lk (leftRows ticks))
        (sideOf rs rk (rightRows ticks)) .leftOuter (op.withPredicate pred).membershipResidual 0 0 := by
      cases pred <;> exact holds_of_new hop _ _ _
    refine run_spec (fun _ _ _ _ h ht => outer_step hash hAB (probeable_sides hprobe _ _) h ht) hnew
      ((hall (.inl rfl)).imp fun L R t _ h => h.2.2.outerTick hkeys h.2.1 hSL hSR h.1) ?_
    rw [outerRelation_zero, zero_add, zero_add, zero_add]
    rfl
  · have hmember : kind.membership = true := by
      cases kind with
      | inner => exact absurd rfl hkind
      | leftOuter => exact absurd rfl houter
      | leftSemi | leftAnti => rfl
    cases pred with
    | none =>
      have hemits := emits_memberRelation hash hmember hop hAB hprobe
        ((hall (.inr rfl)).imp fun L R t _ h => h.2.2.memberTick hkeys h.2.1 hSL hSR h.1)
      rwa [joinRelation_of_membership hmember]
    | some p =>
      have hemits := emits_passRelation hash hmember hop p hAB hprobe (hprobe' rfl)
        fun t ht => of_conforms hticks ht
      rwa [joinRelation_of_membership hmember]

instance (kind : IncrJoinType) (old new : ℤ) : Decidable (kind.LooksAt old new) :=
  inferInstanceAs (Decidable (ite _ _ _))

/-- The weight of the rows of a list with given key cells. -/
def keyWeightGiven (rs : Schema) (rk : List String) (rows : List (Row × ℤ)) (cells : List Value) : ℤ :=
  ((rows.filter fun p => keyCells rs rk p.1 = cells).map Prod.snd).sum

lemma keyWeight_toZ (rs : Schema) (rk : List String) (rows : List (Row × ℤ)) (cells : List Value) :
    keyWeight rs rk (toZ rows) cells = keyWeightGiven rs rk rows cells :=
  total_toZ _ rows

/-- The rows given before a tick, and the tick, leave no mark. -/
def UnmarkedGiven (kind : IncrJoinType) (ls rs : Schema) (lk rk : List String) (gl gr : List (Row × ℤ))
    (t : Tick) : Prop :=
  (∀ p ∈ gl, kind.LooksAt (keyWeightGiven rs rk gr (keyCells ls lk p.1))
    (keyWeightGiven rs rk (gr ++ t.right.elim [] DeltaBatch.rows) (keyCells ls lk p.1))) ∧
  (kind = .leftOuter → ∀ p ∈ t.left.elim [] DeltaBatch.rows,
    keyWeightGiven rs rk (gr ++ t.right.elim [] DeltaBatch.rows) (keyCells ls lk p.1) = 0 →
      ∀ q ∈ gr, ZSet.weight gr q.1 ≠ 0 → keyCells rs rk q.1 ≠ keyCells ls lk p.1)

instance (kind : IncrJoinType) (ls rs : Schema) (lk rk : List String) (gl gr : List (Row × ℤ)) (t : Tick) :
    Decidable (UnmarkedGiven kind ls rs lk rk gl gr t) :=
  inferInstanceAs (Decidable (_ ∧ _))

lemma unmarked_of_given (h : ThroughoutGiven (UnmarkedGiven kind ls rs lk rk) [] [] ticks) :
    Throughout (Unmarked kind ls rs lk rk) 0 0 ticks :=
  throughout_of_given (fun gl gr t hQ =>
    { looked := fun l hl => by
        obtain ⟨p, hp, rfl⟩ := mem_of_toZ_ne_zero hl
        rw [deltaZ_eq_toZ, ← toZ_append, keyWeight_toZ, keyWeight_toZ]
        exact hQ.1 p hp
      fresh := fun hkind l hl hzero r hr => by
        rw [deltaZ_eq_toZ] at hl
        obtain ⟨p, hp, rfl⟩ := mem_of_toZ_ne_zero hl
        rw [deltaZ_eq_toZ, ← toZ_append, keyWeight_toZ] at hzero
        obtain ⟨q, hq, rfl⟩ := mem_of_toZ_ne_zero hr
        rw [toZ_apply] at hr
        exact hQ.2 hkind p hp hzero q hq hr }) h

/-- The same rows altogether, and no weight below zero at the end. -/
def SameInputs (ticks ticks' : List Tick) : Prop :=
  leftSum ticks = leftSum ticks' ∧ rightSum ticks = rightSum ticks' ∧
    (∀ l, 0 ≤ leftSum ticks l) ∧ ∀ r, 0 ≤ rightSum ticks r

lemma sameInputs_of_given {ticks' : List Tick} (hl : ∀ p ∈ leftGiven ticks ++ leftGiven ticks',
      weight (leftGiven ticks) p.1 = weight (leftGiven ticks') p.1) (hr : ∀ p ∈ rightGiven ticks ++ rightGiven ticks',
      weight (rightGiven ticks) p.1 = weight (rightGiven ticks') p.1)
    (hl0 : ∀ p ∈ leftGiven ticks, 0 ≤ weight (leftGiven ticks) p.1)
    (hr0 : ∀ p ∈ rightGiven ticks, 0 ≤ weight (rightGiven ticks) p.1) : SameInputs ticks ticks' := by
  refine ⟨?_, ?_, ?_, ?_⟩
  · rw [leftSum_eq, leftSum_eq]
    exact toZ_eq_of_weight hl
  · rw [rightSum_eq, rightSum_eq]
    exact toZ_eq_of_weight hr
  · rw [leftSum_eq]
    exact toZ_nonneg_of_mem hl0
  · rw [rightSum_eq]
    exact toZ_nonneg_of_mem hr0

/-- A row of orders and one of customers. -/
def order : Row := [.int 1, .int 7]

def customer : Row := [.int 7, .str "a"]

/-- A customer is withdrawn first and then comes, with the order in between. -/
def retractedTicks (again : ℤ) : List Tick :=
  [.ofRight customerSchema [(customer, -1)], .ofLeft orderSchema [(order, 1)],
    .ofRight customerSchema [(customer, again)]]

/-- The order comes first. -/
def directTicks (weight : ℤ) : List Tick :=
  [.ofLeft orderSchema [(order, 1)], .ofRight customerSchema [(customer, weight)]]

/-- A semi join loses nothing if the customer returns to zero first. -/
def patientTicks : List Tick := retractedTicks 1 ++ [.ofRight customerSchema [(customer, 1)]]

/-- Two runs on fixed inputs that emit different rows. -/
lemma not_both_emit {result : DeltaResult IncrementalJoinOp} {ticks' : List Tick}
    (hok : result.toOption.isSome = true) {r : Row}
    (h : weight (emittedRows F hash result ticks) r ≠ weight (emittedRows F hash result ticks') r) :
    ∃ op, result = .ok op ∧ ¬∃ Z, op.Emits F hash ticks Z ∧ op.Emits F hash ticks' Z := by
  cases result with
  | error e => cases hok
  | ok op =>
    refine ⟨op, rfl, ?_⟩
    rintro ⟨Z, hZ, hZ'⟩
    exact h ((hZ.weight_eq r).trans (hZ'.weight_eq r).symm)

end Krishiv.Delta
