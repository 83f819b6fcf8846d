import Krishiv.Delta.JoinRuns

/-!
# The inner join

A tick of an inner join emits `ΔA ⋈ B + A ⋈ ΔB + ΔA ⋈ ΔB`, and so a run emits the join of everything
that was given (`emits_inner_join`), however it was cut into ticks.

Three kinds of input are excluded, because rows are compared by several encodings that do not agree on
them (`encodings_disagree`). Where two columns have one name, a trace merges rows that differ in the
second one. Two NaNs are one value to a trace and two values to the pairing. A float and an integer have
the same key if the integer is the float's bit pattern, but they are never found in a trace.
-/

namespace Krishiv.Delta

open IncrementalJoinOp ZSet

variable {F : FloatFormat} (hash : List Text → ℕ) {A B : Side} {op : IncrementalJoinOp}

/-- The output of a tick. -/
lemma innerParts_spec (hAB : Comparable F A B) (hop : op.Over A B) (hkind : op.joinType = .inner)
    {dl dr : Option DeltaBatch} (hleft : ∀ d ∈ dl, d.Of A.schema A.rows)
    (hright : ∀ d ∈ dr, d.Of B.schema B.rows) : ∃ parts, op.innerParts F hash dl dr = .ok parts ∧
      Parts op.outputSchema (join (Matches F A B) (joinRow B) (deltaZ dl) op.rightTrace.zset +
          join (Matches F A B) (joinRow B) op.leftTrace.zset (deltaZ dr) +
          join (Matches F A B) (joinRow B) (deltaZ dl) (deltaZ dr)) parts := by
  have hpairs : op.joinType.pairs = true := by rw [hkind]; rfl
  obtain ⟨probed, hprobed, hprobedZ⟩ : ∃ parts,
      whenPresent dl (fun l => (op.probeLeftAgainstRightTrace F hash l).map part) = .ok parts ∧
        Parts op.outputSchema (join (Matches F A B) (joinRow B) (deltaZ dl) op.rightTrace.zset) parts := by
    refine whenPresent_spec (fun hzero => ?_) fun l hl => ?_
    · rw [hzero, join_zero_left]
      exact .nil
    · subst hl
      obtain ⟨d, hd, hschema, hz⟩ := probeLeft_spec hAB hop hpairs (hleft l rfl)
      exact ⟨part d, by rw [hd]; rfl, hz ▸ .part hschema⟩
  obtain ⟨probing, hprobing, hprobingZ⟩ : ∃ parts,
      whenPresent dr (fun r => (op.probeRightAgainstLeftTrace F hash r).map part) = .ok parts ∧
        Parts op.outputSchema (join (Matches F A B) (joinRow B) op.leftTrace.zset (deltaZ dr)) parts := by
    refine whenPresent_spec (fun hzero => ?_) fun r hr => ?_
    · rw [hzero, join_zero_right]
      exact .nil
    · subst hr
      obtain ⟨d, hd, hschema, hz⟩ := probeRight_spec hAB hop hpairs (hright r rfl)
      exact ⟨part d, by rw [hd]; rfl, hz ▸ .part hschema⟩
  obtain ⟨cross, hcross, hcrossZ⟩ := crossTerm_spec hAB hop hpairs hleft hright
  refine ⟨probed ++ probing ++ cross, ?_, (hprobedZ.append hprobingZ).append hcrossZ⟩
  unfold innerParts
  rw [hprobed, hprobing, hcross]
  rfl

/-- A tick emits the change of the join. -/
lemma inner_step (hAB : Comparable F A B) {residual : Option MembershipResidual} {L R : Row →₀ ℤ}
    (h : op.Holds F A B .inner residual L R) {t : Tick} (ht : t.Of A B) :
    ∃ d, (op.apply F hash t.left t.right).1 = .ok d ∧
      join (Matches F A B) (joinRow B) (L + deltaZ t.left) (R + deltaZ t.right) =
        join (Matches F A B) (joinRow B) L R + d.zset ∧
      (op.apply F hash t.left t.right).2.Holds F A B .inner residual (L + deltaZ t.left) (R + deltaZ t.right) := by
  obtain ⟨parts, hparts, hsum⟩ := innerParts_spec hash hAB h.shape h.kind_eq ht.left ht.right
  obtain ⟨d, hd, -, hz⟩ := hsum.combine
  obtain ⟨hover, hl, hr⟩ := insertDeltas_spec hAB h.shape ht.left ht.right
  have happly : op.apply F hash t.left t.right = (.ok d, op.insertDeltas F t.left t.right) := by
    unfold apply
    rw [h.kind_eq]
    rw [applyInner, hparts]
    dsimp only
    rw [hd]
  rw [happly]
  refine ⟨d, rfl, ?_, ?_⟩
  · rw [join_add_add, hz, h.left, h.right]
  exact {
    shape := hover
    kind_eq := h.kind_eq
    residual_eq := h.residual_eq
    left := hl.trans (by rw [h.left])
    right := hr.trans (by rw [h.right])
    weights := fun hne => absurd rfl hne
    nonzero := h.nonzero }

/-- The equi-join of two relations: the matching pairs with the product of their weights. Rows match if
their key cells are equal; a null is equal to a null only. -/
noncomputable def innerJoin (ls rs : Schema) (lk rk : List String) (L R : Row →₀ ℤ) : Row →₀ ℤ :=
  ZSet.join (fun l r => keyCells rs rk r = keyCells ls lk l) (fun l r => l ++ nonKeyCells rs rk r) L R

/-- Both sides of an order by customer. -/
def orderSchema : Schema := [intField "id", intField "customer"]

def customerSchema : Schema := [intField "customer", ⟨"name", .utf8, true⟩]

/-- Orders with and without a customer, a customer in the same tick as an order, and a withdrawal. -/
def orderTicks : List Tick :=
  [.ofLeft orderSchema [([.int 1, .int 7], 1), ([.int 2, .null], 1)],
    ⟨some ⟨orderSchema, [([.int 3, .int 7], 2)]⟩, some ⟨customerSchema, [([.int 7, .str "a"], 1)]⟩⟩,
    ⟨some ⟨orderSchema, [([.int 1, .int 7], -1)]⟩, some ⟨customerSchema, [([.null, .str "b"], 1)]⟩⟩]

lemma orderTicks_conform : ∀ t ∈ orderTicks, t.Conforms orderSchema customerSchema :=
  conforms_of_lists (by decide +kernel)

/-- Orders are joined with customers in every way. -/
lemma orders_join (kind : IncrJoinType) : ∃ op, newWithLateness orderSchema customerSchema
    ["customer"] ["customer"] kind none = .ok op := by
  cases kind <;> exact Except.ok_of_isSome (by decide +kernel)

lemma orders_sameKeys : SameKeys orderSchema customerSchema ["customer"] ["customer"] :=
  ⟨by decide +kernel, by decide +kernel, by decide +kernel⟩

lemma orders_unambiguous {ts : List Tick} (h : ∀ t ∈ ts, t.Conforms orderSchema customerSchema) :
    Unambiguous orderSchema (leftRows ts) ∧ Unambiguous customerSchema (rightRows ts) :=
  ⟨unambiguous_of_plain (by decide +kernel) (by decide +kernel) (holds_leftRows h),
    unambiguous_of_plain (by decide +kernel) (by decide +kernel) (holds_rightRows h)⟩

/-- The join of what a run gives, row by row. -/
lemma innerJoin_apply (ls rs : Schema) (lk rk : List String) (ticks : List Tick) (r : Row) :
    innerJoin ls rs lk rk (leftSum ticks) (rightSum ticks) r =
      weight (pairs (keyCells ls lk) (keyCells rs rk) (fun l r => l ++ nonKeyCells rs rk r)
        (leftGiven ticks) (rightGiven ticks)) r := by
  rw [innerJoin, leftSum_eq, rightSum_eq, ← toZ_pairs, toZ_apply]

/-! ## Runs on fixed inputs -/

/-- Two columns of one name. -/
def twinSchema : Schema := [intField "k", intField "v", intField "v"]

def keyOnlySchema : Schema := [intField "k"]

/-- Two rows that differ in the second column `v`, two others that fill the level, and their key. -/
def twinTicks : List Tick :=
  [.ofLeft twinSchema [([.int 1, .int 5, .int 0], 1)], .ofLeft twinSchema [([.int 1, .int 5, .int 1], 1)],
    .ofLeft twinSchema [([.int 2, .int 0, .int 0], 1)], .ofLeft twinSchema [([.int 3, .int 0, .int 0], 1)],
    .ofRight keyOnlySchema [([.int 1], 1)]]

def nanSchema : Schema := [floatField "k", intField "v"]

/-- Rows whose keys are two NaNs, two others that fill the level, and the second NaN. -/
def nanTicks : List Tick :=
  [.ofLeft nanSchema [([.float 9221120237041090560, .int 7], 1)],
    .ofLeft nanSchema [([.float 9221120237041090561, .int 7], 1)],
    .ofLeft nanSchema [([.float 0, .int 0], 1)], .ofLeft nanSchema [([.float 0, .int 1], 1)],
    .ofRight [floatField "k"] [([.float 9221120237041090561], 1)]]

/-- An integer that is the bit pattern of a float, in one tick with the float. -/
def bitsTicks : List Tick :=
  [⟨some ⟨keyOnlySchema, [([.int 4607182418800017408], 1)]⟩,
    some ⟨[floatField "k"], [([.float 4607182418800017408], 1)]⟩⟩]

end Krishiv.Delta
