import Krishiv.Delta.InnerJoin

/-!
# The left outer join

A left outer join adds to the pairs every left row whose key has no weight on the right, padded with
nulls. A tick pads the new left rows without a partner, and it takes back or emits the padded rows of
old left rows whose key gains its first or loses its last right row. Over right sides without negative
weights the ticks emit the left outer join (`emits_left_outer_join`), except where a left row arrives in
the tick in which its last partner leaves, or the old rows of a key cannot be looked up
(`outer_join_wrong`).
-/

namespace Krishiv.Delta

open List ZSet IncrementalJoinOp Finsupp ZSet

variable {F : FloatFormat} (hash : List Text → ℕ) {A B : Side} {op : IncrementalJoinOp}

/-! ## Padded rows -/

/-- A left row with nulls in place of the right columns. -/
def nullRow (B : Side) (a : Row) : Row :=
  a ++ List.replicate (B.schema.filter fun f => f.name ∉ B.keyNames).length Value.null

lemma DeltaBatch.scale_zset (c : ℤ) (d : DeltaBatch) : (d.scale c).zset = c • d.zset := toZ_scale c d.rows

variable {d : DeltaBatch}

lemma DeltaBatch.Of.scale {s : Schema} {S : Set Row} (h : d.Of s S) (c : ℤ) : (d.scale c).Of s S := by
  refine ⟨h.schema_eq, fun p hp => ?_⟩
  obtain ⟨q, hq, rfl⟩ := mem_map.mp hp
  exact h.rows_mem q hq

section

variable (hA : A.Good F) (hop : op.Over A B) (hkind : op.joinType = .leftOuter) (hd : d.Of A.schema A.rows)

include hA hop hkind hd

/-- The batch of padded rows. -/
lemma buildNullPaddedBatch_spec : ∃ c, buildNullPaddedBatch d op.outputSchema op.leftFieldCount = .ok c ∧
    c.schema = op.outputSchema ∧ c.zset = d.zset.mapDomain (nullRow B) := by
  have hschema : op.outputSchema = A.schema ++
      (B.schema.filter fun f => f.name ∉ B.keyNames).map fun f => { f with nullable := true } := by
    rw [hop.output, hkind]
    rfl
  have hwidth : op.outputSchema.length - op.leftFieldCount =
      (B.schema.filter fun f => f.name ∉ B.keyNames).length := by
    rw [hschema, hop.fieldCount, length_append, length_map]
    omega
  have hcheck : checkBatch op.outputSchema (d.schema.types ++ Schema.types (op.outputSchema.drop op.leftFieldCount))
      ((d.rows.map fun p => (nullRow B p.1, p.2)).map Prod.fst) = .ok () := by
    refine checkBatch_eq_ok ?_ fun r hr => ?_
    · rw [hop.fieldCount, hd.schema_eq, hschema, drop_left']
      · exact (map_append).symm
      · rfl
    rw [map_map] at hr
    obtain ⟨p, hp, rfl⟩ := mem_map.mp hr
    rw [hschema]
    exact Schema.holds_append (hA.holds _ (hd.rows_mem p hp)) (Schema.holds_nulls _)
  unfold buildNullPaddedBatch
  rw [hwidth]
  simp only [bind, Except.bind]
  rw [show (d.rows.map fun p => (p.1 ++ List.replicate
    (B.schema.filter fun f => f.name ∉ B.keyNames).length Value.null, p.2)) =
      d.rows.map fun p => (nullRow B p.1, p.2) from rfl, hcheck]
  exact ⟨_, rfl, rfl, toZ_map _ _⟩

lemma paddedRows_spec : ∃ parts, op.paddedRows d = .ok parts ∧
      Parts op.outputSchema (d.zset.mapDomain (nullRow B)) parts := by
  unfold paddedRows
  split_ifs with hempty
  · refine ⟨[], rfl, ?_⟩
    rw [DeltaBatch.zset_of_isEmpty hempty, mapDomain_zero]
    exact .nil
  · obtain ⟨c, hc, hschema, hz⟩ := buildNullPaddedBatch_spec hA hop hkind hd
    exact ⟨part c, by rw [hc]; rfl, hz ▸ .part hschema⟩

end

lemma filter_of_isEmpty {keys : List Key} (h : keys.isEmpty = true) {Z : Row →₀ ℤ} {key : Row → Key} :
    (Z.filter fun a => key a ∈ keys) = 0 := by
  rw [List.isEmpty_iff.mp h]
  exact filter_eq_zero_iff _ _ |>.mpr fun a ha => by cases ha

/-- The padded rows of some keys. -/
lemma nullRows_spec (hAB : Comparable F A B) (hprobe : Probeable A B) (hop : op.Over A B)
    (hkind : op.joinType = .leftOuter) (sign : ℤ) {keys : List Key}
    (hkeys : ∀ k ∈ keys, ∃ b ∈ B.rows, B.key F b = k) :
    ∃ parts, op.nullRows F hash sign keys = .ok parts ∧ Parts op.outputSchema
        (sign • (op.leftTrace.zset.filter fun a => A.key F a ∈ keys).mapDomain (nullRow B)) parts := by
  unfold nullRows
  split_ifs with hempty
  · refine ⟨[], rfl, ?_⟩
    rw [filter_of_isEmpty hempty, mapDomain_zero, zsmul_zero]
    exact .nil
  obtain ⟨found, hfound, hof, hz⟩ := rowsOfKeys_spec hash hAB hprobe hop.leftTrace hop.leftCols hkeys
  have hrows : op.leftRowsOf F hash keys = .ok found := by
    rw [leftRowsOf, hop.leftKeyCols, hop.leftSchema]
    exact hfound
  have hsum : (found.scale sign).zset.mapDomain (nullRow B) =
      sign • (op.leftTrace.zset.filter fun a => A.key F a ∈ keys).mapDomain (nullRow B) := by
    rw [DeltaBatch.scale_zset, hz]
    exact map_zsmul (mapDomain.addMonoidHom (nullRow B)) sign _
  rw [hrows, ← hsum]
  exact paddedRows_spec hAB.left hop hkind (hof.scale sign)

/-! ## The output of a tick -/

/-- Selecting keyed rows by key. -/
lemma filter_keyed (rows : List (Row × ℤ)) (p : Key → Bool) :
    (((rows.map fun q => (A.key F q.1, q)).filter fun e => p e.1).map Prod.snd) =
      rows.filter fun q => p (A.key F q.1) := by
  rw [filter_map, map_map]
  exact map_id _

lemma DeltaBatch.Of.filter {s : Schema} {S : Set Row} (h : d.Of s S) (p : Row × ℤ → Bool) :
    (DeltaBatch.mk s (d.rows.filter p)).Of s S :=
  ⟨rfl, fun q hq => h.rows_mem q (mem_filter.mp hq).1⟩

variable {change : KVMap Key ℤ}

/-- The left rows of a tick, padded or joined by the weight `n` of their key. -/
lemma probeLeftOuter_spec (hAB : Comparable F A B) (hop : op.Over A B)
    (hkind : op.joinType = .leftOuter) {n : Key → ℤ} (hn : ∀ k, op.effectiveWeight change k = n k)
    {left : DeltaBatch} (hleft : left.Of A.schema A.rows) :
    ∃ d, op.probeLeftOuterAgainstRightTrace F hash change left = .ok d ∧ d.schema = op.outputSchema ∧
      d.zset = (left.zset.filter fun a => n (A.key F a) = 0).mapDomain (nullRow B) +
        join (Matches F A B) (joinRow B) (left.zset.filter fun a => n (A.key F a) ≠ 0) op.rightTrace.zset := by
  have hpairs : op.joinType.pairs = true := by rw [hkind]; rfl
  obtain ⟨padded, hpadded, hpaddedZ⟩ := paddedRows_spec hAB.left hop hkind
    (hleft.filter fun q => n (A.key F q.1) = 0)
  have hmatchedZ := toZ_filter (fun a => n (A.key F a) ≠ 0) left.rows
  obtain ⟨joined, hjoined, hjoinedZ⟩ : ∃ parts,
      whenPresent (some ⟨A.schema, left.rows.filter fun q => n (A.key F q.1) ≠ 0⟩)
          (fun l => (op.probeLeftAgainstRightTrace F hash l).map part) = .ok parts ∧
        Parts op.outputSchema (join (Matches F A B) (joinRow B)
          (left.zset.filter fun a => n (A.key F a) ≠ 0) op.rightTrace.zset) parts := by
    rw [DeltaBatch.zset, ← hmatchedZ]
    refine whenPresent_spec (fun hzero => ?_) fun l hl => ?_
    · have hz : toZ (left.rows.filter fun q => n (A.key F q.1) ≠ 0) = 0 := hzero
      rw [hz, join_zero_left]
      exact .nil
    cases hl
    obtain ⟨d, hd, hschema, hz⟩ := probeLeft_spec hAB hop hpairs (hleft.filter fun q => n (A.key F q.1) ≠ 0)
    refine ⟨part d, by rw [hd]; rfl, ?_⟩
    have hpart := Parts.part hschema
    rw [hz] at hpart
    exact hpart
  obtain ⟨d, hd, hschema, hz⟩ := (hpaddedZ.append hjoinedZ).combine
  refine ⟨d, ?_, hschema, ?_⟩
  · unfold probeLeftOuterAgainstRightTrace
    rw [hleft.schema_eq, hop.leftKeyCols, hAB.left.cols_eq]
    simp only [bind, Except.bind, keyedBy_eq hAB.left, hn,
      filter_keyed left.rows fun k => decide (n k = 0), filter_keyed left.rows fun k => decide (n k ≠ 0)]
    rw [hpadded]
    rw [hjoined]
    exact hd
  · rw [hz]
    congr 2
    exact toZ_filter (fun a => n (A.key F a) = 0) left.rows

/-- The right rows of a tick, and the padded rows of the keys that cross zero. -/
lemma probeRightOuter_spec (hAB : Comparable F A B) (hprobe : Probeable A B) (hop : op.Over A B)
    (hkind : op.joinType = .leftOuter) {weights : KVMap Key ℤ}
    (hkeys : ∀ k ∈ change.keys, ∃ b ∈ B.rows, B.key F b = k) {right : DeltaBatch}
    (hright : right.Of B.schema B.rows) :
    ∃ parts, op.probeRightOuterAgainstLeftTrace F hash weights change right = .ok parts ∧
      Parts op.outputSchema (join (Matches F A B) (joinRow B) op.leftTrace.zset right.zset +
        (-1 : ℤ) • (op.leftTrace.zset.filter fun a =>
          A.key F a ∈ changedKeys weights change crossedUp).mapDomain (nullRow B) +
        (1 : ℤ) • (op.leftTrace.zset.filter fun a =>
          A.key F a ∈ changedKeys weights change crossedDown).mapDomain (nullRow B)) parts := by
  have hpairs : op.joinType.pairs = true := by rw [hkind]; rfl
  have hchanged : ∀ p, ∀ k ∈ changedKeys weights change p, ∃ b ∈ B.rows, B.key F b = k :=
    fun p k hk => hkeys k (changedKeys_subset k hk)
  obtain ⟨d, hd, hschema, hz⟩ := probeRight_spec hAB hop hpairs hright
  obtain ⟨retracted, hretracted, hretractedZ⟩ :=
    nullRows_spec hash hAB hprobe hop hkind (-1) (hchanged crossedUp)
  obtain ⟨emitted, hemitted, hemittedZ⟩ := nullRows_spec hash hAB hprobe hop hkind 1 (hchanged crossedDown)
  refine ⟨part d ++ retracted ++ emitted, ?_, ((hz ▸ Parts.part hschema).append hretractedZ).append hemittedZ⟩
  unfold probeRightOuterAgainstLeftTrace
  rw [hd, hretracted, hemitted]
  rfl

variable {residual : Option MembershipResidual} {L R : Row →₀ ℤ}

/-- What a tick emits, where a left row has the weight `o` of its key before the tick and `n` after it. -/
lemma outer_output (hAB : Comparable F A B) (hprobe : Probeable A B)
    (h : op.Holds F A B .leftOuter residual L R) {t : Tick} (ht : t.Of A B) {o n : Row → ℤ}
    (ho : ∀ a, o a = B.weightOf F R (A.key F a)) (hn : ∀ a, n a = B.weightOf F (R + deltaZ t.right) (A.key F a)) :
    ∃ d, (op.apply F hash t.left t.right).1 = .ok d ∧
      d.zset = ((deltaZ t.left).filter fun a => n a = 0).mapDomain (nullRow B) +
        join (Matches F A B) (joinRow B) ((deltaZ t.left).filter fun a => n a ≠ 0) R +
        (join (Matches F A B) (joinRow B) L (deltaZ t.right) -
          (L.filter fun a => crossedUp (o a) (n a) = true).mapDomain (nullRow B) +
          (L.filter fun a => crossedDown (o a) (n a) = true).mapDomain (nullRow B)) +
        join (Matches F A B) (joinRow B) (deltaZ t.left) (deltaZ t.right) ∧
      (op.apply F hash t.left t.right).2.Holds F A B .leftOuter residual (L + deltaZ t.left)
        (R + deltaZ t.right) := by
  have hkind : IncrJoinType.leftOuter ≠ .inner := by decide
  obtain ⟨change, hchange, hlookup, hkeys⟩ := weightDelta_spec hAB.right ht.right
  -- the left rows of the tick
  obtain ⟨probed, hprobed, hprobedZ⟩ : ∃ parts, whenPresent t.left (fun l =>
      (op.probeLeftOuterAgainstRightTrace F hash change l).map part) = .ok parts ∧
        Parts op.outputSchema (((deltaZ t.left).filter fun a => n a = 0).mapDomain (nullRow B) +
          join (Matches F A B) (joinRow B) ((deltaZ t.left).filter fun a => n a ≠ 0) R) parts := by
    refine whenPresent_spec (fun hzero => ?_) fun l hl => ?_
    · rw [hzero, filter_zero, filter_zero, mapDomain_zero, join_zero_left, add_zero]
      exact .nil
    obtain ⟨d, hd, hschema, hz⟩ := probeLeftOuter_spec hash hAB h.shape h.kind_eq
      (h.effectiveWeight hkind hlookup) (ht.left l hl)
    refine ⟨part d, by rw [hd]; rfl, ?_⟩
    rw [hl, deltaZ, Option.elim_some, ← h.right]
    simp only [hn, ← h.right]
    rw [← h.right] at hz
    exact hz ▸ .part hschema
  -- the right rows of the tick and the keys that cross zero
  have hup : ∀ a, A.key F a ∈ changedKeys op.rightKeyGroupWeights change crossedUp ↔
      crossedUp (o a) (n a) = true := fun a => by
    rw [h.mem_changedKeys hkind hlookup crossedUp_self, ho, hn]
  have hdown : ∀ a, A.key F a ∈ changedKeys op.rightKeyGroupWeights change crossedDown ↔
      crossedDown (o a) (n a) = true := fun a => by
    rw [h.mem_changedKeys hkind hlookup crossedDown_self, ho, hn]
  have hover : (op.updateWeights change).Over A B := { h.shape with }
  obtain ⟨probing, hprobing, hprobingZ⟩ : ∃ parts, whenPresent t.right
      ((op.updateWeights change).probeRightOuterAgainstLeftTrace F hash op.rightKeyGroupWeights change) = .ok parts ∧
        Parts op.outputSchema (join (Matches F A B) (joinRow B) L (deltaZ t.right) -
          (L.filter fun a => crossedUp (o a) (n a) = true).mapDomain (nullRow B) +
          (L.filter fun a => crossedDown (o a) (n a) = true).mapDomain (nullRow B)) parts := by
    refine whenPresent_spec (fun hzero => ?_) fun r hr => ?_
    · have hnone : ∀ p : ℤ → ℤ → Bool, (∀ w, p w w = false) →
          (L.filter fun a => p (o a) (n a) = true) = 0 := fun p hp =>
        (filter_eq_zero_iff _ _).mpr fun a ha => by
          rw [hn, ho, hzero, add_zero, hp] at ha
          cases ha
      rw [hzero, hnone crossedUp crossedUp_self, hnone crossedDown crossedDown_self,
        mapDomain_zero, join_zero_right, sub_zero, add_zero]
      exact .nil
    · obtain ⟨parts, hparts, hz⟩ := probeRightOuter_spec hash hAB hprobe hover h.kind_eq hkeys (ht.right r hr)
      refine ⟨parts, hparts, ?_⟩
      have hleft : (op.updateWeights change).leftTrace.zset = L := h.left
      simp only [hup, hdown, hleft, neg_one_zsmul, one_zsmul, ← sub_eq_add_neg] at hz
      rw [hr]
      exact hz
  obtain ⟨cross, hcross, hcrossZ⟩ := crossTerm_spec hAB hover (congrArg IncrJoinType.pairs h.kind_eq)
    ht.left ht.right
  obtain ⟨d, hd, -, hz⟩ := ((hprobedZ.append hprobingZ).append hcrossZ).combine
  have happly : op.apply F hash t.left t.right =
      (.ok d, (op.updateWeights change).insertDeltas F t.left t.right) := by
    unfold apply
    rw [h.kind_eq]
    unfold applyLeftOuter
    rw [h.shape.rightKeyCols, hchange]
    simp only [bind, Except.bind, hprobed, pure, Except.pure, hprobing, hcross, hd]
  rw [happly]
  exact ⟨d, rfl, hz, h.updateWeights hAB hkind ht hlookup⟩

/-! ## The relation that is maintained -/

/-- The pairs, and every left row whose key has no weight on the right, padded. -/
noncomputable def outerRelation (F : FloatFormat) (A B : Side) (L R : Row →₀ ℤ) : Row →₀ ℤ :=
  ZSet.join (Matches F A B) (joinRow B) L R +
    (L.filter fun a => B.weightOf F R (A.key F a) = 0).mapDomain (nullRow B)

/-- A change of a key's weight that the crossings report: neither from zero down nor from below to zero. -/
def Reported (old new : ℤ) : Prop := ¬(old = 0 ∧ new < 0) ∧ ¬(old < 0 ∧ new = 0)

/-- The ticks after which the relation is right: a new left row whose key is left without weight had no
partner before, and the weights of the keys of old left rows change in a way that is reported. -/
structure OuterTick (F : FloatFormat) (A B : Side) (L R : Row →₀ ℤ) (t : Tick) : Prop where
  of : t.Of A B
  fresh : ∀ a, deltaZ t.left a ≠ 0 → B.weightOf F (R + deltaZ t.right) (A.key F a) = 0 →
    ∀ b, R b ≠ 0 → ¬Matches F A B a b
  reported : ∀ a, L a ≠ 0 →
    Reported (B.weightOf F R (A.key F a)) (B.weightOf F (R + deltaZ t.right) (A.key F a))

/-- The old left rows that change between padded and paired. -/
lemma filter_crossed {o n : Row → ℤ} (h : ∀ a, L a ≠ 0 → Reported (o a) (n a)) :
    (L.filter fun a => n a = 0) = (L.filter fun a => o a = 0) + ((L.filter fun a => crossedDown (o a) (n a) = true) -
        L.filter fun a => crossedUp (o a) (n a) = true) := by
  rw [filter_eq_add_sub (fun a => o a = 0) (fun a => n a = 0)]
  congr 2
  · refine filter_congr_support fun a ha => ?_
    have hrep := (h a ha).2
    simp only [crossedDown, Bool.and_eq_true, decide_eq_true_eq]
    omega
  · refine filter_congr_support fun a ha => ?_
    have hrep := (h a ha).1
    simp only [crossedUp, Bool.and_eq_true, decide_eq_true_eq]
    omega

/-- A tick emits the change of the relation. -/
lemma outer_step (hAB : Comparable F A B) (hprobe : Probeable A B)
    (h : op.Holds F A B .leftOuter residual L R) {t : Tick} (ht : OuterTick F A B L R t) :
    ∃ d, (op.apply F hash t.left t.right).1 = .ok d ∧
      outerRelation F A B (L + deltaZ t.left) (R + deltaZ t.right) = outerRelation F A B L R + d.zset ∧
      (op.apply F hash t.left t.right).2.Holds F A B .leftOuter residual (L + deltaZ t.left)
        (R + deltaZ t.right) := by
  obtain ⟨d, hd, hz, hholds⟩ := outer_output hash hAB hprobe h ht.of (fun _ => rfl) fun _ => rfl
  refine ⟨d, hd, ?_, hholds⟩
  -- the rows that are padded at once had no partner
  have hfresh : join (Matches F A B) (joinRow B) (deltaZ t.left) R = join (Matches F A B) (joinRow B)
        ((deltaZ t.left).filter fun a => B.weightOf F (R + deltaZ t.right) (A.key F a) ≠ 0) R := by
    have hnone : join (Matches F A B) (joinRow B)
        ((deltaZ t.left).filter fun a => B.weightOf F (R + deltaZ t.right) (A.key F a) = 0) R = 0 := by
      refine join_eq_zero _ _ fun a b ha hb => ?_
      rw [filter_apply] at ha
      split_ifs at ha with hn
      · exact ht.fresh a ha hn b hb
      · exact absurd rfl ha
    nth_rewrite 1 [← filter_add_filter_not (deltaZ t.left) fun a =>
      B.weightOf F (R + deltaZ t.right) (A.key F a) = 0]
    rw [join_add_left, hnone, zero_add]
  have hsub : ∀ X Y : Row →₀ ℤ, (X - Y).mapDomain (nullRow B) = X.mapDomain (nullRow B) - Y.mapDomain (nullRow B) :=
    map_sub (mapDomain.addMonoidHom (nullRow B))
  unfold outerRelation
  rw [hz, join_add_add, filter_add, filter_crossed ht.reported, mapDomain_add, mapDomain_add, hsub, hfresh]
  abel

variable {ticks : List Tick}

@[simp] lemma outerRelation_zero : outerRelation F A B 0 0 = 0 := by
  rw [outerRelation, join_zero_left, filter_zero, mapDomain_zero, add_zero]

/-! ## Runs over relations without negative weights -/

open Classical in
/-- The left outer join of two relations: the pairs, and every left row without a matching right row,
padded with nulls. -/
noncomputable def leftOuterJoin (ls rs : Schema) (lk rk : List String) (L R : Row →₀ ℤ) : Row →₀ ℤ :=
  innerJoin ls rs lk rk L R +
    (L.filter fun l => ∀ r, R r ≠ 0 → keyCells rs rk r ≠ keyCells ls lk l).mapDomain fun l =>
      l ++ List.replicate (rs.filter fun f => f.name ∉ rk).length Value.null

/-- No left row arrives in the tick in which the last right row of its key goes. -/
def KeepsPartners (ls rs : Schema) (lk rk : List String) (R : Row →₀ ℤ) (t : Tick) : Prop :=
  ∀ l, deltaZ t.left l ≠ 0 → (∃ r, R r ≠ 0 ∧ keyCells rs rk r = keyCells ls lk l) →
    ∃ r, (R + deltaZ t.right) r ≠ 0 ∧ keyCells rs rk r = keyCells ls lk l

section Nonneg

variable {ls rs : Schema} {lk rk : List String} {SL SR : Set Row}

/-- Without negative weights, a key has no weight if it has no rows. -/
lemma weightOf_eq_zero_iff (hkeys : SameKeys ls rs lk rk) (hR : ∀ r, 0 ≤ R r)
    (hrows : ∀ r, R r ≠ 0 → rs.holds r) {a : Row} (ha : ls.holds a) :
    (sideOf rs rk SR).weightOf F R ((sideOf ls lk SL).key F a) = 0 ↔
      ∀ r, R r ≠ 0 → keyCells rs rk r ≠ keyCells ls lk a := by
  rw [Side.weightOf, total_eq_zero_iff hR]
  refine forall_congr' fun r => ?_
  by_cases hr : R r = 0
  · simp [hr]
  · have hmatch : (sideOf rs rk SR).key F r = (sideOf ls lk SL).key F a ↔
        keyCells rs rk r = keyCells ls lk a := matches_iff hkeys ha (hrows r hr)
    simp [hr, hmatch]

/-- A tick that keeps partners is reported in full. -/
lemma outerTick_of_nonneg (hkeys : SameKeys ls rs lk rk) {t : Tick}
    (ht : t.Of (sideOf ls lk SL) (sideOf rs rk SR)) (hSL : ∀ r ∈ SL, ls.holds r) (hSR : ∀ r ∈ SR, rs.holds r)
    (hR : ∀ r, 0 ≤ R r) (hrows : ∀ r, R r ≠ 0 → r ∈ SR) (hR' : ∀ r, 0 ≤ (R + deltaZ t.right) r)
    (hpartners : KeepsPartners ls rs lk rk R t) : OuterTick F (sideOf ls lk SL) (sideOf rs rk SR) L R t where
  of := ht
  fresh a ha hn b hb hmatch := by
    have haS : ls.holds a := hSL a (deltaZ_mem ht.left ha)
    have hrows' : ∀ r, (R + deltaZ t.right) r ≠ 0 → rs.holds r := fun r hr =>
      hSR r (mem_of_add_deltaZ ht.right hrows hr)
    obtain ⟨r, hr, hkey⟩ := hpartners a ha ⟨b, hb, (matches_iff hkeys haS (hSR b (hrows b hb))).mp hmatch⟩
    exact (weightOf_eq_zero_iff hkeys hR' hrows' haS).mp hn r hr hkey
  reported a _ := by
    have ho : 0 ≤ (sideOf rs rk SR).weightOf F R ((sideOf ls lk SL).key F a) := total_nonneg hR
    have hn : 0 ≤ (sideOf rs rk SR).weightOf F (R + deltaZ t.right) ((sideOf ls lk SL).key F a) :=
      total_nonneg hR'
    unfold Reported
    omega

end Nonneg

/-- No row has a negative weight after a tick. -/
def NonnegGiven (_gl gr : List (Row × ℤ)) (t : Tick) : Prop :=
  ∀ p ∈ gr ++ t.right.elim [] DeltaBatch.rows, 0 ≤ ZSet.weight (gr ++ t.right.elim [] DeltaBatch.rows) p.1

instance (gl gr : List (Row × ℤ)) (t : Tick) : Decidable (NonnegGiven gl gr t) :=
  inferInstanceAs (Decidable (∀ p ∈ _, _))

lemma nonneg_of_given (h : ThroughoutGiven NonnegGiven [] [] ticks) :
    Throughout (fun _ R t => ∀ r, 0 ≤ (R + deltaZ t.right) r) 0 0 ticks :=
  throughout_of_given (fun gl gr t hQ r => by
    rw [deltaZ_eq_toZ, ← toZ_append]
    exact toZ_nonneg_of_mem hQ r) h

/-- Left rows that arrive with a partner keep one. -/
def PartnersGiven (ls rs : Schema) (lk rk : List String) (_gl gr : List (Row × ℤ)) (t : Tick) : Prop :=
  ∀ l ∈ t.left.elim [] DeltaBatch.rows,
    (∃ q ∈ gr, ZSet.weight gr q.1 ≠ 0 ∧ keyCells rs rk q.1 = keyCells ls lk l.1) →
    ∃ q ∈ gr ++ t.right.elim [] DeltaBatch.rows,
      ZSet.weight (gr ++ t.right.elim [] DeltaBatch.rows) q.1 ≠ 0 ∧ keyCells rs rk q.1 = keyCells ls lk l.1

instance (ls rs : Schema) (lk rk : List String) (gl gr : List (Row × ℤ)) (t : Tick) :
    Decidable (PartnersGiven ls rs lk rk gl gr t) :=
  inferInstanceAs (Decidable (∀ l ∈ _, _))

lemma partners_of_given {ls rs : Schema} {lk rk : List String}
    (h : ThroughoutGiven (PartnersGiven ls rs lk rk) [] [] ticks) :
    Throughout (fun _ R t => KeepsPartners ls rs lk rk R t) 0 0 ticks :=
  throughout_of_given (fun gl gr t hQ l hl hpartner => by
    rw [deltaZ_eq_toZ] at hl
    obtain ⟨p, hp, rfl⟩ := mem_of_toZ_ne_zero hl
    obtain ⟨r, hr, hkey⟩ := hpartner
    obtain ⟨q, hq, rfl⟩ := mem_of_toZ_ne_zero hr
    rw [toZ_apply] at hr
    obtain ⟨q', -, hq', hkey'⟩ := hQ p hp ⟨q, hq, hr, hkey⟩
    refine ⟨q'.1, ?_, hkey'⟩
    rw [deltaZ_eq_toZ, ← toZ_append, toZ_apply]
    exact hq') h

/-- Orders and customers come and go, an order with a new customer in one tick, and a customer leaves. -/
def customerTicks : List Tick :=
  orderTicks ++ [.ofRight customerSchema [([.int 7, .str "a"], -1)], .ofLeft orderSchema [([.int 4, .int 7], 1)]]

lemma customerTicks_conform : ∀ t ∈ customerTicks, t.Conforms orderSchema customerSchema :=
  conforms_of_lists (by decide +kernel)

lemma orders_probeable : ProbeableKeys orderSchema customerSchema ["customer"] ["customer"] :=
  ⟨by decide +kernel, by decide +kernel, by decide +kernel⟩

/-- The left outer join of what a run gives, row by row. -/
lemma leftOuterJoin_apply (ls rs : Schema) (lk rk : List String) (ticks : List Tick) (r : Row) :
    leftOuterJoin ls rs lk rk (leftSum ticks) (rightSum ticks) r =
      weight (pairs (keyCells ls lk) (keyCells rs rk) (fun l r => l ++ nonKeyCells rs rk r)
          (leftGiven ticks) (rightGiven ticks)) r +
        weight (((leftGiven ticks).filter fun p => decide (∀ q ∈ rightGiven ticks,
          weight (rightGiven ticks) q.1 ≠ 0 → keyCells rs rk q.1 ≠ keyCells ls lk p.1)).map fun p =>
            (p.1 ++ replicate (rs.filter fun f => f.name ∉ rk).length Value.null, p.2)) r := by
  classical
  rw [leftOuterJoin, Finsupp.add_apply, innerJoin_apply, ← toZ_apply (List.map _ _),
    toZ_map fun l => l ++ List.replicate (rs.filter fun f => f.name ∉ rk).length Value.null,
    toZ_filter fun l => ∀ q ∈ rightGiven ticks,
      weight (rightGiven ticks) q.1 ≠ 0 → keyCells rs rk q.1 ≠ keyCells ls lk l, leftSum_eq]
  congr 3
  refine filter_congr_support fun l _ => ?_
  rw [rightSum_eq]
  simp only [toZ_apply]
  constructor
  · exact fun h q _ => h q.1
  intro h r hr
  have hz : toZ (rightGiven ticks) r ≠ 0 := by rwa [toZ_apply]
  obtain ⟨q, hq, rfl⟩ := mem_of_toZ_ne_zero hz
  exact h q hq hr

/-- A customer leaves in the tick in which their order comes. -/
def partingTicks : List Tick :=
  [.ofRight customerSchema [([.int 7, .str "a"], 1)],
    ⟨some ⟨orderSchema, [([.int 1, .int 7], 1)]⟩, some ⟨customerSchema, [([.int 7, .str "a"], -1)]⟩⟩]

def flagSchema : Schema := [⟨"flag", .boolean, true⟩]

def flagNames : Schema := [⟨"flag", .boolean, true⟩, ⟨"name", .utf8, true⟩]

/-- A row without a partner whose partner comes later, with a key that is no integer and no text. -/
def flagTicks : List Tick := [.ofLeft flagSchema [([.bool true], 1)], .ofRight flagNames [([.bool true, .str "a"], 1)]]

/-- Orders always have a customer. -/
def strictSchema : Schema := [intField "id", ⟨"customer", .int64, false⟩]

/-- The partner of a row comes in one tick with a row that has no key. -/
def nullKeyTicks : List Tick :=
  [.ofLeft strictSchema [([.int 1, .int 7], 1)],
    .ofRight customerSchema [([.int 7, .str "a"], 1), ([.null, .str "b"], 1)]]

end Krishiv.Delta
