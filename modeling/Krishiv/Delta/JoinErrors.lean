import Krishiv.Delta.OuterJoin

/-!
# Ticks that fail

`apply` of a join changes the weights of the keys, looks rows up, and inserts the deltas, in this order,
and the first two can be followed by an error. A tick is a sequence of three stages (`stages`,
`apply_eq_stages`): what comes before every change, what comes after the weights are counted, and the
output put together after the insertions, which cannot fail if the left columns stay the same
(`combineParts_stages`). A tick that fails leaves the operator as it was exactly if a key or a left row is
refused before anything is counted, or if what is counted comes to nothing (`failed_tick_unchanged_iff`).
-/

namespace Krishiv.Delta

open Except

namespace IncrementalJoinOp

variable (F : FloatFormat) (hash : List Text → ℕ) (op : IncrementalJoinOp)

/-- The weights of the tick, and the output that is computed with them. -/
def stages (left right : Option DeltaBatch) : DeltaResult (IncrementalJoinOp × DeltaResult (List DeltaBatch)) :=
  match op.joinType with
  | .inner => (op.innerParts F hash left right).map fun parts => (op, .ok parts)
  | .leftOuter => do
    let change ← weightDelta F op.rightKeyCols right
    let probed ← whenPresent left fun l => (op.probeLeftOuterAgainstRightTrace F hash change l).map part
    let updated := op.updateWeights change
    .ok (updated, do
      let probing ← whenPresent right
        (updated.probeRightOuterAgainstLeftTrace F hash op.rightKeyGroupWeights change)
      let cross ← whenPresent left fun l => whenPresent right fun r => (updated.joinDeltas F l r).map part
      .ok (probed ++ probing ++ cross))
  | .leftSemi | .leftAnti =>
    let semi : Bool := op.joinType = .leftSemi
    if op.membershipResidual.isSome then do
      let changes ← op.changeByKey F right
      let kept ← whenPresent left (op.residualKept F hash semi changes)
      let flips ← op.residualFlips F hash semi changes
      let weights ← op.residualWeights F right
      .ok ({ op with rightKeyGroupWeights := weights }, .ok (kept ++ flips))
    else do
      let change ← weightDelta F op.rightKeyCols right
      let kept ← whenPresent left (op.keptRows F semi change)
      .ok (op.updateWeights change, do
        let gains ← op.flippedRows F hash 1 (changedKeys op.rightKeyGroupWeights change (gained semi))
        let losses ← op.flippedRows F hash (-1) (changedKeys op.rightKeyGroupWeights change (lost semi))
        .ok (kept ++ gains ++ losses))

variable (left right : Option DeltaBatch)

/-- The output and the operator at the end of the stages. -/
def finish : DeltaResult (IncrementalJoinOp × DeltaResult (List DeltaBatch)) →
    DeltaResult DeltaBatch × IncrementalJoinOp
  | .error e => (.error e, op)
  | .ok (updated, .error e) => (.error e, updated)
  | .ok (updated, .ok parts) => (combineParts op.outputSchema parts, updated.insertDeltas F left right)

lemma apply_eq_stages : op.apply F hash left right = op.finish F left right (op.stages F hash left right) := by
  unfold apply stages
  cases hkind : op.joinType with
  | inner =>
    simp only [applyInner]
    cases op.innerParts F hash left right <;> rfl
  | leftOuter =>
    simp only [applyLeftOuter, bind, Except.bind, pure, Except.pure]
    cases weightDelta F op.rightKeyCols right with
    | error e => rfl
    | ok change =>
      dsimp only
      generalize whenPresent left (fun l => (op.probeLeftOuterAgainstRightTrace F hash change l).map part) = probed
      cases probed with
      | error e => rfl
      | ok probed =>
        dsimp only
        generalize whenPresent right _ = probing
        cases probing with
        | error e => rfl
        | ok probing =>
          generalize whenPresent left _ = cross
          cases cross <;> rfl
  | leftSemi | leftAnti =>
    simp only [applyLeftSemiAntiResidual, applyLeftSemiAnti, hkind, bind, Except.bind, pure, Except.pure]
    split_ifs
    · generalize op.changeByKey F right = changes
      cases changes with
      | error e => rfl
      | ok changes =>
        dsimp only
        generalize whenPresent left _ = kept
        cases kept with
        | error e => rfl
        | ok kept =>
          generalize op.residualFlips F hash _ changes = flips
          cases flips with
          | error e => rfl
          | ok flips =>
            generalize op.residualWeights F right = weights
            cases weights <;> rfl
    · generalize weightDelta F op.rightKeyCols right = change
      cases change with
      | error e => rfl
      | ok change =>
        dsimp only
        generalize whenPresent left _ = kept
        cases kept with
        | error e => rfl
        | ok kept =>
          dsimp only
          generalize op.flippedRows F hash 1 _ = gains
          cases gains with
          | error e => rfl
          | ok gains =>
            generalize op.flippedRows F hash (-1) _ = losses
            cases losses <;> rfl

/-! ## Keys of a delta -/

variable {F hash op} {names : List String} {d : Option DeltaBatch}

/-- The key columns are there, and their cells are null or have a text. -/
def KeysReadable (names : List String) (d : Option DeltaBatch) : Prop :=
  ∀ b, present d = some b → ∃ cols, colIndices b.schema names = .ok cols ∧
    ∀ p ∈ b.rows, ∀ i ∈ cols, cell p.1 i = .null ∨ (b.schema.typeAt i).renderable = true

variable (F) in
/-- The weight of the rows of a delta with the key `k`. -/
def keyWeight (names : List String) (d : Option DeltaBatch) (k : Key) : ℤ :=
  match present d with
  | none => 0
  | some b =>
    match colIndices b.schema names with
    | .error _ => 0
    | .ok cols => ((b.rows.filter fun p => keyOf F cols p.1 = k).map Prod.snd).sum

lemma extractKey_ok_iff {s : Schema} {cols : List ℕ} {r : Row} {k : Key} : extractKey F s cols r = .ok k ↔
    (∀ i ∈ cols, cell r i = .null ∨ (s.typeAt i).renderable = true) ∧ k = keyOf F cols r := by
  have hcell : ∀ i t, scalarToKey F (s.typeAt i) (cell r i) = .ok t →
      (cell r i = .null ∨ (s.typeAt i).renderable = true) ∧ t = keyPart F (cell r i) := by
    intro i t h
    unfold scalarToKey at h
    split_ifs at h with hread
    cases h
    exact ⟨hread, rfl⟩
  constructor
  · intro h
    refine ⟨fun i hi => ?_, map_of_mapM (fun i t ht => (hcell i t ht).2) h⟩
    obtain ⟨t, ht⟩ := exists_of_mapM h i hi
    exact (hcell i t ht).1
  · rintro ⟨hread, rfl⟩
    exact mapM_eq_map fun i hi => by rw [scalarToKey, if_pos (hread i hi)]

lemma keyedBy_ok_iff {s : Schema} {cols : List ℕ} {rows : List (Row × ℤ)} {keyed : List (Key × Row × ℤ)} :
    keyedBy F s cols rows = .ok keyed ↔
      (∀ p ∈ rows, ∀ i ∈ cols, cell p.1 i = .null ∨ (s.typeAt i).renderable = true) ∧
      keyed = rows.map fun p => (keyOf F cols p.1, p) := by
  have hrow : ∀ (p : Row × ℤ) e, (extractKey F s cols p.1).map (fun key => (key, p)) = .ok e →
      (∀ i ∈ cols, cell p.1 i = .null ∨ (s.typeAt i).renderable = true) ∧ e = (keyOf F cols p.1, p) := by
    intro p e h
    obtain ⟨key, hkey, rfl⟩ := map_eq_ok_iff.mp h
    obtain ⟨hread, rfl⟩ := extractKey_ok_iff.mp hkey
    exact ⟨hread, rfl⟩
  constructor
  · intro h
    refine ⟨fun p hp => ?_, map_of_mapM (fun p e he => (hrow p e he).2) h⟩
    obtain ⟨e, he⟩ := exists_of_mapM h p hp
    exact (hrow p e he).1
  · rintro ⟨hread, rfl⟩
    refine mapM_eq_map fun p hp => ?_
    rw [extractKey_ok_iff.mpr ⟨hread p hp, rfl⟩]
    rfl

/-- What is computed from the rows with their keys is there exactly if the keys can be read. -/
lemma keyedRows_ok_iff {α : Type} {b : DeltaBatch} {f : List (Key × Row × ℤ) → α} :
    (∃ x, (colIndices b.schema names >>= fun cols => keyedBy F b.schema cols b.rows >>= fun keyed =>
      (.ok (f keyed) : DeltaResult α)) = .ok x) ↔ ∃ cols, colIndices b.schema names = .ok cols ∧
        ∀ p ∈ b.rows, ∀ i ∈ cols, cell p.1 i = .null ∨ (b.schema.typeAt i).renderable = true := by
  constructor
  · rintro ⟨x, h⟩
    obtain ⟨cols, hcols, h⟩ := bind_eq_ok_iff.mp h
    obtain ⟨keyed, hkeyed, -⟩ := bind_eq_ok_iff.mp h
    exact ⟨cols, hcols, (keyedBy_ok_iff.mp hkeyed).1⟩
  · rintro ⟨cols, hcols, hread⟩
    exact ⟨_, bind_eq_ok_iff.mpr ⟨cols, hcols, bind_eq_ok_iff.mpr ⟨_, keyedBy_ok_iff.mpr ⟨hread, rfl⟩, rfl⟩⟩⟩

/-- Right rows are counted exactly if their keys can be read. -/
lemma weightDelta_ok_iff : (∃ change, weightDelta F names d = .ok change) ↔ KeysReadable names d := by
  unfold weightDelta KeysReadable
  cases present d with
  | none => exact ⟨fun _ => nofun, fun _ => ⟨∅, rfl⟩⟩
  | some b => exact keyedRows_ok_iff.trans ⟨fun h _ hb => by cases hb; exact h, fun h => h b rfl⟩

lemma weightDelta_weight {change : KVMap Key ℤ} (h : weightDelta F names d = .ok change) (k : Key) :
    (change.lookup k).getD 0 = keyWeight F names d k := by
  unfold weightDelta at h
  unfold keyWeight
  generalize present d = d at h
  cases d with
  | none =>
    cases h
    rfl
  | some b =>
    obtain ⟨cols, hcols, h⟩ := bind_eq_ok_iff.mp h
    obtain ⟨keyed, hkeyed, h⟩ := bind_eq_ok_iff.mp h
    cases h
    dsimp only
    rw [hcols, KVMap.getD_lookup_sumInto, (keyedBy_ok_iff.mp hkeyed).2, List.map_map, List.filter_map, List.map_map]
    exact zero_add _

/-- A change without weight leaves weights without zeros as they are, and no other change does. -/
lemma addNonzero_unchanged_iff {weights : KVMap Key ℤ} (change : KVMap Key ℤ) (hw : ∀ k, weights.lookup k ≠ some 0) :
    (∀ k, (KVMap.addNonzero weights change).lookup k = weights.lookup k) ↔ ∀ k, (change.lookup k).getD 0 = 0 := by
  have hsum := KVMap.getD_lookup_addNonzero weights change
  have hne := KVMap.lookup_addNonzero_ne_zero change hw
  refine ⟨fun h k => ?_, fun h k => ?_⟩
  · have := hsum k
    rw [h k] at this
    omega
  · have hk := hsum k
    rw [h k, add_zero] at hk
    have := hw k
    have := hne k
    cases hnew : (KVMap.addNonzero weights change).lookup k <;> cases hold : weights.lookup k <;> simp_all

/-! ## Parts that can be put together -/

/-- All batches have columns of these types and nullability. -/
def Shaped (shape : List (DataType × Bool)) (ds : List DeltaBatch) : Prop := ∀ d ∈ ds, d.schema.shape = shape

variable {shape : List (DataType × Bool)}

lemma Shaped.append {ds ds' : List DeltaBatch} (h : Shaped shape ds) (h' : Shaped shape ds') :
    Shaped shape (ds ++ ds') := List.forall_mem_append.mpr ⟨h, h'⟩

lemma shaped_part {b : DeltaBatch} (h : b.schema.shape = shape) : Shaped shape (part b) := by
  unfold part
  split
  · exact nofun
  · exact List.forall_mem_singleton.mpr h

lemma shaped_whenPresent {f : DeltaBatch → DeltaResult (List DeltaBatch)} {ds : List DeltaBatch}
    (hf : ∀ b ds, d = some b → f b = .ok ds → Shaped shape ds) (h : whenPresent d f = .ok ds) : Shaped shape ds := by
  unfold whenPresent at h
  split at h
  · cases h
    exact nofun
  · next b hb => exact hf b ds (Option.filter_eq_some_iff.mp hb).1 h

variable {schema : Schema} {ds : List DeltaBatch}

/-- Parts of one shape can be put together. -/
lemma combineParts_total (h : Shaped shape ds) : ∃ b, combineParts schema ds = .ok b := by
  unfold combineParts
  split
  · exact ⟨_, rfl⟩
  · next b => exact ⟨b, rfl⟩
  · next hne _ => exact (DeltaBatch.concat_total hne h).imp fun _ => And.left

lemma combineParts_shape {b : DeltaBatch} (h : Shaped schema.shape ds) (hb : combineParts schema ds = .ok b) :
    b.schema.shape = schema.shape := by
  unfold combineParts at hb
  split at hb
  · cases hb
    rfl
  · cases hb
    exact h b (List.mem_singleton_self b)
  · obtain ⟨x, hx, hschema⟩ := (DeltaBatch.concat_eq_ok hb).1
    rw [← hschema]
    exact h x hx

/-- What is found in a trace of batches of one shape has this shape. -/
lemma probeByKeys_shape {t : Trace} {keys : RecordBatch} {b : DeltaBatch}
    (ht : ∀ b ∈ t.batches, b.schema.shape = t.schema.shape) (h : t.probeByKeys F hash keys = .ok b) :
    b.schema.shape = t.schema.shape := by
  unfold Trace.probeByKeys at h
  split_ifs at h with hnone
  · cases h
    rfl
  obtain ⟨keySet, -, h⟩ := bind_eq_ok_iff.mp h
  obtain ⟨results, hresults, h⟩ := bind_eq_ok_iff.mp h
  dsimp only at h
  split_ifs at h with hfound
  · cases h
    rfl
  obtain ⟨merged, hmerged, h⟩ := bind_eq_ok_iff.mp h
  cases h
  obtain ⟨x, hx, hschema⟩ := (DeltaBatch.concat_eq_ok hmerged).1
  obtain ⟨batch, hbatch, hprobe⟩ := (mem_mapM_iff hresults).mp (by simpa using hx : some x ∈ results)
  obtain ⟨keys, -, hprobe⟩ := bind_eq_ok_iff.mp hprobe
  have hfrom : x.schema = batch.schema := by
    dsimp only at hprobe
    split_ifs at hprobe
    · cases hprobe
    · rw [← Option.some.inj (Except.ok.inj hprobe)]
  show merged.schema.shape = _
  rw [← hschema, hfrom]
  exact ht batch hbatch

variable {l r b : DeltaBatch} {keys : List Key} {change : KVMap Key ℤ}

lemma joinDeltas_schema (h : op.joinDeltas F l r = .ok b) : b.schema = op.outputSchema := by
  obtain ⟨leftCols, -, h⟩ := bind_eq_ok_iff.mp h
  obtain ⟨rightCols, -, h⟩ := bind_eq_ok_iff.mp h
  obtain ⟨paired, -, h⟩ := bind_eq_ok_iff.mp h
  split_ifs at h
  · cases h
    rfl
  · obtain ⟨_, -, h⟩ := bind_eq_ok_iff.mp h
    cases h
    rfl

lemma probeLeftAgainstRightTrace_schema (h : op.probeLeftAgainstRightTrace F hash l = .ok b) :
    b.schema = op.outputSchema := by
  obtain ⟨keys, -, h⟩ := bind_eq_ok_iff.mp h
  obtain ⟨found, -, h⟩ := bind_eq_ok_iff.mp h
  split_ifs at h
  · cases h
    rfl
  · exact joinDeltas_schema h

lemma probeRightAgainstLeftTrace_schema (h : op.probeRightAgainstLeftTrace F hash r = .ok b) :
    b.schema = op.outputSchema := by
  obtain ⟨keys, -, h⟩ := bind_eq_ok_iff.mp h
  obtain ⟨found, -, h⟩ := bind_eq_ok_iff.mp h
  split_ifs at h
  · cases h
    rfl
  · exact joinDeltas_schema h

lemma shaped_map_part {x : DeltaResult DeltaBatch} (hx : ∀ b, x = .ok b → b.schema.shape = shape)
    (h : x.map part = .ok ds) : Shaped shape ds := by
  obtain ⟨b, hb, rfl⟩ := map_eq_ok_iff.mp h
  exact shaped_part (hx b hb)

lemma paddedRows_shaped (h : op.paddedRows l = .ok ds) : Shaped op.outputSchema.shape ds := by
  unfold paddedRows at h
  split_ifs at h
  · cases h
    exact nofun
  · refine shaped_map_part (fun b hb => ?_) h
    obtain ⟨_, -, hb⟩ := bind_eq_ok_iff.mp hb
    cases hb
    rfl

lemma nullRows_shaped {sign : ℤ} (h : op.nullRows F hash sign keys = .ok ds) :
    Shaped op.outputSchema.shape ds := by
  unfold nullRows at h
  split_ifs at h
  · cases h
    exact nofun
  · split at h
    · cases h
      exact nofun
    · exact paddedRows_shaped h

lemma probeLeftOuter_shape (h : op.probeLeftOuterAgainstRightTrace F hash change l = .ok b) :
    b.schema.shape = op.outputSchema.shape := by
  obtain ⟨cols, -, h⟩ := bind_eq_ok_iff.mp h
  obtain ⟨keyed, -, h⟩ := bind_eq_ok_iff.mp h
  obtain ⟨padded, hpadded, h⟩ := bind_eq_ok_iff.mp h
  obtain ⟨joined, hjoined, h⟩ := bind_eq_ok_iff.mp h
  have hjoin : Shaped op.outputSchema.shape joined := shaped_whenPresent
    (fun l ds _ => shaped_map_part fun b hb => by rw [probeLeftAgainstRightTrace_schema hb]) hjoined
  exact combineParts_shape ((paddedRows_shaped hpadded).append hjoin) h

lemma probeRightOuter_shaped {weights : KVMap Key ℤ}
    (h : op.probeRightOuterAgainstLeftTrace F hash weights change r = .ok ds) :
    Shaped op.outputSchema.shape ds := by
  obtain ⟨joined, hjoined, h⟩ := bind_eq_ok_iff.mp h
  obtain ⟨retracted, hretracted, h⟩ := bind_eq_ok_iff.mp h
  obtain ⟨emitted, hemitted, h⟩ := bind_eq_ok_iff.mp h
  cases h
  have hjoin : joined.schema.shape = op.outputSchema.shape := by
    rw [probeRightAgainstLeftTrace_schema hjoined]
  exact ((shaped_part hjoin).append (nullRows_shaped hretracted)).append (nullRows_shaped hemitted)

lemma cross_shaped {left right : Option DeltaBatch}
    (h : (whenPresent left fun l => whenPresent right fun r => (op.joinDeltas F l r).map part) = .ok ds) :
    Shaped op.outputSchema.shape ds :=
  shaped_whenPresent (fun l ds _ => shaped_whenPresent fun r ds _ =>
    shaped_map_part fun b hb => by rw [joinDeltas_schema hb]) h

/-! ### Rows of the left trace -/

variable (op) in
/-- The left delta has columns like the batches of the left trace, no weight that is kept is zero, and no sum
of weights leaves the range of an `i64`. -/
structure Kept (left right : Option DeltaBatch) : Prop where
  trace : Shaped op.leftTrace.schema.shape op.leftTrace.batches
  delta : ∀ l, left = some l → l.schema.shape = op.leftTrace.schema.shape
  nonzero : ∀ k, op.rightKeyGroupWeights.lookup k ≠ some 0
  range : (op.rightKeyGroupWeights.entries.map fun e => e.2.natAbs).sum +
    massOf (right.elim [] DeltaBatch.rows) < 2 ^ 63

lemma leftRowsOf_shape (ht : Shaped op.leftTrace.schema.shape op.leftTrace.batches)
    (h : op.leftRowsOf F hash keys = .ok b) : b.schema.shape = op.leftTrace.schema.shape := by
  obtain ⟨probe, -, h⟩ := bind_eq_ok_iff.mp h
  exact probeByKeys_shape ht h

lemma flippedRows_shaped (ht : Shaped op.leftTrace.schema.shape op.leftTrace.batches) {sign : ℤ}
    (h : op.flippedRows F hash sign keys = .ok ds) : Shaped op.leftTrace.schema.shape ds := by
  unfold flippedRows at h
  split_ifs at h
  · cases h
    exact nofun
  · obtain ⟨found, hfound, h⟩ := bind_eq_ok_iff.mp h
    cases h
    have hshape : found.schema.shape = op.leftTrace.schema.shape := leftRowsOf_shape ht hfound
    exact shaped_part hshape

lemma groupMatchesByKey_schema {m : KVMap Key DeltaBatch} (h : groupMatchesByKey F names l = .ok m) {k : Key}
    (hk : m.lookup k = some b) : b.schema = l.schema := by
  obtain ⟨cols, -, h⟩ := bind_eq_ok_iff.mp h
  obtain ⟨keyed, -, h⟩ := bind_eq_ok_iff.mp h
  cases h
  rw [KVMap.lookup_map] at hk
  obtain ⟨rows, -, rfl⟩ := Option.map_eq_some_iff.mp hk
  rfl

lemma residualFlips_shaped (ht : Shaped op.leftTrace.schema.shape op.leftTrace.batches) {semi : Bool}
    {changes : KVMap Key DeltaBatch} (h : op.residualFlips F hash semi changes = .ok ds) :
    Shaped op.leftTrace.schema.shape ds := by
  unfold residualFlips at h
  dsimp only at h
  split_ifs at h
  · cases h
    exact nofun
  obtain ⟨allLeft, hall, h⟩ := bind_eq_ok_iff.mp h
  obtain ⟨leftByKey, hleft, h⟩ := bind_eq_ok_iff.mp h
  obtain ⟨rightByKey, -, h⟩ := bind_eq_ok_iff.mp h
  obtain ⟨parts, hparts, h⟩ := bind_eq_ok_iff.mp h
  cases h
  intro d hd
  obtain ⟨ds, hds, hd⟩ := List.mem_flatten.mp hd
  obtain ⟨key, -, hkey⟩ := (mem_mapM_iff hparts).mp hds
  unfold residualFlipsAt at hkey
  split at hkey
  · cases hkey
    exact absurd hd List.not_mem_nil
  · next found hfound =>
    obtain ⟨flips, -, hkey⟩ := bind_eq_ok_iff.mp hkey
    cases hkey
    refine shaped_part ?_ d hd
    rw [groupMatchesByKey_schema hleft hfound]
    exact leftRowsOf_shape ht hall

variable {left right : Option DeltaBatch} {updated : IncrementalJoinOp}

/-- A tick that has computed all parts of its output can put them together. -/
lemma combineParts_stages (hkept : op.Kept left right)
    (h : op.stages F hash left right = .ok (updated, .ok ds)) : ∃ b, combineParts op.outputSchema ds = .ok b := by
  suffices hshaped : ∃ shape, Shaped shape ds from hshaped.elim fun _ h => combineParts_total h
  unfold stages at h
  cases hkind : op.joinType with
  | inner =>
    rw [hkind] at h
    obtain ⟨parts, hparts, heq⟩ := map_eq_ok_iff.mp h
    cases heq
    obtain ⟨probed, hprobed, hparts⟩ := bind_eq_ok_iff.mp hparts
    obtain ⟨probing, hprobing, hparts⟩ := bind_eq_ok_iff.mp hparts
    obtain ⟨cross, hcross, hparts⟩ := bind_eq_ok_iff.mp hparts
    cases hparts
    have hprobed : Shaped op.outputSchema.shape probed := shaped_whenPresent
      (fun l ds _ => shaped_map_part fun b hb => by rw [probeLeftAgainstRightTrace_schema hb]) hprobed
    have hprobing : Shaped op.outputSchema.shape probing := shaped_whenPresent
      (fun r ds _ => shaped_map_part fun b hb => by rw [probeRightAgainstLeftTrace_schema hb]) hprobing
    exact ⟨_, (hprobed.append hprobing).append (cross_shaped hcross)⟩
  | leftOuter =>
    rw [hkind] at h
    obtain ⟨change, -, h⟩ := bind_eq_ok_iff.mp h
    obtain ⟨probed, hprobed, h⟩ := bind_eq_ok_iff.mp h
    obtain ⟨hupdated, h⟩ := Prod.mk.inj (Except.ok.inj h)
    obtain ⟨probing, hprobing, h⟩ := bind_eq_ok_iff.mp h
    obtain ⟨cross, hcross, h⟩ := bind_eq_ok_iff.mp h
    cases h
    have hprobed : Shaped op.outputSchema.shape probed := shaped_whenPresent
      (fun l ds _ => shaped_map_part fun b hb => probeLeftOuter_shape hb) hprobed
    have hprobing : Shaped op.outputSchema.shape probing := shaped_whenPresent
      (fun r ds _ hr => probeRightOuter_shaped hr) hprobing
    exact ⟨_, (hprobed.append hprobing).append (cross_shaped hcross)⟩
  | leftSemi | leftAnti =>
    rw [hkind] at h
    dsimp only at h
    refine ⟨op.leftTrace.schema.shape, ?_⟩
    split_ifs at h
    · obtain ⟨changes, -, h⟩ := bind_eq_ok_iff.mp h
      obtain ⟨kept, hkeep, h⟩ := bind_eq_ok_iff.mp h
      obtain ⟨flips, hflips, h⟩ := bind_eq_ok_iff.mp h
      obtain ⟨weights, -, h⟩ := bind_eq_ok_iff.mp h
      cases h
      refine .append (shaped_whenPresent (fun l ds hl hds => ?_) hkeep) (residualFlips_shaped hkept.trace hflips)
      obtain ⟨cols, -, hds⟩ := bind_eq_ok_iff.mp hds
      obtain ⟨keyed, -, hds⟩ := bind_eq_ok_iff.mp hds
      obtain ⟨found, -, hds⟩ := bind_eq_ok_iff.mp hds
      obtain ⟨byKey, -, hds⟩ := bind_eq_ok_iff.mp hds
      obtain ⟨weighed, -, hds⟩ := bind_eq_ok_iff.mp hds
      cases hds
      exact shaped_part (hkept.delta l hl)
    · obtain ⟨change, -, h⟩ := bind_eq_ok_iff.mp h
      obtain ⟨kept, hkeep, h⟩ := bind_eq_ok_iff.mp h
      obtain ⟨hupdated, h⟩ := Prod.mk.inj (Except.ok.inj h)
      obtain ⟨gains, hgains, h⟩ := bind_eq_ok_iff.mp h
      obtain ⟨losses, hlosses, h⟩ := bind_eq_ok_iff.mp h
      cases h
      refine (Shaped.append (shaped_whenPresent (fun l ds hl hds => ?_) hkeep)
        (flippedRows_shaped hkept.trace hgains)).append (flippedRows_shaped hkept.trace hlosses)
      obtain ⟨cols, -, hds⟩ := bind_eq_ok_iff.mp hds
      obtain ⟨keyed, -, hds⟩ := bind_eq_ok_iff.mp hds
      cases hds
      exact shaped_part (hkept.delta l hl)

/-! ## What a failed tick leaves -/

/-- The traces and the weight of every key are the same. -/
structure Unchanged (op op' : IncrementalJoinOp) : Prop where
  left : op'.leftTrace = op.leftTrace
  right : op'.rightTrace = op.rightTrace
  weights : ∀ k, op'.rightKeyGroupWeights.lookup k = op.rightKeyGroupWeights.lookup k

lemma Unchanged.refl : op.Unchanged op := ⟨rfl, rfl, fun _ => rfl⟩

lemma unchanged_updateWeights_iff (hw : ∀ k, op.rightKeyGroupWeights.lookup k ≠ some 0)
    (hchange : weightDelta F op.rightKeyCols right = .ok change) :
    op.Unchanged (op.updateWeights change) ↔ ∀ k, keyWeight F op.rightKeyCols right k = 0 := by
  have hkeys := addNonzero_unchanged_iff change hw
  simp only [weightDelta_weight hchange] at hkeys
  exact ⟨fun h => hkeys.mp h.weights, fun h => ⟨rfl, rfl, hkeys.mpr h⟩⟩

variable (F hash op) in
/-- The left rows of the tick cannot be joined with the right trace or padded. -/
def LeftRefused (left right : Option DeltaBatch) : Prop :=
  ∃ l change e, present left = some l ∧ weightDelta F op.rightKeyCols right = .ok change ∧
    op.probeLeftOuterAgainstRightTrace F hash change l = .error e

variable (F hash op) in
/-- An inner join and a join with a membership predicate count after all lookups. A left outer join counts
before it looks its right rows up, and what it has counted must cancel for every key unless a key of them
or a left row was refused before. A semi or anti join looks up after counting only what did not cancel. -/
def Harmless (left right : Option DeltaBatch) : Prop :=
  match op.joinType with
  | .inner => True
  | .leftOuter => ¬KeysReadable op.rightKeyCols right ∨ op.LeftRefused F hash left right ∨
      ∀ k, keyWeight F op.rightKeyCols right k = 0
  | .leftSemi | .leftAnti => op.membershipResidual.isSome = true ∨ ¬KeysReadable op.rightKeyCols right ∨
      ¬KeysReadable op.leftKeyCols left
lemma keptRows_ok_iff {semi : Bool} :
    (∃ ds, whenPresent left (op.keptRows F semi change) = .ok ds) ↔ KeysReadable op.leftKeyCols left := by
  unfold whenPresent KeysReadable
  cases present left with
  | none => exact ⟨fun _ => nofun, fun _ => ⟨[], rfl⟩⟩
  | some l => exact keyedRows_ok_iff.trans ⟨fun h _ hl => by cases hl; exact h, fun h => h l rfl⟩

/-- A semi or anti join that fails after counting has counted a key that does not cancel. -/
lemma flippedRows_error {p : ℤ → ℤ → Bool} (hp : ∀ w, p w w = false) {sign : ℤ} {e : DeltaError}
    (h : op.flippedRows F hash sign (changedKeys op.rightKeyGroupWeights change p) = .error e) :
    ∃ k, (change.lookup k).getD 0 ≠ 0 := by
  unfold flippedRows at h
  split_ifs at h with hnone
  obtain ⟨k, hk⟩ := List.exists_mem_of_ne_nil _ (mt List.isEmpty_iff.mpr hnone)
  refine ⟨k, fun hzero => ?_⟩
  rw [mem_changedKeys hp, hzero, add_zero, hp] at hk
  cases hk

@[simp] lemma gained_self (semi : Bool) (w : ℤ) : gained semi w w = false := by
  cases semi <;> simp [gained]

@[simp] lemma lost_self (semi : Bool) (w : ℤ) : lost semi w w = false := by
  cases semi <;> simp [lost]

/-- Nothing was counted if the first stage fails. -/
lemma harmless_of_stages_error {e : DeltaError} (h : op.stages F hash left right = .error e) :
    op.Harmless F hash left right := by
  unfold Harmless
  unfold stages at h
  cases hkind : op.joinType with
  | inner => trivial
  | leftOuter =>
    rw [hkind] at h
    refine or_iff_not_imp_left.mpr fun hright => .inl ?_
    obtain ⟨change, hchange⟩ := weightDelta_ok_iff.mpr (not_not.mp hright)
    rcases bind_eq_error_iff.mp h with h | ⟨_, h', h⟩
    · cases hchange.symm.trans h
    cases hchange.symm.trans h'
    rcases bind_eq_error_iff.mp h with h | ⟨_, -, h⟩
    · unfold whenPresent at h
      split at h
      · cases h
      · next l hl =>
        cases hprobe : op.probeLeftOuterAgainstRightTrace F hash change l with
        | error e => exact ⟨l, change, e, hl, hchange, hprobe⟩
        | ok b =>
          dsimp only at h
          rw [hprobe] at h
          cases h
    · cases h
  | leftSemi | leftAnti =>
    rw [hkind] at h
    dsimp only at h
    refine or_iff_not_imp_left.mpr fun hres => or_iff_not_imp_left.mpr fun hright hleft => ?_
    obtain ⟨change, hchange⟩ := weightDelta_ok_iff.mpr (not_not.mp hright)
    rw [if_neg hres] at h
    rcases bind_eq_error_iff.mp h with h | ⟨_, -, h⟩
    · cases hchange.symm.trans h
    rcases bind_eq_error_iff.mp h with h | ⟨_, -, h⟩
    · obtain ⟨kept, hkeep⟩ := keptRows_ok_iff.mpr hleft
      cases hkeep.symm.trans h
    · cases h

/-- If the second stage fails, the right rows were counted. -/
lemma harmless_iff_of_stages {e : DeltaError} (h : op.stages F hash left right = .ok (updated, .error e)) :
    ∃ change, weightDelta F op.rightKeyCols right = .ok change ∧ updated = op.updateWeights change ∧
      (op.Harmless F hash left right ↔ ∀ k, keyWeight F op.rightKeyCols right k = 0) := by
  unfold Harmless
  unfold stages at h
  cases hkind : op.joinType with
  | inner =>
    rw [hkind] at h
    obtain ⟨parts, -, heq⟩ := map_eq_ok_iff.mp h
    cases heq
  | leftOuter =>
    rw [hkind] at h
    obtain ⟨change, hchange, h⟩ := bind_eq_ok_iff.mp h
    obtain ⟨probed, hprobed, h⟩ := bind_eq_ok_iff.mp h
    obtain ⟨rfl, -⟩ := Prod.mk.inj (Except.ok.inj h)
    refine ⟨change, hchange, rfl, ?_⟩
    have hread : KeysReadable op.rightKeyCols right := weightDelta_ok_iff.mp ⟨change, hchange⟩
    have hanswered : ¬op.LeftRefused F hash left right := by
      rintro ⟨l, change', e, hl, hchange', hrefused⟩
      cases hchange.symm.trans hchange'
      simp [whenPresent, hl, hrefused, Except.map] at hprobed
    simp [hread, hanswered]
  | leftSemi | leftAnti =>
    rw [hkind] at h
    dsimp only at h
    split_ifs at h with hres
    · obtain ⟨changes, -, h⟩ := bind_eq_ok_iff.mp h
      obtain ⟨kept, -, h⟩ := bind_eq_ok_iff.mp h
      obtain ⟨flips, -, h⟩ := bind_eq_ok_iff.mp h
      obtain ⟨weights, -, h⟩ := bind_eq_ok_iff.mp h
      cases h
    · obtain ⟨change, hchange, h⟩ := bind_eq_ok_iff.mp h
      obtain ⟨kept, hkeep, h⟩ := bind_eq_ok_iff.mp h
      obtain ⟨rfl, hrest⟩ := Prod.mk.inj (Except.ok.inj h)
      refine ⟨change, hchange, rfl, iff_of_false ?_ ?_⟩
      · rintro (h | h | h)
        · exact hres h
        · exact h (weightDelta_ok_iff.mp ⟨change, hchange⟩)
        · exact h (keptRows_ok_iff.mp ⟨kept, hkeep⟩)
      · intro hzero
        have hsome : ∃ k, (change.lookup k).getD 0 ≠ 0 := by
          rcases bind_eq_error_iff.mp hrest with hgains | ⟨gains, -, hrest⟩
          · exact flippedRows_error (gained_self _) hgains
          rcases bind_eq_error_iff.mp hrest with hlosses | ⟨losses, -, hrest⟩
          · exact flippedRows_error (lost_self _) hlosses
          · cases hrest
        obtain ⟨k, hk⟩ := hsome
        exact hk ((weightDelta_weight hchange k).trans (hzero k))

lemma unchanged_iff_harmless (hkept : op.Kept left right) {e : DeltaError}
    (hfail : (op.apply F hash left right).1 = .error e) :
    op.Unchanged (op.apply F hash left right).2 ↔ op.Harmless F hash left right := by
  rw [apply_eq_stages] at hfail ⊢
  rcases hstages : op.stages F hash left right with e | ⟨updated, e | parts⟩
  · exact iff_of_true .refl (harmless_of_stages_error hstages)
  · obtain ⟨change, hchange, rfl, hiff⟩ := harmless_iff_of_stages hstages
    exact (unchanged_updateWeights_iff hkept.nonzero hchange).trans hiff.symm
  · obtain ⟨b, hb⟩ := combineParts_stages hkept hstages
    rw [hstages] at hfail
    cases hb.symm.trans hfail

/-- A tick leaves the operator as it was when it fails, exactly if it is harmless when it fails. -/
theorem failed_tick_unchanged_iff (hkept : op.Kept left right) :
    (∀ e, (op.apply F hash left right).1 = .error e → op.Unchanged (op.apply F hash left right).2) ↔
      ∀ e, (op.apply F hash left right).1 = .error e → op.Harmless F hash left right :=
  forall₂_congr fun _ h => unchanged_iff_harmless hkept h

end IncrementalJoinOp

/-! ## A run on fixed inputs -/

/-- Customers with a time whose zone cannot be parsed, so that no cell has a text. -/
def zonedSchema : Schema := [⟨"customer", .nested "Struct(Timestamp(s, \"x\"))" false true, true⟩]

/-- A semi join that cannot read the key of its right row fails before it counts it. -/
theorem unreadable_key_is_not_counted :
    ∃ op, IncrementalJoinOp.new zonedSchema zonedSchema ["customer"] ["customer"] .leftSemi = .ok op ∧
      let t := Tick.ofRight zonedSchema [([.nested "" 1], 1)]
      op.Kept t.left t.right ∧ (op.apply .plain (fun _ => 0) t.left t.right).1.isOk = false ∧
        ∀ e, (op.apply .plain (fun _ => 0) t.left t.right).1 = .error e →
          op.Unchanged (op.apply .plain (fun _ => 0) t.left t.right).2 := by
  have hkept : ∀ op : IncrementalJoinOp, op.leftTrace.batches = [] → op.rightKeyGroupWeights = ∅ →
      op.Kept none (some ⟨zonedSchema, [([.nested "" 1], 1)]⟩) := by
    intro op hleft hweights
    refine ⟨by simp [hleft, IncrementalJoinOp.Shaped], (fun _ h => by cases h), by simp [hweights], ?_⟩
    rw [hweights]
    decide
  refine ⟨_, rfl, hkept _ rfl rfl, by decide +kernel, ?_⟩
  refine (IncrementalJoinOp.failed_tick_unchanged_iff (hkept _ rfl rfl)).mpr fun e _ => .inr (.inl fun hread => ?_)
  obtain ⟨cols, hcols, hcell⟩ := hread _ rfl
  cases hcols
  exact absurd (hcell _ (List.mem_singleton_self _) 0 (by decide)) (by decide)

/-- What a tick emits, unless it fails. -/
def emitted (r : DeltaResult DeltaBatch × IncrementalJoinOp) : Option (List (Row × ℤ)) :=
  r.1.toOption.map DeltaBatch.rows

/-- A semi join with a left row of customer 7. The second tick brings customer 7 and a customer without
number, which cannot be looked up on the left, and fails. The tick without the second row then emits
nothing, though it would have emitted the left row if the failed one had not been offered. -/
theorem failed_tick_is_remembered :
    ∃ op, IncrementalJoinOp.new strictSchema customerSchema ["customer"] ["customer"] .leftSemi = .ok op ∧
      let step (op : IncrementalJoinOp) (t : Tick) := op.apply .plain (fun _ => 0) t.left t.right
      let held := (step op (.ofLeft strictSchema [([.int 1, .int 7], 1)])).2
      let failed := step held (.ofRight customerSchema [([.int 7, .str "a"], 1), ([.null, .str "b"], 1)])
      let corrected : Tick := .ofRight customerSchema [([.int 7, .str "a"], 1)]
      emitted failed = none ∧ ¬held.Unchanged failed.2 ∧ emitted (step failed.2 corrected) = some [] ∧
        emitted (step held corrected) = some [([.int 1, .int 7], 1)] := by
  refine ⟨_, rfl, by decide +kernel, fun h => ?_, by decide +kernel, by decide +kernel⟩
  exact absurd (h.weights [some ['7']]) (by decide +kernel)

end Krishiv.Delta
