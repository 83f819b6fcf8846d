import Krishiv.Delta.Join

/-!
# The terms of a join

What the pieces of a tick return, as Z-sets: the pairing of two batches is the join of what they stand
for (`joinDeltas_spec`), and so are the two probes of a delta against the other side's trace
(`probeLeft_spec`, `probeRight_spec`); the rows of given keys are selected by key (`rowsOfKeys_spec`).

A `Side` is one input of a join: its schema, its key columns and the rows it may hold. On a good side
consolidation does not confuse rows and every key can be computed. The keys of two sides are comparable
if their columns have the same types; then equal keys are equal cells (`keyOf_eq_iff`).
-/

namespace Krishiv.Delta

open List ZSet DeltaBatch IncrementalJoinOp Schema Except ZSet Bool

variable {F : FloatFormat} {hash : List Text → ℕ}

/-! ## Output parts -/

lemma DeltaBatch.zset_of_isEmpty {d : DeltaBatch} (h : d.isEmpty = true) : d.zset = 0 := by
  rw [zset, List.isEmpty_iff.mp h, toZ_nil]

/-- What an optional delta stands for. -/
noncomputable def deltaZ (d : Option DeltaBatch) : Row →₀ ℤ := d.elim 0 DeltaBatch.zset

variable {d : Option DeltaBatch}

lemma deltaZ_of_present_none (h : present d = none) : deltaZ d = 0 := by
  cases d with
  | none => rfl
  | some b =>
    have hempty : b.isEmpty = true := by simpa [present, Option.filter_eq_none_iff] using h
    exact zset_of_isEmpty hempty

lemma eq_some_of_present {b : DeltaBatch} (h : present d = some b) : d = some b :=
  (Option.filter_eq_some_iff.mp h).1

lemma whenPresent_spec {f : DeltaBatch → DeltaResult (List DeltaBatch)} {P : List DeltaBatch → Prop}
    (hnone : deltaZ d = 0 → P []) (hsome : ∀ b, d = some b → ∃ parts, f b = .ok parts ∧ P parts) :
    ∃ parts, whenPresent d f = .ok parts ∧ P parts := by
  unfold whenPresent
  cases hd : present d with
  | none => exact ⟨[], rfl, hnone (deltaZ_of_present_none hd)⟩
  | some b => exact hsome b (eq_some_of_present hd)

/-- Batches of one schema that stand for `z` together. -/
structure Parts (s : Schema) (z : Row →₀ ℤ) (parts : List DeltaBatch) : Prop where
  schema : ∀ p ∈ parts, p.schema = s
  sum : (parts.map DeltaBatch.zset).sum = z

variable {s : Schema}

namespace Parts

variable {z z' : Row →₀ ℤ} {l l' : List DeltaBatch}

lemma nil : Parts s 0 [] := ⟨by simp, rfl⟩

lemma append (h : Parts s z l) (h' : Parts s z' l') : Parts s (z + z') (l ++ l') := by
  refine ⟨forall_mem_append.mpr ⟨h.schema, h'.schema⟩, ?_⟩
  rw [map_append, sum_append, h.sum, h'.sum]

lemma part {d : DeltaBatch} (h : d.schema = s) : Parts s d.zset (part d) := by
  unfold Delta.part
  split_ifs with hempty
  · refine ⟨by simp, ?_⟩
    rw [zset_of_isEmpty hempty]
    rfl
  · exact ⟨by simpa using h, by simp⟩

/-- Parts of one schema combine. -/
lemma combine (h : Parts s z l) : ∃ d, combineParts s l = .ok d ∧ d.schema = s ∧ d.zset = z := by
  match l, h with
  | [], h => exact ⟨_, rfl, rfl, h.sum⟩
  | [d], h => exact ⟨d, rfl, h.schema d mem_cons_self, by simpa using h.sum⟩
  | d :: e :: ds, h =>
    obtain ⟨c, hc, -⟩ := concat_total (cons_ne_nil d (e :: ds)) fun b hb => congrArg Schema.shape (h.schema b hb)
    obtain ⟨hof, hz⟩ := Of.concat (S := Set.univ) (fun b hb => ⟨h.schema b hb, fun _ _ => Set.mem_univ _⟩) hc
    exact ⟨c, hc, hof.schema_eq, hz.trans h.sum⟩

/-- The parts of a pass. -/
lemma flatten {κ : Type} {f : κ → DeltaResult (List DeltaBatch)} {zs : κ → Row →₀ ℤ} {ks : List κ}
    (h : ∀ k ∈ ks, ∃ ps, f k = .ok ps ∧ Parts s (zs k) ps) :
    ∃ pss, ks.mapM f = .ok pss ∧ Parts s (ks.map zs).sum pss.flatten := by
  induction ks with
  | nil => exact ⟨[], rfl, .nil⟩
  | cons k ks ih =>
    obtain ⟨ps, hps, hz⟩ := h k mem_cons_self
    obtain ⟨pss, hpss, hzs⟩ := ih fun k' hk' => h k' (mem_cons_of_mem _ hk')
    refine ⟨ps :: pss, ?_, ?_⟩
    · rw [mapM_cons, hps, hpss]
      rfl
    · rw [map_cons, sum_cons]
      exact hz.append hzs

end Parts

/-! ## Rows and cells -/

variable {r : Row}

lemma cell_fits (h : s.holds r) (i : ℕ) : (cell r i).fits (s.typeAt i) = true := by
  induction h generalizing i with
  | nil => rfl
  | cons hf _ ih =>
    cases i with
    | zero =>
      rw [Field.holds, and_eq_true] at hf
      exact hf.1
    | succ i => exact ih i

variable {s' : Schema}

lemma Schema.holds_append {r' : Row} (h : s.holds r) (h' : s'.holds r') : holds (s ++ s') (r ++ r') := by
  induction h with
  | nil => exact h'
  | cons hf _ ih => exact .cons hf ih

/-- A row still fits if more nulls are allowed. -/
lemma Schema.holds_nullable (h : s.holds r) : holds (s.map fun f => { f with nullable := true }) r := by
  induction h with
  | nil => exact .nil
  | cons hf _ ih =>
    refine .cons ?_ ih
    rw [Field.holds, and_eq_true] at hf
    simp [Field.holds, hf.1]

lemma Schema.holds_nulls (s : Schema) :
    holds (s.map fun f => { f with nullable := true }) (replicate s.length Value.null) := by
  induction s with
  | nil => exact .nil
  | cons f s ih => exact .cons rfl ih

lemma holds_nonKeyCells (h : s.holds r) (keyCols : List String) :
    holds (s.filter fun f => f.name ∉ keyCols) (nonKeyCells s keyCols r) := by
  unfold nonKeyCells
  induction h with
  | nil => exact .nil
  | @cons f v fs vs hf _ ih =>
    rw [zip_cons_cons]
    by_cases hkey : f.name ∈ keyCols
    · rw [filter_cons_of_neg (by simpa using hkey), filter_cons_of_neg (by simpa using hkey)]
      exact ih
    · rw [filter_cons_of_pos (by simpa using hkey), filter_cons_of_pos (by simpa using hkey), map_cons]
      exact .cons hf ih

/-- Rows of the schema make a batch. -/
lemma checkBatch_eq_ok {schema : Schema} {types : List DataType} {rows : List Row}
    (htypes : types = schema.types) (hrows : ∀ r ∈ rows, schema.holds r) : checkBatch schema types rows = .ok () := by
  have hlen : types.length = schema.length := by rw [htypes, Schema.types, length_map]
  have hnulls : (rows.any fun r => (schema.zip r).any fun c => !c.1.nullable && c.2 = .null) = false := by
    rw [any_eq_false]
    intro r hr
    rw [not_eq_true, any_eq_false]
    have hr' := hrows r hr
    intro c hc
    have hfield : c.1.holds c.2 = true := (forall₂_iff_zip.mp hr').2 hc
    rw [Field.holds, and_eq_true, or_eq_true] at hfield
    rcases hfield.2 with hnull | hne
    · simp [hnull]
    · simpa using fun _ => by simpa using hne
  unfold checkBatch
  rw [if_neg (by simp [hlen]), hnulls, if_neg (by simp), if_neg (by simp [htypes])]

/-! ## Sides -/

/-- One input of a join. -/
structure Side where
  schema : Schema
  keyNames : List String
  cols : List ℕ
  rows : Set Row

namespace Side

/-- The types of the key columns. -/
def keyTypes (A : Side) : List DataType := A.cols.map A.schema.typeAt

def key (F : FloatFormat) (A : Side) (r : Row) : Key := keyOf F A.cols r

/-- The key is computed for every row, and consolidation does not confuse rows. -/
structure Good (F : FloatFormat) (A : Side) : Prop where
  cols_eq : colIndices A.schema A.keyNames = .ok A.cols
  renderable : ∀ t ∈ A.keyTypes, t.renderable = true
  flat : ∀ t ∈ A.keyTypes, t.isNested = false
  holds : ∀ r ∈ A.rows, A.schema.holds r
  distinct : Distinct F A.schema A.rows

end Side

variable {A B : Side}

lemma Side.Good.renderable_at (hA : A.Good F) {i : ℕ} (hi : i ∈ A.cols) : (A.schema.typeAt i).renderable = true :=
  hA.renderable _ (mem_map_of_mem hi)

variable {cols : List ℕ} {a b : Row}

/-- Cells of the same types are equal if what is made of them is, as far as this tells values apart. -/
lemma cells_eq {κ : Type} {g : Value → κ} {cols' : List ℕ} (ht : cols.map s.typeAt = cols'.map s'.typeAt)
    (hg : ∀ t ∈ cols.map s.typeAt, ∀ {v w : Value}, v.fits t = true → w.fits t = true → g v = g w →
      v = w) (ha : s.holds a) (hb : s'.holds b)
    (h : (cols.map fun i => g (cell a i)) = cols'.map fun i => g (cell b i)) :
    cols.map (cell a) = cols'.map (cell b) := by
  induction cols generalizing cols' with
  | nil =>
    cases cols' with
    | nil => rfl
    | cons j cols' => simp at ht
  | cons i cols ih =>
    cases cols' with
    | nil => simp at ht
    | cons j cols' =>
      obtain ⟨htype, ht⟩ := cons.inj ht
      obtain ⟨hpart, h⟩ := cons.inj h
      obtain ⟨hi, hg⟩ := forall_mem_cons.mp hg
      rw [map_cons, map_cons, hi (cell_fits ha i) (htype ▸ cell_fits hb j) hpart, ih ht hg h]

/-- Where the key columns have the same types and are not nested, equal keys are equal cells. -/
lemma keyOf_eq_iff {cols' : List ℕ} (hflat : ∀ t ∈ cols.map s.typeAt, t.isNested = false)
    (ht : cols.map s.typeAt = cols'.map s'.typeAt) (ha : s.holds a) (hb : s'.holds b) :
    keyOf F cols a = keyOf F cols' b ↔ cols.map (cell a) = cols'.map (cell b) := by
  refine ⟨cells_eq ht (fun t htype _ _ hv hw => keyPart_inj hv hw (hflat t htype)) ha hb, fun h => ?_⟩
  have hkeys := congrArg (List.map (keyPart F)) h
  rwa [map_map, map_map] at hkeys

lemma groupKeyOf_eq_map (cols : List ℕ) (r : Row) : groupKeyOf F cols r = (cols.map (cell r)).map (groupPart F) := by
  rw [groupKeyOf, map_map]
  rfl

/-- Equal keys are equal group keys. -/
lemma groupKeyOf_of_keyOf (hA : A.Good F) (ht : A.keyTypes = B.keyTypes) (ha : A.schema.holds a)
    (hb : B.schema.holds b) (h : A.key F a = B.key F b) : groupKeyOf F A.cols a = groupKeyOf F B.cols b := by
  rw [groupKeyOf_eq_map, groupKeyOf_eq_map, (keyOf_eq_iff hA.flat ht ha hb).mp h]

lemma keyedBy_eq (hA : A.Good F) (rows : List (Row × ℤ)) :
    keyedBy F A.schema A.cols rows = .ok (rows.map fun p => (A.key F p.1, p)) := by
  refine mapM_eq_map fun p _ => ?_
  have hkey : extractKey F A.schema A.cols p.1 = .ok (keyOf F A.cols p.1) := by
    refine mapM_eq_map fun i hi => ?_
    rw [scalarToKey, if_pos (.inr (hA.renderable_at hi))]
  rw [hkey]
  rfl

variable {S : Set Row}

/-- What is not zero was given. -/
lemma DeltaBatch.Of.mem_of_ne_zero {d : DeltaBatch} (hd : d.Of s S) (h : d.zset r ≠ 0) : r ∈ S := by
  obtain ⟨p, hp, rfl⟩ := mem_of_toZ_ne_zero h
  exact hd.rows_mem p hp

lemma Trace.Of.mem_of_ne_zero {t : Trace} (ht : t.Of s S) (h : t.zset r ≠ 0) : r ∈ S := by
  obtain ⟨p, hp, rfl⟩ := mem_of_toZ_ne_zero h
  obtain ⟨b, hb, hmem⟩ := mem_flatMap.mp hp
  exact (ht.levels b hb).rows_mem p hmem

lemma deltaZ_mem (hd : ∀ b ∈ d, b.Of s S) (h : deltaZ d r ≠ 0) : r ∈ S := by
  cases d with
  | none => exact absurd rfl h
  | some b => exact (hd b rfl).mem_of_ne_zero h

lemma mem_of_add_deltaZ (hd : ∀ b ∈ d, b.Of s S) {Z : Row →₀ ℤ} (hZ : ∀ r, Z r ≠ 0 → r ∈ S)
    (h : (Z + deltaZ d) r ≠ 0) : r ∈ S := by
  by_cases hr : Z r = 0
  · refine deltaZ_mem hd fun hzero => h ?_
    rw [Finsupp.add_apply, hr, hzero, add_zero]
  · exact hZ r hr

/-! ## The total weight per key -/

/-- The weight of the rows with a key. -/
noncomputable def Side.weightOf (F : FloatFormat) (A : Side) (Z : Row →₀ ℤ) (k : Key) : ℤ :=
  ZSet.total (fun r => A.key F r = k) Z

@[simp] lemma Side.weightOf_zero (k : Key) : A.weightOf F 0 k = 0 := total_zero _

lemma Side.weightOf_add (Z Z' : Row →₀ ℤ) (k : Key) :
    A.weightOf F (Z + Z') k = A.weightOf F Z k + A.weightOf F Z' k := total_add _ Z Z'

/-- The weights of keyed rows, key by key. -/
lemma sum_keyed (rows : List (Row × ℤ)) (k : Key) :
    (((rows.map fun p => (A.key F p.1, p.2)).filter fun e => e.1 = k).map Prod.snd).sum =
      A.weightOf F (toZ rows) k := by
  rw [Side.weightOf, total_toZ, filter_map, map_map]
  rfl

/-- The change of the weights in a tick. -/
lemma weightByKey_spec (hA : A.Good F) {d : DeltaBatch} (hd : d.Of A.schema A.rows) :
    ∃ change, weightByKey F A.keyNames d = .ok change ∧ (∀ k, (change.lookup k).getD 0 = A.weightOf F d.zset k) ∧
      ∀ k ∈ change.keys, ∃ r ∈ A.rows, A.key F r = k := by
  simp only [weightByKey, hd.schema_eq, hA.cols_eq, bind, Except.bind, keyedBy_eq hA, map_map]
  refine ⟨_, rfl, fun k => ?_, fun k hk => ?_⟩
  · rw [KVMap.getD_lookup_sumInto]
    exact (zero_add _).trans (sum_keyed d.rows k)
  -- a key that was never added is not there
  by_contra hnone
  refine AList.lookup_eq_none.mp (KVMap.lookup_sumInto_eq_none.mpr ⟨rfl, fun e he heq => ?_⟩) hk
  obtain ⟨p, hp, rfl⟩ := mem_map.mp he
  exact hnone ⟨p.1, hd.rows_mem p hp, heq⟩

lemma weightDelta_spec (hA : A.Good F) (hd : ∀ b ∈ d, b.Of A.schema A.rows) :
    ∃ change, weightDelta F A.keyNames d = .ok change ∧ (∀ k, (change.lookup k).getD 0 = A.weightOf F (deltaZ d) k) ∧
      ∀ k ∈ change.keys, ∃ r ∈ A.rows, A.key F r = k := by
  unfold weightDelta
  cases hpresent : present d with
  | none =>
    refine ⟨∅, rfl, fun k => ?_, fun k hk => ?_⟩
    · rw [deltaZ_of_present_none hpresent, Side.weightOf_zero]
      rfl
    · cases hk
  | some b =>
    have hb := eq_some_of_present hpresent
    subst hb
    exact weightByKey_spec hA (hd b rfl)

variable {p : ℤ → ℤ → Bool} {weights change : KVMap Key ℤ}

/-- The keys whose weight changes in a certain way, where staying the same is not such a way. -/
lemma mem_changedKeys (hp : ∀ w, p w w = false) {k : Key} : k ∈ changedKeys weights change p ↔
      p ((weights.lookup k).getD 0) ((weights.lookup k).getD 0 + (change.lookup k).getD 0) = true := by
  unfold changedKeys
  rw [mem_map]
  constructor
  · rintro ⟨⟨k', w⟩, he, rfl⟩
    obtain ⟨hmem, hcond⟩ := mem_filter.mp he
    rw [AList.mem_lookup_iff.mpr hmem]
    exact hcond
  intro hcond
  cases hlookup : change.lookup k with
  | none =>
    rw [hlookup, Option.getD_none, add_zero, hp] at hcond
    cases hcond
  | some w =>
    rw [hlookup] at hcond
    exact ⟨⟨k, w⟩, mem_filter.mpr ⟨AList.mem_lookup_iff.mp hlookup, hcond⟩, rfl⟩

@[simp] lemma crossedUp_self (w : ℤ) : crossedUp w w = false := by
  rw [crossedUp, and_eq_false_iff, decide_eq_false_iff_not, decide_eq_false_iff_not]
  omega

@[simp] lemma crossedDown_self (w : ℤ) : crossedDown w w = false := by
  rw [crossedDown, and_eq_false_iff, decide_eq_false_iff_not, decide_eq_false_iff_not]
  omega

lemma changedKeys_subset : ∀ k ∈ changedKeys weights change p, k ∈ change.keys := by
  intro k hk
  obtain ⟨e, he, rfl⟩ := mem_map.mp hk
  exact mem_map_of_mem (mem_filter.mp he).1

/-! ## Pairing -/

/-- Rows of the two sides match if their keys are equal. -/
abbrev Matches (F : FloatFormat) (A B : Side) (a b : Row) : Prop := B.key F b = A.key F a

/-- The row of a pair: the left cells and the right cells outside the key. -/
def joinRow (B : Side) (a b : Row) : Row := a ++ nonKeyCells B.schema B.keyNames b

lemma pairRowsByKey_eq (hA : A.Good F) (hB : B.Good F) {left right : DeltaBatch}
    (hleft : left.schema = A.schema) (hright : right.schema = B.schema) : pairRowsByKey F left right A.cols B.cols =
      .ok (pairs (A.key F) (B.key F) Prod.mk left.rows right.rows) := by
  unfold pairRowsByKey
  rw [hleft, hright, keyedBy_eq hA, keyedBy_eq hB]
  simp only [bind, bind, KVMap.getD_lookup_groupBy]
  refine congrArg ok ?_
  rw [pairs, flatMap_map]
  refine flatMap_congr fun p _ => ?_
  rw [filter_map, map_map, map_map]
  rfl

/-- The two kinds of join whose rows are pairs. -/
def IncrJoinType.pairs : IncrJoinType → Bool
  | .inner | .leftOuter => true
  | _ => false

lemma joinSchema_types {kind : IncrJoinType} (hkind : kind.pairs = true) (ls rs : Schema)
    (keyCols : List String) : types (joinSchema ls rs keyCols kind) =
      ls.types ++ types (rs.filter fun f => f.name ∉ keyCols) := by
  cases kind with
  | inner => exact map_append
  | leftOuter =>
    rw [joinSchema, types, map_append, map_map]
    rfl
  | leftSemi | leftAnti => cases hkind

lemma joinSchema_holds {kind : IncrJoinType} (hkind : kind.pairs = true) {ls rs : Schema}
    (ha : ls.holds a) (hb : rs.holds b) (keyCols : List String) :
    holds (joinSchema ls rs keyCols kind) (a ++ nonKeyCells rs keyCols b) := by
  have hcells := holds_nonKeyCells hb keyCols
  cases kind with
  | inner => exact holds_append ha hcells
  | leftOuter => exact holds_append ha (holds_nullable hcells)
  | leftSemi | leftAnti => cases hkind

/-! ## Operators over two sides -/

/-- Two good sides with comparable keys. -/
structure Comparable (F : FloatFormat) (A B : Side) : Prop where
  left : A.Good F
  right : B.Good F
  types : A.keyTypes = B.keyTypes

lemma Comparable.length_eq (hAB : Comparable F A B) : A.cols.length = B.cols.length := by
  have := congrArg List.length hAB.types
  simpa [Side.keyTypes] using this

/-- An operator that joins two sides. -/
structure IncrementalJoinOp.Over (A B : Side) (op : IncrementalJoinOp) : Prop where
  leftSchema : op.leftSchema = A.schema
  rightSchema : op.rightSchema = B.schema
  leftKeyCols : op.leftKeyCols = A.keyNames
  rightKeyCols : op.rightKeyCols = B.keyNames
  leftTrace : op.leftTrace.Of A.schema A.rows
  rightTrace : op.rightTrace.Of B.schema B.rows
  leftCols : op.leftTrace.keyCols = A.cols
  rightCols : op.rightTrace.keyCols = B.cols
  output : op.outputSchema = IncrementalJoinOp.joinSchema A.schema B.schema B.keyNames op.joinType
  fieldCount : op.leftFieldCount = A.schema.length

section Terms

variable {op : IncrementalJoinOp} {left right : DeltaBatch}

/-- Pairing two batches joins them. -/
lemma joinDeltas_spec (hAB : Comparable F A B) (hop : op.Over A B) (hkind : op.joinType.pairs = true)
    (hleft : left.Of A.schema A.rows) (hright : right.Of B.schema B.rows) :
    ∃ d, op.joinDeltas F left right = .ok d ∧ d.schema = op.outputSchema ∧
      d.zset = join (Matches F A B) (joinRow B) left.zset right.zset := by
  have hpairs : ((pairs (A.key F) (B.key F) Prod.mk left.rows right.rows).map fun p =>
        (p.1.1 ++ nonKeyCells B.schema B.keyNames p.1.2, p.2)) =
      pairs (A.key F) (B.key F) (joinRow B) left.rows right.rows := by
    rw [pairs, pairs, map_flatMap]
    refine flatMap_congr fun p _ => ?_
    rw [map_map]
    rfl
  have hz := toZ_pairs (A.key F) (B.key F) (joinRow B) left.rows right.rows
  have hjoin : op.joinDeltas F left right =
      if (pairs (A.key F) (B.key F) Prod.mk left.rows right.rows).isEmpty
      then .ok (.empty op.outputSchema)
      else buildJoinBatch A.schema B.schema B.keyNames op.outputSchema
        (pairs (A.key F) (B.key F) Prod.mk left.rows right.rows) := by
    unfold joinDeltas
    rw [hleft.schema_eq, hright.schema_eq, hop.leftKeyCols, hop.rightKeyCols, hAB.left.cols_eq,
      hAB.right.cols_eq]
    simp [bind, Except.bind, pairRowsByKey_eq hAB.left hAB.right hleft.schema_eq hright.schema_eq]
  rw [hjoin]
  split_ifs with hempty
  · refine ⟨_, rfl, rfl, ?_⟩
    rw [List.isEmpty_iff.mp hempty, map_nil] at hpairs
    rw [← hpairs] at hz
    exact hz
  have hcheck : checkBatch op.outputSchema (A.schema.types ++ types (B.schema.filter fun f => f.name ∉ B.keyNames))
      ((pairs (A.key F) (B.key F) (joinRow B) left.rows right.rows).map Prod.fst) = .ok () := by
    rw [hop.output]
    refine checkBatch_eq_ok (joinSchema_types hkind _ _ _).symm fun r hr => ?_
    obtain ⟨p, hp, rfl⟩ := mem_map.mp hr
    obtain ⟨a, ha, hp⟩ := mem_flatMap.mp hp
    obtain ⟨b, hb, rfl⟩ := mem_map.mp hp
    exact joinSchema_holds hkind (hAB.left.holds _ (hleft.rows_mem a ha))
      (hAB.right.holds _ (hright.rows_mem b (mem_filter.mp hb).1)) _
  unfold buildJoinBatch
  simp only [hpairs, hcheck, bind, Except.bind]
  exact ⟨_, rfl, rfl, hz⟩

/-! ## Probing -/

lemma colIndices_lt {names : List String} (h : colIndices s names = .ok cols) : ∀ i ∈ cols, i < s.length := by
  intro i hi
  obtain ⟨name, -, hname⟩ := (mem_mapM_iff h).mp hi
  cases hindex : s.indexOf name with
  | none =>
    rw [hindex] at hname
    cases hname
  | some k =>
    rw [hindex] at hname
    cases hname
    exact (findIdx?_eq_some_iff_getElem.mp hindex).1

lemma fieldsAt_types (h : ∀ i ∈ cols, i < s.length) : types (fieldsAt s cols) = cols.map s.typeAt := by
  induction cols with
  | nil => rfl
  | cons i cols ih =>
    have hi := h i mem_cons_self
    have hfield : s[i]? = some s[i] := getElem?_eq_getElem hi
    have htype : s.typeAt i = s[i].dataType := by
      rw [typeAt, types, getD_eq_getElem?_getD, getElem?_map, hfield]
      rfl
    rw [fieldsAt, filterMap_cons_some hfield, map_cons, htype, ← ih fun j hj => h j (mem_cons_of_mem _ hj)]
    rfl

lemma groupKeyOf_range (cols : List ℕ) (r : Row) :
    groupKeyOf F (range cols.length) (cols.map (cell r)) = groupKeyOf F cols r := by
  unfold groupKeyOf
  refine ext_getElem (by simp) fun i hi hi' => ?_
  rw [getElem_map, getElem_map, getElem_range]
  have hlt : i < cols.length := by simpa using hi'
  have hcell : cell (cols.map (cell r)) i = cell r cols[i] := by
    rw [cell, getD_eq_getElem?_getD, getElem?_map, getElem?_eq_getElem hlt]
    rfl
  rw [hcell]

/-- A batch of the key columns of rows can be probed with. -/
lemma renderable_fieldsAt (hA : A.Good F) :
    ∀ i < A.cols.length, ((fieldsAt A.schema A.cols).typeAt i).renderable = true := by
  intro i hi
  rw [typeAt, fieldsAt_types (colIndices_lt hA.cols_eq), getD_eq_getElem?_getD,
    getElem?_map, getElem?_eq_getElem hi]
  exact hA.renderable_at (getElem_mem hi)

/-- Probing a trace of side `B` with rows of side `A`. -/
lemma probe_project (hash : List Text → ℕ) (hAB : Comparable F A B) {t : Trace} (ht : t.Of B.schema B.rows)
    (hcols : t.keyCols = B.cols) {d : DeltaBatch} (hd : d.schema = A.schema) :
    ∃ keys found, projectColumns d.dataBatch A.keyNames = .ok keys ∧
      t.probeByKeys F hash keys = .ok found ∧ found.Of B.schema B.rows ∧ found.zset = t.zset.filter fun r =>
        groupKeyOf F B.cols r ∈ d.rows.map fun p => groupKeyOf F A.cols p.1 := by
  have hlen := hAB.length_eq.symm
  have hproject : projectColumns d.dataBatch A.keyNames =
      .ok ⟨fieldsAt A.schema A.cols, d.rows.map fun p => A.cols.map (cell p.1)⟩ := by
    unfold projectColumns
    rw [dataBatch, hd, hAB.left.cols_eq]
    simp only [bind, bind, map_map]
    rfl
  obtain ⟨found, hfound, hof, hz⟩ := t.probeByKeys_eq hash
    ⟨fieldsAt A.schema A.cols, d.rows.map fun p => A.cols.map (cell p.1)⟩ ht
    (hcols ▸ fun i hi => hAB.right.renderable_at hi) (by rw [hcols, hlen]; exact renderable_fieldsAt hAB.left)
  refine ⟨_, found, hproject, hfound, hof, ?_⟩
  rw [hz, hcols, hlen]
  simp only [map_map, Function.comp_def, groupKeyOf_range]

/-- A delta of the left side against the right trace. -/
lemma probeLeft_spec (hAB : Comparable F A B) (hop : op.Over A B) (hkind : op.joinType.pairs = true)
    (hleft : left.Of A.schema A.rows) :
    ∃ d, op.probeLeftAgainstRightTrace F hash left = .ok d ∧ d.schema = op.outputSchema ∧
      d.zset = join (Matches F A B) (joinRow B) left.zset op.rightTrace.zset := by
  obtain ⟨keys, found, hkeys, hfound, hof, hz⟩ :=
    probe_project hash hAB hop.rightTrace hop.rightCols hleft.schema_eq
  -- the rows that are not found match nothing
  have hall : join (Matches F A B) (joinRow B) left.zset found.zset =
      join (Matches F A B) (joinRow B) left.zset op.rightTrace.zset := by
    rw [hz]
    refine join_filter_right _ _ fun a b ha hb hmatch => ?_
    obtain ⟨p, hp, rfl⟩ := mem_of_toZ_ne_zero ha
    have hgroup := groupKeyOf_of_keyOf hAB.left hAB.types (hAB.left.holds _ (hleft.rows_mem p hp))
      (hAB.right.holds b (hop.rightTrace.mem_of_ne_zero hb)) hmatch.symm
    exact mem_map.mpr ⟨p, hp, hgroup⟩
  unfold probeLeftAgainstRightTrace
  rw [hop.leftKeyCols, hkeys]
  simp only [bind, Except.bind, hfound]
  split_ifs with hempty
  · refine ⟨_, rfl, rfl, ?_⟩
    rw [← hall, zset_of_isEmpty hempty, join_zero_right]
    rfl
  · rw [← hall]
    exact joinDeltas_spec hAB hop hkind hleft hof

lemma Comparable.symm (hAB : Comparable F A B) : Comparable F B A := ⟨hAB.right, hAB.left, hAB.types.symm⟩

/-- A delta of the right side against the left trace. -/
lemma probeRight_spec (hAB : Comparable F A B) (hop : op.Over A B)
    (hkind : op.joinType.pairs = true) (hright : right.Of B.schema B.rows) :
    ∃ d, op.probeRightAgainstLeftTrace F hash right = .ok d ∧ d.schema = op.outputSchema ∧
      d.zset = join (Matches F A B) (joinRow B) op.leftTrace.zset right.zset := by
  obtain ⟨keys, found, hkeys, hfound, hof, hz⟩ :=
    probe_project hash hAB.symm hop.leftTrace hop.leftCols hright.schema_eq
  have hall : join (Matches F A B) (joinRow B) found.zset right.zset =
      join (Matches F A B) (joinRow B) op.leftTrace.zset right.zset := by
    rw [hz]
    refine join_filter_left _ _ fun a b ha hb hmatch => ?_
    obtain ⟨p, hp, rfl⟩ := mem_of_toZ_ne_zero hb
    have hgroup := groupKeyOf_of_keyOf hAB.left hAB.types (hAB.left.holds a (hop.leftTrace.mem_of_ne_zero ha))
      (hAB.right.holds _ (hright.rows_mem p hp)) hmatch.symm
    exact mem_map.mpr ⟨p, hp, hgroup.symm⟩
  unfold probeRightAgainstLeftTrace
  rw [hop.rightKeyCols, hkeys]
  simp only [bind, Except.bind, hfound]
  split_ifs with hempty
  · refine ⟨_, rfl, rfl, ?_⟩
    rw [← hall, zset_of_isEmpty hempty, join_zero_left]
    rfl
  · rw [← hall]
    exact joinDeltas_spec hAB hop hkind hof hright

variable {dl dr : Option DeltaBatch}

/-- The cross term of a tick. -/
lemma crossTerm_spec (hAB : Comparable F A B) (hop : op.Over A B)
    (hkind : op.joinType.pairs = true) (hleft : ∀ d ∈ dl, d.Of A.schema A.rows)
    (hright : ∀ d ∈ dr, d.Of B.schema B.rows) :
    ∃ parts, (whenPresent dl fun l => whenPresent dr fun r => (op.joinDeltas F l r).map part) = .ok parts ∧
      Parts op.outputSchema (join (Matches F A B) (joinRow B) (deltaZ dl) (deltaZ dr)) parts := by
  refine whenPresent_spec (fun hzero => ?_) fun l hl => whenPresent_spec (fun hzero => ?_) fun r hr => ?_
  · rw [hzero, join_zero_left]
    exact .nil
  · rw [hzero, join_zero_right]
    exact .nil
  · subst hl hr
    obtain ⟨d, hd, hschema, hz⟩ := joinDeltas_spec hAB hop hkind (hleft l rfl) (hright r rfl)
    exact ⟨part d, by rw [hd]; rfl, hz ▸ .part hschema⟩

/-! ## Probing with given keys -/

/-- The types that a probe batch is built for. -/
def DataType.probeable : DataType → Bool
  | .int64 | .int32 | .utf8 => true
  | _ => false

/-- The keys of `B` can be looked up in a trace of `A`: there are key columns, of types that a probe
batch is built for, and a column of `A` takes a null if the column of `B` has one. -/
structure Probeable (A B : Side) : Prop where
  nonempty : A.cols ≠ []
  types : ∀ t ∈ A.keyTypes, t.probeable = true
  nulls : List.Forall₂ (fun f g => f.nullable = true ∨ g.nullable = false)
    (fieldsAt A.schema A.cols) (fieldsAt B.schema B.cols)

variable {t : DataType}

section

variable (ht : t.probeable = true)

include ht

lemma probeable_cases : t = .int64 ∨ t = .int32 ∨ t = .utf8 := by
  cases t <;> simp_all [DataType.probeable]

lemma probeType_of_probeable : probeType t = t := by
  rcases probeable_cases ht with rfl | rfl | rfl <;> rfl

/-- The cell is read back from its key. -/
lemma probeCell_keyPart {v : Value} (hv : v.fits t = true) : probeCell t (keyPart F v) = v := by
  rcases probeable_cases ht with rfl | rfl | rfl
  · cases v <;> simp_all [Value.fits, keyPart, encodeValue, probeCell, parseInt_intText, Option.filter_some]
  · cases v <;> simp_all [Value.fits, keyPart, encodeValue, probeCell, parseInt_intText, Option.filter_some]
  · cases v <;> simp_all [Value.fits, keyPart, encodeValue, probeCell]

/-- In a column of such a type, equal group keys mean equal cells. -/
lemma groupPart_inj_of_probeable {v w : Value} (hv : v.fits t = true)
    (hw : w.fits t = true) (h : groupPart F v = groupPart F w) : v = w := by
  rcases groupPart_inj hv hw h with heq | ⟨a, b, rfl, rfl, -⟩ | ⟨text, m, n, rfl, rfl⟩
  · exact heq
  all_goals rcases probeable_cases ht with rfl | rfl | rfl <;> cases hv

end

lemma fieldsAt_holds (hr : s.holds r) (h : ∀ i ∈ cols, i < s.length) :
    (fieldsAt s cols).holds (cols.map (cell r)) := by
  induction cols with
  | nil => exact .nil
  | cons i cols ih =>
    have hi := h i mem_cons_self
    have hlen : s.length = r.length := Forall₂.length_eq hr
    rw [fieldsAt, filterMap_cons_some (getElem?_eq_getElem hi), map_cons]
    refine .cons ?_ (ih fun j hj => h j (mem_cons_of_mem _ hj))
    have hcell : cell r i = r[i] := by
      rw [cell, getD_eq_getElem?_getD, getElem?_eq_getElem (hlen ▸ hi)]
      rfl
    rw [hcell]
    exact Forall₂.get hr hi (hlen ▸ hi)

/-- A row fits other fields of the same types that allow as many nulls. -/
lemma holds_of_nulls (ht : s.types = s'.types)
    (hnulls : List.Forall₂ (fun f g => f.nullable = true ∨ g.nullable = false) s s') (h : s'.holds r) :
    s.holds r := by
  induction h generalizing s with
  | nil =>
    cases hnulls
    exact .nil
  | @cons g v gs vs hg _ ih =>
    cases hnulls with
    | @cons f _ fs _ hfg hrest =>
      obtain ⟨htype, ht⟩ := cons.inj ht
      refine .cons ?_ (ih ht hrest)
      rw [Field.holds, and_eq_true, or_eq_true] at hg ⊢
      refine ⟨htype ▸ hg.1, ?_⟩
      rcases hfg with hf | hnot
      · exact .inl hf
      rcases hg.2 with hnull | hne
      · rw [hnot] at hnull
        cases hnull
      · exact .inr hne

/-- The probe batch of the keys of some rows has the key cells of these rows. -/
lemma keysToProbeBatch_eq (hAB : Comparable F A B) (hprobe : Probeable A B) {bs : List Row}
    (hbs : ∀ b ∈ bs, b ∈ B.rows) : keysToProbeBatch (bs.map (B.key F)) A.keyNames A.schema =
      .ok ⟨fieldsAt A.schema A.cols, bs.map fun b => B.cols.map (cell b)⟩ := by
  have htypesA : types (fieldsAt A.schema A.cols) = A.keyTypes :=
    fieldsAt_types (colIndices_lt hAB.left.cols_eq)
  have htypesB : types (fieldsAt B.schema B.cols) = B.keyTypes :=
    fieldsAt_types (colIndices_lt hAB.right.cols_eq)
  have hrow : ∀ b ∈ bs, ((fieldsAt A.schema A.cols).zipIdx.map fun f =>
      probeCell f.1.dataType ((B.key F b)[f.2]?).join) = B.cols.map (cell b) := by
    intro b hb
    have hlen : (fieldsAt A.schema A.cols).length = B.cols.length := by
      have := congrArg List.length (htypesA.trans hAB.types)
      simpa [types, Side.keyTypes] using this
    refine ext_getElem (by simp [hlen]) fun i hi hi' => ?_
    have hi'' : i < B.cols.length := by simpa using hi'
    rw [getElem_map, getElem_map, getElem_zipIdx]
    have hkey : (B.key F b)[i]? = some (keyPart F (cell b B.cols[i])) := by
      rw [Side.key, keyOf, getElem?_map, getElem?_eq_getElem hi'']
      rfl
    have htype : (fieldsAt A.schema A.cols)[i].dataType = B.schema.typeAt B.cols[i] := by
      have hall := htypesA.trans hAB.types
      have := getElem_of_eq hall (by simpa [types, hlen] using hi'')
      simpa [types, Side.keyTypes] using this
    have hprobeable : (B.schema.typeAt B.cols[i]).probeable = true := by
      refine hprobe.types _ ?_
      rw [hAB.types]
      exact mem_map_of_mem (getElem_mem hi'')
    rw [Nat.zero_add, hkey, htype]
    exact probeCell_keyPart hprobeable (cell_fits (hAB.right.holds b (hbs b hb)) _)
  have hrows : ((bs.map (B.key F)).map fun key => (fieldsAt A.schema A.cols).zipIdx.map fun f =>
      probeCell f.1.dataType (key[f.2]?).join) = bs.map fun b => B.cols.map (cell b) := by
    rw [map_map]
    exact map_congr_left hrow
  have hne : (fieldsAt A.schema A.cols).isEmpty = false := by
    have hnil : A.keyTypes ≠ [] := by simpa [Side.keyTypes] using hprobe.nonempty
    cases hfields : fieldsAt A.schema A.cols with
    | nil =>
      rw [hfields] at htypesA
      exact absurd htypesA.symm hnil
    | cons f fs => rfl
  have htypes : (fieldsAt A.schema A.cols).map (fun f => probeType f.dataType) =
      types (fieldsAt A.schema A.cols) := by
    refine map_congr_left fun f hf => probeType_of_probeable (hprobe.types _ ?_)
    rw [← htypesA]
    exact mem_map_of_mem hf
  have hcheck : checkBatch (fieldsAt A.schema A.cols) ((fieldsAt A.schema A.cols).map fun f => probeType f.dataType)
      (bs.map fun b => B.cols.map (cell b)) = .ok () := by
    refine checkBatch_eq_ok htypes fun r hr => ?_
    obtain ⟨b, hb, rfl⟩ := mem_map.mp hr
    exact holds_of_nulls ((htypesA.trans hAB.types).trans htypesB.symm) hprobe.nulls
      (fieldsAt_holds (hAB.right.holds b (hbs b hb)) (colIndices_lt hAB.right.cols_eq))
  unfold keysToProbeBatch
  rw [hAB.left.cols_eq]
  simp only [bind, Except.bind, hrows, hne, hcheck]
  rfl

/-- The rows of a trace of `A` with given keys of `B`. -/
lemma rowsOfKeys_spec (hash : List Text → ℕ) (hAB : Comparable F A B) (hprobe : Probeable A B)
    {t : Trace} (ht : t.Of A.schema A.rows) (hcols : t.keyCols = A.cols) {keys : List Key}
    (hkeys : ∀ k ∈ keys, ∃ b ∈ B.rows, B.key F b = k) :
    ∃ d, rowsOfKeys F hash t A.keyNames A.schema keys = .ok d ∧ d.Of A.schema A.rows ∧
      d.zset = t.zset.filter fun a => A.key F a ∈ keys := by
  obtain ⟨bs, hbs, rfl⟩ : ∃ bs : List Row, (∀ b ∈ bs, b ∈ B.rows) ∧ bs.map (B.key F) = keys := by
    induction keys with
    | nil => exact ⟨[], by simp, rfl⟩
    | cons k keys ih =>
      obtain ⟨b, hb, hk⟩ := hkeys k mem_cons_self
      obtain ⟨bs, hbs, hmap⟩ := ih fun k' hk' => hkeys k' (mem_cons_of_mem _ hk')
      exact ⟨b :: bs, by simpa using ⟨hb, hbs⟩, by rw [map_cons, hk, hmap]⟩
  have hlen := hAB.length_eq
  obtain ⟨d, hd, hof, hz⟩ := t.probeByKeys_eq hash
    ⟨fieldsAt A.schema A.cols, bs.map fun b => B.cols.map (cell b)⟩ ht
    (hcols ▸ fun i hi => hAB.left.renderable_at hi) (hcols ▸ renderable_fieldsAt hAB.left)
  refine ⟨d, ?_, hof, ?_⟩
  · unfold rowsOfKeys
    rw [keysToProbeBatch_eq hAB hprobe hbs]
    exact hd
  rw [hz, hcols]
  refine filter_congr_support fun a ha => ?_
  have ha' := hAB.left.holds a (ht.mem_of_ne_zero ha)
  rw [map_map, mem_map, mem_map]
  -- a row of the probe batch has the group key of its row
  refine exists_congr fun b => and_congr_right fun hb => ?_
  have hb' := hAB.right.holds b (hbs b hb)
  rw [Function.comp_apply, hlen, groupKeyOf_range]
  constructor
  · intro hgroup
    refine (keyOf_eq_iff hAB.right.flat hAB.types.symm hb' ha').mpr ?_
    have hprobeB : ∀ t ∈ B.keyTypes, t.probeable = true := hAB.types ▸ hprobe.types
    exact cells_eq hAB.types.symm (fun t ht => groupPart_inj_of_probeable (hprobeB t ht)) hb' ha' hgroup
  · intro hkey
    exact (groupKeyOf_of_keyOf hAB.left hAB.types ha' hb' hkey.symm).symm

lemma insertDelta_spec (hA : A.Good F) {t : Trace} (ht : t.Of A.schema A.rows)
    (hcols : t.keyCols = A.cols) (hd : ∀ b ∈ d, b.Of A.schema A.rows) :
    (d.elim t (t.insert F)).Of A.schema A.rows ∧ (d.elim t (t.insert F)).zset = t.zset + deltaZ d ∧
      (d.elim t (t.insert F)).keyCols = A.cols := by
  cases d with
  | none => exact ⟨ht, (add_zero _).symm, hcols⟩
  | some d =>
    obtain ⟨hof, hz⟩ := t.insert_zset hA.distinct ht (hd d rfl)
    exact ⟨hof, hz, (t.insert_keyCols d).trans hcols⟩

/-- The traces after a tick. -/
lemma insertDeltas_spec (hAB : Comparable F A B) (hop : op.Over A B)
    (hleft : ∀ d ∈ dl, d.Of A.schema A.rows) (hright : ∀ d ∈ dr, d.Of B.schema B.rows) :
    (op.insertDeltas F dl dr).Over A B ∧ (op.insertDeltas F dl dr).leftTrace.zset = op.leftTrace.zset + deltaZ dl ∧
      (op.insertDeltas F dl dr).rightTrace.zset = op.rightTrace.zset + deltaZ dr := by
  obtain ⟨hlOf, hlz, hlCols⟩ := insertDelta_spec hAB.left hop.leftTrace hop.leftCols hleft
  obtain ⟨hrOf, hrz, hrCols⟩ := insertDelta_spec hAB.right hop.rightTrace hop.rightCols hright
  exact ⟨{ hop with leftTrace := hlOf, rightTrace := hrOf, leftCols := hlCols, rightCols := hrCols }, hlz, hrz⟩

end Terms

end Krishiv.Delta
