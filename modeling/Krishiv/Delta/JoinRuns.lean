import Krishiv.Delta.JoinTerms

/-!
# Runs of a join operator

A run is a list of ticks from a new operator. `Holds` says what an operator has accumulated: both
traces, and for the kinds that keep them the weights per key. If every tick emits the change of a
relation of the two accumulated inputs, then a run emits that relation of what was given altogether
(`run_spec`).

The runs in question are those over two inputs that can be told apart by their keys: column names are
distinct, the columns of the two keys have the same types, and no column ever holds two bit patterns of
NaN (`Unambiguous`, `SameKeys`).
-/

namespace Krishiv.Delta

open List Except ZSet Trace

variable {F : FloatFormat} {hash : List Text → ℕ}

/-! ## What was given -/

noncomputable def leftSum (ticks : List Tick) : Row →₀ ℤ := (ticks.map fun t => deltaZ t.left).sum

noncomputable def rightSum (ticks : List Tick) : Row →₀ ℤ := (ticks.map fun t => deltaZ t.right).sum

/-- The rows that a run gives to the left side. -/
def leftRows (ticks : List Tick) : Set Row := {r | ∃ t ∈ ticks, ∃ d ∈ t.left, ∃ p ∈ d.rows, p.1 = r}

def rightRows (ticks : List Tick) : Set Row := {r | ∃ t ∈ ticks, ∃ d ∈ t.right, ∃ p ∈ d.rows, p.1 = r}

/-- The deltas of a tick are batches of the two schemas. -/
structure Tick.Conforms (ls rs : Schema) (t : Tick) : Prop where
  left : ∀ d ∈ t.left, d.Of ls {r | ls.holds r}
  right : ∀ d ∈ t.right, d.Of rs {r | rs.holds r}

variable {t : Tick}

section Given

variable {ls rs : Schema} {ticks : List Tick} {r : Row}

lemma holds_leftRows (h : ∀ t ∈ ticks, t.Conforms ls rs) : ∀ r ∈ leftRows ticks, ls.holds r := by
  rintro r ⟨t, ht, d, hd, p, hp, rfl⟩
  exact ((h t ht).left d hd).rows_mem p hp

lemma holds_rightRows (h : ∀ t ∈ ticks, t.Conforms ls rs) : ∀ r ∈ rightRows ticks, rs.holds r := by
  rintro r ⟨t, ht, d, hd, p, hp, rfl⟩
  exact ((h t ht).right d hd).rows_mem p hp

/-- All left rows of a run with their weights. -/
def leftGiven (ticks : List Tick) : List (Row × ℤ) := ticks.flatMap fun t => t.left.elim [] DeltaBatch.rows

def rightGiven (ticks : List Tick) : List (Row × ℤ) := ticks.flatMap fun t => t.right.elim [] DeltaBatch.rows

/-- No sum of weights of one side and no product of a left and a right one leaves the range of an `i64`. -/
def WeightsFit (left right : List (Row × ℤ)) : Prop := (massOf left + 1) * (massOf right + 1) < 2 ^ 63

instance (left right : List (Row × ℤ)) : Decidable (WeightsFit left right) := inferInstanceAs (Decidable (_ < _))

private lemma sum_given (f : Tick → Option DeltaBatch) (ticks : List Tick) :
    (ticks.map fun t => deltaZ (f t)).sum = toZ (ticks.flatMap fun t => (f t).elim [] DeltaBatch.rows) := by
  rw [List.flatMap, toZ_flatten, map_map]
  refine congrArg List.sum (map_congr_left fun t _ => ?_)
  rw [Function.comp_apply]
  cases f t <;> rfl

lemma leftSum_eq (ticks : List Tick) : leftSum ticks = toZ (leftGiven ticks) := sum_given Tick.left ticks

lemma rightSum_eq (ticks : List Tick) : rightSum ticks = toZ (rightGiven ticks) :=
  sum_given Tick.right ticks

lemma mem_leftRows (h : leftSum ticks r ≠ 0) : r ∈ leftRows ticks := by
  rw [leftSum_eq] at h
  obtain ⟨p, hp, rfl⟩ := mem_of_toZ_ne_zero h
  obtain ⟨t, ht, hp⟩ := mem_flatMap.mp hp
  cases hd : t.left with
  | none =>
    rw [hd] at hp
    cases hp
  | some d =>
    rw [hd] at hp
    exact ⟨t, ht, d, hd, p, hp, rfl⟩

lemma mem_rightRows (h : rightSum ticks r ≠ 0) : r ∈ rightRows ticks := by
  rw [rightSum_eq] at h
  obtain ⟨p, hp, rfl⟩ := mem_of_toZ_ne_zero h
  obtain ⟨t, ht, hp⟩ := mem_flatMap.mp hp
  cases hd : t.right with
  | none =>
    rw [hd] at hp
    cases hp
  | some d =>
    rw [hd] at hp
    exact ⟨t, ht, d, hd, p, hp, rfl⟩

end Given

/-- A property of every tick together with what was accumulated before it. -/
def Throughout (P : (Row →₀ ℤ) → (Row →₀ ℤ) → Tick → Prop) (L R : Row →₀ ℤ) : List Tick → Prop
  | [] => True
  | t :: ts => P L R t ∧ Throughout P (L + deltaZ t.left) (R + deltaZ t.right) ts

variable {ticks : List Tick} {L R : Row →₀ ℤ} {P Q : (Row →₀ ℤ) → (Row →₀ ℤ) → Tick → Prop}

lemma Throughout.imp (h : Throughout P L R ticks) (himp : ∀ L R, ∀ t ∈ ticks, P L R t → Q L R t) :
    Throughout Q L R ticks := by
  induction ticks generalizing L R with
  | nil => trivial
  | cons t ts ih =>
    exact ⟨himp L R t mem_cons_self h.1, ih h.2 fun L R t ht => himp L R t (mem_cons_of_mem _ ht)⟩

lemma throughout_of_forall (h : ∀ t ∈ ticks, ∀ L R, P L R t) (L R : Row →₀ ℤ) : Throughout P L R ticks := by
  induction ticks generalizing L R with
  | nil => trivial
  | cons t ts ih => exact ⟨h t mem_cons_self L R, ih (fun t ht => h t (mem_cons_of_mem _ ht)) _ _⟩

lemma Throughout.and (hP : Throughout P L R ticks) (hQ : Throughout Q L R ticks) :
    Throughout (fun L R t => P L R t ∧ Q L R t) L R ticks := by
  induction ticks generalizing L R with
  | nil => trivial
  | cons t ts ih => exact ⟨⟨hP.1, hQ.1⟩, ih hP.2 hQ.2⟩

lemma leftSum_cons (t : Tick) (ts : List Tick) : leftSum (t :: ts) = deltaZ t.left + leftSum ts := by
  simp [leftSum]

lemma rightSum_cons (t : Tick) (ts : List Tick) : rightSum (t :: ts) = deltaZ t.right + rightSum ts := by
  simp [rightSum]

/-- What every tick keeps holds throughout, and at the end. -/
lemma Throughout.invariant {J : (Row →₀ ℤ) → (Row →₀ ℤ) → Prop} (h : Throughout P L R ticks)
    (hJ : J L R) (hstep : ∀ L R t, J L R → P L R t → J (L + deltaZ t.left) (R + deltaZ t.right)) :
    Throughout (fun L R t => J L R ∧ P L R t) L R ticks ∧ J (L + leftSum ticks) (R + rightSum ticks) := by
  induction ticks generalizing L R with
  | nil => exact ⟨trivial, by simpa [leftSum, rightSum] using hJ⟩
  | cons t ts ih =>
    obtain ⟨hrest, hend⟩ := ih h.2 (hstep L R t hJ h.1)
    refine ⟨⟨⟨hJ, h.1⟩, hrest⟩, ?_⟩
    rw [leftSum_cons, rightSum_cons, ← add_assoc, ← add_assoc]
    exact hend

/-- The deltas of a tick are batches of the two sides. -/
structure Tick.Of (A B : Side) (t : Tick) : Prop where
  left : ∀ d ∈ t.left, d.Of A.schema A.rows
  right : ∀ d ∈ t.right, d.Of B.schema B.rows

/-! ## Inputs that keys tell apart -/

/-- Column names are distinct, and no column has two bit patterns of NaN or two different nested cells that
are displayed alike. -/
structure Unambiguous (s : Schema) (S : Set Row) : Prop where
  names : (s.map Field.name).Nodup
  cells : ∀ r ∈ S, ∀ r' ∈ S, ∀ i, Alike (cell r i) (cell r' i) → cell r i = cell r' i

/-- The columns of a key by name. -/
def keyColumnsOf (s : Schema) (names : List String) : List ℕ := names.map fun name => (s.indexOf name).getD 0

/-- The cells of a key. -/
def keyCells (s : Schema) (names : List String) (r : Row) : List Value := (keyColumnsOf s names).map (cell r)

/-- The columns of the two keys have the same types, and these have a key encoding and are not nested. -/
structure SameKeys (ls rs : Schema) (lk rk : List String) : Prop where
  types : (keyColumnsOf ls lk).map ls.typeAt = (keyColumnsOf rs rk).map rs.typeAt
  renderable : ∀ t ∈ (keyColumnsOf ls lk).map ls.typeAt, t.renderable = true
  flat : ∀ t ∈ (keyColumnsOf ls lk).map ls.typeAt, t.isNested = false

/-- Keys of the right side can be looked up in the left trace: there are key columns, of types that a
probe batch is built for, and a left column takes a null if the right one does. -/
structure ProbeableKeys (ls rs : Schema) (lk rk : List String) : Prop where
  nonempty : lk ≠ []
  types : ∀ t ∈ (keyColumnsOf ls lk).map ls.typeAt, t.probeable = true
  nulls : List.Forall₂ (fun f g => f.nullable = true ∨ g.nullable = false)
    (fieldsAt ls (keyColumnsOf ls lk)) (fieldsAt rs (keyColumnsOf rs rk))

/-- The side of an operator with rows from `S`. -/
def sideOf (s : Schema) (names : List String) (S : Set Row) : Side := ⟨s, names, keyColumnsOf s names, S⟩

variable {lk rk : List String} {ls rs : Schema}

lemma of_conforms (h : ∀ t ∈ ticks, t.Conforms ls rs) (ht : t ∈ ticks) :
    t.Of (sideOf ls lk (leftRows ticks)) (sideOf rs rk (rightRows ticks)) where
  left d hd := ⟨((h t ht).left d hd).schema_eq, fun p hp => ⟨t, ht, d, hd, p, hp, rfl⟩⟩
  right d hd := ⟨((h t ht).right d hd).schema_eq, fun p hp => ⟨t, ht, d, hd, p, hp, rfl⟩⟩

variable {s : Schema}

lemma keyColumns_of_nodup (h : (s.map Field.name).Nodup) : keyColumns s = range s.length := by
  refine ext_getElem (by simp [keyColumns]) fun i hi hi' => ?_
  have hlt : i < s.length := by simpa using hi'
  have hindex : s.indexOf s[i].name = some i := by
    refine findIdx?_eq_some_iff_getElem.mpr ⟨hlt, by simp, fun j hj => ?_⟩
    have hne : s[j].name ≠ s[i].name := by
      intro heq
      have hjlt : j < (s.map Field.name).length := by
        rw [length_map]
        omega
      have hilt : i < (s.map Field.name).length := by rwa [length_map]
      have hnames : (s.map Field.name)[j] = (s.map Field.name)[i] := by simpa using heq
      have hij : j = i := h.getElem_inj_iff.mp hnames
      omega
    simpa using hne
  simp [keyColumns, hindex]

/-- On such rows consolidation merges equal rows only. -/
lemma distinct_of_unambiguous {S : Set Row} (h : Unambiguous s S) (hS : ∀ r ∈ S, s.holds r) : Distinct F s S := by
  intro r hr r' hr' hkeys
  rw [keyColumns_of_nodup h.names] at hkeys
  have hlen : s.length = r.length := Forall₂.length_eq (hS r hr)
  have hlen' : s.length = r'.length := Forall₂.length_eq (hS r' hr')
  refine ext_getElem (hlen.symm.trans hlen') fun i hi hi' => ?_
  have his : i < s.length := hlen ▸ hi
  have hpart : groupPart F (cell r i) = groupPart F (cell r' i) := by
    have := getElem_of_eq hkeys (i := i) (by simpa [groupKeyOf] using his)
    simpa [groupKeyOf] using this
  have hcell : cell r i = cell r' i := by
    rcases groupPart_inj (cell_fits (hS r hr) i) (cell_fits (hS r' hr') i) hpart with heq | halike
    · exact heq
    · exact h.cells r hr r' hr' i halike
  simpa [cell, getD_eq_getElem?_getD, hi, hi'] using hcell

lemma colIndices_eq {names : List String} {cols : List ℕ} (h : colIndices s names = .ok cols) :
    cols = keyColumnsOf s names := by
  refine map_of_mapM (fun name i hi => ?_) h
  cases hindex : s.indexOf name with
  | none =>
    rw [hindex] at hi
    cases hi
  | some j =>
    rw [hindex] at hi
    cases hi
    rfl

/-- Without float and nested columns there are no such cells. -/
lemma unambiguous_of_plain (hnames : (s.map Field.name).Nodup)
    (hplain : ∀ t ∈ s.types, t ≠ .float64 ∧ t.isNested = false) {S : Set Row} (hS : ∀ r ∈ S, s.holds r) :
    Unambiguous s S := by
  refine ⟨hnames, fun r hr r' _ i halike => ?_⟩
  have hfits := cell_fits (hS r hr) i
  have hplain : s.typeAt i ≠ .float64 ∧ (s.typeAt i).isNested = false := by
    rw [Schema.typeAt, getD_eq_getElem?_getD]
    cases hget : s.types[i]? with
    | none => exact ⟨by simp, rfl⟩
    | some t => exact hplain t (mem_of_getElem? hget)
  generalize s.typeAt i = t at hfits hplain
  rcases halike with ⟨a, b, ha, -, -⟩ | ⟨text, m, n, ha, -⟩
  all_goals
    rw [ha] at hfits
    cases t <;> simp_all [Value.fits, DataType.isNested]

/-- The deltas of a run as a check on lists. -/
lemma conforms_of_lists (h : ∀ t ∈ ticks, (∀ d ∈ t.left.toList, d.schema = ls ∧ ∀ p ∈ d.rows, ls.holds p.1) ∧
      ∀ d ∈ t.right.toList, d.schema = rs ∧ ∀ p ∈ d.rows, rs.holds p.1) : ∀ t ∈ ticks, t.Conforms ls rs := fun t ht =>
  { left := fun d hd => ⟨((h t ht).1 d (Option.mem_toList.mpr hd)).1, ((h t ht).1 d (Option.mem_toList.mpr hd)).2⟩
    right := fun d hd => ⟨((h t ht).2 d (Option.mem_toList.mpr hd)).1, ((h t ht).2 d (Option.mem_toList.mpr hd)).2⟩ }

/-! ## New operators -/

/-- The traces of a new operator. -/
lemma Trace.new_eq {names : List String} {t : Trace} (h : new s names = .ok t) :
    colIndices s names = .ok (keyColumnsOf s names) ∧
      t = ⟨s, keyColumnsOf s names, none, replicate numLevels []⟩ := by
  obtain ⟨cols, hcols, h⟩ := bind_eq_ok_iff.mp h
  cases h
  exact ⟨colIndices_eq hcols ▸ hcols, by rw [colIndices_eq hcols]⟩

lemma Trace.withLatenessColumn_eq {t t' : Trace} {name : String} (h : t.withLatenessColumn name = .ok t') :
    ∃ col, t' = { t with latenessCol := col } := by
  unfold withLatenessColumn at h
  cases hindex : t.schema.indexOf name with
  | none =>
    rw [hindex] at h
    cases h
  | some i =>
    rw [hindex] at h
    cases h
    exact ⟨some i, rfl⟩

variable {op : IncrementalJoinOp} {kind : IncrJoinType} {lateness : Option String}

/-- What `newWithLateness` returns. -/
lemma newWithLateness_eq (h : IncrementalJoinOp.newWithLateness ls rs lk rk kind lateness = .ok op) :
    colIndices ls lk = .ok (keyColumnsOf ls lk) ∧ colIndices rs rk = .ok (keyColumnsOf rs rk) ∧ ∃ lcol rcol, op = {
        leftTrace := ⟨ls, keyColumnsOf ls lk, lcol, replicate numLevels []⟩
        rightTrace := ⟨rs, keyColumnsOf rs rk, rcol, replicate numLevels []⟩
        leftKeyCols := lk, rightKeyCols := rk, leftSchema := ls
        outputSchema := IncrementalJoinOp.joinSchema ls rs rk kind
        joinType := kind
        leftFieldCount := ls.length
        rightKeyGroupWeights := ∅
        rightSchema := rs
        membershipResidual := none } := by
  obtain ⟨left, hleft, h⟩ := bind_eq_ok_iff.mp h
  obtain ⟨right, hright, h⟩ := bind_eq_ok_iff.mp h
  obtain ⟨hlcols, rfl⟩ := new_eq hleft
  obtain ⟨hrcols, rfl⟩ := new_eq hright
  refine ⟨hlcols, hrcols, ?_⟩
  cases lateness with
  | none =>
    cases h
    exact ⟨none, none, rfl⟩
  | some col =>
    obtain ⟨l, hl, h⟩ := bind_eq_ok_iff.mp h
    obtain ⟨r, hr, h⟩ := bind_eq_ok_iff.mp h
    obtain ⟨lcol, rfl⟩ := withLatenessColumn_eq hl
    obtain ⟨rcol, rfl⟩ := withLatenessColumn_eq hr
    cases h
    exact ⟨lcol, rcol, rfl⟩

/-! ## What an operator has accumulated -/

/-- An operator of the given kind that has accumulated `L` and `R`. -/
structure IncrementalJoinOp.Holds (F : FloatFormat) (A B : Side) (kind : IncrJoinType)
    (residual : Option MembershipResidual) (op : IncrementalJoinOp) (L R : Row →₀ ℤ) : Prop where
  shape : op.Over A B
  kind_eq : op.joinType = kind
  residual_eq : op.membershipResidual = residual
  left : op.leftTrace.zset = L
  right : op.rightTrace.zset = R
  weights : kind ≠ .inner → ∀ k, (op.rightKeyGroupWeights.lookup k).getD 0 = B.weightOf F R k
  nonzero : ∀ k, op.rightKeyGroupWeights.lookup k ≠ some 0

variable {residual : Option MembershipResidual} {change : KVMap Key ℤ} {A B : Side} {Z : Row →₀ ℤ}

section

variable (h : op.Holds F A B kind residual L R) (hkind : kind ≠ .inner)
  (hchange : ∀ k, (change.lookup k).getD 0 = B.weightOf F Z k)

include h hkind hchange

/-- The weights after the change of a tick. -/
lemma IncrementalJoinOp.Holds.effectiveWeight (k : Key) : op.effectiveWeight change k = B.weightOf F (R + Z) k := by
  rw [IncrementalJoinOp.effectiveWeight, h.weights hkind, hchange, Side.weightOf_add]

/-- The keys whose weight changes in a certain way. -/
lemma IncrementalJoinOp.Holds.mem_changedKeys {p : ℤ → ℤ → Bool} (hp : ∀ w, p w w = false) {k : Key} :
    k ∈ changedKeys op.rightKeyGroupWeights change p ↔ p (B.weightOf F R k) (B.weightOf F (R + Z) k) = true := by
  rw [Delta.mem_changedKeys hp, h.weights hkind, hchange, Side.weightOf_add]

end

section

variable (hAB : Comparable F A B) (h : op.Holds F A B kind residual L R)

include hAB h

/-- The operator after the change of the weights and the insertion of the deltas. -/
lemma IncrementalJoinOp.Holds.insertDeltas (ht : t.Of A B) {weights : KVMap Key ℤ} (hweights : kind ≠ .inner → ∀ k,
      (weights.lookup k).getD 0 = B.weightOf F (R + deltaZ t.right) k) (hnonzero : ∀ k, weights.lookup k ≠ some 0) :
    ({ op with rightKeyGroupWeights := weights }.insertDeltas F t.left t.right).Holds F A B kind residual
      (L + deltaZ t.left) (R + deltaZ t.right) := by
  have hover : { op with rightKeyGroupWeights := weights }.Over A B := { h.shape with }
  obtain ⟨hover', hl, hr⟩ := insertDeltas_spec hAB hover ht.left ht.right
  exact {
    shape := hover'
    kind_eq := h.kind_eq
    residual_eq := h.residual_eq
    left := hl.trans (by rw [← h.left])
    right := hr.trans (by rw [← h.right])
    weights := hweights
    nonzero := hnonzero }

/-- The same with the weights that a tick adds. -/
lemma IncrementalJoinOp.Holds.updateWeights (hkind : kind ≠ .inner) (ht : t.Of A B)
    (hchange : ∀ k, (change.lookup k).getD 0 = B.weightOf F (deltaZ t.right) k) :
    ((op.updateWeights change).insertDeltas F t.left t.right).Holds F A B kind residual
      (L + deltaZ t.left) (R + deltaZ t.right) := by
  refine h.insertDeltas hAB ht (fun _ k => ?_) (KVMap.lookup_addNonzero_ne_zero change h.nonzero)
  rw [KVMap.getD_lookup_addNonzero, h.weights hkind, hchange, Side.weightOf_add]

end

/-- The sides of an operator over unambiguous inputs. -/
lemma comparable_sides {SL SR : Set Row} (hlcols : colIndices ls lk = .ok (keyColumnsOf ls lk))
    (hrcols : colIndices rs rk = .ok (keyColumnsOf rs rk)) (hkeys : SameKeys ls rs lk rk)
    (hl : Unambiguous ls SL) (hr : Unambiguous rs SR) (hSL : ∀ r ∈ SL, ls.holds r)
    (hSR : ∀ r ∈ SR, rs.holds r) : Comparable F (sideOf ls lk SL) (sideOf rs rk SR) where
  left := ⟨hlcols, hkeys.renderable, hkeys.flat, hSL, distinct_of_unambiguous hl hSL⟩
  right := ⟨hrcols, fun t ht => hkeys.renderable t (hkeys.types ▸ ht), fun t ht => hkeys.flat t (hkeys.types ▸ ht),
    hSR, distinct_of_unambiguous hr hSR⟩
  types := hkeys.types

/-- The sides of a new operator, over everything that a run gives. -/
lemma comparable_of_new {kind : IncrJoinType}
    (hop : IncrementalJoinOp.newWithLateness ls rs lk rk kind lateness = .ok op)
    (hticks : ∀ t ∈ ticks, t.Conforms ls rs) (hkeys : SameKeys ls rs lk rk)
    (hl : Unambiguous ls (leftRows ticks)) (hr : Unambiguous rs (rightRows ticks)) :
    Comparable F (sideOf ls lk (leftRows ticks)) (sideOf rs rk (rightRows ticks)) := by
  obtain ⟨hlcols, hrcols, -⟩ := newWithLateness_eq hop
  exact comparable_sides hlcols hrcols hkeys hl hr (holds_leftRows hticks) (holds_rightRows hticks)

variable (lk rk) in
lemma throughout_of_conforms (h : ∀ t ∈ ticks, t.Conforms ls rs) : Throughout (fun _ _ t =>
    t.Of (sideOf ls lk (leftRows ticks)) (sideOf rs rk (rightRows ticks))) 0 0 ticks :=
  throughout_of_forall (fun _ ht _ _ => of_conforms h ht) 0 0

lemma probeable_sides (h : ProbeableKeys ls rs lk rk) (SL SR : Set Row) :
    Probeable (sideOf ls lk SL) (sideOf rs rk SR) :=
  ⟨by simpa [sideOf, keyColumnsOf] using h.nonempty, h.types, h.nulls⟩

/-- On the rows of the two sides, matching is equality of the key cells. -/
lemma matches_iff {SL SR : Set Row} (hkeys : SameKeys ls rs lk rk) {a b : Row} (ha : ls.holds a) (hb : rs.holds b) :
    Matches F (sideOf ls lk SL) (sideOf rs rk SR) a b ↔ keyCells rs rk b = keyCells ls lk a :=
  keyOf_eq_iff (fun t ht => hkeys.flat t (hkeys.types ▸ ht)) hkeys.types.symm hb ha

section

variable (h : IncrementalJoinOp.newWithLateness ls rs lk rk kind lateness = .ok op) (SL SR : Set Row)

include h

/-- A new operator has accumulated nothing. -/
lemma holds_of_new (residual : Option MembershipResidual) :
    { op with membershipResidual := residual }.Holds F (sideOf ls lk SL) (sideOf rs rk SR) kind residual 0 0 := by
  obtain ⟨-, -, lcol, rcol, rfl⟩ := newWithLateness_eq h
  have hl := of_empty (s := ls) (S := SL) (keyColumnsOf ls lk) lcol
  have hr := of_empty (s := rs) (S := SR) (keyColumnsOf rs rk) rcol
  exact {
    shape := {
      leftSchema := rfl, rightSchema := rfl, leftKeyCols := rfl, rightKeyCols := rfl
      leftTrace := hl.1, rightTrace := hr.1, leftCols := rfl, rightCols := rfl
      output := rfl, fieldCount := rfl }
    kind_eq := rfl
    residual_eq := rfl
    left := hl.2
    right := hr.2
    weights := fun _ k => (Side.weightOf_zero k).symm
    nonzero := fun k hk => by cases hk }

/-- A new operator has no predicate. -/
lemma holds_of_new_none : op.Holds F (sideOf ls lk SL) (sideOf rs rk SR) kind none 0 0 := by
  have hnone : { op with membershipResidual := none } = op := by
    obtain ⟨-, -, lcol, rcol, rfl⟩ := newWithLateness_eq h
    rfl
  rw [← hnone]
  exact holds_of_new h SL SR none

end

/-! ## Runs -/

/-- Every tick returns, and together the ticks emit `Z`. -/
def IncrementalJoinOp.Emits (F : FloatFormat) (hash : List Text → ℕ) (op : IncrementalJoinOp)
    (ticks : List Tick) (Z : Row →₀ ℤ) : Prop :=
  ∃ ds : List DeltaBatch, (op.run F hash ticks).1 = ds.map .ok ∧ (ds.map DeltaBatch.zset).sum = Z

/-- If every tick emits the change of `rel`, a run emits the change over all ticks. -/
lemma run_spec {I : IncrementalJoinOp → (Row →₀ ℤ) → (Row →₀ ℤ) → Prop} {rel : (Row →₀ ℤ) → (Row →₀ ℤ) → Row →₀ ℤ}
    (step : ∀ op L R t, I op L R → P L R t → ∃ d, (op.apply F hash t.left t.right).1 = .ok d ∧
      rel (L + deltaZ t.left) (R + deltaZ t.right) = rel L R + d.zset ∧
      I (op.apply F hash t.left t.right).2 (L + deltaZ t.left) (R + deltaZ t.right))
    (h : I op L R) (hticks : Throughout P L R ticks)
    (hZ : rel (L + leftSum ticks) (R + rightSum ticks) = rel L R + Z) : op.Emits F hash ticks Z := by
  induction ticks generalizing op L R Z with
  | nil =>
    refine ⟨[], rfl, ?_⟩
    simpa [leftSum, rightSum, eq_comm] using hZ
  | cons t ts ih =>
    obtain ⟨d, hd, hrel, hI⟩ := step op L R t h hticks.1
    rw [leftSum_cons, rightSum_cons, ← add_assoc, ← add_assoc] at hZ
    obtain ⟨ds, hds, hsum⟩ := ih (Z := Z - d.zset) hI hticks.2 (by rw [hZ, hrel]; abel)
    refine ⟨d :: ds, ?_, ?_⟩
    · rw [IncrementalJoinOp.run, map_cons, ← hds, ← hd]
    · rw [map_cons, sum_cons, hsum, add_sub_cancel]

/-! ## What a run emits -/

/-- The rows of the outputs of a run of a new operator. -/
def emittedRows (F : FloatFormat) (hash : List Text → ℕ) (result : DeltaResult IncrementalJoinOp)
    (ticks : List Tick) : List (Row × ℤ) :=
  match result with
  | .error _ => []
  | .ok op => (op.run F hash ticks).1.flatMap fun out =>
    match out with
    | .error _ => []
    | .ok d => d.rows

/-- What a run emits, row by row. -/
lemma IncrementalJoinOp.Emits.weight_eq (h : op.Emits F hash ticks Z) (r : Row) :
    weight (emittedRows F hash (.ok op) ticks) r = Z r := by
  obtain ⟨ds, hds, rfl⟩ := h
  have hrows : emittedRows F hash (.ok op) ticks = (ds.map DeltaBatch.rows).flatten := by
    rw [emittedRows, hds, flatMap_map]
    rfl
  rw [← toZ_apply, hrows, toZ_flatten, map_map]
  rfl

/-- A run on fixed inputs that emits something else. -/
lemma not_emits {result : DeltaResult IncrementalJoinOp} (hok : result.toOption.isSome = true)
    {r : Row} (h : weight (emittedRows F hash result ticks) r ≠ Z r) :
    ∃ op, result = .ok op ∧ ¬op.Emits F hash ticks Z := by
  cases result with
  | error e => cases hok
  | ok op => exact ⟨op, rfl, fun hemits => h (hemits.weight_eq r)⟩

/-! ## Inputs for runs on fixed rows -/

def intField (name : String) : Field := ⟨name, .int64, true⟩

def floatField (name : String) : Field := ⟨name, .float64, true⟩

/-- A tick of left rows. -/
def Tick.ofLeft (s : Schema) (rows : List (Row × ℤ)) : Tick := ⟨some ⟨s, rows⟩, none⟩

/-- A tick of right rows. -/
def Tick.ofRight (s : Schema) (rows : List (Row × ℤ)) : Tick := ⟨none, some ⟨s, rows⟩⟩

/-- A property of every tick together with the rows that were given before it. -/
def ThroughoutGiven (Q : List (Row × ℤ) → List (Row × ℤ) → Tick → Prop) (gl gr : List (Row × ℤ)) : List Tick → Prop
  | [] => True
  | t :: ts => Q gl gr t ∧
    ThroughoutGiven Q (gl ++ t.left.elim [] DeltaBatch.rows) (gr ++ t.right.elim [] DeltaBatch.rows) ts

instance decidableThroughoutGiven (Q : List (Row × ℤ) → List (Row × ℤ) → Tick → Prop)
    [∀ gl gr t, Decidable (Q gl gr t)] (gl gr : List (Row × ℤ)) (ticks : List Tick) :
    Decidable (ThroughoutGiven Q gl gr ticks) :=
  match ticks with
  | [] => inferInstanceAs (Decidable True)
  | t :: ts =>
    have := decidableThroughoutGiven Q (gl ++ t.left.elim [] DeltaBatch.rows)
      (gr ++ t.right.elim [] DeltaBatch.rows) ts
    inferInstanceAs (Decidable (_ ∧ _))

lemma deltaZ_eq_toZ (d : Option DeltaBatch) : deltaZ d = toZ (d.elim [] DeltaBatch.rows) := by
  cases d <;> rfl

lemma throughout_of_given {Q : List (Row × ℤ) → List (Row × ℤ) → Tick → Prop}
    (hQ : ∀ gl gr t, Q gl gr t → P (toZ gl) (toZ gr) t) {gl gr : List (Row × ℤ)}
    (h : ThroughoutGiven Q gl gr ticks) : Throughout P (toZ gl) (toZ gr) ticks := by
  induction ticks generalizing gl gr with
  | nil => trivial
  | cons t ts ih =>
    refine ⟨hQ gl gr t h.1, ?_⟩
    rw [deltaZ_eq_toZ, deltaZ_eq_toZ, ← toZ_append, ← toZ_append]
    exact ih h.2

/-- Weights that are not negative on the rows of a list are not negative. -/
lemma toZ_nonneg_of_mem {l : List (Row × ℤ)} (h : ∀ p ∈ l, 0 ≤ weight l p.1) (r : Row) : 0 ≤ toZ l r := by
  by_cases hr : ZSet.toZ l r = 0
  · rw [hr]
  · obtain ⟨p, hp, rfl⟩ := mem_of_toZ_ne_zero hr
    rw [toZ_apply]
    exact h p hp

end Krishiv.Delta
