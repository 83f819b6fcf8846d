import Krishiv.Delta.OuterJoin

/-!
# Semi and anti joins

A semi join keeps the left rows that have a partner, an anti join those that have none. By key, a row has
a partner if the right rows of its key have weight; with a membership predicate, if those that pass it do.
A tick emits its own left rows that belong to the relation after it, and the old left rows that enter or
leave it. By key these are the rows of keys whose weight crosses zero (`member_step`); with a predicate
every old row of a key of the tick is weighed before and after (`residual_step`). Over relations without
negative weights both emit the left rows with a partner, or without one (`emits_membership_join`). A tick
fails, and its rows are lost, if the old rows of a key have to be looked up and the key is no integer or
text, or a null that the column forbids (`membership_join_wrong`).
-/

namespace Krishiv.Delta

open List DeltaBatch IncrementalJoinOp ZSet Bool

variable {F : FloatFormat} (hash : List Text → ℕ) {A B : Side} {op : IncrementalJoinOp}

/-! ## By key -/

/-- The two kinds whose output is left rows. -/
def IncrJoinType.membership : IncrJoinType → Bool
  | .leftSemi | .leftAnti => true
  | _ => false

variable {kind : IncrJoinType}

lemma IncrJoinType.ne_inner (h : kind.membership = true) : kind ≠ .inner := by
  rintro rfl
  cases h

variable {R L : Row →₀ ℤ}

/-- Which path a tick takes. -/
lemma apply_of_membership {residual : Option MembershipResidual}
    (hkind : kind.membership = true) (h : op.Holds F A B kind residual L R) (left right : Option DeltaBatch) :
    op.apply F hash left right = if residual.isSome then op.applyLeftSemiAntiResidual F hash left right
      else op.applyLeftSemiAnti F hash left right := by
  unfold apply
  rw [h.kind_eq, h.residual_eq]
  revert hkind
  cases kind <;> intro hkind <;> first | rfl | cases hkind

lemma outputSchema_of_membership (hop : op.Over A B) (hkind : op.joinType.membership = true) :
    op.outputSchema = A.schema := by
  rw [hop.output]
  revert hkind
  cases op.joinType <;> intro hkind <;> first | rfl | cases hkind

/-- The left rows of a tick that belong to the relation, where `n` is the weight of a key after it. -/
lemma keptRows_spec (hA : A.Good F) (hop : op.Over A B) (semi : Bool) {change : KVMap Key ℤ}
    {n : Key → ℤ} (hn : ∀ k, op.effectiveWeight change k = n k) {left : DeltaBatch}
    (hleft : left.Of A.schema A.rows) : ∃ parts, op.keptRows F semi change left = .ok parts ∧
      Parts A.schema (left.zset.filter fun a => isMember semi (n (A.key F a)) = true) parts := by
  have hz := toZ_filter (fun a => isMember semi (n (A.key F a)) = true) left.rows
  refine ⟨part ⟨A.schema, left.rows.filter fun q => isMember semi (n (A.key F q.1))⟩, ?_, ?_⟩
  · unfold keptRows
    rw [hleft.schema_eq, hop.leftKeyCols, hA.cols_eq]
    simp [bind, Except.bind, keyedBy_eq hA, hn, filter_keyed left.rows fun k => isMember semi (n k)]
  · rw [zset, ← hz]
    simp only [decide_eq_true]
    exact .part (d := ⟨A.schema, left.rows.filter fun q => isMember semi (n (A.key F q.1))⟩) rfl

variable {keys : List Key}

/-- The old left rows of some keys. -/
lemma flippedRows_spec (hAB : Comparable F A B) (hprobe : Probeable A B) (hop : op.Over A B)
    (sign : ℤ) (hkeys : ∀ k ∈ keys, ∃ b ∈ B.rows, B.key F b = k) :
    ∃ parts, op.flippedRows F hash sign keys = .ok parts ∧
      Parts A.schema (sign • op.leftTrace.zset.filter fun a => A.key F a ∈ keys) parts := by
  unfold flippedRows
  split_ifs with hempty
  · refine ⟨[], rfl, ?_⟩
    rw [filter_of_isEmpty hempty, zsmul_zero]
    exact .nil
  · obtain ⟨found, hfound, hof, hz⟩ := rowsOfKeys_spec hash hAB hprobe hop.leftTrace hop.leftCols hkeys
    refine ⟨part (found.scale sign), ?_, ?_⟩
    · rw [leftRowsOf, hop.leftKeyCols, hop.leftSchema, hfound]
      rfl
    · rw [← hz, ← scale_zset]
      exact .part (hof.scale sign).schema_eq

lemma gained_self (semi : Bool) (w : ℤ) : gained semi w w = false := by
  cases semi
  · exact crossedDown_self w
  · exact crossedUp_self w

lemma lost_self (semi : Bool) (w : ℤ) : lost semi w w = false := by
  cases semi
  · exact crossedUp_self w
  · exact crossedDown_self w

variable {semi : Bool} {t : Tick}

/-- What a tick emits, where a left row has the weight `o` of its key before the tick and `n` after it. -/
lemma member_output (hAB : Comparable F A B) (hprobe : Probeable A B) (hkind : kind.membership = true)
    (h : op.Holds F A B kind none L R) (ht : t.Of A B) {o n : Row → ℤ} (ho : ∀ a, o a = B.weightOf F R (A.key F a))
    (hn : ∀ a, n a = B.weightOf F (R + deltaZ t.right) (A.key F a))
    (hsemi : semi = decide (kind = .leftSemi)) : ∃ d, (op.apply F hash t.left t.right).1 = .ok d ∧
      d.zset = ((deltaZ t.left).filter fun a => isMember semi (n a) = true) +
        (L.filter fun a => gained semi (o a) (n a) = true) - (L.filter fun a => lost semi (o a) (n a) = true) ∧
      (op.apply F hash t.left t.right).2.Holds F A B kind none (L + deltaZ t.left) (R + deltaZ t.right) := by
  have hinner := IncrJoinType.ne_inner hkind
  obtain ⟨change, hchange, hlookup, hkeys⟩ := weightDelta_spec hAB.right ht.right
  obtain ⟨kept, hkept, hkeptZ⟩ : ∃ parts, whenPresent t.left (op.keptRows F semi change) = .ok parts ∧
      Parts A.schema ((deltaZ t.left).filter fun a => isMember semi (n a) = true) parts := by
    refine whenPresent_spec (fun hzero => ?_) fun l hl => ?_
    · rw [hzero, Finsupp.filter_zero]
      exact .nil
    obtain ⟨parts, hparts, hz⟩ := keptRows_spec hAB.left h.shape semi (h.effectiveWeight hinner hlookup)
      (ht.left l hl)
    refine ⟨parts, hparts, ?_⟩
    rw [hl]
    simp only [hn]
    exact hz
  -- the keys that cross zero
  have hchanged : ∀ p, ∀ k ∈ changedKeys op.rightKeyGroupWeights change p, ∃ b ∈ B.rows, B.key F b = k :=
    fun p k hk => hkeys k (changedKeys_subset k hk)
  obtain ⟨gains, hgains, hgainsZ⟩ := flippedRows_spec hash hAB hprobe h.shape 1 (hchanged (gained semi))
  obtain ⟨losses, hlosses, hlossesZ⟩ := flippedRows_spec hash hAB hprobe h.shape (-1) (hchanged (lost semi))
  simp only [h.mem_changedKeys hinner hlookup (gained_self semi), h.left, one_zsmul, ← ho, ← hn] at hgainsZ
  simp only [h.mem_changedKeys hinner hlookup (lost_self semi), h.left, neg_one_zsmul, ← ho, ← hn] at hlossesZ
  obtain ⟨d, hd, -, hz⟩ := ((hkeptZ.append hgainsZ).append hlossesZ).combine
  have hout := outputSchema_of_membership h.shape (by rw [h.kind_eq]; exact hkind)
  have happly : op.apply F hash t.left t.right =
      (.ok d, (op.updateWeights change).insertDeltas F t.left t.right) := by
    rw [apply_of_membership hash hkind h, if_neg nofun]
    unfold applyLeftSemiAnti
    rw [h.shape.rightKeyCols, hchange, h.kind_eq, ← hsemi]
    simp only [bind, Except.bind, pure, Except.pure, hkept, hgains, hlosses, hout, hd]
  rw [happly]
  refine ⟨d, rfl, ?_, h.updateWeights hAB hinner ht hlookup⟩
  rw [hz, sub_eq_add_neg]

/-- The left rows that belong to the relation by the weight of their key. -/
noncomputable def memberRelation (F : FloatFormat) (A B : Side) (semi : Bool) (L R : Row →₀ ℤ) : Row →₀ ℤ :=
  L.filter fun a => isMember semi (B.weightOf F R (A.key F a)) = true

/-- A change of a key's weight that the crossings report: for a semi join not between the signs, for an
anti join neither from zero down nor from below to zero. -/
def Noticed (semi : Bool) (old new : ℤ) : Prop :=
  if semi then ¬(old < 0 ∧ 0 < new) ∧ ¬(0 < old ∧ new < 0) else Reported old new

/-- The ticks after which the relation is right. -/
structure MemberTick (F : FloatFormat) (A B : Side) (semi : Bool) (L R : Row →₀ ℤ) (t : Tick) : Prop where
  of : t.Of A B
  noticed : ∀ a, L a ≠ 0 →
    Noticed semi (B.weightOf F R (A.key F a)) (B.weightOf F (R + deltaZ t.right) (A.key F a))

lemma gained_iff {o n : ℤ} (h : Noticed semi o n) :
    gained semi o n = true ↔ ¬isMember semi o = true ∧ isMember semi n = true := by
  cases semi
  · have hrep := h.2
    simp only [gained, isMember, crossedDown, false_eq_true, if_false, and_eq_true, decide_eq_true_eq]
    omega
  · have hrep := h.1
    simp only [gained, isMember, crossedUp, if_true, and_eq_true, decide_eq_true_eq]
    omega

lemma lost_iff {o n : ℤ} (h : Noticed semi o n) :
    lost semi o n = true ↔ isMember semi o = true ∧ ¬isMember semi n = true := by
  cases semi
  · have hrep := h.1
    simp only [lost, isMember, crossedUp, false_eq_true, if_false, and_eq_true, decide_eq_true_eq]
    omega
  · have hrep := h.2
    simp only [lost, isMember, crossedDown, if_true, and_eq_true, decide_eq_true_eq]
    omega

/-- A tick emits the change of the relation. -/
lemma member_step (hAB : Comparable F A B) (hprobe : Probeable A B) (hkind : kind.membership = true)
    (h : op.Holds F A B kind none L R) (hsemi : semi = decide (kind = .leftSemi))
    (ht : MemberTick F A B semi L R t) : ∃ d, (op.apply F hash t.left t.right).1 = .ok d ∧
      memberRelation F A B semi (L + deltaZ t.left) (R + deltaZ t.right) = memberRelation F A B semi L R + d.zset ∧
      (op.apply F hash t.left t.right).2.Holds F A B kind none (L + deltaZ t.left) (R + deltaZ t.right) := by
  obtain ⟨d, hd, hz, hholds⟩ := member_output hash hAB hprobe hkind h ht.of (fun _ => rfl) (fun _ => rfl) hsemi
  refine ⟨d, hd, ?_, hholds⟩
  have hgained := filter_congr_support (A := L) fun a ha => gained_iff (ht.noticed a ha)
  have hlost := filter_congr_support (A := L) fun a ha => lost_iff (ht.noticed a ha)
  unfold memberRelation
  rw [hz, Finsupp.filter_add, hgained, hlost,
    filter_eq_add_sub (fun a => isMember semi (B.weightOf F R (A.key F a)) = true)
      (fun a => isMember semi (B.weightOf F (R + deltaZ t.right) (A.key F a)) = true) L]
  abel

/-! ## With a predicate -/

/-- A right row that counts for a left row. -/
abbrev Passes (F : FloatFormat) (A B : Side) (pred : Row → Option Bool) (a b : Row) : Prop :=
  Matches F A B a b ∧ pred (a ++ b) = some true

/-- The weight of the right rows that count for a left row. -/
noncomputable def passWeight (F : FloatFormat) (A B : Side) (pred : Row → Option Bool) (Z : Row →₀ ℤ) (a : Row) : ℤ :=
  ZSet.total (Passes F A B pred a) Z

lemma passWeight_add (pred : Row → Option Bool) (Z Z' : Row →₀ ℤ) (a : Row) :
    passWeight F A B pred (Z + Z') a = passWeight F A B pred Z a + passWeight F A B pred Z' a :=
  total_add _ Z Z'

variable {pred : Row → Option Bool}

/-- The weight of the rows of a batch that pass. -/
lemma residualPassWeight_spec (hres : op.membershipResidual = some (.ofPredicate pred)) (s : Schema)
    (a : Row) (rights : DeltaBatch) :
    op.residualPassWeight s a rights = .ok (total (fun b => pred (a ++ b) = some true) rights.zset) := by
  unfold residualPassWeight
  split_ifs with hempty
  · rw [zset_of_isEmpty hempty, total_zero]
  rw [hres]
  simp only [MembershipResidual.ofPredicate, bind, Except.bind, map_map]
  refine congrArg Except.ok ?_
  rw [zset, total_toZ]
  have hzip : ((rights.rows.map (pred ∘ fun p => a ++ p.1)).zip rights.rows) =
      rights.rows.map fun p => (pred (a ++ p.1), p) := by
    induction rights.rows with
    | nil => rfl
    | cons p rows ih => simpa using ih
  rw [hzip, filter_map, map_map]
  rfl

/-- A map has the rows of a key: the group of it, or nothing if there are none. -/
def GroupAt (F : FloatFormat) (A : Side) (rows : List (Row × ℤ)) (m : KVMap Key DeltaBatch) (k : Key) : Prop :=
  (m.lookup k = none ∧ ∀ p ∈ rows, A.key F p.1 ≠ k) ∨
    (m.lookup k = some ⟨A.schema, rows.filter fun p => A.key F p.1 = k⟩ ∧ ∃ p ∈ rows, A.key F p.1 = k)

/-- The rows of a batch by key. -/
lemma groupMatchesByKey_spec (hA : A.Good F) {d : DeltaBatch} (hd : d.Of A.schema A.rows) :
    ∃ m, groupMatchesByKey F A.keyNames d = .ok m ∧ ∀ k, GroupAt F A d.rows m k := by
  unfold groupMatchesByKey
  rw [hd.schema_eq, hA.cols_eq]
  simp only [bind, Except.bind, keyedBy_eq hA]
  refine ⟨_, rfl, fun k => ?_⟩
  unfold GroupAt
  rw [KVMap.lookup_map, KVMap.lookup_groupBy]
  split_ifs with hkey
  · right
    refine ⟨?_, ?_⟩
    · rw [Option.map_some, filter_map, map_map]
      exact congrArg (fun rows => some (mk A.schema rows)) (map_id _)
    · obtain ⟨e, he, hk⟩ := hkey
      obtain ⟨p, hp, rfl⟩ := mem_map.mp he
      exact ⟨p, hp, hk⟩
  · left
    exact ⟨rfl, fun p hp heq => hkey ⟨(A.key F p.1, p), mem_map_of_mem hp, heq⟩⟩

variable {m : KVMap Key DeltaBatch}

lemma GroupAt.zset {d : DeltaBatch} {k : Key} (h : GroupAt F A d.rows m k)
    (s : Schema) : ((m.lookup k).getD (.empty s)).zset = d.zset.filter fun r => A.key F r = k := by
  rcases h with ⟨hnone, hrows⟩ | ⟨hsome, -⟩
  · rw [hnone, Option.getD_none]
    refine ((Finsupp.filter_eq_zero_iff _ _).mpr fun r hr => ?_).symm
    by_contra hne
    obtain ⟨p, hp, rfl⟩ := mem_of_toZ_ne_zero hne
    exact hrows p hp hr
  · rw [hsome, Option.getD_some]
    exact toZ_filter (fun r => A.key F r = k) d.rows

lemma GroupAt.mem_keys {rows : List (Row × ℤ)} {k : Key}
    (h : GroupAt F A rows m k) : k ∈ m.keys ↔ ∃ p ∈ rows, A.key F p.1 = k := by
  rcases h with ⟨hnone, hrows⟩ | ⟨hsome, hrow⟩
  · refine iff_of_false (AList.lookup_eq_none.mp hnone) ?_
    rintro ⟨p, hp, hk⟩
    exact hrows p hp hk
  refine iff_of_true ?_ hrow
  by_contra hnot
  rw [AList.lookup_eq_none.mpr hnot] at hsome
  cases hsome

variable {a : Row}

/-- The weight that passes among the rows of the key of a left row. -/
lemma total_pass_filter {Z : Row →₀ ℤ} {k : Key} (hk : A.key F a = k) :
    total (fun b => pred (a ++ b) = some true) (Z.filter fun b => B.key F b = k) = passWeight F A B pred Z a := by
  rw [total_filter]
  refine total_congr fun b _ => ?_
  rw [← hk]

/-- The right rows of a tick by key: what they add to the weight that passes, and which keys they have. -/
lemma changeByKey_spec (hB : B.Good F) (hop : op.Over A B)
    (hres : op.membershipResidual = some (.ofPredicate pred)) {right : Option DeltaBatch}
    (hright : ∀ d ∈ right, d.Of B.schema B.rows) : ∃ m, op.changeByKey F right = .ok m ∧
      (∀ s a, op.deltaPassWeight m s (A.key F a) a = .ok (passWeight F A B pred (deltaZ right) a)) ∧
      (∀ k ∈ m.keys, ∃ b ∈ B.rows, B.key F b = k) ∧
      ∀ a, A.key F a ∉ m.keys → passWeight F A B pred (deltaZ right) a = 0 := by
  unfold changeByKey
  cases hpresent : present right with
  | none =>
    have hzero : ∀ a, passWeight F A B pred (deltaZ right) a = 0 := fun a => by
      rw [deltaZ_of_present_none hpresent]
      exact total_zero _
    refine ⟨∅, rfl, fun s a => ?_, fun k hk => ?_, fun a _ => hzero a⟩
    · rw [hzero]
      rfl
    · exact absurd hk not_mem_nil
  | some r =>
    have hr := eq_some_of_present hpresent
    subst hr
    obtain ⟨m, hm, hgroup⟩ := groupMatchesByKey_spec hB (hright r rfl)
    rw [hop.rightKeyCols]
    have hnone : ∀ a, m.lookup (A.key F a) = none → passWeight F A B pred r.zset a = 0 := by
      intro a ha
      have hz := (hgroup (A.key F a)).zset B.schema
      rw [ha, Option.getD_none] at hz
      rw [← total_pass_filter rfl, ← hz]
      exact total_zero _
    refine ⟨m, hm, fun s a => ?_, fun k hk => ?_, fun a ha => hnone a (AList.lookup_eq_none.mpr ha)⟩
    · unfold deltaPassWeight
      cases hlookup : m.lookup (A.key F a) with
      | none => rw [deltaZ, Option.elim_some, hnone a hlookup]
      | some rights =>
        have hz := (hgroup (A.key F a)).zset B.schema
        rw [hlookup, Option.getD_some] at hz
        dsimp only
        rw [residualPassWeight_spec hres, hz, total_pass_filter rfl]
        rfl
    · obtain ⟨p, hp, hkey⟩ := (hgroup k).mem_keys.mp hk
      exact ⟨p.1, (hright r rfl).rows_mem p hp, hkey⟩

section Residual

variable {dR : Row →₀ ℤ} (hop : op.Over A B) (hres : op.membershipResidual = some (.ofPredicate pred))
  (hR : op.rightTrace.zset = R)
  (hdelta : ∀ s a, op.deltaPassWeight m s (A.key F a) a = .ok (passWeight F A B pred dR a))

include hres hdelta in
/-- The weight that passes before and after a tick, with the rows found for some keys. -/
lemma passWeights_group {found : DeltaBatch} (hz : found.zset = R.filter fun b => B.key F b ∈ keys)
    {g : KVMap Key DeltaBatch} (hgroup : ∀ k, GroupAt F B found.rows g k) (s s' : Schema) (ha : A.key F a ∈ keys) :
    op.passWeights m s ((g.lookup (A.key F a)).getD (.empty s')) (A.key F a) a =
      .ok (passWeight F A B pred R a, passWeight F A B pred (R + dR) a) := by
  have hbefore : total (fun b => pred (a ++ b) = some true)
      ((g.lookup (A.key F a)).getD (.empty s')).zset = passWeight F A B pred R a := by
    rw [(hgroup (A.key F a)).zset, total_pass_filter rfl, hz, passWeight, total_filter]
    refine total_congr fun b _ => ?_
    constructor
    · exact fun h => h.2
    · intro h
      exact ⟨by rw [h.1]; exact ha, h⟩
  unfold passWeights
  rw [residualPassWeight_spec hres, hbefore, hdelta, passWeight_add]
  rfl

include hop hres hR hdelta in
/-- The left rows of a tick that belong to the relation after it. -/
lemma residualKept_spec (hAB : Comparable F A B) (hprobe : Probeable B A)
    {left : DeltaBatch} (hleft : left.Of A.schema A.rows) : ∃ parts, op.residualKept F hash semi m left = .ok parts ∧
      Parts A.schema (left.zset.filter fun a => isMember semi (passWeight F A B pred (R + dR) a) = true) parts := by
  have hkeys : ∀ k ∈ ((left.rows.map fun p => (A.key F p.1, p)).map Prod.fst).dedup, ∃ a ∈ A.rows, A.key F a = k := by
    intro k hk
    rw [mem_dedup, map_map, mem_map] at hk
    obtain ⟨p, hp, rfl⟩ := hk
    exact ⟨p.1, hleft.rows_mem p hp, rfl⟩
  obtain ⟨found, hfound, hof, hz⟩ := rowsOfKeys_spec hash hAB.symm hprobe hop.rightTrace hop.rightCols hkeys
  obtain ⟨g, hg, hgroup⟩ := groupMatchesByKey_spec hAB.right hof
  rw [hR] at hz
  have hweighed : ((left.rows.map fun p => (A.key F p.1, p)).mapM fun e =>
      (op.passWeights m A.schema ((g.lookup e.1).getD (.empty op.rightSchema)) e.1 e.2.1).map fun w =>
        (w.2, e.2)) = .ok ((left.rows.map fun p => (A.key F p.1, p)).map fun e =>
          (passWeight F A B pred (R + dR) e.2.1, e.2)) := by
    refine Except.mapM_eq_map fun e he => ?_
    obtain ⟨p, hp, rfl⟩ := mem_map.mp he
    have hmem : A.key F p.1 ∈ ((left.rows.map fun p => (A.key F p.1, p)).map Prod.fst).dedup := by
      rw [mem_dedup, map_map]
      exact mem_map.mpr ⟨p, hp, rfl⟩
    rw [passWeights_group hres hdelta hz hgroup _ _ hmem]
    rfl
  have hzset := toZ_filter (fun a => isMember semi (passWeight F A B pred (R + dR) a) = true) left.rows
  refine ⟨part ⟨A.schema, left.rows.filter fun p => isMember semi (passWeight F A B pred (R + dR) p.1)⟩, ?_, ?_⟩
  · unfold residualKept rightRowsOf
    rw [hleft.schema_eq, hop.leftKeyCols, hAB.left.cols_eq, hop.rightKeyCols, hop.rightSchema]
    rw [hop.rightSchema] at hweighed
    simp only [bind, Except.bind, keyedBy_eq hAB.left, hfound, hg, hweighed]
    rw [map_map, filter_map, map_map]
    refine congrArg (fun rows => Except.ok (part ⟨A.schema, rows⟩)) (map_id _)
  · rw [zset, ← hzset]
    simp only [decide_eq_true]
    exact .part (d := ⟨A.schema, left.rows.filter fun p =>
      isMember semi (passWeight F A B pred (R + dR) p.1)⟩) rfl

lemma flipSign_self (semi : Bool) (w : ℤ) : flipSign semi w w = none := by
  unfold flipSign
  cases isMember semi w <;> rfl

lemma flipSign_cases (semi : Bool) (pre post : ℤ) : flipSign semi pre post = none ∨ flipSign semi pre post = some 1 ∨
    flipSign semi pre post = some (-1) := by
  unfold flipSign
  split <;> simp

lemma flipSign_eq_one {pre post : ℤ} :
    flipSign semi pre post = some 1 ↔ ¬isMember semi pre = true ∧ isMember semi post = true := by
  unfold flipSign
  cases isMember semi pre <;> cases isMember semi post <;> simp

lemma flipSign_eq_neg_one {pre post : ℤ} :
    flipSign semi pre post = some (-1) ↔ isMember semi pre = true ∧ ¬isMember semi post = true := by
  unfold flipSign
  cases isMember semi pre <;> cases isMember semi post <;> simp

/-- The rows that enter the relation, less those that leave it, where a row has the weight `o` before the
tick and `n` after it. -/
noncomputable def flipped (semi : Bool) (o n : Row → ℤ) (Z : Row →₀ ℤ) : Row →₀ ℤ :=
  (Z.filter fun a => flipSign semi (o a) (n a) = some 1) -
    Z.filter fun a => flipSign semi (o a) (n a) = some (-1)

@[simp] lemma flipped_zero (semi : Bool) (o n : Row → ℤ) : flipped semi o n 0 = 0 := by
  rw [flipped, Finsupp.filter_zero, Finsupp.filter_zero, sub_zero]

variable {o n : Row → ℤ}

/-- The rows that enter or leave, key by key. -/
lemma sum_flipped (hkeys : keys.Nodup) {key : Row → Key} (Z : Row →₀ ℤ) (h : ∀ a, key a ∉ keys → o a = n a) :
    (keys.map fun k => flipped semi o n (Z.filter fun a => key a = k)).sum = flipped semi o n Z := by
  have hmem : ∀ c a, flipSign semi (o a) (n a) = some c → key a ∈ keys := by
    intro c a hc
    by_contra hnot
    rw [h a hnot, flipSign_self] at hc
    cases hc
  unfold flipped
  rw [← sum_filter_keys hkeys Z (hmem 1), ← sum_filter_keys hkeys Z (hmem (-1))]
  simp [sub_eq_add_neg, sum_neg, Function.comp_def]

/-- The relation after a tick: the old left rows that stay and those that enter. -/
lemma filter_eq_add_flipped (o n : Row → ℤ) (Z : Row →₀ ℤ) : (Z.filter fun a => isMember semi (n a) = true) =
      (Z.filter fun a => isMember semi (o a) = true) + flipped semi o n Z := by
  unfold flipped
  simp only [flipSign_eq_one, flipSign_eq_neg_one]
  rw [filter_eq_add_sub (fun a => isMember semi (o a) = true) (fun a => isMember semi (n a) = true) Z]

/-- The old left rows of one key whose membership changes. -/
lemma residualFlipsOf_spec {key : Key} {rights : DeltaBatch} {leftMatches : DeltaBatch}
    (hschema : leftMatches.schema = A.schema) (hweights : ∀ p ∈ leftMatches.rows,
      op.passWeights m A.schema rights key p.1 = .ok (o p.1, n p.1)) :
    ∃ parts, op.residualFlipsOf semi m rights key leftMatches = .ok parts ∧
      Parts A.schema (flipped semi o n leftMatches.zset) parts := by
  have hflips : (leftMatches.rows.mapM fun p => (op.passWeights m leftMatches.schema rights key p.1).map fun w =>
        (flipSign semi w.1 w.2).map fun sign => (p.1, sign * p.2)) = .ok (leftMatches.rows.map fun p =>
        (flipSign semi (o p.1) (n p.1)).map fun sign => (p.1, sign * p.2)) := by
    refine Except.mapM_eq_map fun p hp => ?_
    rw [hschema, hweights p hp]
    rfl
  have hz := toZ_filterMap_sign (fun a => flipSign_cases semi (o a) (n a)) leftMatches.rows
  have hparts := Parts.part (s := A.schema) (d := ⟨A.schema, leftMatches.rows.filterMap fun p : Row × ℤ =>
    (flipSign semi (o p.1) (n p.1)).map fun sign => (p.1, sign * p.2)⟩) rfl
  refine ⟨_, ?_, (congrArg (Parts A.schema · _) hz).mp hparts⟩
  unfold residualFlipsOf
  rw [hflips, hschema]
  simp only [bind, Except.bind, filterMap_map]
  rfl

include hop hres hR hdelta in
/-- The right rows of the keys that have left rows weigh the left rows of these keys. -/
lemma liveRights_spec (hAB : Comparable F A B) (hprobe : Probeable B A)
    {live : List Key} (hlive : ∀ k ∈ live, ∃ a ∈ A.rows, A.key F a = k) :
    ∃ g, op.liveRights F hash live = .ok g ∧ ∀ s a, A.key F a ∈ live →
        op.passWeights m s ((g.lookup (A.key F a)).getD (.empty op.rightSchema)) (A.key F a) a =
          .ok (passWeight F A B pred R a, passWeight F A B pred (R + dR) a) := by
  unfold liveRights
  split_ifs with hempty
  · refine ⟨∅, rfl, fun s a ha => ?_⟩
    rw [List.isEmpty_iff.mp hempty] at ha
    cases ha
  obtain ⟨found, hfound, hof, hz⟩ := rowsOfKeys_spec hash hAB.symm hprobe hop.rightTrace hop.rightCols hlive
  obtain ⟨g, hg, hgroup⟩ := groupMatchesByKey_spec hAB.right hof
  rw [hR] at hz
  refine ⟨g, ?_, fun s a ha => passWeights_group hres hdelta hz hgroup _ _ ha⟩
  unfold rightRowsOf
  rw [hop.rightKeyCols, hop.rightSchema, hfound]
  exact hg

include hop hres hR hdelta in
/-- The old left rows whose membership changes. -/
lemma residualFlips_spec (hAB : Comparable F A B) (hprobe : Probeable A B) (hprobe' : Probeable B A)
    (hL : op.leftTrace.zset = L) (hkeys : ∀ k ∈ m.keys, ∃ b ∈ B.rows, B.key F b = k)
    (hother : ∀ a, A.key F a ∉ m.keys → passWeight F A B pred dR a = 0)
    (ho : ∀ a, passWeight F A B pred R a = o a) (hn : ∀ a, passWeight F A B pred (R + dR) a = n a) :
    ∃ parts, op.residualFlips F hash semi m = .ok parts ∧ Parts A.schema (flipped semi o n L) parts := by
  -- a row of another key has the same weight before and after the tick
  have hsame : ∀ a, A.key F a ∉ m.keys → o a = n a := by
    intro a ha
    rw [← ho, ← hn, passWeight_add, hother a ha, add_zero]
  rw [← sum_flipped (AList.keys_nodup m) L hsame]
  obtain ⟨allLeft, hallLeft, hof, hz⟩ := rowsOfKeys_spec hash hAB hprobe hop.leftTrace hop.leftCols hkeys
  obtain ⟨g, hg, hgroup⟩ := groupMatchesByKey_spec hAB.left hof
  rw [hL] at hz
  have hlive : ∀ k ∈ m.keys.filter fun key => (g.lookup key).isSome, ∃ a ∈ A.rows, A.key F a = k := by
    intro k hk
    rcases hgroup k with ⟨hnone, -⟩ | ⟨-, p, hp, hkey⟩
    · rw [mem_filter, hnone] at hk
      cases hk.2
    · exact ⟨p.1, hof.rows_mem p hp, hkey⟩
  obtain ⟨rights, hrights, hweigh⟩ := liveRights_spec hash hop hres hR hdelta hAB hprobe' hlive
  have hpass : ∀ key ∈ m.keys, ∃ parts, op.residualFlipsAt semi m g rights key = .ok parts ∧
      Parts A.schema (flipped semi o n (L.filter fun a => A.key F a = key)) parts := by
    intro key hkey
    have hzset : ((g.lookup key).getD (.empty A.schema)).zset = L.filter fun a => A.key F a = key := by
      rw [(hgroup key).zset, hz]
      ext a
      simp only [Finsupp.filter_apply]
      split_ifs with h1 h2
      · rfl
      · exact absurd (h1 ▸ hkey) h2
      · rfl
    unfold residualFlipsAt
    rcases hgroup key with ⟨hnone, -⟩ | ⟨hsome, -⟩
    · rw [hnone, Option.getD_none] at hzset
      rw [hnone, ← hzset]
      refine ⟨[], rfl, ?_⟩
      exact (congrArg (Parts A.schema · []) (flipped_zero semi o n)).mpr .nil
    rw [hsome, Option.getD_some] at hzset
    rw [hsome, ← hzset]
    refine residualFlipsOf_spec rfl fun q hq => ?_
    have hqkey : A.key F q.1 = key := by simpa using (mem_filter.mp hq).2
    have hmem : A.key F q.1 ∈ m.keys.filter fun key => (g.lookup key).isSome := by
      rw [hqkey]
      exact mem_filter.mpr ⟨hkey, by rw [hsome]; rfl⟩
    rw [← hqkey, hweigh _ _ hmem, ho, hn]
  obtain ⟨pss, hpss, hsum⟩ := Parts.flatten hpass
  unfold residualFlips
  by_cases hempty : m.keys.isEmpty = true
  · refine ⟨[], if_pos hempty, ?_⟩
    rw [List.isEmpty_iff.mp hempty]
    exact .nil
  · refine ⟨pss.flatten, ?_, hsum⟩
    rw [if_neg hempty, leftRowsOf, hop.leftKeyCols, hop.leftSchema, hallLeft]
    simp [bind, Except.bind, hg, hrights, hpss]

lemma getD_bind_nonzero (w : Option ℤ) : (w.bind fun w => if w = 0 then none else some w).getD 0 = w.getD 0 := by
  cases w with
  | none => rfl
  | some w => by_cases hw : w = 0 <;> simp [hw]

lemma bind_nonzero_ne (w : Option ℤ) : (w.bind fun w => if w = 0 then none else some w) ≠ some 0 := by
  cases w with
  | none => nofun
  | some w => by_cases hw : w = 0 <;> simp

/-- The weights after a tick. -/
lemma residualWeights_spec (hB : B.Good F) {kind : IncrJoinType} (hkind : kind ≠ .inner)
    {residual : Option MembershipResidual} (h : op.Holds F A B kind residual L R)
    {right : Option DeltaBatch} (hright : ∀ d ∈ right, d.Of B.schema B.rows) :
    ∃ weights, op.residualWeights F right = .ok weights ∧
      (∀ k, (weights.lookup k).getD 0 = B.weightOf F (R + deltaZ right) k) ∧ ∀ k, weights.lookup k ≠ some 0 := by
  unfold residualWeights
  cases hpresent : present right with
  | none =>
    refine ⟨op.rightKeyGroupWeights, rfl, fun k => ?_, h.nonzero⟩
    rw [deltaZ_of_present_none hpresent, add_zero, h.weights hkind]
  | some r =>
    have hr := eq_some_of_present hpresent
    subst hr
    dsimp only
    rw [(hright r rfl).schema_eq, h.shape.rightKeyCols, hB.cols_eq]
    simp only [bind, Except.bind, keyedBy_eq hB]
    refine ⟨_, rfl, fun k => ?_, fun k => ?_⟩
    · have hsum := KVMap.getD_lookup_sumInto op.rightKeyGroupWeights
        (r.rows.map fun p => (B.key F p.1, p.2)) k
      rw [sum_keyed, h.weights hkind, ← zset] at hsum
      rw [deltaZ, Option.elim_some, Side.weightOf_add, ← hsum, KVMap.lookup_filterMap, map_map]
      exact getD_bind_nonzero _
    · rw [KVMap.lookup_filterMap]
      exact bind_nonzero_ne _

end Residual

/-- The left rows that belong to the relation by the weight that passes. -/
noncomputable def passRelation (F : FloatFormat) (A B : Side) (pred : Row → Option Bool) (semi : Bool)
    (L R : Row →₀ ℤ) : Row →₀ ℤ :=
  L.filter fun a => isMember semi (passWeight F A B pred R a) = true

/-- A tick emits the change of the relation, whatever the signs of the weights. -/
lemma residual_step (hAB : Comparable F A B) (hprobe : Probeable A B) (hprobe' : Probeable B A)
    (hkind : kind.membership = true) (h : op.Holds F A B kind (some (.ofPredicate pred)) L R)
    (ht : t.Of A B) (hsemi : semi = decide (kind = .leftSemi)) : ∃ d, (op.apply F hash t.left t.right).1 = .ok d ∧
      passRelation F A B pred semi (L + deltaZ t.left) (R + deltaZ t.right) =
        passRelation F A B pred semi L R + d.zset ∧
      (op.apply F hash t.left t.right).2.Holds F A B kind (some (.ofPredicate pred)) (L + deltaZ t.left)
        (R + deltaZ t.right) := by
  have hinner := IncrJoinType.ne_inner hkind
  obtain ⟨m, hm, hdelta, hkeys, hother⟩ := changeByKey_spec hAB.right h.shape h.residual_eq ht.right
  obtain ⟨kept, hkept, hkeptZ⟩ : ∃ parts, whenPresent t.left (op.residualKept F hash semi m) = .ok parts ∧
      Parts A.schema ((deltaZ t.left).filter fun a =>
        isMember semi (passWeight F A B pred (R + deltaZ t.right) a) = true) parts := by
    refine whenPresent_spec (fun hzero => ?_) fun l hl => ?_
    · rw [hzero, Finsupp.filter_zero]
      exact .nil
    · rw [hl]
      exact residualKept_spec hash h.shape h.residual_eq h.right hdelta hAB hprobe' (ht.left l hl)
  obtain ⟨flips, hflips, hflipsZ⟩ : ∃ parts, op.residualFlips F hash semi m = .ok parts ∧
      Parts A.schema (flipped semi (passWeight F A B pred R) (passWeight F A B pred (R + deltaZ t.right)) L) parts :=
    residualFlips_spec hash h.shape h.residual_eq h.right hdelta hAB hprobe hprobe' h.left hkeys hother
      (fun _ => rfl) fun _ => rfl
  obtain ⟨weights, hweights, hlookup, hnonzero⟩ := residualWeights_spec hAB.right hinner h ht.right
  obtain ⟨d, hd, -, hz⟩ := (hkeptZ.append hflipsZ).combine
  have hout := outputSchema_of_membership h.shape (by rw [h.kind_eq]; exact hkind)
  have happly : op.apply F hash t.left t.right =
      (.ok d, { op with rightKeyGroupWeights := weights }.insertDeltas F t.left t.right) := by
    rw [apply_of_membership hash hkind h, Option.isSome_some, if_pos rfl]
    unfold applyLeftSemiAntiResidual
    rw [hm, h.kind_eq, ← hsemi]
    simp [bind, Except.bind, pure, Except.pure, hkept, hflips, hweights, hout, hd]
  rw [happly]
  refine ⟨d, rfl, ?_, h.insertDeltas hAB ht (fun _ => hlookup) hnonzero⟩
  unfold passRelation
  rw [hz, Finsupp.filter_add, filter_eq_add_flipped (passWeight F A B pred R)
    (passWeight F A B pred (R + deltaZ t.right)) L]
  abel

/-! ## Runs -/

/-- An operator with a predicate, or without one. -/
def IncrementalJoinOp.withPredicate (op : IncrementalJoinOp) : Option (Row → Option Bool) → IncrementalJoinOp
  | none => op
  | some p => op.setMembershipResidual (.ofPredicate p)

section New

variable {ls rs : Schema} {lk rk : List String} {lateness : Option String} {SL SR : Set Row} {ticks : List Tick}

section

variable (hkind : kind.membership = true) (hop : newWithLateness ls rs lk rk kind lateness = .ok op)

include hkind hop

/-- A new operator emits the relation by key. -/
lemma emits_memberRelation
    (hAB : Comparable F (sideOf ls lk SL) (sideOf rs rk SR)) (hprobe : ProbeableKeys ls rs lk rk)
    (hticks : Throughout (MemberTick F (sideOf ls lk SL) (sideOf rs rk SR) (decide (kind = .leftSemi))) 0 0 ticks) :
    op.Emits F hash ticks (memberRelation F (sideOf ls lk SL) (sideOf rs rk SR) (decide (kind = .leftSemi))
      (leftSum ticks) (rightSum ticks)) := by
  refine run_spec (fun _ _ _ _ h ht => member_step hash hAB (probeable_sides hprobe _ _) hkind h rfl ht)
    (holds_of_new_none hop _ _) hticks ?_
  rw [zero_add, zero_add, memberRelation, memberRelation, Finsupp.filter_zero, zero_add]

/-- A new operator with a predicate emits the relation by the weight that passes. -/
lemma emits_passRelation (p : Row → Option Bool)
    (hAB : Comparable F (sideOf ls lk SL) (sideOf rs rk SR)) (hprobe : ProbeableKeys ls rs lk rk)
    (hprobe' : ProbeableKeys rs ls rk lk) (hticks : ∀ t ∈ ticks, t.Of (sideOf ls lk SL) (sideOf rs rk SR)) :
    (op.withPredicate (some p)).Emits F hash ticks (passRelation F (sideOf ls lk SL) (sideOf rs rk SR) p
      (decide (kind = .leftSemi)) (leftSum ticks) (rightSum ticks)) := by
  have hnew : (op.withPredicate (some p)).Holds F (sideOf ls lk SL) (sideOf rs rk SR) kind
      (some (.ofPredicate p)) 0 0 := holds_of_new hop _ _ _
  refine run_spec (fun _ _ _ _ h ht => residual_step hash hAB (probeable_sides hprobe _ _)
    (probeable_sides hprobe' _ _) hkind h ht rfl) hnew (throughout_of_forall (fun t ht _ _ => hticks t ht) 0 0) ?_
  rw [zero_add, zero_add, passRelation, passRelation, Finsupp.filter_zero, zero_add]

end

end New

/-! ## Runs over relations without negative weights -/

/-- A right row of the key of a left row passes the predicate, if there is one. -/
def HasPartner (ls rs : Schema) (lk rk : List String) (pred : Option (Row → Option Bool)) (R : Row →₀ ℤ)
    (l : Row) : Prop :=
  ∃ r, R r ≠ 0 ∧ keyCells rs rk r = keyCells ls lk l ∧ ∀ p ∈ pred, p (l ++ r) = some true

open Classical in
/-- The left rows with a partner for a semi join, those without one for an anti join. -/
noncomputable def membershipJoin (kind : IncrJoinType) (ls rs : Schema) (lk rk : List String)
    (pred : Option (Row → Option Bool)) (L R : Row →₀ ℤ) : Row →₀ ℤ :=
  L.filter fun l => HasPartner ls rs lk rk pred R l ↔ kind = .leftSemi

/-- Without negative weights, to belong is to have weight for a semi join, and to have none for an anti
join. -/
lemma isMember_iff (hkind : kind.membership = true) {w : ℤ} (hw : 0 ≤ w) :
    isMember (decide (kind = .leftSemi)) w = true ↔ (w ≠ 0 ↔ kind = .leftSemi) := by
  revert hkind
  cases kind <;> intro hkind
  · cases hkind
  · cases hkind
  · simp [isMember]
    omega
  · simp [isMember]

section Nonneg

variable {ls rs : Schema} {lk rk : List String} {SL SR : Set Row}

section

variable (hkeys : SameKeys ls rs lk rk) (hR : ∀ r, 0 ≤ R r) (hrows : ∀ r, R r ≠ 0 → rs.holds r)

include hkeys hR hrows

/-- Without negative weights, weight passes if a row does. -/
lemma passWeight_ne_zero_iff (p : Row → Option Bool) (ha : ls.holds a) :
    passWeight F (sideOf ls lk SL) (sideOf rs rk SR) p R a ≠ 0 ↔ HasPartner ls rs lk rk (some p) R a := by
  rw [passWeight, Ne, total_eq_zero_iff hR, not_forall]
  refine exists_congr fun r => ?_
  by_cases hr : R r = 0
  · simp [hr]
  · have hmatch : Matches F (sideOf ls lk SL) (sideOf rs rk SR) a r ↔ keyCells rs rk r = keyCells ls lk a :=
      matches_iff hkeys ha (hrows r hr)
    simp [hr, hmatch]

lemma weightOf_ne_zero_iff (ha : ls.holds a) : (sideOf rs rk SR).weightOf F R ((sideOf ls lk SL).key F a) ≠ 0 ↔
    HasPartner ls rs lk rk none R a := by
  rw [Ne, weightOf_eq_zero_iff hkeys hR hrows ha]
  simp [HasPartner]

end

/-- Without negative weights, every crossing is reported. -/
lemma memberTick_of_nonneg (ht : t.Of (sideOf ls lk SL) (sideOf rs rk SR)) (hR : ∀ r, 0 ≤ R r)
    (hR' : ∀ r, 0 ≤ (R + deltaZ t.right) r) : MemberTick F (sideOf ls lk SL) (sideOf rs rk SR) semi L R t where
  of := ht
  noticed a _ := by
    have ho : 0 ≤ (sideOf rs rk SR).weightOf F R ((sideOf ls lk SL).key F a) := total_nonneg hR
    have hn : 0 ≤ (sideOf rs rk SR).weightOf F (R + deltaZ t.right) ((sideOf ls lk SL).key F a) :=
      total_nonneg hR'
    unfold Noticed Reported
    split_ifs <;> omega

end Nonneg

/-- An order with a customer of some other name than `x`. -/
def named (x : String) (row : Row) : Option Bool := some (row.getLast? ≠ some (.str x))

/-- The left rows of a run that belong to the relation, row by row. -/
lemma membershipJoin_apply (kind : IncrJoinType) (ls rs : Schema) (lk rk : List String)
    (pred : Option (Row → Option Bool)) (ticks : List Tick) (l : Row) :
    membershipJoin kind ls rs lk rk pred (leftSum ticks) (rightSum ticks) l =
      if (∃ q ∈ rightGiven ticks, weight (rightGiven ticks) q.1 ≠ 0 ∧ keyCells rs rk q.1 = keyCells ls lk l ∧
          ∀ p ∈ pred, p (l ++ q.1) = some true) ↔ kind = .leftSemi then weight (leftGiven ticks) l else 0 := by
  have hpartner : HasPartner ls rs lk rk pred (rightSum ticks) l ↔ ∃ q ∈ rightGiven ticks,
      weight (rightGiven ticks) q.1 ≠ 0 ∧ keyCells rs rk q.1 = keyCells ls lk l ∧
        ∀ p ∈ pred, p (l ++ q.1) = some true := by
    rw [rightSum_eq]
    constructor
    · rintro ⟨r, hr, hkey, hpass⟩
      obtain ⟨q, hq, rfl⟩ := mem_of_toZ_ne_zero hr
      rw [toZ_apply] at hr
      exact ⟨q, hq, hr, hkey, hpass⟩
    · rintro ⟨q, -, hq, hkey, hpass⟩
      exact ⟨q.1, by rwa [toZ_apply], hkey, hpass⟩
  rw [membershipJoin, Finsupp.filter_apply, leftSum_eq, toZ_apply]
  classical exact if_congr (iff_congr hpartner Iff.rfl) rfl rfl

/-- Customers always have a number. -/
def numberedSchema : Schema := [⟨"customer", .int64, false⟩, ⟨"name", .utf8, true⟩]

/-- An order without a customer. -/
def looseTicks : List Tick := [.ofLeft orderSchema [([.int 1, .null], 1)]]

end Krishiv.Delta
