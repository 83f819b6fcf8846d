import Krishiv.Delta.JoinCodec
import Krishiv.Delta.Membership

/-!
# The weights of a join beside its right trace

An outer, semi or anti join keeps the weight of every key of its right trace. Ticks, garbage collection
and restored states change the two by different code. They agree in every state that is reached by ticks
whose keys can be looked up, collections that drop no weight of any key on the right, and states that such
an operator has saved (`weights_agree`). They part when a collection drops right rows, since the weights
are not told, and when a tick fails after it has counted its right rows, since the rows are then not
inserted (`weights_part`).
-/

namespace Krishiv.Delta

open Krishiv.Ivm IncrementalJoinOp Trace

/-! ## What happens to an operator -/

inductive JoinEvent where
  | apply (t : Tick)
  | gc (watermarkMs : ℤ)
  | restore (bytes : Bytes)

section Events

variable (codec : StateCodec) (F : FloatFormat) (hash : List Text → ℕ)

def JoinEvent.act (op : IncrementalJoinOp) : JoinEvent → IncrementalJoinOp
  | .apply t => (op.apply F hash t.left t.right).2
  | .gc watermarkMs => (op.gcTraces watermarkMs).1
  | .restore bytes => (op.restoreStateBytes codec F bytes).2

/-- The weight of a key in some right rows. -/
def IncrementalJoinOp.keyTotal (op : IncrementalJoinOp) (rows : List (Row × ℤ)) (k : Key) : ℤ :=
  ((rows.filter fun p => keyOf F (keyColumnsOf op.rightSchema op.rightKeyCols) p.1 = k).map Prod.snd).sum

/-- The weights are those of the right trace, without zeros. -/
structure IncrementalJoinOp.WeightsAgree (op : IncrementalJoinOp) : Prop where
  sum : ∀ k, (op.rightKeyGroupWeights.lookup k).getD 0 = op.keyTotal F op.rightTrace.rows k
  nonzero : ∀ k, op.rightKeyGroupWeights.lookup k ≠ some 0

/-- The states reached from `op₀` by ticks over rows from two sets, collections that drop no weight of any
key on the right, and states saved on the way. -/
inductive SafelyReached (A B : Side) (op₀ : IncrementalJoinOp) : IncrementalJoinOp → Prop where
  | start : SafelyReached A B op₀ op₀
  | apply {op : IncrementalJoinOp} (h : SafelyReached A B op₀ op) (t : Tick) (ht : t.Of A B)
    (hfit : WeightsFit (op.leftTrace.rows ++ leftGiven [t]) (op.rightTrace.rows ++ rightGiven [t])) :
    SafelyReached A B op₀ (JoinEvent.act codec F hash op (.apply t))
  | gc {op : IncrementalJoinOp} (h : SafelyReached A B op₀ op) (watermarkMs : ℤ)
    (hdropped : ∀ k, op.keyTotal F (op.rightTrace.expired watermarkMs) k = 0) :
    SafelyReached A B op₀ (JoinEvent.act codec F hash op (.gc watermarkMs))
  | restore {op saved : IncrementalJoinOp} {bytes : Bytes} (h : SafelyReached A B op₀ op)
    (hsaved : SafelyReached A B op₀ saved) (hfits : StateFits codec saved)
    (hbytes : saved.stateBytes codec = .ok bytes) :
    SafelyReached A B op₀ (JoinEvent.act codec F hash op (.restore bytes))
  | refused {op : IncrementalJoinOp} (h : SafelyReached A B op₀ op) {bytes : Bytes} {e : DeltaError}
    (he : (op.restoreStateBytes codec F bytes).1 = .error e) :
    SafelyReached A B op₀ (JoinEvent.act codec F hash op (.restore bytes))

end Events

/-! ## One event -/

variable {op : IncrementalJoinOp}

section Step

variable {codec : StateCodec} {F : FloatFormat} (hash : List Text → ℕ) {A B : Side} {kind : IncrJoinType}
  {residual : Option MembershipResidual} {L R : Row →₀ ℤ}

/-- A tick with any predicate either fails and changes nothing, or counts and inserts its rows. -/
lemma residual_holds (hAB : Comparable F A B) (hkind : kind.membership = true)
    {residual : MembershipResidual} (h : op.Holds F A B kind (some residual) L R) {t : Tick} (ht : t.Of A B) :
    ∃ L' R', (op.apply F hash t.left t.right).2.Holds F A B kind (some residual) L' R' := by
  have hinner : kind ≠ .inner := by
    rintro rfl
    cases hkind
  have hpath : op.apply F hash t.left t.right = op.applyLeftSemiAntiResidual F hash t.left t.right := by
    unfold apply
    rw [h.kind_eq, h.residual_eq]
    revert hkind
    cases kind <;> intro hkind <;> first | rfl | cases hkind
  obtain ⟨weights, hweights, hlookup, hnonzero⟩ := residualWeights_spec hAB.right hinner h ht.right
  rw [hpath]
  unfold applyLeftSemiAntiResidual
  dsimp only
  split
  · exact ⟨L, R, h⟩
  rename_i parts weights' hok
  obtain ⟨changes, -, hok⟩ := Except.bind_eq_ok_iff.mp hok
  obtain ⟨kept, -, hok⟩ := Except.bind_eq_ok_iff.mp hok
  obtain ⟨flips, -, hok⟩ := Except.bind_eq_ok_iff.mp hok
  obtain ⟨weights'', hweights'', hok⟩ := Except.bind_eq_ok_iff.mp hok
  cases hok
  rw [hweights] at hweights''
  cases hweights''
  exact ⟨_, _, h.insertDeltas hAB ht (fun _ => hlookup) hnonzero⟩

/-- A tick. -/
lemma apply_holds (hAB : Comparable F A B) (hprobe : Probeable A B) (hkind : kind ≠ .inner)
    (h : op.Holds F A B kind residual L R) {t : Tick} (ht : t.Of A B) :
    ∃ L' R', (op.apply F hash t.left t.right).2.Holds F A B kind residual L' R' := by
  by_cases houter : kind = .leftOuter
  · subst houter
    obtain ⟨-, -, -, hholds⟩ := outer_output hash hAB hprobe h ht (fun _ => rfl) fun _ => rfl
    exact ⟨_, _, hholds⟩
  have hmember : kind.membership = true := by
    cases kind with
    | inner => exact absurd rfl hkind
    | leftOuter => exact absurd rfl houter
    | leftSemi | leftAnti => rfl
  cases residual with
  | none =>
    obtain ⟨-, -, -, hholds⟩ := member_output hash hAB hprobe hmember h ht (fun _ => rfl) (fun _ => rfl) rfl
    exact ⟨_, _, hholds⟩
  | some residual => exact residual_holds hash hAB hmember h ht

/-- The weight of a key in rows is that of the side. -/
lemma keyTotal_eq (hover : op.Over A B) (hcols : B.cols = keyColumnsOf B.schema B.keyNames)
    (rows : List (Row × ℤ)) (k : Key) : op.keyTotal F rows k = B.weightOf F (ZSet.toZ rows) k := by
  rw [keyTotal, hover.rightSchema, hover.rightKeyCols, ← hcols, Side.weightOf, ZSet.total_toZ]
  rfl

/-- A collection that drops no weight. -/
lemma gc_holds (hcols : B.cols = keyColumnsOf B.schema B.keyNames) (h : op.Holds F A B kind residual L R)
    {watermarkMs : ℤ} (hdropped : ∀ k, op.keyTotal F (op.rightTrace.expired watermarkMs) k = 0) :
    ∃ L' R', (op.gcTraces watermarkMs).1.Holds F A B kind residual L' R' := by
  obtain ⟨hl, -, hlcols⟩ := gcBelowWatermark_zset h.shape.leftTrace watermarkMs
  obtain ⟨hr, hz, hrcols⟩ := gcBelowWatermark_zset h.shape.rightTrace watermarkMs
  refine ⟨_, _, {
    shape := { h.shape with
      leftTrace := hl, rightTrace := hr
      leftCols := hlcols.trans h.shape.leftCols, rightCols := hrcols.trans h.shape.rightCols }
    kind_eq := h.kind_eq
    residual_eq := h.residual_eq
    left := rfl
    right := rfl
    weights := fun hkind k => ?_
    nonzero := h.nonzero }⟩
  show (op.rightKeyGroupWeights.lookup k).getD 0 = _
  rw [h.weights hkind, ← h.right, hz, Side.weightOf_add, ← keyTotal_eq h.shape hcols, hdropped, add_zero]
  rfl

/-- A saved state. -/
lemma restore_holds (hcodec : codec.Lawful) (hAB : Comparable F A B)
    (h : op.Holds F A B kind residual L R) {saved : IncrementalJoinOp} {L' R' : Row →₀ ℤ}
    (hsaved : saved.Holds F A B kind residual L' R') (hfits : StateFits codec saved) {bytes : Bytes}
    (hbytes : saved.stateBytes codec = .ok bytes) :
    (op.restoreStateBytes codec F bytes).2.Holds F A B kind residual L' R' := by
  obtain ⟨groups, hdecode, hlookup⟩ := decodeJoinState_stateBytes hcodec hfits hbytes
  obtain ⟨hl, hlz, hlcols⟩ := replaceBatches_zset hAB.left.distinct h.shape.leftTrace
    hsaved.shape.leftTrace.levels
  obtain ⟨hr, hrz, hrcols⟩ := replaceBatches_zset hAB.right.distinct h.shape.rightTrace
    hsaved.shape.rightTrace.levels
  unfold restoreStateBytes
  rw [hdecode]
  exact {
    shape := { h.shape with
      leftTrace := hl, rightTrace := hr
      leftCols := hlcols.trans h.shape.leftCols, rightCols := hrcols.trans h.shape.rightCols }
    kind_eq := h.kind_eq
    residual_eq := h.residual_eq
    left := hlz.trans ((zset_eq_sum _).symm.trans hsaved.left)
    right := hrz.trans ((zset_eq_sum _).symm.trans hsaved.right)
    weights := fun hkind k => (congrArg (Option.getD · 0) (hlookup k)).trans (hsaved.weights hkind k)
    nonzero := fun k => (hlookup k).symm ▸ hsaved.nonzero k }

variable {hash}

/-- What ticks keep, every event keeps. -/
lemma SafelyReached.holds {op₀ : IncrementalJoinOp} {L₀ R₀ : Row →₀ ℤ} (hcodec : codec.Lawful)
    (hAB : Comparable F A B) (hcols : B.cols = keyColumnsOf B.schema B.keyNames)
    (h₀ : op₀.Holds F A B kind residual L₀ R₀) (hstep : ∀ {op : IncrementalJoinOp} {L R : Row →₀ ℤ} {t : Tick},
      op.Holds F A B kind residual L R →
      t.Of A B → ∃ L' R', (op.apply F hash t.left t.right).2.Holds F A B kind residual L' R')
    (h : SafelyReached codec F hash A B op₀ op) : ∃ L R, op.Holds F A B kind residual L R := by
  induction h with
  | start => exact ⟨L₀, R₀, h₀⟩
  | apply _ t ht _ ih =>
    obtain ⟨L, R, hholds⟩ := ih
    exact hstep hholds ht
  | gc _ watermarkMs hdropped ih =>
    obtain ⟨L, R, hholds⟩ := ih
    exact gc_holds hcols hholds hdropped
  | restore _ _ hfits hbytes ih ihsaved =>
    obtain ⟨L, R, hholds⟩ := ih
    obtain ⟨L', R', hsaved⟩ := ihsaved
    exact ⟨L', R', restore_holds hcodec hAB hholds hsaved hfits hbytes⟩
  | refused _ he ih =>
    obtain ⟨L, R, hholds⟩ := ih
    refine ⟨L, R, ?_⟩
    rw [JoinEvent.act, restoreStateBytes_of_error _ _ he]
    exact hholds

end Step

/-! ## Every state -/

/-- In every state that is safely reached, the weights are those of the right trace, and none is zero. -/
theorem weights_agree {codec : StateCodec} (hcodec : codec.Lawful) {F : FloatFormat}
    (hash : List Text → ℕ)
    {kind : IncrJoinType} (hkind : kind ≠ .inner) {ls rs : Schema} {lk rk : List String}
    {lateness : Option String} {op₀ : IncrementalJoinOp}
    (hop : IncrementalJoinOp.newWithLateness ls rs lk rk kind lateness = .ok op₀)
    (residual : Option MembershipResidual) (hkeys : SameKeys ls rs lk rk)
    (hprobe : ProbeableKeys ls rs lk rk)
    {SL SR : Set Row} (hSL : ∀ r ∈ SL, ls.holds r) (hSR : ∀ r ∈ SR, rs.holds r)
    (hl : Unambiguous ls SL) (hr : Unambiguous rs SR) {op : IncrementalJoinOp}
    (h : SafelyReached codec F hash (sideOf ls lk SL) (sideOf rs rk SR)
      { op₀ with membershipResidual := residual } op) : op.WeightsAgree F := by
  obtain ⟨hlcols, hrcols, -⟩ := newWithLateness_eq hop
  have hAB : Comparable F (sideOf ls lk SL) (sideOf rs rk SR) :=
    comparable_sides hlcols hrcols hkeys hl hr hSL hSR
  obtain ⟨L, R, hholds⟩ := h.holds hcodec hAB rfl (holds_of_new hop SL SR residual)
    fun hholds ht => apply_holds hash hAB (probeable_sides hprobe SL SR) hkind hholds ht
  refine ⟨fun k => ?_, hholds.nonzero⟩
  rw [keyTotal_eq hholds.shape rfl, hholds.weights hkind, ← hholds.right, zset]

/-! ## Runs on fixed inputs -/

/-- Visits with a time, matched by place. -/
def visitSchema : Schema := [intField "place", intField "at"]

/-- Three visits, of which the early two cancel. -/
def visits : DeltaBatch := ⟨visitSchema, [([.int 1, .int 5], 1), ([.int 1, .int 6], -1), ([.int 1, .int 90], 1)]⟩

/-- A stream format for one batch. -/
def visitsCodec (d : DeltaBatch) : StateCodec where
  ipc batch := if batch = d then .ok [] else .error (.serialization "another batch")
  readIpc _ := .ok d
  utf8Error _ := "invalid utf-8 sequence"

lemma visitsCodec_lawful (d : DeltaBatch) : (visitsCodec d).Lawful where
  readIpc batch bytes h := by
    simp only [visitsCodec] at h ⊢
    split_ifs at h with hd
    rw [hd]
  length batch bytes h := by
    simp only [visitsCodec] at h
    split_ifs at h
    cases h
    decide

/-- An operator that has been given nothing. -/
def visitJoin : IncrementalJoinOp where
  leftTrace := ⟨visitSchema, [0], some 1, List.replicate numLevels []⟩
  rightTrace := ⟨visitSchema, [0], some 1, List.replicate numLevels []⟩
  leftKeyCols := ["place"]
  rightKeyCols := ["place"]
  leftSchema := visitSchema
  outputSchema := visitSchema
  joinType := .leftAnti
  leftFieldCount := 2
  rightKeyGroupWeights := ∅
  rightSchema := visitSchema
  membershipResidual := none

/-- The operator after the visits. -/
def visited : IncrementalJoinOp :=
  JoinEvent.act (visitsCodec visits) .plain (fun _ => 0) visitJoin (.apply ⟨none, some visits⟩)

lemma length_of_ok {x : DeltaResult Bytes} {n : ℕ} (h : x.toOption.all (fun b => b.length < n) = true)
    {b : Bytes} (hb : x = .ok b) : b.length < n := by
  subst hb
  exact of_decide_eq_true h

lemma visit_rows_unambiguous : Unambiguous visitSchema {r | visitSchema.holds r} :=
  unambiguous_of_plain (by decide +kernel) (by decide +kernel) fun _ hr => hr

lemma visited_reached : SafelyReached (visitsCodec visits) .plain (fun _ => 0)
    (sideOf visitSchema ["place"] {r | visitSchema.holds r})
    (sideOf visitSchema ["place"] {r | visitSchema.holds r}) visitJoin visited := by
  refine .apply .start _ ⟨?_, ?_⟩ (by decide +kernel)
  · rintro d ⟨⟩
  · rintro d ⟨⟩
    exact ⟨rfl, show ∀ p ∈ visits.rows, visitSchema.holds p.1 by decide +kernel⟩

lemma visited_fits : StateFits (visitsCodec visits) visited :=
  ⟨by decide +kernel, fun _ hb => length_of_ok (by decide +kernel) hb,
    fun _ hb => length_of_ok (by decide +kernel) hb⟩

theorem weights_agree_visits : ∃ bytes, visited.stateBytes (visitsCodec visits) = .ok bytes ∧
      (JoinEvent.act (visitsCodec visits) .plain (fun _ => 0)
        (JoinEvent.act (visitsCodec visits) .plain (fun _ => 0) visited (.gc 50))
        (.restore bytes)).WeightsAgree .plain := by
  obtain ⟨bytes, hbytes⟩ : ∃ bytes, visited.stateBytes (visitsCodec visits) = .ok bytes :=
    Except.ok_of_isSome (by decide +kernel)
  refine ⟨bytes, hbytes, ?_⟩
  have hop : newWithLateness visitSchema visitSchema ["place"] ["place"] .leftAnti
      (some "at") = .ok visitJoin := rfl
  refine weights_agree (visitsCodec_lawful visits) (fun _ => 0) (by decide) hop none
    ⟨by decide +kernel, by decide +kernel, by decide +kernel⟩
    ⟨by decide +kernel, by decide +kernel, by decide +kernel⟩ (fun _ hr => hr) (fun _ hr => hr)
    visit_rows_unambiguous visit_rows_unambiguous
    (.restore (.gc visited_reached 50 fun k => ?_) visited_reached visited_fits hbytes)
  -- the two early visits are to one place
  have hkeys : ∀ p ∈ visited.rightTrace.expired 50,
      keyOf .plain (keyColumnsOf visited.rightSchema visited.rightKeyCols) p.1 = [some ['1']] := by
    decide +kernel
  unfold keyTotal
  by_cases hk : k = [some ['1']]
  · subst hk
    decide +kernel
  have hnone : (visited.rightTrace.expired 50).filter (fun p =>
      decide (keyOf .plain (keyColumnsOf visited.rightSchema visited.rightKeyCols) p.1 = k)) = [] := by
    rw [List.filter_eq_nil_iff]
    intro p hp
    rw [hkeys p hp, decide_eq_true_eq]
    exact fun h => hk h.symm
  rw [hnone]
  rfl

/-- Rows whose weights are not those that were counted. -/
lemma not_weightsAgree {F : FloatFormat} (k : Key)
    (h : (op.rightKeyGroupWeights.lookup k).getD 0 ≠ op.keyTotal F op.rightTrace.rows k) : ¬op.WeightsAgree F :=
  fun hagree => h (hagree.sum k)

/-- Two operators whose weights are not those of the right trace: one whose early visits were dropped, and
one that was given flags, for which no old row can be looked up. -/
theorem weights_part :
    (∃ op, IncrementalJoinOp.newWithLateness visitSchema visitSchema ["place"] ["place"] .leftAnti
        (some "at") = .ok op ∧
      ¬([.apply (.ofRight visitSchema [([.int 1, .int 5], 1)]), .gc 50].foldl
        (JoinEvent.act (visitsCodec visits) .plain fun _ => 0) op).WeightsAgree .plain) ∧
    ∃ op, IncrementalJoinOp.new flagSchema flagNames ["flag"] ["flag"] .leftSemi = .ok op ∧
      ¬((flagTicks.map JoinEvent.apply).foldl (JoinEvent.act (visitsCodec visits) .plain fun _ => 0)
        op).WeightsAgree .plain := by
  refine ⟨⟨_, rfl, not_weightsAgree [some ['1']] (by decide +kernel)⟩,
    _, rfl, not_weightsAgree [some ['1']] (by decide +kernel)⟩

end Krishiv.Delta
