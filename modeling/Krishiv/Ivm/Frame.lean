import Krishiv.Ivm.Tick

/-!
# What a commit leaves alone

The loop over the dirty views, the installation of plans, watermark garbage collection and the
retirement of failed views touch a few fields of the state: the views' relations, their plans, the
output log and the statistics. `Inner.Framed` lists everything else. Each step of the commit is
framed, so the whole commit is the replacement of the sources (`commitSources`) followed by a framed
change (`commit_framed`).
-/

namespace Krishiv.Ivm

open Krishiv.Delta List IncrementalView

variable {P : Type}

/-- `s'` differs from `s` at most in what publishing a tick's output touches; the views that are
registered, and their specifications, stay. -/
structure Inner.Framed (s s' : Inner P) : Prop where
  specs : ∀ n, (s'.views.lookup n).map IncrementalView.spec = (s.views.lookup n).map IncrementalView.spec
  pending : s'.pending = s.pending
  tick : s'.tick = s.tick
  sourceSnapshots : s'.sourceSnapshots = s.sourceSnapshots
  inputDedupEnabled : s'.inputDedupEnabled = s.inputDedupEnabled
  seenInputHashes : s'.seenInputHashes = s.seenInputHashes
  deltaCheckpointEnabled : s'.deltaCheckpointEnabled = s.deltaCheckpointEnabled
  checkpointDeltas : s'.checkpointDeltas = s.checkpointDeltas
  streamingPrevSnapshots : s'.streamingPrevSnapshots = s.streamingPrevSnapshots
  sourceOrdinals : s'.sourceOrdinals = s.sourceOrdinals
  watermarkTrackers : s'.watermarkTrackers = s.watermarkTrackers
  lateDroppedRows : s'.lateDroppedRows = s.lateDroppedRows
  deltaRestoreCollapsedRows : s'.deltaRestoreCollapsedRows = s.deltaRestoreCollapsedRows
  declaredLateness : s'.declaredLateness = s.declaredLateness
  forceDiffBased : s'.forceDiffBased = s.forceDiffBased
  viewDeps : s'.viewDeps = s.viewDeps
  rebuildAllViews : s'.rebuildAllViews = s.rebuildAllViews
  stateEpoch : s'.stateEpoch = s.stateEpoch
  outputLogFloor : s'.outputLogFloor = s.outputLogFloor
  outputRetention : s'.outputRetention = s.outputRetention

variable {view : IncrementalView} {s s' : Inner P} {name : String}

namespace Inner.Framed

lemma refl (s : Inner P) : Framed s s := by
  constructor <;> intros <;> rfl

lemma trans {s'' : Inner P} (h : Framed s s') (h' : Framed s' s'') : Framed s s'' where
  specs n := (h'.specs n).trans (h.specs n)
  pending := h'.pending.trans h.pending
  tick := h'.tick.trans h.tick
  sourceSnapshots := h'.sourceSnapshots.trans h.sourceSnapshots
  inputDedupEnabled := h'.inputDedupEnabled.trans h.inputDedupEnabled
  seenInputHashes := h'.seenInputHashes.trans h.seenInputHashes
  deltaCheckpointEnabled := h'.deltaCheckpointEnabled.trans h.deltaCheckpointEnabled
  checkpointDeltas := h'.checkpointDeltas.trans h.checkpointDeltas
  streamingPrevSnapshots := h'.streamingPrevSnapshots.trans h.streamingPrevSnapshots
  sourceOrdinals := h'.sourceOrdinals.trans h.sourceOrdinals
  watermarkTrackers := h'.watermarkTrackers.trans h.watermarkTrackers
  lateDroppedRows := h'.lateDroppedRows.trans h.lateDroppedRows
  deltaRestoreCollapsedRows := h'.deltaRestoreCollapsedRows.trans h.deltaRestoreCollapsedRows
  declaredLateness := h'.declaredLateness.trans h.declaredLateness
  forceDiffBased := h'.forceDiffBased.trans h.forceDiffBased
  viewDeps := h'.viewDeps.trans h.viewDeps
  rebuildAllViews := h'.rebuildAllViews.trans h.rebuildAllViews
  stateEpoch := h'.stateEpoch.trans h.stateEpoch
  outputLogFloor := h'.outputLogFloor.trans h.outputLogFloor
  outputRetention := h'.outputRetention.trans h.outputRetention

/-- Folding framed steps. -/
lemma foldl {α : Type} {f : Inner P → α → Inner P} (hf : ∀ s a, Framed s (f s a)) (l : List α)
    (s : Inner P) : Framed s (l.foldl f s) := by
  induction l generalizing s with
  | nil => exact refl s
  | cons a l ih => exact (hf s a).trans (ih (f s a))

variable {view' : IncrementalView}

/-- Replacing a view by one of the same specification. -/
lemma specs_insert {views : NameMap IncrementalView}
    (hl : views.lookup name = some view) (hs : view'.spec = view.spec) (n : String) :
    ((views.insert name view').lookup n).map spec = (views.lookup n).map spec := by
  by_cases hn : n = name
  · rw [hn, AList.lookup_insert, hl, Option.map_some, Option.map_some, hs]
  · rw [AList.lookup_insert_ne hn]

lemma insertView (hl : s.views.lookup name = some view) (hs : view'.spec = view.spec) :
    Framed s { s with views := s.views.insert name view' } := by
  constructor
  case specs => exact specs_insert hl hs
  all_goals rfl

end Inner.Framed

open Inner

/-! ## Plans and orders -/

lemma installOrder_framed (s : Inner P) (e : String × Option (List OrderColumn)) : Framed s (installOrder s e) := by
  unfold installOrder
  split <;> constructor <;> intros <;> rfl

/-- Orders are installed without touching anything else. -/
lemma foldl_installOrder (l : List (String × Option (List OrderColumn))) (s : Inner P) :
    ∃ orders, l.foldl installOrder s = { s with viewOrder := orders } := by
  induction l generalizing s with
  | nil => exact ⟨s.viewOrder, rfl⟩
  | cons e l ih =>
    obtain ⟨orders, h⟩ := ih (installOrder s e)
    refine ⟨orders, ?_⟩
    rw [foldl_cons, h]
    unfold installOrder
    split <;> rfl

lemma seedView_spec (views : NameMap IncrementalView) (name : String) (d : DeltaBatch) (n : String) :
    ((seedView views name d).lookup n).map spec = (views.lookup n).map spec := by
  unfold seedView
  split
  · rfl
  next view hview =>
  split
  · rfl
  split
  · refine Framed.specs_insert hview ?_ n
    rfl
  · rfl

lemma seedPlan_spec [PlanLogic P] (lookup : String → Option RecordBatch)
    (views : NameMap IncrementalView) (name : String) (plan : P) (n : String) :
    ((seedPlan lookup views name plan).2.lookup n).map spec = (views.lookup n).map spec := by
  unfold seedPlan
  split
  · exact seedView_spec views name _ n
  · rfl

lemma installPlan_framed [PlanLogic P] (env : Env P) (lookup : String → Option RecordBatch)
    (s : Inner P) (e : String × P × String) : Framed s (installPlan env lookup s e) := by
  constructor
  case specs =>
    intro n
    unfold installPlan
    dsimp only
    split
    · rfl
    · exact seedPlan_spec lookup s.views e.1 _ n
  all_goals rfl

lemma installPlans_framed [PlanLogic P] (env : Env P) (s : Inner P) (p : Prepared P) :
    Framed s (installPlans env s p) :=
  (Framed.foldl installOrder_framed _ s).trans (Framed.foldl (installPlan_framed env _) _ _)

/-! ## One view -/

lemma retainOutput_framed (env : Env P) (s : Inner P) (view : String) (tick : ℕ)
    (d : DeltaBatch) : Framed s (retainOutput env s view tick d) := by
  unfold retainOutput
  split <;> constructor <;> intros <;> rfl

lemma publishVia_spec (kind : ViewPlanKind) (view : IncrementalView) (d : DeltaBatch) :
    (publishVia kind view d).1.spec = view.spec := by
  cases kind with
  | incremental =>
    simp only [publishVia, applyOutputDelta, applyOutputDeltaWith]
    split
    · rfl
    · split
      · split <;> rfl
      · rfl
  | diffBased =>
    simp only [publishVia, publishOutput, publishOutputWith]
    split
    · split <;> rfl
    · rfl

lemma produce_framed [PlanLogic P] (p : Prepared P) (st : Progress P) (kind : ViewPlanKind)
    (name : String) (hview : st.inner.views.lookup name = some view) :
    Framed st.inner (produce p st kind name view).1 := by
  cases kind with
  | incremental =>
    simp only [produce]
    split
    · exact Framed.refl _
    · split <;> constructor <;> intros <;> rfl
  | diffBased =>
    simp only [produce]
    split
    · exact Framed.refl _
    next newFull _ =>
    split
    · next v d hd =>
      have h := (diffAndUpdate_spec_snapshot view newFull).1
      rw [hd] at h
      exact Framed.insertView hview h
    · exact Framed.refl _

lemma publishDelta_framed (env : Env P) (kind : ViewPlanKind) (st : Progress P) (name : String)
    (hview : st.inner.views.lookup name = some view) (d : DeltaBatch)
    (retain : Bool) : Framed st.inner (publishDelta env kind st name view d retain).inner := by
  have hspec := publishVia_spec kind view d
  unfold publishDelta
  split
  · next v hv =>
    rw [hv] at hspec
    have hticks : Framed st.inner { st.inner with
        views := st.inner.views.insert name v
        viewOutputTicks := st.inner.viewOutputTicks.insert name st.inner.tick } := by
      refine (Framed.insertView hview hspec).trans ?_
      constructor <;> intros <;> rfl
    split
    · exact hticks.trans (retainOutput_framed env _ name _ d)
    · exact hticks
  · next v e hv =>
    rw [hv] at hspec
    exact Framed.insertView hview hspec

lemma recordProvenance_eq {env : Env P} {hashes : Option (List ℕ)} {kind : ViewPlanKind}
    {d : DeltaBatch} (h : recordProvenance env hashes kind s d = .ok s') :
    ∃ provenance, s' = { s with provenance := provenance } := by
  unfold recordProvenance at h
  split at h
  · obtain ⟨outputs, -, h⟩ := Except.bind_eq_ok_iff.mp h
    cases h
    exact ⟨_, rfl⟩
  · cases h
    exact ⟨_, rfl⟩

lemma noteDegraded_inner (st : Progress P) (kind : ViewPlanKind) (name : String) :
    (noteDegraded st kind name).inner = st.inner := by
  unfold noteDegraded
  split <;> rfl

lemma produce_failed [PlanLogic P] {p : Prepared P} {st : Progress P} {kind : ViewPlanKind}
    {e : ViewError} (h : produce p st kind name view = (s, .failed e)) : e.view = name := by
  cases kind with
  | incremental | diffBased =>
    simp only [produce] at h
    split at h
    · cases h
    · split at h <;> cases h
      rfl

/-- A relation that the steps of publishing a delta of one view keep to. -/
structure EmitRule (env : Env P) (name : String) (R : Progress P → Progress P → Prop) : Prop where
  refl : ∀ st, R st st
  trans : ∀ {st st' st''}, R st st' → R st' st'' → R st st''
  fail : ∀ st {e : ViewError}, e.view = name → R st (st.fail e)
  count : ∀ st d, R st (countOutput st name d)
  record : ∀ st provenance, R st { st with inner := { st.inner with provenance := provenance } }
  handOver : ∀ st d, R st (handOver st name d)
  publish : ∀ st kind {view} d retain, st.inner.views.lookup name = some view →
    R st (publishDelta env kind st name view d retain)

/-- So do the steps before. -/
structure WorkRule [PlanLogic P] (env : Env P) (p : Prepared P) (name : String)
    (R : Progress P → Progress P → Prop) : Prop extends EmitRule env name R where
  note : ∀ st kind, R st (noteDegraded st kind name)
  produce : ∀ st kind {view}, st.inner.views.lookup name = some view →
    R st { st with inner := (produce p st kind name view).1 }

section Rules

variable {env : Env P} {p : Prepared P} {R : Progress P → Progress P → Prop}

lemma EmitRule.emitDelta (h : EmitRule env name R) (hashes : Option (List ℕ)) (kind : ViewPlanKind)
    (st : Progress P) (d : DeltaBatch) : R st (emitDelta env hashes kind st name d).1 := by
  unfold Ivm.emitDelta
  split
  · exact h.refl st
  next view hview =>
  split
  · exact h.fail st rfl
  split
  · split
    · exact h.publish st kind d false hview
    · exact h.refl st
  dsimp only
  split
  · exact h.count st d
  next s hs =>
  obtain ⟨provenance, rfl⟩ := recordProvenance_eq hs
  have hrecorded := h.trans (h.count st d) (h.record (countOutput st name d) provenance)
  exact h.trans (h.trans hrecorded (h.handOver _ d)) (h.publish _ kind d true hview)

variable [PlanLogic P]

lemma WorkRule.commitView (h : WorkRule env p name R) (hashes : Option (List ℕ)) (st : Progress P) :
    R st (commitView env p hashes st name).1 := by
  unfold Ivm.commitView
  split
  · exact h.refl st
  next view hview =>
  dsimp only
  have hnote := h.note st (planKindOf st.inner name)
  have hprod := h.produce (noteDegraded st (planKindOf st.inner name) name) (planKindOf st.inner name)
    (noteDegraded_inner st _ name ▸ hview)
  have hdone := h.trans hnote hprod
  split
  · next s hs => rw [hs] at hdone; exact hdone
  · next s e hs => rw [hs] at hdone; exact h.trans hdone (h.fail _ (produce_failed hs))
  · next s d hs => rw [hs] at hdone; exact h.trans hdone (h.emitDelta hashes _ _ d)

/-- A relation that the work on each view keeps to. -/
lemma commitViews_rel (hrefl : ∀ st, R st st) (htrans : ∀ {st st' st''}, R st st' → R st' st'' → R st st'')
    {hashes : Option (List ℕ)} {names : List String}
    (h : ∀ name ∈ names, ∀ st, R st (commitView env p hashes st name).1) (st : Progress P) :
    R st (commitViews env p hashes names st).1 := by
  induction names generalizing st with
  | nil => exact hrefl st
  | cons name names ih =>
    have hone := h name mem_cons_self st
    unfold commitViews
    split
    · next st' e hst => rw [hst] at hone; exact hone
    · next st' hst =>
      rw [hst] at hone
      exact htrans hone (ih (fun n hn => h n (mem_cons_of_mem _ hn)) st')

end Rules

variable (env : Env P) (p : Prepared P) (hashes : Option (List ℕ))

lemma commitView_framed [PlanLogic P] (st : Progress P) (name : String) :
    Framed st.inner (commitView env p hashes st name).1.inner := by
  have hrule : WorkRule env p name fun st st' => Framed st.inner st'.inner :=
    { refl := fun _ => .refl _
      trans := Framed.trans
      fail := fun _ _ _ => .refl _
      count := fun _ _ => by constructor <;> intros <;> rfl
      record := fun _ _ => by constructor <;> intros <;> rfl
      handOver := fun _ _ => by constructor <;> intros <;> rfl
      publish := fun st kind _ d retain hview => publishDelta_framed env kind st name hview d retain
      note := fun st kind => noteDegraded_inner st kind name ▸ .refl _
      produce := fun st kind _ hview => produce_framed p st kind name hview }
  exact hrule.commitView hashes st

lemma commitViews_framed [PlanLogic P] (names : List String) (st : Progress P) :
    Framed st.inner (commitViews env p hashes names st).1.inner :=
  commitViews_rel (R := fun st st' => Framed st.inner st'.inner) (fun _ => .refl _) Framed.trans
    (fun name _ st => commitView_framed env p hashes st name) st

/-! ## The whole commit -/

lemma gcPlans_framed [PlanLogic P] (s : Inner P) : Framed s (gcPlans s) := by
  unfold gcPlans
  split <;> constructor <;> intros <;> rfl

lemma retireFailed_framed (recompute : List String) (s : Inner P) (e : ViewError) :
    Framed s (retireFailed recompute s e) := by
  unfold retireFailed
  split <;> constructor <;> intros <;> rfl

/-- A commit under another epoch changes nothing; otherwise it replaces the sources, and whatever it
does to the views after that, also where it fails, is framed. -/
lemma commit_framed [PlanLogic P] (env : Env P) (s : Inner P) (p : Prepared P) :
    (s.stateEpoch ≠ p.epoch ∧ commit env s p = (s, .error (.execution abortMessage))) ∨
    (s.stateEpoch = p.epoch ∧ Framed (commitSources s p) (commit env s p).1) := by
  by_cases hepoch : s.stateEpoch = p.epoch
  · right
    refine ⟨hepoch, ?_⟩
    rw [commit, if_neg (not_not.mpr hepoch)]
    dsimp only
    split
    · exact Framed.refl _
    next hashes _ =>
    have hplans := installPlans_framed env (commitSources s p) p
    have hviews := commitViews_framed env p hashes (dirtyNames env p)
      ⟨installPlans env (commitSources s p) p, p.inputs,
        { StepSummary.zero with erroredViews := p.executed.errors }⟩
    split
    · next st e hst => rw [hst] at hviews; exact hplans.trans hviews
    next st hst =>
    rw [hst] at hviews
    refine (hplans.trans hviews).trans ((gcPlans_framed st.inner).trans ?_)
    exact Framed.foldl (retireFailed_framed p.recompute) _ _
  · left
    exact ⟨hepoch, by rw [commit, if_pos hepoch]⟩

variable {inputs : NameMap DeltaBatch}

/-- What `prepare` carries over from the drained state and the inputs. -/
lemma prepare_ok [PlanLogic P] {env : Env P} {d : Drained P}
    {rebuild : Bool} {recompute : List String} {c : TickCtx} {p : Prepared P}
    (h : prepare env d inputs rebuild recompute c = .ok p) :
    p.epoch = d.epoch ∧ p.inputs = inputs ∧ p.topo = toposortViews env d.deps d.specs ∧
      advanceSources d.snapshots inputs = .ok p.newSnapshots := by
  unfold prepare at h
  simp only [Except.bind_eq_ok_iff] at h
  obtain ⟨pre, -, sources, hsources, rel, -, ctx, -, exec, -, h⟩ := h
  cases h
  exact ⟨rfl, rfl, rfl, hsources⟩

/-! ## When a commit cannot fail

Past the epoch check only the row hashes of the provenance store can fail, and those only on a
column without key encoding. -/

/-- Every column has a key encoding. -/
def Renderable (schema : Schema) : Prop := ∀ t ∈ schema.types, t.renderable = true

/-- The declared columns of every registered view have key encodings. -/
def DeclaredRenderable (s : Inner P) : Prop :=
  ∀ name view, s.views.lookup name = some view → Renderable view.spec.outputSchema

lemma hashRow_total {schema : Schema} (h : Renderable schema) (row : Row) : ∃ n, hashRow env schema row = .ok n := by
  have hfind : ((schema.types.zip row).find? fun c => c.2 ≠ .null && !c.1.renderable) = none := by
    rw [find?_eq_none]
    intro c hc
    simp [h c.1 (of_mem_zip hc).1]
  exact ⟨env.rowHash row, by rw [hashRow, hfind]⟩

lemma inputHashes_total (h : ∀ src d, inputs.lookup src = some d → Renderable d.schema) :
    ∃ hs, inputHashes env inputs = .ok hs := by
  have hentry : ∀ e ∈ inputs.entries, ∃ hs : List ℕ, (e.2.rows.mapM fun p => do
      let base ← hashRow env e.2.schema p.1
      (.ok ((base + p.2.natAbs * 0x9e3779b97f4a7c15) % 2 ^ 64) : IvmResult ℕ)) = .ok hs := by
    intro e he
    have hlookup : inputs.lookup e.1 = some e.2 := AList.mem_lookup_iff.mpr he
    apply Except.mapM_total
    intro p _
    obtain ⟨n, hn⟩ := hashRow_total env (h e.1 e.2 hlookup) p.1
    exact ⟨_, by rw [hn]; rfl⟩
  obtain ⟨hs, hhs⟩ := Except.mapM_total hentry
  exact ⟨hs.flatten, by rw [inputHashes, hhs]; rfl⟩

lemma renderable_of_sameLogicalType {a b : DataType} (h : sameLogicalType a b = true)
    (hb : b.renderable = true) : a.renderable = true := by
  cases a with
  | nested n rendered encoded =>
    simp only [sameLogicalType, mem_cons, reduceCtorEq, not_mem_nil, or_self,
      decide_false, Bool.false_and, Bool.false_or, decide_eq_true_eq] at h
    rw [← h] at hb
    exact hb
  | _ => rfl

/-- Columns that match the declared ones have key encodings if those do. -/
lemma renderable_of_matchColumns {declared emitted : Schema}
    (hlen : emitted.length = declared.length) (h : matchColumns declared emitted = true)
    (hd : Renderable declared) : Renderable emitted := by
  induction declared generalizing emitted with
  | nil =>
    have hnil : emitted = [] := eq_nil_of_length_eq_zero hlen
    subst hnil
    intro t ht
    cases ht
  | cons f declared ih =>
    unfold matchColumns at h
    split at h
    · next i hi =>
      rw [findIdx?_eq_some_iff_getElem] at hi
      obtain ⟨hlt, hmatch, -⟩ := hi
      have hrest : Renderable (emitted.eraseIdx i) := by
        apply ih _ h fun t ht => hd t (mem_cons_of_mem _ ht)
        rw [length_eraseIdx_of_lt hlt]
        simp only [length_cons] at hlen
        omega
      rw [Bool.and_eq_true] at hmatch
      have hone := renderable_of_sameLogicalType hmatch.2 (hd _ mem_cons_self)
      intro t ht
      -- a column is the matched one or among the remaining ones
      obtain ⟨g, hg, rfl⟩ := mem_map.mp ht
      have hperm := (getElem_cons_eraseIdx_perm hlt).mem_iff.mpr hg
      rcases mem_cons.mp hperm with rfl | hin
      · exact hone
      · exact hrest _ (mem_map_of_mem hin)
    · cases h

lemma recordProvenance_total (kind : ViewPlanKind)
    (s : Inner P) (d : DeltaBatch) (h : hashes = none ∨ Renderable d.schema) :
    ∃ s', recordProvenance env hashes kind s d = .ok s' := by
  unfold recordProvenance
  split
  · next inputs store hs =>
    rcases h with hnone | hr
    · cases hnone
    · obtain ⟨outputs, ho⟩ := Except.mapM_total fun p (_ : p ∈ d.rows) => hashRow_total env hr p.1
      exact ⟨_, by rw [ho]; rfl⟩
  · exact ⟨s, rfl⟩

lemma emitDelta_total (kind : ViewPlanKind) (st : Progress P) (name : String) (d : DeltaBatch)
    (h : hashes = none ∨ DeclaredRenderable st.inner) : (emitDelta env hashes kind st name d).2 = none := by
  unfold emitDelta
  split
  · rfl
  next view hview =>
  split
  · rfl
  next hcols =>
  split
  · split <;> rfl
  have hr : hashes = none ∨ Renderable d.schema := by
    refine h.imp_right fun hdecl => ?_
    simp only [Bool.not_eq_true, Bool.not_eq_false', emitsDeclaredRelation, Bool.and_eq_true,
      decide_eq_true_eq] at hcols
    exact renderable_of_matchColumns hcols.1 hcols.2 (hdecl name view hview)
  obtain ⟨s, hs⟩ := recordProvenance_total env hashes kind (countOutput st name d).inner d hr
  dsimp only
  rw [hs]

/-- Declared columns are part of the frame. -/
lemma DeclaredRenderable.framed (h : DeclaredRenderable s) (hf : Framed s s') : DeclaredRenderable s' := by
  intro name view hview
  have hspec := hf.specs name
  rw [hview, Option.map_some] at hspec
  obtain ⟨v, hv, hvs⟩ := Option.map_eq_some_iff.mp hspec.symm
  rw [← hvs]
  exact h name v hv

lemma commitView_total [PlanLogic P]
    (st : Progress P) (name : String) (h : hashes = none ∨ DeclaredRenderable st.inner) :
    (commitView env p hashes st name).2 = none := by
  unfold commitView
  split
  · rfl
  next view hview =>
  dsimp only
  have hinner := noteDegraded_inner st (planKindOf st.inner name) name
  generalize noteDegraded st (planKindOf st.inner name) name = st' at hinner ⊢
  have hprod := produce_framed p st' (planKindOf st.inner name) name (hinner ▸ hview)
  rw [hinner] at hprod
  split
  · rfl
  · rfl
  · next s d hs =>
    rw [hs] at hprod
    exact emitDelta_total env hashes _ _ name d (h.imp_right fun hd => hd.framed hprod)

lemma commitViews_total [PlanLogic P]
    (names : List String) (st : Progress P) (h : hashes = none ∨ DeclaredRenderable st.inner) :
    (commitViews env p hashes names st).2 = none := by
  induction names generalizing st with
  | nil => rfl
  | cons name names ih =>
    have hone := commitView_total env p hashes st name h
    have hframe := commitView_framed env p hashes st name
    unfold commitViews
    split
    · next st' e hst => rw [hst] at hone; cases hone
    · next st' hst =>
      rw [hst] at hframe
      exact ih st' (h.imp_right fun hd => hd.framed hframe)

/-- Under the epoch it was prepared for, a commit succeeds: provenance is off, or the columns of the
inputs and of the views can be hashed. -/
lemma commit_total [PlanLogic P] (env : Env P) (s : Inner P) (p : Prepared P) (hepoch : s.stateEpoch = p.epoch)
    (hprov : s.provenance = none ∨ DeclaredRenderable s ∧
      ∀ src d, p.inputs.lookup src = some d → Renderable d.schema) : ∃ summary, (commit env s p).2 = .ok summary := by
  rw [commit, if_neg (not_not.mpr hepoch)]
  dsimp only
  obtain ⟨hashes, hok, hd⟩ : ∃ hashes, (if (commitSources s p).provenance.isSome then
      (inputHashes env p.inputs).map some else .ok none) = .ok hashes ∧ (hashes = none ∨ DeclaredRenderable s) := by
    rcases hprov with hnone | ⟨hdecl, hin⟩
    · rw [show (commitSources s p).provenance = none from hnone]
      exact ⟨none, rfl, .inl rfl⟩
    · obtain ⟨hs, hhs⟩ := inputHashes_total env hin
      cases (commitSources s p).provenance with
      | none => exact ⟨none, rfl, .inl rfl⟩
      | some store => exact ⟨some hs, by rw [hhs]; rfl, .inr hdecl⟩
  rw [hok]
  dsimp only
  have hd' : hashes = none ∨ DeclaredRenderable (installPlans env (commitSources s p) p) := by
    refine hd.imp_right fun hd => ?_
    exact DeclaredRenderable.framed (s := commitSources s p) hd (installPlans_framed env _ p)
  have hnone := commitViews_total env p hashes (dirtyNames env p)
    ⟨installPlans env (commitSources s p) p, p.inputs,
      { StepSummary.zero with erroredViews := p.executed.errors }⟩ hd'
  split
  · next st e hst => rw [hst] at hnone; cases hnone
  · exact ⟨_, rfl⟩

end Krishiv.Ivm
