import Krishiv.Ivm.Input
import Krishiv.Ivm.Order

/-!
# What a tick does to the output of one view

The commit loop works on one view after the other. Working on another view leaves a view's relation,
plan, log and delta alone (`commitView_other`); working on the view itself publishes one delta, with
the log and the snapshot moving together, or leaves both (`commitView_self`). Every view is worked on
at most once, so this is what a whole tick does to the view (`stepDatafusion_output`).
-/

namespace Krishiv.Ivm

open Krishiv.Delta Krishiv.Ivm.Inner Option AList IncrementalView

variable {P : Type}

/-- The retained output of a view. -/
def logOf (s : Inner P) (v : String) : OutputLog := (s.outputLog.lookup v).getD .new

/-- A new delta at the end of a log, and the eviction it causes. -/
def OutputLog.push (env : Env P) (retention : ℕ × ℕ) (log : OutputLog) (tick : ℕ) (d : DeltaBatch) : OutputLog :=
  evict env retention.1 retention.2 (log.deltas ++ [(tick, d)]) (log.bytes + env.memorySize d)
    log.evictedThrough

/-- The view's relation, log and delta are the same. -/
structure SameOutput (v : String) (s s' : Inner P) : Prop where
  view : s'.views.lookup v = s.views.lookup v
  log : s'.outputLog.lookup v = s.outputLog.lookup v
  outputTick : s'.viewOutputTicks.lookup v = s.viewOutputTicks.lookup v
  delta : s'.lastStepOutputs.lookup v = s.lastStepOutputs.lookup v

variable {s s' : Inner P} {v : String}

namespace SameOutput

lemma refl (v : String) (s : Inner P) : SameOutput v s s := ⟨rfl, rfl, rfl, rfl⟩

lemma trans {s'' : Inner P} (h : SameOutput v s s') (h' : SameOutput v s' s'') : SameOutput v s s'' :=
  ⟨h'.view.trans h.view, h'.log.trans h.log, h'.outputTick.trans h.outputTick, h'.delta.trans h.delta⟩

end SameOutput

/-- In the middle of a commit, also the view's plan and what it hands over are the same. -/
structure Progress.SameAt (v : String) (st st' : Progress P) : Prop where
  output : SameOutput v st.inner st'.inner
  plan : st'.inner.viewPlans.lookup v = st.inner.viewPlans.lookup v
  available : st'.available.lookup v = st.available.lookup v

open Progress

lemma Progress.SameAt.refl (v : String) (st : Progress P) : SameAt v st st := ⟨.refl v _, rfl, rfl⟩

lemma Progress.SameAt.trans {st st' st'' : Progress P} (h : SameAt v st st')
    (h' : SameAt v st' st'') : SameAt v st st'' :=
  ⟨h.output.trans h'.output, h'.plan.trans h.plan, h'.available.trans h.available⟩

/-! ## Work on another view -/

section Other

variable {name : String} (hne : v ≠ name)

include hne

lemma produce_other [PlanLogic P] (p : Prepared P) (st : Progress P) (kind : ViewPlanKind) (view : IncrementalView) :
    SameAt v st { st with inner := (produce p st kind name view).1 } := by
  cases kind with
  | incremental =>
    simp only [produce]
    split
    · exact .refl v st
    · split <;> exact ⟨⟨rfl, rfl, rfl, rfl⟩, lookup_insert_ne hne, rfl⟩
  | diffBased =>
    simp only [produce]
    split
    · exact .refl v st
    · split
      · exact ⟨⟨lookup_insert_ne hne, rfl, rfl, rfl⟩, rfl, rfl⟩
      · exact .refl v st

lemma publishDelta_other (env : Env P) (kind : ViewPlanKind) (st : Progress P)
    (view : IncrementalView) (d : DeltaBatch) (retain : Bool) :
    SameAt v st (publishDelta env kind st name view d retain) := by
  unfold publishDelta
  split
  · next v' hv =>
    split
    · unfold retainOutput
      split
      · exact ⟨⟨lookup_insert_ne hne, rfl, lookup_insert_ne hne, rfl⟩, rfl, rfl⟩
      · exact ⟨⟨lookup_insert_ne hne, lookup_insert_ne hne, lookup_insert_ne hne, rfl⟩, rfl, rfl⟩
    · exact ⟨⟨lookup_insert_ne hne, rfl, lookup_insert_ne hne, rfl⟩, rfl, rfl⟩
  · exact ⟨⟨lookup_insert_ne hne, rfl, rfl, rfl⟩, rfl, rfl⟩

lemma commitView_other [PlanLogic P] (env : Env P) (p : Prepared P) (hashes : Option (List ℕ))
    (st : Progress P) : SameAt v st (commitView env p hashes st name).1 := by
  have hrule : WorkRule env p name (SameAt v) :=
    { refl := .refl v
      trans := SameAt.trans
      fail := fun _ _ _ => ⟨⟨rfl, rfl, rfl, rfl⟩, rfl, rfl⟩
      count := fun _ _ => ⟨⟨rfl, rfl, rfl, rfl⟩, rfl, rfl⟩
      record := fun _ _ => ⟨⟨rfl, rfl, rfl, rfl⟩, rfl, rfl⟩
      handOver := fun _ _ => ⟨⟨rfl, rfl, rfl, lookup_insert_ne hne⟩, rfl, lookup_insert_ne hne⟩
      publish := fun st kind view d retain _ => publishDelta_other hne env kind st view d retain
      note := fun st kind => by cases kind <;> exact ⟨⟨rfl, rfl, rfl, rfl⟩, rfl, rfl⟩
      produce := fun st kind view _ => produce_other hne p st kind view }
  exact hrule.commitView hashes st

end Other

variable (env : Env P) (p : Prepared P) (hashes : Option (List ℕ))

lemma commitViews_other [PlanLogic P] {names : List String} (hv : v ∉ names) (st : Progress P) :
    SameAt v st (commitViews env p hashes names st).1 :=
  commitViews_rel (R := SameAt v) (.refl v) SameAt.trans
    (fun _ hn st => commitView_other (ne_of_mem_of_not_mem hn hv).symm env p hashes st) st

/-- A name that is not registered is passed over. -/
lemma commitViews_unregistered [PlanLogic P]
    (names : List String) {st : Progress P} (hv : st.inner.views.lookup v = none) :
    SameAt v st (commitViews env p hashes names st).1 := by
  refine commitViews_rel (R := fun st st' => st.inner.views.lookup v = none → SameAt v st st')
    (fun st _ => .refl v st) (fun h h' hv => (h hv).trans (h' ((h hv).output.view.trans hv)))
    (fun name _ st hv => ?_) st hv
  by_cases hn : v = name
  · subst hn
    unfold commitView
    rw [hv]
    exact .refl v st
  · exact commitView_other hn env p hashes st

/-- The loop meets a view at most once. -/
lemma commitViews_at [PlanLogic P] {names : List String} (hn : names.Nodup) (st : Progress P) :
    SameAt v st (commitViews env p hashes names st).1 ∨ ∃ st₁, SameAt v st st₁ ∧ Framed st.inner st₁.inner ∧
        SameAt v (commitView env p hashes st₁ v).1 (commitViews env p hashes names st).1 := by
  induction names generalizing st with
  | nil => exact .inl (.refl v st)
  | cons name names ih =>
    rw [List.nodup_cons] at hn
    by_cases hv : v = name
    · subst hv
      refine .inr ⟨st, .refl v st, .refl _, ?_⟩
      unfold commitViews
      split
      · next st' e hst => rw [hst]; exact .refl v st'
      · next st' hst => rw [hst]; exact commitViews_other env p hashes hn.1 st'
    have hone := commitView_other hv env p hashes st
    have hframe := commitView_framed env p hashes st name
    unfold commitViews
    split
    · next st' e hst => rw [hst] at hone; exact .inl hone
    next st' hst =>
    rw [hst] at hone hframe
    rcases ih hn.2 st' with hsame | ⟨st₁, hsame, hf, hend⟩
    · exact .inl (hone.trans hsame)
    · exact .inr ⟨st₁, hone.trans hsame, hframe.trans hf, hend⟩

/-! ## Work on the view itself -/

/-- Nothing is published: relation and log stay, and there is no delta under the current tick. The relation
may be indexed, which merges the rows that share a key. -/
structure Quiet (v : String) (view : IncrementalView) (s s' : Inner P) : Prop where
  view : ∃ view', s'.views.lookup v = some view' ∧ view'.spec = view.spec ∧
    (RowsApart view.snapshotParts → ∀ r, view'.count r = view.count r)
  log : s'.outputLog.lookup v = s.outputLog.lookup v
  silent : s'.viewOutputTicks.lookup v = s.viewOutputTicks.lookup v ∨
    (s'.viewOutputTicks.lookup v = some s.tick ∧ s'.lastStepOutputs.lookup v = s.lastStepOutputs.lookup v)

/-- A delta is published: the log gets it under the current tick, a kept snapshot moves by it. -/
structure Published (env : Env P) (v : String) (view : IncrementalView) (d : DeltaBatch)
    (s s' : Inner P) : Prop where
  nonempty : d.isEmpty = false
  view : ∃ view', s'.views.lookup v = some view' ∧ view'.spec = view.spec ∧
    (view.spec.isMaterialized = true → RowsApart (view.snapshotParts ++ [d]) →
      ∀ r, view'.count r = (view.count r + d.net r).toNat)
  log : s'.outputLog.lookup v = some ((logOf s v).push env s.outputRetention s.tick d)
  outputTick : s'.viewOutputTicks.lookup v = some s.tick
  delta : s'.lastStepOutputs.lookup v = some d

/-- Work on the view publishes one delta or none. -/
def Worked (env : Env P) (v : String) (view : IncrementalView) (s s' : Inner P) : Prop :=
  Quiet v view s s' ∨ ∃ d, Published env v view d s s'

/-- What the work on a view goes by, apart from the view. -/
structure SameStart (v : String) (s s' : Inner P) : Prop where
  log : s'.outputLog.lookup v = s.outputLog.lookup v
  outputTick : s'.viewOutputTicks.lookup v = s.viewOutputTicks.lookup v
  delta : s'.lastStepOutputs.lookup v = s.lastStepOutputs.lookup v
  tick : s'.tick = s.tick
  retention : s'.outputRetention = s.outputRetention

variable {view view' : IncrementalView}

lemma Worked.congr {env : Env P} {s₀ s'' : Inner P}
    (h : Worked env v view' s s') (hstart : SameStart v s₀ s) (hspec : view'.spec = view.spec)
    (hsnap : view'.snapshotState = view.snapshotState) (hend : SameOutput v s' s'') : Worked env v view s₀ s'' := by
  have hparts : view'.snapshotParts = view.snapshotParts := by rw [snapshotParts, IncrementalView.snapshot, hsnap]; rfl
  have hcount : ∀ r, view'.count r = view.count r := fun r => congrArg (ViewState.count · r) hsnap
  rcases h with hq | ⟨d, hp⟩
  · obtain ⟨w, hw, hsp, hc⟩ := hq.view
    refine .inl ⟨⟨w, hend.view.trans hw, hsp.trans hspec, fun ha r => ?_⟩, ?_, ?_⟩
    · exact (hc (hparts ▸ ha) r).trans (hcount r)
    · rw [hend.log, hq.log, hstart.log]
    · rw [hend.outputTick, hend.delta, ← hstart.outputTick, ← hstart.delta, ← hstart.tick]
      exact hq.silent
  · obtain ⟨w, hw, hsp, hc⟩ := hp.view
    refine .inr ⟨d, hp.nonempty, ⟨w, hend.view.trans hw, hsp.trans hspec, fun hm ha r => ?_⟩, ?_, ?_,
      hend.delta.trans hp.delta⟩
    · rw [hc (by rw [hspec]; exact hm) (hparts ▸ ha) r, hcount r]
    · rw [hend.log, hp.log, logOf, logOf, hstart.log, hstart.tick, hstart.retention]
    · rw [hend.outputTick, hp.outputTick, hstart.tick]

variable {d : DeltaBatch}

lemma publishVia_error {kind : ViewPlanKind} {e : DeltaError}
    (h : publishVia kind view d = (view', .error e)) : ∀ r, view'.count r = view.count r := by
  cases kind with
  | incremental =>
    simp only [publishVia, applyOutputDelta, applyOutputDeltaWith] at h
    split at h
    · cases h
      exact fun _ => rfl
    split at h
    · split at h
      · cases h
        exact fun _ => rfl
      · cases h
    · cases h
  | diffBased =>
    simp only [publishVia, publishOutput, publishOutputWith] at h
    split at h
    · split at h
      · cases h
        exact fun _ => rfl
      · cases h
    · cases h

lemma publishVia_ok {kind : ViewPlanKind}
    (h : publishVia kind view d = (view', .ok ())) (hm : view.spec.isMaterialized = true)
    (hcons : ViewState.SettlesSums consolidateBatch view.snapshot d) (r : Row) :
    view'.count r = (view.count r + d.net r).toNat := by
  cases kind with
  | incremental => exact applyOutputDelta_ok h hm hcons r
  | diffBased =>
    have hok := (publishOutput_ok h).2
    rw [if_pos hm] at hok
    exact (hok.1 hcons).2 r

section

variable (kind : ViewPlanKind) (st : Progress P)

lemma publishDelta_empty (hd : d.isEmpty = true) (hm : view.spec.isMaterialized = true) :
    Quiet v view st.inner (publishDelta env kind st v view d false).inner := by
  have hspec := publishVia_spec kind view d
  unfold publishDelta
  split
  · next view' hv =>
    rw [hv] at hspec
    refine ⟨⟨view', lookup_insert _, hspec, fun ha r => ?_⟩, rfl, .inr ⟨lookup_insert _, rfl⟩⟩
    rw [publishVia_ok hv hm (ViewState.settlesSums_of_isEmpty ha hd), DeltaBatch.net_of_isEmpty hd]
    omega
  · next view' e hv =>
    rw [hv] at hspec
    exact ⟨⟨view', lookup_insert _, hspec, fun _ => publishVia_error hv⟩, rfl, .inl rfl⟩

lemma publishDelta_handed (view : IncrementalView) (hd : d.isEmpty = false) :
    Worked env v view st.inner (publishDelta env kind (handOver st v d) v view d true).inner := by
  have hspec := publishVia_spec kind view d
  unfold publishDelta
  split
  · next view' hv =>
    rw [hv] at hspec
    right
    dsimp only
    rw [if_pos rfl]
    unfold retainOutput
    rw [if_neg (by rw [hd]; exact Bool.false_ne_true)]
    exact ⟨d, hd, ⟨view', lookup_insert _, hspec, fun hm ha => publishVia_ok hv hm
      (ViewState.settlesSums_of_rowsApart ha)⟩, lookup_insert _,
      lookup_insert _, lookup_insert _⟩
  · next view' e hv =>
    rw [hv] at hspec
    left
    exact ⟨⟨view', lookup_insert _, hspec, fun _ => publishVia_error hv⟩, rfl, .inl rfl⟩

lemma emitDelta_self (d : DeltaBatch) (hview : st.inner.views.lookup v = some view) :
    Worked env v view st.inner (emitDelta env hashes kind st v d).1.inner := by
  have hquiet : Quiet v view st.inner st.inner := ⟨⟨view, hview, rfl, fun _ _ => rfl⟩, rfl, .inl rfl⟩
  unfold emitDelta
  rw [hview]
  dsimp only
  split
  · exact .inl hquiet
  split
  · next hd =>
    split
    · next hm =>
      rw [Bool.and_eq_true] at hm
      exact .inl (publishDelta_empty env kind st hd hm.1)
    · exact .inl hquiet
  next hd =>
  rw [Bool.not_eq_true] at hd
  split
  · exact .inl ⟨⟨view, hview, rfl, fun _ _ => rfl⟩, rfl, .inl rfl⟩
  next s hs =>
  -- recording lineage and counting touch neither the view nor its log
  obtain ⟨provenance, rfl⟩ := recordProvenance_eq hs
  have hhanded := publishDelta_handed (v := v) env kind { countOutput st v d with
    inner := { (countOutput st v d).inner with provenance := provenance } } view hd
  exact hhanded.congr ⟨rfl, rfl, rfl, rfl, rfl⟩ rfl rfl (.refl v _)

end

/-- Working on a view publishes one delta or none. -/
lemma commitView_self [PlanLogic P] (st : Progress P) (hview : st.inner.views.lookup v = some view) :
    Worked env v view st.inner (commitView env p hashes st v).1.inner := by
  unfold commitView
  rw [hview]
  dsimp only
  have hinner := noteDegraded_inner st (planKindOf st.inner v) v
  generalize noteDegraded st (planKindOf st.inner v) v = st' at hinner ⊢
  -- a full result moves the baseline, an operator its plan: neither the snapshot nor the log
  have hprod : ∃ view', (produce p st' (planKindOf st.inner v) v view).1.views.lookup v =
      some view' ∧ view'.spec = view.spec ∧ view'.snapshotState = view.snapshotState ∧
      SameStart v st.inner (produce p st' (planKindOf st.inner v) v view).1 := by
    rw [← hinner] at hview
    rw [← hinner]
    cases planKindOf st'.inner v with
    | incremental =>
      simp only [produce]
      split
      · exact ⟨view, hview, rfl, rfl, ⟨rfl, rfl, rfl, rfl, rfl⟩⟩
      · split <;> exact ⟨view, hview, rfl, rfl, ⟨rfl, rfl, rfl, rfl, rfl⟩⟩
    | diffBased =>
      simp only [produce]
      split
      · exact ⟨view, hview, rfl, rfl, ⟨rfl, rfl, rfl, rfl, rfl⟩⟩
      next newFull _ =>
      split
      · next view' d hd =>
        have hs := diffAndUpdate_spec_snapshot view newFull
        rw [hd] at hs
        exact ⟨view', lookup_insert _, hs.1, hs.2.1, ⟨rfl, rfl, rfl, rfl, rfl⟩⟩
      · exact ⟨view, hview, rfl, rfl, ⟨rfl, rfl, rfl, rfl, rfl⟩⟩
  obtain ⟨view', hview', hspec, hsnap, hstart⟩ := hprod
  have hquiet : ∀ s, s.views.lookup v = some view' → Worked env v view' s s :=
    fun s hs => .inl ⟨⟨view', hs, rfl, fun _ _ => rfl⟩, rfl, .inl rfl⟩
  split
  · next s hs =>
    rw [hs] at hview' hstart
    exact (hquiet s hview').congr hstart hspec hsnap (.refl v s)
  · next s e hs =>
    rw [hs] at hview' hstart
    exact (hquiet s hview').congr hstart hspec hsnap ⟨rfl, rfl, rfl, rfl⟩
  · next s d hs =>
    rw [hs] at hview' hstart
    exact (emitDelta_self env hashes (planKindOf st.inner v) { st' with inner := s } d hview').congr hstart
      hspec hsnap (.refl v _)

/-! ## A whole tick -/

/-- The state in which a tick works outside the lock. -/
def marksTaken [PlanLogic P] (env : Env P) (s : Inner P) : Inner P := (takeFlags (drain env s).1).1

/-- What a tick brings to its commit, if it gets there. -/
def preparedTick [PlanLogic P] (env : Env P) (s : Inner P) (c : TickCtx) : Option (Prepared P) :=
  match coalescePending s.pending with
  | .error _ => none
  | .ok inputs =>
    if inputs.keys.isEmpty && !s.rebuildAllViews && s.recomputeViews.isEmpty then none
    else (prepare env (drain env s).2 inputs s.rebuildAllViews s.recomputeViews c).toOption

/-- The state in which the loop over the dirty views starts: the new sources and plans are in, the
relations of seeded views too. -/
def loopStart [PlanLogic P] (env : Env P) (s : Inner P) (p : Prepared P) : Inner P :=
  installPlans env (commitSources (marksTaken env s) p) p

/-- Where the loop over the dirty views starts. -/
def loopEntry [PlanLogic P] (env : Env P) (s : Inner P) (p : Prepared P) : Progress P :=
  ⟨loopStart env s p, p.inputs, { StepSummary.zero with erroredViews := p.executed.errors }⟩

/-- The plans are installed last, so whatever only they could change is as the sources left it. -/
lemma loopStart_eq [PlanLogic P] (env : Env P) (s : Inner P) (p : Prepared P) :
    ∃ orders, loopStart env s p = p.marks.newPlans.foldl (installPlan env p.seedLookup)
      { commitSources (marksTaken env s) p with viewOrder := orders } := by
  obtain ⟨orders, h⟩ := foldl_installOrder p.marks.newOrders (commitSources (marksTaken env s) p)
  exact ⟨orders, by rw [loopStart, installPlans, h]⟩

/-- A relation that installing each of the plans keeps to. -/
lemma loopStart_rel [PlanLogic P] (s : Inner P) {R : Inner P → Inner P → Prop}
    (hrefl : ∀ s, R s s) (htrans : ∀ {s s' s''}, R s s' → R s' s'' → R s s'')
    (h : ∀ e ∈ p.marks.newPlans, ∀ s, R s (installPlan env p.seedLookup s e)) :
    ∃ orders, R { commitSources (marksTaken env s) p with viewOrder := orders } (loopStart env s p) := by
  obtain ⟨orders, horders⟩ := loopStart_eq env s p
  refine ⟨orders, ?_⟩
  rw [horders]
  exact List.foldlRecOn _ _ (hrefl _) fun s' hs' e he => htrans hs' (h e he s')

/-- A tick by itself: nothing happens between its lock sections. -/
lemma stepDatafusion_eq [PlanLogic P] (env : Env P) (s : Inner P) (c : TickCtx) :
    stepDatafusion env s c = match coalescePending s.pending with
      | .error e => guardDrained s.pending ((drain env s).1, .fresh, .error e)
      | .ok inputs => guardDrained s.pending (finishTick env (drain env s).2 inputs
          s.rebuildAllViews s.recomputeViews c (marksTaken env s)) := rfl

variable {c : TickCtx}

lemma preparedTick_some [PlanLogic P] {env : Env P} {p : Prepared P}
    (h : preparedTick env s c = some p) : ∃ inputs, coalescePending s.pending = .ok inputs ∧
      prepare env (drain env s).2 inputs s.rebuildAllViews s.recomputeViews c = .ok p := by
  unfold preparedTick at h
  cases hin : coalescePending s.pending with
  | error e =>
    rw [hin] at h
    cases h
  | ok inputs =>
    rw [hin] at h
    dsimp only at h
    split at h
    · cases h
    cases hp : prepare env (drain env s).2 inputs s.rebuildAllViews s.recomputeViews c with
    | error e =>
      rw [hp] at h
      cases h
    | ok q =>
      rw [hp] at h
      cases h
      exact ⟨inputs, rfl, hp⟩

/-- A tick gives up, has nothing to do, or comes to its commit. -/
lemma stepDatafusion_cases [PlanLogic P] (env : Env P) (s : Inner P) (c : TickCtx) : (preparedTick env s c = none ∧
      ((stepDatafusion env s c).1 = giveBack (drain env s).1 s.pending ∨
        (stepDatafusion env s c).1 = giveBack (marksTaken env s) s.pending ∨
        (stepDatafusion env s c).1 = { marksTaken env s with lastStepOutputs := ∅, tick := s.tick + 1 })) ∨
    ∃ p, preparedTick env s c = some p ∧ ((stepDatafusion env s c).1 = (commit env (marksTaken env s) p).1 ∨
        (stepDatafusion env s c).1 = giveBack (commit env (marksTaken env s) p).1 s.pending) := by
  rw [stepDatafusion_eq]
  unfold preparedTick
  cases hin : coalescePending s.pending with
  | error e => exact .inl ⟨rfl, .inl rfl⟩
  | ok inputs =>
    dsimp only
    unfold finishTick
    split
    · exact .inl ⟨rfl, .inr (.inr rfl)⟩
    cases hp : prepare env (drain env s).2 inputs s.rebuildAllViews s.recomputeViews c with
    | error e => exact .inl ⟨rfl, .inr (.inl rfl)⟩
    | ok p =>
      refine .inr ⟨p, rfl, ?_⟩
      dsimp only
      obtain ⟨s', e | summary⟩ := commit env (marksTaken env s) p
      · exact .inr rfl
      · exact .inl rfl

section Prepared

variable [PlanLogic P] {env : Env P} {p : Prepared P}

/-- The commit of a prepared tick fails on the lineage of its inputs or comes to its loop. -/
lemma commit_prepared (hp : preparedTick env s c = some p) :
    (∃ e, commit env (marksTaken env s) p = (commitSources (marksTaken env s) p, .error e)) ∨
    ∃ hashes, commit env (marksTaken env s) p =
      match commitViews env p hashes (dirtyNames env p) (loopEntry env s p) with
      | (st, some e) => (st.inner, .error e)
      | (st, none) =>
        (st.summary.erroredViews.foldl (retireFailed p.recompute) (gcPlans st.inner), .ok st.summary) := by
  obtain ⟨inputs, hin, hprep⟩ := preparedTick_some hp
  have hepoch := (prepare_ok hprep).1
  rw [commit, if_neg (not_not.mpr (show (marksTaken env s).stateEpoch = p.epoch from hepoch.symm))]
  dsimp only
  split
  · next e _ => exact .inl ⟨e, rfl⟩
  · next hashes _ => exact .inr ⟨hashes, rfl⟩

/-- The new sources are in, whatever becomes of the loop. -/
lemma commit_prepared_framed (hp : preparedTick env s c = some p) :
    Inner.Framed (commitSources (marksTaken env s) p) (commit env (marksTaken env s) p).1 := by
  obtain ⟨inputs, -, hprep⟩ := preparedTick_some hp
  rcases commit_framed env (marksTaken env s) p with ⟨hne, -⟩ | ⟨-, hf⟩
  · exact absurd (prepare_ok hprep).1.symm hne
  · exact hf

/-- The loop comes to each view once. -/
lemma nodup_dirtyNames (hk : ListsKeys env) (hw : WellNamed s) (hp : preparedTick env s c = some p) :
    (dirtyNames env p).Nodup := by
  obtain ⟨inputs, -, hprep⟩ := preparedTick_some hp
  unfold dirtyNames
  rw [(prepare_ok hprep).2.2.1]
  exact (nodup_toposortViews env _ hk (hw.nodup_names hk)).filter _

end Prepared

/-- Watermark collection and the retirement of failed views leave the outputs alone. -/
lemma afterLoop_sameOutput [PlanLogic P] (v : String) (s : Inner P) (recompute : List String)
    (errors : List ViewError) : SameOutput v s (errors.foldl (retireFailed recompute) (gcPlans s)) := by
  have hgc : SameOutput v s (gcPlans s) := by
    unfold gcPlans
    split <;> exact ⟨rfl, rfl, rfl, rfl⟩
  have hretire : ∀ s : Inner P, SameOutput v s (errors.foldl (retireFailed recompute) s) := by
    induction errors with
    | nil => exact fun s => .refl v s
    | cons e errors ih =>
      intro s
      refine SameOutput.trans ?_ (ih (retireFailed recompute s e))
      unfold retireFailed
      split <;> exact ⟨rfl, rfl, rfl, rfl⟩
  exact hgc.trans (hretire _)

/-- What the commit of a tick does to one view. -/
lemma commit_output [PlanLogic P] {env : Env P} {p : Prepared P}
    (hk : ListsKeys env) (hw : WellNamed s) (hp : preparedTick env s c = some p)
    (hview : (loopStart env s p).views.lookup v = some view) :
    (commit env (marksTaken env s) p).1 = commitSources (marksTaken env s) p ∨
    Worked env v view (loopStart env s p) (commit env (marksTaken env s) p).1 := by
  rcases commit_prepared hp with ⟨e, hcommit⟩ | ⟨hashes, hcommit⟩
  · exact .inl (by rw [hcommit])
  right
  rw [hcommit]
  have hnames := nodup_dirtyNames hk hw hp
  generalize hst : loopEntry env s p = start
  have hstart : start.inner = loopStart env s p := by rw [← hst]; rfl
  rw [← hstart] at hview ⊢
  have hloop : Worked env v view start.inner (commitViews env p hashes (dirtyNames env p) start).1.inner := by
    rcases commitViews_at (v := v) env p hashes hnames start with hsame | ⟨st₁, hsame, hframe, hend⟩
    · exact .inl ⟨⟨view, hsame.output.view.trans hview, rfl, fun _ _ => rfl⟩, hsame.output.log,
        .inl hsame.output.outputTick⟩
    · have hview₁ := hsame.output.view.trans hview
      exact (commitView_self env p hashes st₁ hview₁).congr ⟨hsame.output.log, hsame.output.outputTick,
        hsame.output.delta, hframe.tick, hframe.outputRetention⟩ rfl rfl hend.output
  generalize commitViews env p hashes (dirtyNames env p) start = res at hloop ⊢
  obtain ⟨st, e | _⟩ := res
  · exact hloop.congr ⟨rfl, rfl, rfl, rfl, rfl⟩ rfl rfl
      (afterLoop_sameOutput v st.inner p.recompute st.summary.erroredViews)
  · exact hloop

/-- The delta a view published in the tick just finished. -/
def publishedBy (s : Inner P) (v : String) : Option DeltaBatch :=
  if s.viewOutputTicks.lookup v = some s.tick then s.lastStepOutputs.lookup v else none

/-- How often a row is in the snapshot of a view. -/
def viewCount (s : Inner P) (v : String) (r : Row) : ℕ :=
  ((s.views.lookup v).map (IncrementalView.count · r)).getD 0

/-- The snapshot of a view when the loop over the dirty views starts, that is after seeding. -/
def seededSnapshot [PlanLogic P] (env : Env P) (s : Inner P) (c : TickCtx) (v : String) : Option RecordBatch :=
  match preparedTick env s c with
  | none => (s.views.lookup v).bind IncrementalView.snapshot
  | some p => ((loopStart env s p).views.lookup v).bind IncrementalView.snapshot

/-- No two rows of the snapshot that a tick starts from, and of the delta it publishes, share a key. -/
def PublishesApart [PlanLogic P] (env : Env P) (s : Inner P) (c : TickCtx) (v : String) : Prop :=
  RowsApart (((seededSnapshot env s c v).map DeltaBatch.fromInserts).toList ++
    (publishedBy (stepDatafusion env s c).1 v).toList)

/-- The tick under which a view last published is not ahead of the flow's. -/
def OutputTickBounded (s : Inner P) (v : String) : Prop :=
  ∀ t, s.viewOutputTicks.lookup v = some t → t ≤ s.tick

/-- What a tick can do to the output of a registered view: give up and leave everything, count on
without publishing, before or after seeding, or publish one delta under its number. -/
inductive TickOutput (env : Env P) (seeded : Option RecordBatch) (v : String) (view : IncrementalView)
    (s s' : Inner P) : Prop
  | gaveUp (tick : s'.tick = s.tick) (output : SameOutput v s s')
  | quiet (tick : s'.tick = s.tick + 1) (log : logOf s' v = logOf s v)
      (count : (∀ r, viewCount s' v r = view.count r) ∨
        (RowsApart (seeded.map DeltaBatch.fromInserts).toList → ∀ r, viewCount s' v r = countOf seeded r))
      (outputTick : s'.viewOutputTicks.lookup v = s.viewOutputTicks.lookup v ∨
        s'.viewOutputTicks.lookup v = some (s.tick + 1))
      (silent : OutputTickBounded s v → publishedBy s' v = none)
  | published (d : DeltaBatch) (tick : s'.tick = s.tick + 1) (nonempty : d.isEmpty = false)
      (log : logOf s' v = (logOf s v).push env s.outputRetention (s.tick + 1) d)
      (count : view.spec.isMaterialized = true → RowsApart ((seeded.map DeltaBatch.fromInserts).toList ++ [d]) →
        ∀ r, viewCount s' v r = (countOf seeded r + d.net r).toNat)
      (outputTick : s'.viewOutputTicks.lookup v = some (s.tick + 1))
      (delta : publishedBy s' v = some d)

/-- Plans are installed without touching a log or a delta. -/
lemma loopStart_output [PlanLogic P] (env : Env P) (s : Inner P) (p : Prepared P) :
    (loopStart env s p).outputLog = s.outputLog ∧ (loopStart env s p).viewOutputTicks = s.viewOutputTicks ∧
      (loopStart env s p).lastStepOutputs = ∅ := by
  obtain ⟨orders, h⟩ := loopStart_rel env p s (R := fun s s' =>
    s'.outputLog = s.outputLog ∧ s'.viewOutputTicks = s.viewOutputTicks ∧ s'.lastStepOutputs = s.lastStepOutputs)
    (fun _ => ⟨rfl, rfl, rfl⟩) (fun h h' => ⟨h'.1.trans h.1, h'.2.1.trans h.2.1, h'.2.2.trans h.2.2⟩)
    fun _ _ _ => ⟨rfl, rfl, rfl⟩
  exact h

lemma stepDatafusion_output [PlanLogic P] {env : Env P} (hk : ListsKeys env)
    (hw : WellNamed s) (c : TickCtx) (hview : s.views.lookup v = some view) :
    TickOutput env (seededSnapshot env s c v) v view s (stepDatafusion env s c).1 := by
  have hcount : ∀ s' : Inner P, s'.views.lookup v = some view → ∀ r, viewCount s' v r = view.count r := by
    intro s' hs r
    rw [viewCount, hs]
    rfl
  rcases stepDatafusion_cases env s c with ⟨hnone, hend⟩ | ⟨p, hp, hend⟩
  · rcases hend with hs | hs | hs
    · rw [hs]
      exact .gaveUp rfl ⟨rfl, rfl, rfl, rfl⟩
    · rw [hs]
      exact .gaveUp rfl ⟨rfl, rfl, rfl, rfl⟩
    rw [hs]
    refine .quiet rfl rfl (.inl (hcount _ hview)) (.inl rfl) fun hb => ?_
    unfold publishedBy
    split <;> rfl
  · -- the loop starts from the view as it is seeded
    have hstart := installPlans_framed env (commitSources (marksTaken env s) p) p
    obtain ⟨view₀, hview₀, hspec⟩ : ∃ view₀, (loopStart env s p).views.lookup v = some view₀ ∧
        view₀.spec = view.spec := by
      have h := hstart.specs v
      rw [show (commitSources (marksTaken env s) p).views.lookup v = some view from hview, map_some] at h
      exact map_eq_some_iff.mp h
    have hseed : seededSnapshot env s c v = view₀.snapshot := by
      rw [seededSnapshot, hp]
      dsimp only
      rw [hview₀, bind_some]
    obtain ⟨hlog, hticks, hlast⟩ := loopStart_output env s p
    have htick : (loopStart env s p).tick = s.tick + 1 := hstart.tick
    have hretain : (loopStart env s p).outputRetention = s.outputRetention := hstart.outputRetention
    have hcommit := commit_output hk hw hp hview₀
    have hctick : (commit env (marksTaken env s) p).1.tick = s.tick + 1 := (commit_prepared_framed hp).tick
    have hout : TickOutput env (seededSnapshot env s c v) v view s (commit env (marksTaken env s) p).1 := by
      rw [hseed]
      rcases hcommit with hfailed | hq | ⟨d, hpub⟩
      · -- the lineage of the inputs failed, and no view was worked on
        rw [hfailed]
        refine .quiet rfl rfl (.inl (hcount _ hview)) (.inl rfl) fun hb => ?_
        unfold publishedBy
        split <;> rfl
      · obtain ⟨view', hv', -, hc'⟩ := hq.view
        refine .quiet hctick ?_ (.inr fun ha r => ?_) ?_ fun hb => ?_
        · unfold logOf
          rw [hq.log, hlog]
        · rw [viewCount, hv']
          exact hc' ha r
        · refine hq.silent.imp (fun h => by rw [h, hticks]) fun h => by rw [h.1, htick]
        unfold publishedBy
        rw [hctick]
        rcases hq.silent with h | ⟨-, h⟩
        · rw [h, hticks]
          split
          · next heq =>
            have := hb _ heq
            omega
          · rfl
        · rw [h, hlast]
          split <;> rfl
      · obtain ⟨view', hv', -, hc'⟩ := hpub.view
        refine .published d hctick hpub.nonempty ?_ (fun hm ha r => ?_) ?_ ?_
        · unfold logOf
          rw [hpub.log, getD_some, hretain, htick]
          unfold logOf
          rw [hlog]
        · rw [viewCount, hv']
          exact hc' (by rw [hspec]; exact hm) ha r
        · rw [hpub.outputTick, htick]
        · unfold publishedBy
          rw [hpub.outputTick, htick, hctick, if_pos rfl, hpub.delta]
    rcases hend with hs | hs
    · rw [hs]
      exact hout
    rw [hs]
    -- giving the deltas back touches the queues only
    cases hout with
    | gaveUp tick output => exact .gaveUp tick ⟨output.view, output.log, output.outputTick, output.delta⟩
    | quiet tick log count outputTick silent => exact .quiet tick log count outputTick silent
    | published d tick nonempty log count outputTick delta =>
      exact .published d tick nonempty log count outputTick delta

/-- A tick leaves the log of a name without a view alone. -/
lemma stepDatafusion_unregistered [PlanLogic P] (env : Env P) (c : TickCtx)
    (hv : s.views.lookup v = none) : logOf (stepDatafusion env s c).1 v = logOf s v ∧
      (stepDatafusion env s c).1.viewOutputTicks.lookup v = s.viewOutputTicks.lookup v ∧
      s.tick ≤ (stepDatafusion env s c).1.tick := by
  rcases stepDatafusion_cases env s c with ⟨-, hend⟩ | ⟨p, hp, hend⟩
  · rcases hend with hs | hs | hs <;> rw [hs]
    · exact ⟨rfl, rfl, le_refl _⟩
    · exact ⟨rfl, rfl, le_refl _⟩
    · exact ⟨rfl, rfl, Nat.le_succ _⟩
  obtain ⟨hlog, hticks, -⟩ := loopStart_output env s p
  have hnone : (loopEntry env s p).inner.views.lookup v = none := by
    have hspec := (installPlans_framed env (commitSources (marksTaken env s) p) p).specs v
    rw [show (commitSources (marksTaken env s) p).views.lookup v = none from hv,
      map_none, map_eq_none_iff] at hspec
    exact hspec
  have hout : (commit env (marksTaken env s) p).1.outputLog.lookup v = s.outputLog.lookup v ∧
      (commit env (marksTaken env s) p).1.viewOutputTicks.lookup v = s.viewOutputTicks.lookup v := by
    rcases commit_prepared hp with ⟨e, hcommit⟩ | ⟨hashes, hcommit⟩
    · rw [hcommit]
      exact ⟨rfl, rfl⟩
    rw [hcommit, ← hlog, ← hticks]
    have hloop := commitViews_unregistered env p hashes (dirtyNames env p) hnone
    generalize commitViews env p hashes (dirtyNames env p) (loopEntry env s p) = res at hloop ⊢
    obtain ⟨st, e | _⟩ := res
    · have hend := hloop.output.trans (afterLoop_sameOutput v st.inner p.recompute st.summary.erroredViews)
      exact ⟨hend.log, hend.outputTick⟩
    · exact ⟨hloop.output.log, hloop.output.outputTick⟩
  have htick : s.tick ≤ (commit env (marksTaken env s) p).1.tick := by
    rw [(commit_prepared_framed hp).tick]
    exact Nat.le_succ _
  rw [logOf, logOf, ← hout.1, ← hout.2]
  rcases hend with hs | hs <;> rw [hs] <;> exact ⟨rfl, rfl, htick⟩

/-- What a tick never touches: the specifications and the floor of the logs. -/
lemma stepDatafusion_frame [PlanLogic P] (env : Env P) (s : Inner P) (c : TickCtx) :
    (∀ n, ((stepDatafusion env s c).1.views.lookup n).map spec = (s.views.lookup n).map spec) ∧
    (stepDatafusion env s c).1.outputLogFloor = s.outputLogFloor := by
  rcases stepDatafusion_cases env s c with ⟨-, hend⟩ | ⟨p, -, hend⟩
  · rcases hend with hs | hs | hs <;> rw [hs] <;> exact ⟨fun _ => rfl, rfl⟩
  have hcommit : (∀ n, ((commit env (marksTaken env s) p).1.views.lookup n).map spec = (s.views.lookup n).map spec) ∧
      (commit env (marksTaken env s) p).1.outputLogFloor = s.outputLogFloor := by
    rcases commit_framed env (marksTaken env s) p with ⟨-, habort⟩ | ⟨-, hf⟩
    · rw [habort]
      exact ⟨fun _ => rfl, rfl⟩
    · exact ⟨hf.specs, hf.outputLogFloor⟩
  rcases hend with hs | hs <;> rw [hs] <;> exact hcommit

/-- Names are part of the specifications. -/
lemma WellNamed.congr (h : WellNamed s) (hs : ∀ n, (s'.views.lookup n).map spec =
      (s.views.lookup n).map spec) : WellNamed s' := by
  intro n view hview
  have hspec := hs n
  rw [hview, map_some] at hspec
  obtain ⟨v, hv, hvs⟩ := map_eq_some_iff.mp hspec.symm
  rw [← hvs]
  exact h n v hv

end Krishiv.Ivm
