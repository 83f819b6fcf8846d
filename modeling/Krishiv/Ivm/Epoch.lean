import Krishiv.Ivm.FullCheckpoint

/-!
# The state epoch cannot be seen

The epoch of a flow only tells a running tick that its state was replaced under it. Every operation
does the same to a flow and to its copy with another epoch, up to the epoch it leaves: a copy of a flow
that was restored more often behaves as the flow does.
-/

namespace Krishiv.Ivm

open Krishiv.Delta Inner

variable {P : Type}

def Inner.withEpoch (s : Inner P) (e : ℕ) : Inner P := { s with stateEpoch := e }

variable (env : Env P) (s : Inner P) (e : ℕ)

/-! ## Registering, feeding and restoring -/

lemma declareLateness_withEpoch (l : LatenessSpec) :
    declareLateness (s.withEpoch e) l = (declareLateness s l).withEpoch e := by
  unfold declareLateness withEpoch
  split <;> rfl

lemma registerView_withEpoch (spec : IncrementalViewSpec) :
    registerView env (s.withEpoch e) spec = (registerView env s spec).withEpoch e := by
  have hforget : ∀ name, forgetPlan (s.withEpoch e) name = (forgetPlan s name).withEpoch e := by
    intro name
    unfold forgetPlan withEpoch
    split <;> rfl
  have hdeps : ∀ (s : Inner P) spec, recordDeps env (s.withEpoch e) spec = (recordDeps env s spec).withEpoch e := by
    intro s spec
    unfold recordDeps
    cases env.tableRefs spec.bodySql <;> rfl
  have hlate : ∀ (s : Inner P) (l : List LatenessSpec), l.foldl declareLateness (s.withEpoch e) =
      (l.foldl declareLateness s).withEpoch e := fun s l =>
    List.foldl_hom (withEpoch · e) (fun s l => declareLateness_withEpoch s e l)
  unfold registerView
  dsimp only
  rw [hforget, hdeps, hlate, show sameDefinition (s.withEpoch e) = sameDefinition s from rfl]
  split <;> rfl

lemma feedLateness_withEpoch (source : String) (d : DeltaBatch) :
    feedLateness (s.withEpoch e) source d = (feedLateness s source d).map (·.withEpoch e) id := by
  have hlate : applyLateness (s.withEpoch e) source d = (applyLateness s source d).map (·.withEpoch e) id := by
    unfold applyLateness
    rw [show trackSource (s.withEpoch e) = trackSource s from rfl]
    dsimp only
    cases (trackSource s source d.schema).lookup source with
    | none => rfl
    | some tracker =>
      dsimp only
      split <;> rfl
  unfold feedLateness
  rw [hlate]
  dsimp only [Prod.map, id]
  split <;> rfl

lemma accept_withEpoch (dedup : Bool) (source : String) (d : DeltaBatch) :
    accept env dedup (s.withEpoch e) source d = (accept env dedup s source d).map (·.withEpoch e) id := by
  unfold accept
  rw [show validateFeedTarget env (s.withEpoch e) source = validateFeedTarget env s source from rfl,
    show validateFeedSchema (s.withEpoch e) source d = validateFeedSchema s source d from rfl]
  rcases validateFeedTarget env s source with _ | _ <;> rcases validateFeedSchema s source d with _ | _
  · rfl
  · rfl
  · rfl
  -- what is left after deduplication is the same, and is then bounded in the same way
  cases dedup with
  | false =>
    simp only [Bool.false_eq_true, if_false, feedLateness_withEpoch]
    split <;> rfl
  | true =>
    rw [show (s.withEpoch e).seenInputHashes = s.seenInputHashes from rfl]
    rcases dedupFilter env dedupSeenCapacity dedupEvictBatch d.schema d.rows
      ((s.seenInputHashes.lookup source).getD ⟨[], []⟩) with ⟨w, _ | rows⟩
    · rfl
    have hlate := feedLateness_withEpoch (s := { s with seenInputHashes := s.seenInputHashes.insert source w })
      (e := e) source ⟨d.schema, rows⟩
    simp only [withEpoch, Except.map, if_true] at hlate ⊢
    rw [hlate]
    split <;> rfl

lemma feed_withEpoch (source : String) (d : DeltaBatch) :
    feed env (s.withEpoch e) source d = (feed env s source d).map (·.withEpoch e) id := by
  unfold feed
  rw [accept_withEpoch, show (s.withEpoch e).inputDedupEnabled = s.inputDedupEnabled from rfl]
  rcases accept env s.inputDedupEnabled s source d with ⟨s, _ | _ | d⟩
  · rfl
  · rfl
  · dsimp only [Prod.map, id, withEpoch]
    split <;> rfl

lemma feedSnapshot_withEpoch (source : String) (batches : List RecordBatch) :
    feedSnapshot env (s.withEpoch e) source batches = (feedSnapshot env s source batches).map (·.withEpoch e) id := by
  unfold feedSnapshot
  rcases combineSnapshot batches with _ | _ | new
  · rfl
  · rfl
  rw [show validateFeedTarget env (s.withEpoch e) source = validateFeedTarget env s source from rfl]
  dsimp only [withEpoch]
  rcases validateFeedTarget env s source with _ | _ <;>
    rcases differentiate new.schema (s.streamingPrevSnapshots.lookup source) new with _ | d
  · rfl
  · rfl
  · rfl
  dsimp only
  split
  · rfl
  · split <;> rfl

lemma restoreEntries_withEpoch (entries : List (IvmResult (String × DeltaBatch))) :
    restoreEntries (s.withEpoch e) entries = (restoreEntries s entries).map (·.withEpoch e) id := by
  induction entries generalizing s with
  | nil => rfl
  | cons entry rest ih =>
    rcases entry with _ | ⟨name, delta⟩
    · rfl
    unfold restoreEntries
    dsimp only [withEpoch]
    rcases restoreEntry (s.sourceSnapshots.lookup name) delta with _ | ⟨source, collapsed⟩
    · rfl
    let total := (s.deltaRestoreCollapsedRows.lookup name).getD 0 + collapsed
    exact ih { s with
      sourceSnapshots := s.sourceSnapshots.insert name source
      deltaRestoreCollapsedRows := if 0 < collapsed
        then s.deltaRestoreCollapsedRows.insert name total
        else s.deltaRestoreCollapsedRows }

lemma restoreDelta_withEpoch (slice : SourceBlob) :
    ∃ e', restoreDelta (s.withEpoch e) slice = (restoreDelta s slice).map (·.withEpoch e') id := by
  unfold restoreDelta restoreDeltaEntries
  rw [restoreEntries_withEpoch]
  generalize slice.entries.map _ = entries
  rcases restoreEntries s entries with ⟨s, _ | _⟩
  · exact ⟨e, rfl⟩
  · exact ⟨e + 1, rfl⟩

lemma restoreFull_withEpoch (decoded : IvmResult FullBlob) : ∃ e', restoreFull env (s.withEpoch e) decoded =
      (restoreFull env s decoded).map (·.withEpoch e') id := by
  unfold restoreFull
  rcases decoded with _ | blob
  · exact ⟨e, rfl⟩
  dsimp only
  rcases decodeFullSources blob with _ | sources
  · exact ⟨e, rfl⟩
  · refine ⟨e + 1, ?_⟩
    unfold replaceState
    cases blob.exactState <;> rfl

/-! ## The tick -/

def Drained.withEpoch (d : Drained P) (e : ℕ) : Drained P := { d with epoch := e }

def Prepared.withEpoch (p : Prepared P) (e : ℕ) : Prepared P := { p with epoch := e }

def Progress.withEpoch (st : Progress P) (e : ℕ) : Progress P :=
  { st with inner := st.inner.withEpoch e }

section Tick

variable [PlanLogic P]

lemma prepare_withEpoch (d : Drained P) (inputs : NameMap DeltaBatch) (rebuild : Bool)
    (recompute : List String) (c : TickCtx) : prepare env (d.withEpoch e) inputs rebuild recompute c =
      (prepare env d inputs rebuild recompute c).map (Prepared.withEpoch · e) := by
  have hmap : ∀ {α β γ : Type} (x : IvmResult α) (f : α → IvmResult β) (g : β → γ),
      (x >>= f).map g = x >>= fun a => (f a).map g := by
    intro α β γ x f g
    cases x <;> rfl
  unfold prepare
  simp only [hmap]
  rfl

lemma installPlan_withEpoch (lookup : String → Option RecordBatch) (entry : String × P × String) :
    installPlan env lookup (s.withEpoch e) entry = (installPlan env lookup s entry).withEpoch e := rfl

lemma installPlans_withEpoch (s : Inner P) (p : Prepared P) (e e' : ℕ) :
    installPlans env (s.withEpoch e) (p.withEpoch e') = (installPlans env s p).withEpoch e := by
  have horder : ∀ (s : Inner P) (entry : String × Option (List OrderColumn)),
      installOrder (s.withEpoch e) entry = (installOrder s entry).withEpoch e := by
    rintro s ⟨name, _ | order⟩ <;> rfl
  unfold installPlans
  dsimp only [Prepared.withEpoch]
  rw [List.foldl_hom (withEpoch · e) horder,
    List.foldl_hom (withEpoch · e) (fun s entry => installPlan_withEpoch env s e _ entry)]
  rfl

lemma produce_withEpoch (p : Prepared P) (st : Progress P) (e e' : ℕ) (kind : ViewPlanKind)
    (name : String) (view : IncrementalView) : produce (p.withEpoch e') (st.withEpoch e) kind name view =
      (produce p st kind name view).map (·.withEpoch e) id := by
  unfold produce Progress.withEpoch Prepared.withEpoch withEpoch
  cases kind with
  | incremental =>
    dsimp only
    cases st.inner.viewPlans.lookup name with
    | none => rfl
    | some plan =>
      dsimp only
      rcases PlanLogic.apply plan ⟨p.relation.lookup, st.available.lookup, p.schemas⟩ with
        ⟨plan, _ | _ | _⟩ <;> rfl
  | diffBased =>
    cases p.executed.full name with
    | none => rfl
    | some newFull =>
      dsimp only
      rcases view.diffAndUpdate newFull with ⟨view, _ | _⟩ <;> rfl

omit [PlanLogic P] in
lemma publishDelta_withEpoch (kind : ViewPlanKind) (st : Progress P) (e : ℕ) (name : String)
    (view : IncrementalView) (d : DeltaBatch) (retain : Bool) :
    publishDelta env kind (st.withEpoch e) name view d retain =
      (publishDelta env kind st name view d retain).withEpoch e := by
  have hretain : ∀ (s : Inner P) (tick : ℕ), retainOutput env (s.withEpoch e) name tick d =
      (retainOutput env s name tick d).withEpoch e := by
    intro s tick
    unfold retainOutput
    split <;> rfl
  unfold publishDelta
  rcases publishVia kind view d with ⟨view, _ | _⟩
  · rfl
  cases retain with
  | false => rfl
  | true =>
    exact congrArg (Progress.mk · st.available st.summary) (hretain { st.inner with
      views := st.inner.views.insert name view
      viewOutputTicks := st.inner.viewOutputTicks.insert name st.inner.tick } st.inner.tick)

omit [PlanLogic P] in
lemma emitDelta_withEpoch (hashes : Option (List ℕ)) (kind : ViewPlanKind) (st : Progress P) (e : ℕ)
    (name : String) (d : DeltaBatch) : emitDelta env hashes kind (st.withEpoch e) name d =
      (emitDelta env hashes kind st name d).map (·.withEpoch e) id := by
  have hrecord : ∀ s : Inner P, recordProvenance env hashes kind (s.withEpoch e) d =
      (recordProvenance env hashes kind s d).map (withEpoch · e) := by
    intro s
    unfold recordProvenance
    rw [show (s.withEpoch e).provenance = s.provenance from rfl]
    cases kind <;> cases hashes <;> cases s.provenance <;> try rfl
    cases d.rows.mapM fun p => hashRow env d.schema p.1 <;> rfl
  unfold emitDelta
  rw [show (st.withEpoch e).inner.views = st.inner.views from rfl]
  cases st.inner.views.lookup name with
  | none => rfl
  | some view =>
    dsimp only
    split
    · rfl
    split
    · split
      · rw [publishDelta_withEpoch]
        rfl
      · rfl
    rw [show countOutput (st.withEpoch e) name d = (countOutput st name d).withEpoch e from rfl,
      show ((countOutput st name d).withEpoch e).inner = (countOutput st name d).inner.withEpoch e
        from rfl, hrecord]
    cases recordProvenance env hashes kind (countOutput st name d).inner d with
    | error _ => rfl
    | ok s =>
      exact congrArg (·, none) (publishDelta_withEpoch env kind (handOver ⟨s, st.available,
        (countOutput st name d).summary⟩ name d) e name view d true)

lemma commitView_withEpoch (p : Prepared P) (hashes : Option (List ℕ)) (st : Progress P) (e e' : ℕ)
    (name : String) : commitView env (p.withEpoch e') hashes (st.withEpoch e) name =
      (commitView env p hashes st name).map (·.withEpoch e) id := by
  unfold commitView
  rw [show (st.withEpoch e).inner.views = st.inner.views from rfl]
  cases st.inner.views.lookup name with
  | none => rfl
  | some view =>
    dsimp only
    have hnote : noteDegraded (st.withEpoch e) (planKindOf st.inner name) name =
        (noteDegraded st (planKindOf st.inner name) name).withEpoch e := by
      cases planKindOf st.inner name <;> rfl
    rw [show planKindOf (st.withEpoch e).inner name = planKindOf st.inner name from rfl, hnote,
      produce_withEpoch]
    rcases produce p (noteDegraded st (planKindOf st.inner name) name) (planKindOf st.inner name) name
      view with ⟨s, _ | _ | d⟩
    · rfl
    · rfl
    · exact emitDelta_withEpoch env hashes _ ⟨s, _, _⟩ e name d

lemma commitViews_withEpoch (p : Prepared P) (hashes : Option (List ℕ)) (e e' : ℕ)
    (names : List String) (st : Progress P) : commitViews env (p.withEpoch e') hashes names (st.withEpoch e) =
      (commitViews env p hashes names st).map (·.withEpoch e) id := by
  induction names generalizing st with
  | nil => rfl
  | cons name names ih =>
    unfold commitViews
    rw [commitView_withEpoch]
    rcases commitView env p hashes st name with ⟨st, _ | _⟩
    · exact ih st
    · rfl

/-- A tick that runs in one piece does not abort, whatever the epoch. -/
lemma commit_withEpoch (s : Inner P) (p : Prepared P) (e : ℕ) (h : s.stateEpoch = p.epoch) :
    commit env (s.withEpoch e) (p.withEpoch e) = (commit env s p).map (·.withEpoch (e + 1)) id := by
  have hgc : ∀ s : Inner P, gcPlans (s.withEpoch (e + 1)) = (gcPlans s).withEpoch (e + 1) := by
    intro s
    unfold gcPlans
    rw [show (s.withEpoch (e + 1)).watermarkTrackers = s.watermarkTrackers from rfl]
    split <;> rfl
  have hretire : ∀ (s : Inner P) (err : ViewError), retireFailed p.recompute (s.withEpoch (e + 1)) err =
        (retireFailed p.recompute s err).withEpoch (e + 1) := by
    intro s err
    unfold retireFailed
    split <;> rfl
  unfold commit
  rw [if_neg (show ¬ (s.withEpoch e).stateEpoch ≠ (p.withEpoch e).epoch from fun hne => hne rfl),
    if_neg (not_not.mpr h),
    show commitSources (s.withEpoch e) (p.withEpoch e) = (commitSources s p).withEpoch (e + 1) from rfl]
  dsimp only
  rw [show ((commitSources s p).withEpoch (e + 1)).provenance = (commitSources s p).provenance from rfl,
    show (p.withEpoch e).inputs = p.inputs from rfl]
  rcases (if (commitSources s p).provenance.isSome then (inputHashes env p.inputs).map some
    else .ok none) with _ | hashes
  · rfl
  dsimp only
  rw [installPlans_withEpoch, show dirtyNames env (p.withEpoch e) = dirtyNames env p from rfl,
    show (p.withEpoch e).executed = p.executed from rfl]
  have hloop := commitViews_withEpoch env p hashes (e + 1) e (dirtyNames env p)
    ⟨installPlans env (commitSources s p) p, p.inputs,
      { StepSummary.zero with erroredViews := p.executed.errors }⟩
  rw [Progress.withEpoch] at hloop
  rw [hloop]
  rcases commitViews env p hashes (dirtyNames env p) _ with ⟨st, _ | _⟩
  · dsimp only [Prod.map, id, Progress.withEpoch]
    rw [hgc, show (p.withEpoch e).recompute = p.recompute from rfl,
      List.foldl_hom (withEpoch · (e + 1)) hretire]
  · rfl

lemma finishTick_withEpoch (d : Drained P) (inputs : NameMap DeltaBatch) (rebuild : Bool)
    (recompute : List String) (c : TickCtx) (s : Inner P) (e : ℕ) (h : s.stateEpoch = d.epoch) :
    ∃ e', finishTick env (d.withEpoch e) inputs rebuild recompute c (s.withEpoch e) =
      (finishTick env d inputs rebuild recompute c s).map (·.withEpoch e') id := by
  unfold finishTick
  rw [prepare_withEpoch]
  split
  · exact ⟨e, rfl⟩
  cases hp : prepare env d inputs rebuild recompute c with
  | error _ => exact ⟨e, rfl⟩
  | ok p =>
    have hepoch : s.stateEpoch = p.epoch := h.trans (prepare_ok hp).1.symm
    refine ⟨e + 1, ?_⟩
    rw [show (Except.ok p : IvmResult (Prepared P)).map (Prepared.withEpoch · e) =
      .ok (p.withEpoch e) from rfl]
    dsimp only
    rw [commit_withEpoch env s p e hepoch]
    rcases commit env s p with ⟨s, _ | _⟩ <;> rfl

/-- Whatever the epoch, a tick does the same and says the same. -/
lemma stepDatafusion_withEpoch (s : Inner P) (c : TickCtx) (e : ℕ) :
    ∃ e', stepDatafusion env (s.withEpoch e) c = (stepDatafusion env s c).map (·.withEpoch e') id := by
  have hguard : ∀ (raw : NameMap (List DeltaBatch)) (r : Inner P × TickCtx × IvmResult StepSummary)
      (e : ℕ), guardDrained raw (r.map (·.withEpoch e) id) = (guardDrained raw r).map (·.withEpoch e) id := by
    rintro raw ⟨s, c, _ | _⟩ e <;> rfl
  unfold stepDatafusion stepInterleaved
  rw [show drain env (s.withEpoch e) = ((drain env s).1.withEpoch e, (drain env s).2.withEpoch e) from rfl]
  dsimp only [id]
  rw [show ((drain env s).2.withEpoch e).raw = (drain env s).2.raw from rfl]
  cases coalescePending (drain env s).2.raw with
  | error err => exact ⟨e, hguard _ ((drain env s).1, .fresh, .error err) e⟩
  | ok inputs =>
    obtain ⟨e', he'⟩ := finishTick_withEpoch env (drain env s).2 inputs
      (takeFlags (drain env s).1).2.1 (takeFlags (drain env s).1).2.2 c (takeFlags (drain env s).1).1
      e rfl
    refine ⟨e', ?_⟩
    rw [← hguard, ← he']
    rfl

end Tick

end Krishiv.Ivm
