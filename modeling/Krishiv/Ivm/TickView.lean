import Krishiv.Ivm.SqlPass

/-!
# A tick, seen from one view

A tick marks its views, runs the SQL that is needed and goes through the marked views under the lock.
Each part comes to a given view at most once. What the SQL pass leaves there is one of three things
(`Ran`): a value, the previous output of a recursive view whose body failed, or, for a query that
failed, an empty batch. A view that is recomputed then moves to that output and publishes the
difference (`commitView_recomputed`). The other entries of pass and loop neither touch the view nor
report errors in its name.
-/

namespace Krishiv.Ivm

open Krishiv.Delta Progress List AList IncrementalView Function TickCtx IncrementalViewSpec Prod

variable {P : Type}

/-! ## Which views are planned -/

section Marking

variable [PlanLogic P] (env : Env P) (d : Drained P) (t : MarkInput)

/-- The SQL of a marked view runs whatever plan it has. -/
def runsAnyway (spec : IncrementalViewSpec) : Bool :=
  d.forceDiffBased || t.rebuild || decide (spec.name ∈ t.recompute) || spec.isRecursive

/-- What marking the views `specs` leaves. -/
structure MarkedBy (specs : List IncrementalViewSpec) (m : Marks P) : Prop where
  names : (m.order.map Prod.fst).Sublist (specs.map IncrementalViewSpec.name)
  dirty : ∀ x, x ∈ m.dirtyViews ↔ ∃ n ∈ m.order.map Prod.fst, x = env.toLowercase n
  entries : ∀ e ∈ m.order, ∃ spec ∈ specs, spec.name = e.1 ∧ (runsAnyway d t spec = true ∧ e.2 = false ∨
      runsAnyway d t spec = false ∧
        ((∃ kind, d.planKinds e.1 = some kind ∧ e.2 = decide (kind = .incremental)) ∨
          ∃ plan ∈ m.newPlans, plan.1 = e.1))
  plans : ∀ plan ∈ m.newPlans, ∃ spec ∈ specs, spec.name = plan.1 ∧
    runsAnyway d t spec = false ∧ d.planKinds plan.1 = none
  queued : ∀ spec ∈ specs, spec.name ∈ t.recompute → spec.name ∈ m.order.map Prod.fst

variable {env d t}

lemma MarkedBy.markView {specs : List IncrementalViewSpec} {m : Marks P}
    (h : MarkedBy env d t specs m) (spec : IncrementalViewSpec) :
    MarkedBy env d t (specs ++ [spec]) (markView env d t m spec) := by
  -- what was known of the earlier views stays known
  have hentries : ∀ plans : List (String × P × String), (∀ plan ∈ m.newPlans, plan ∈ plans) → ∀ e ∈ m.order,
      ∃ s ∈ specs ++ [spec], s.name = e.1 ∧ (runsAnyway d t s = true ∧ e.2 = false ∨ runsAnyway d t s = false ∧
          ((∃ kind, d.planKinds e.1 = some kind ∧ e.2 = decide (kind = .incremental)) ∨
            ∃ plan ∈ plans, plan.1 = e.1)) := by
    intro plans hsub e he
    obtain ⟨s, hs, hname, hcase⟩ := h.entries e he
    refine ⟨s, mem_append_left _ hs, hname, hcase.imp id ?_⟩
    exact And.imp id (Or.imp id fun ⟨plan, hp, hn⟩ => ⟨plan, hsub plan hp, hn⟩)
  have hplans : ∀ plan ∈ m.newPlans, ∃ s ∈ specs ++ [spec], s.name = plan.1 ∧
      runsAnyway d t s = false ∧ d.planKinds plan.1 = none := by
    intro plan hp
    obtain ⟨s, hs, hrest⟩ := h.plans plan hp
    exact ⟨s, mem_append_left _ hs, hrest⟩
  have hnames : ∀ b : Bool, ((m.order ++ [(spec.name, b)]).map fst).Sublist ((specs ++ [spec]).map name) := by
    intro b
    rw [map_append, map_append]
    exact h.names.append (Sublist.refl _)
  have hdirty : ∀ (b : Bool) x, x ∈ env.toLowercase spec.name :: m.dirtyViews ↔
      ∃ n ∈ (m.order ++ [(spec.name, b)]).map fst, x = env.toLowercase n := by
    intro b x
    rw [mem_cons, h.dirty, map_append]
    constructor
    · rintro (rfl | ⟨n, hn, rfl⟩)
      · exact ⟨spec.name, mem_append_right _ (mem_singleton.mpr rfl), rfl⟩
      · exact ⟨n, mem_append_left _ hn, rfl⟩
    rintro ⟨n, hn, rfl⟩
    rcases mem_append.mp hn with hn | hn
    · exact .inr ⟨n, hn, rfl⟩
    · exact .inl (by rw [mem_singleton.mp hn])
  have hqueued : ∀ b : Bool, ∀ s ∈ specs ++ [spec], s.name ∈ t.recompute →
      s.name ∈ (m.order ++ [(spec.name, b)]).map fst := by
    intro b
    rw [map_append]
    exact forall_mem_append.mpr ⟨fun s hs hrec => mem_append_left _ (h.queued s hs hrec), by simp⟩
  unfold Ivm.markView
  dsimp only
  split
  · next hclean =>
    refine ⟨h.names.trans (by simp), h.dirty, hentries _ fun _ hp => hp, hplans,
      forall_mem_append.mpr ⟨h.queued, forall_mem_singleton.mpr fun hrec => ?_⟩⟩
    simp [hrec] at hclean
  split
  · next hany =>
    exact ⟨hnames false, hdirty false, forall_mem_append.mpr ⟨hentries _ fun _ hp => hp,
      forall_mem_singleton.mpr ⟨spec, by simp, rfl, .inl ⟨hany, rfl⟩⟩⟩, hplans, hqueued false⟩
  next hany =>
  rw [Bool.not_eq_true] at hany
  split
  · next hnone =>
    exact ⟨hnames _, hdirty _, forall_mem_append.mpr ⟨hentries _ fun _ hp => mem_append_left _ hp,
        forall_mem_singleton.mpr ⟨spec, by simp, rfl, .inr ⟨hany, .inr
          ⟨_, mem_append_right _ (mem_singleton.mpr rfl), rfl⟩⟩⟩⟩,
      forall_mem_append.mpr ⟨hplans, forall_mem_singleton.mpr ⟨spec, by simp, rfl, hany, hnone⟩⟩, hqueued _⟩
  · next kind hkind =>
    exact ⟨hnames _, hdirty _, forall_mem_append.mpr ⟨hentries _ fun _ hp => hp,
      forall_mem_singleton.mpr ⟨spec, by simp, rfl, .inr ⟨hany, .inl ⟨kind, hkind, rfl⟩⟩⟩⟩,
      hplans, hqueued _⟩

lemma MarkedBy.foldl {done : List IncrementalViewSpec} {m : Marks P} (h : MarkedBy env d t done m)
    (specs : List IncrementalViewSpec) : MarkedBy env d t (done ++ specs) (specs.foldl (Ivm.markView env d t) m) := by
  induction specs generalizing done m with
  | nil =>
    rw [append_nil]
    exact h
  | cons spec specs ih =>
    have hrest := ih (h.markView spec)
    rwa [append_assoc] at hrest

end Marking

/-! ## The SQL of one view -/

/-- The value of a view over the tables of a context: its query's result, or the fixed point that is
reached from its previous value. -/
def ViewValue (env : Env P) (spec : IncrementalViewSpec) (c : TickCtx) (prev : Option RecordBatch)
    (full : RecordBatch) : Prop :=
  if spec.isRecursive then (runRecursiveFixpoint env spec prev c).2 = .ok full
  else executeViewSql env c.tables spec = .ok full

/-- A name under which no view has its table. -/
def Foreign (env : Env P) (d : Drained P) (n : String) : Prop :=
  ∀ m ∈ d.viewNames, env.toLowercase m ≠ n

/-- What running the SQL of a view can leave of its full output. -/
inductive Ran (env : Env P) (d : Drained P) (spec : IncrementalViewSpec) (acc acc' : Executed) : Prop
  | value (c : TickCtx) (full : RecordBatch) (result : ViewValue env spec c (acc.full spec.name) full)
      (tables : ∀ n, Foreign env d n → c.tables n = acc.ctx.tables n)
      (output : acc'.full spec.name = some full) (errors : acc'.errors = acc.errors)
  | kept (e : ViewError) (view : e.view = spec.name) (recursive : spec.isRecursive = true)
      (output : acc'.full spec.name = acc.full spec.name) (errors : acc'.errors = acc.errors ++ [e])
  | emptied (e : ViewError) (view : e.view = spec.name) (plain : spec.isRecursive = false)
      (output : acc'.full spec.name = some (RecordBatch.newEmpty spec.outputSchema))
      (errors : acc'.errors = acc.errors ++ [e])

variable {name n : String}

lemma TickCtx.register_foreign {env : Env P} (h : env.toLowercase name ≠ n)
    (c : TickCtx) (b : RecordBatch) : (c.register env name b).tables n = c.tables n :=
  update_of_ne h.symm _ _

lemma TickCtx.remove_foreign {env : Env P} (h : env.toLowercase name ≠ n)
    (c : TickCtx) : (c.remove env name).tables n = c.tables n :=
  update_of_ne h.symm _ _

variable {names : List String}

lemma registerOutputs_foreign {env : Env P} (h : ∀ m ∈ names, env.toLowercase m ≠ n)
    (full : String → Option RecordBatch) (c : TickCtx) : (names.foldl (fun c n => match full n with
      | some b => c.register env n b
      | none => c) c).tables n = c.tables n := by
  induction names generalizing c with
  | nil => rfl
  | cons name names ih =>
    rw [foldl_cons, ih fun m hm => h m (mem_cons_of_mem _ hm)]
    split
    · exact register_foreign (h name mem_cons_self) c _
    · rfl

section

variable (env : Env P) (spec : IncrementalViewSpec)

/-- The iteration registers nothing but the view itself, and its errors are of that view. -/
lemma fixpointLoop_spec (fuel : ℕ) (current : RecordBatch) (c : TickCtx) : (∀ n, env.toLowercase spec.name ≠ n →
      (fixpointLoop env spec fuel current c).1.tables n = c.tables n) ∧
    ∀ e, (fixpointLoop env spec fuel current c).2 = .error e → e.view = spec.name := by
  induction fuel generalizing current c with
  | zero =>
    refine ⟨fun _ _ => rfl, fun e h => ?_⟩
    cases h
    rfl
  | succ fuel ih =>
    unfold fixpointLoop
    split
    · refine ⟨fun _ _ => rfl, fun e h => ?_⟩
      cases h
      rfl
    next next _ =>
    split
    · refine ⟨fun _ _ => rfl, fun e h => ?_⟩
      cases h
      rfl
    split
    · exact ⟨fun _ _ => rfl, fun e h => by cases h⟩
    · obtain ⟨htables, herr⟩ := ih next (c.register env spec.name next)
      exact ⟨fun n hn => (htables n hn).trans (register_foreign hn c next), herr⟩

lemma runRecursiveFixpoint_spec (seed : Option RecordBatch) (c : TickCtx) : (∀ n, env.toLowercase spec.name ≠ n →
      (runRecursiveFixpoint env spec seed c).1.tables n = c.tables n) ∧
    ∀ e, (runRecursiveFixpoint env spec seed c).2 = .error e → e.view = spec.name := by
  unfold runRecursiveFixpoint
  split
  · refine ⟨fun _ _ => rfl, fun e h => ?_⟩
    cases h
    rfl
  next current _ =>
  obtain ⟨htables, herr⟩ := fixpointLoop_spec env spec maxFixpointIters current
    (c.register env spec.name current)
  exact ⟨fun n hn => (htables n hn).trans (register_foreign hn c current), herr⟩

end

variable {v : String} {errors : List ViewError}

section Pass

variable {env : Env P} {d : Drained P} {order : List (String × Bool)} {acc acc' : Executed} {e : String × Bool}

/-- What an entry of the pass leaves alone, and whose errors it adds. -/
structure PassStep (env : Env P) (d : Drained P) (name : String) (acc acc' : Executed) : Prop where
  full : ∀ n, n ≠ name → acc'.full n = acc.full n
  tables : ∀ n, Foreign env d n → acc'.ctx.tables n = acc.ctx.tables n
  errors : ∃ es, acc'.errors = acc.errors ++ es ∧ ∀ e ∈ es, e.view = name

lemma runsSql_iff : RunsSql env d order e ↔ (e.2 && !owesFullOutput env d order e.1) = false := by
  rw [RunsSql, Bool.and_eq_false_iff, Bool.not_eq_false']

/-- An entry of the pass: a view whose SQL runs, or one whose table is set or removed. -/
lemma executeView_spec (h : executeView env d order acc e = .ok acc') : PassStep env d e.1 acc acc' ∧
    (RunsSql env d order e → ∀ spec, (d.specs.find? fun s => s.name = e.1) = some spec → Ran env d spec acc acc') ∧
    (¬ RunsSql env d order e → acc'.full = acc.full ∧ acc'.errors = acc.errors) := by
  have hnone : ∃ es, acc.errors = acc.errors ++ es ∧ ∀ x ∈ es, x.view = e.1 :=
    ⟨[], (append_nil _).symm, by simp⟩
  unfold executeView at h
  cases hspec : d.specs.find? fun s => s.name = e.1 with
  | none =>
    rw [hspec] at h
    cases h
    exact ⟨⟨fun _ _ => rfl, fun _ _ => rfl, hnone⟩, nofun, fun _ => ⟨rfl, rfl⟩⟩
  | some spec =>
    obtain ⟨hname, hmem⟩ := mem_viewNames_of_find hspec
    have hforeign : ∀ n, Foreign env d n → env.toLowercase spec.name ≠ n := by
      intro n hn
      exact hn _ (by rw [hname]; exact hmem)
    have hupdate : ∀ (b : Option RecordBatch) n, n ≠ e.1 → update acc.full spec.name b n = acc.full n := by
      intro b n hn
      rw [hname]
      exact update_of_ne hn _ _
    rw [hspec] at h
    dsimp only at h
    split at h
    · next hskip =>
      have hnot : ¬ RunsSql env d order e := fun hr => by cases hskip.symm.trans (runsSql_iff.mp hr)
      split at h
      · split at h
        · cases h
          exact ⟨⟨fun _ _ => rfl, fun n hn => remove_foreign (hforeign n hn) _, hnone⟩, (absurd · hnot), fun _ => ⟨rfl, rfl⟩⟩
        · cases h
          exact ⟨⟨fun _ _ => rfl, fun n hn => register_foreign (hforeign n hn) _ _, hnone⟩, (absurd · hnot),
            fun _ => ⟨rfl, rfl⟩⟩
      · cases h
        exact ⟨⟨fun _ _ => rfl, fun n hn => remove_foreign (hforeign n hn) _, hnone⟩, (absurd · hnot), fun _ => ⟨rfl, rfl⟩⟩
    next hrun =>
    suffices hran : PassStep env d e.1 acc acc' ∧ Ran env d spec acc acc' from
      ⟨hran.1, fun _ _ hs => Option.some.inj hs ▸ hran.2,
        fun hskip => absurd (runsSql_iff.mpr (Bool.eq_false_of_not_eq_true hrun)) hskip⟩
    have htables : ∀ n, Foreign env d n → ((d.specs.map name).foldl (fun c n =>
        match acc.full n with
        | some b => c.register env n b
        | none => c) acc.ctx).tables n = acc.ctx.tables n :=
      fun n hn => registerOutputs_foreign hn acc.full acc.ctx
    generalize (d.specs.map name).foldl (fun c n =>
      match acc.full n with
      | some b => c.register env n b
      | none => c) acc.ctx = ctx at h htables
    split at h
    · next hrec =>
      have hfix := runRecursiveFixpoint_spec env spec (acc.full spec.name) ctx
      have hctx := fun n hn => (hfix.1 n (hforeign n hn)).trans (htables n hn)
      split at h
      · next c full hr =>
        cases h
        rw [hr] at hctx
        refine ⟨⟨hupdate _, hctx, hnone⟩, .value ctx full ?_ htables (update_self ..) rfl⟩
        rw [ViewValue, if_pos hrec, hr]
      · next c x hr =>
        cases h
        rw [hr] at hfix hctx
        have hview := hfix.2 x rfl
        refine ⟨⟨fun _ _ => rfl, hctx, [x], rfl, fun y hy => ?_⟩, .kept x hview hrec rfl rfl⟩
        rw [mem_singleton.mp hy, hview, hname]
    · next hrec =>
      rw [Bool.not_eq_true] at hrec
      split at h
      · next full hq =>
        cases h
        refine ⟨⟨hupdate _, htables, hnone⟩, .value ctx full ?_ htables (update_self ..) rfl⟩
        rw [ViewValue, if_neg (by rw [hrec]; exact Bool.false_ne_true)]
        exact hq
      obtain ⟨b, hb, h⟩ := Except.bind_eq_ok_iff.mp h
      cases h
      unfold emptyOutputBatch at hb
      split at hb
      · cases hb
      cases hb
      refine ⟨⟨hupdate _, htables, [_], rfl, fun y hy => ?_⟩, .emptied _ rfl hrec (update_self ..) rfl⟩
      rw [mem_singleton.mp hy]
      exact hname

/-- The errors of one view. -/
def errorsOf (v : String) (errors : List ViewError) : List ViewError :=
  errors.filter fun e => e.view = v

lemma errorsOf_append_other (hne : v ≠ name) {es : List ViewError}
    (h : ∀ e ∈ es, e.view = name) : errorsOf v (errors ++ es) = errorsOf v errors := by
  have hnil : es.filter (fun e => e.view = v) = [] := by
    rw [filter_eq_nil_iff]
    intro e he
    rw [h e he]
    simpa using hne.symm
  rw [errorsOf, filter_append, hnil, append_nil]
  rfl

lemma PassStep.other (hne : v ≠ name) (h : PassStep env d name acc acc') :
    acc'.full v = acc.full v ∧ errorsOf v acc'.errors = errorsOf v acc.errors := by
  obtain ⟨es, hes, hview⟩ := h.errors
  refine ⟨h.full v hne, ?_⟩
  rw [hes]
  exact errorsOf_append_other hne hview

variable {entries : List (String × Bool)}

/-- A view that is not marked keeps its previous output, and has no error. -/
lemma foldlM_executeView_other (hv : v ∉ entries.map fst)
    (h : entries.foldlM (executeView env d order) acc = .ok acc') :
    acc'.full v = acc.full v ∧ errorsOf v acc'.errors = errorsOf v acc.errors := by
  induction entries generalizing acc with
  | nil =>
    cases h
    exact ⟨rfl, rfl⟩
  | cons e entries ih =>
    rw [foldlM_cons, Except.bind_eq_ok_iff] at h
    obtain ⟨acc₁, hstep, h⟩ := h
    rw [map_cons, mem_cons, not_or] at hv
    have hone := (executeView_spec hstep).1.other hv.1
    have hrest := ih hv.2 h
    exact ⟨hrest.1.trans hone.1, hrest.2.trans hone.2⟩

/-- The pass comes to a marked view once, with its output from before the tick, and what it leaves
there is the end of it. -/
lemma foldlM_executeView_at (hn : (entries.map fst).Nodup)
    (he : e ∈ entries) (h : entries.foldlM (executeView env d order) acc = .ok acc') :
    ∃ a a', executeView env d order a e = .ok a' ∧ a.full e.1 = acc.full e.1 ∧
      errorsOf e.1 a.errors = errorsOf e.1 acc.errors ∧ (∀ n, Foreign env d n → a.ctx.tables n = acc.ctx.tables n) ∧
      acc'.full e.1 = a'.full e.1 ∧ errorsOf e.1 acc'.errors = errorsOf e.1 a'.errors := by
  induction entries generalizing acc with
  | nil => cases he
  | cons x entries ih =>
    rw [foldlM_cons, Except.bind_eq_ok_iff] at h
    obtain ⟨acc₁, hstep, h⟩ := h
    rw [map_cons, nodup_cons] at hn
    rcases mem_cons.mp he with rfl | he
    · have hrest := foldlM_executeView_other hn.1 h
      exact ⟨acc, acc₁, hstep, rfl, rfl, fun _ _ => rfl, hrest.1, hrest.2⟩
    have hne : e.1 ≠ x.1 := by
      intro heq
      exact hn.1 (heq ▸ mem_map_of_mem he)
    have hone := (executeView_spec hstep).1
    obtain ⟨a, a', ha, hfull, herr, htab, hend⟩ := ih hn.2 he h
    exact ⟨a, a', ha, hfull.trans (hone.other hne).1, herr.trans (hone.other hne).2,
      fun n hf => (htab n hf).trans (hone.tables n hf), hend⟩

end Pass

/-! ## A view that is recomputed -/

/-- The view holds the relation `H`: its baseline, and its snapshot if it has one. -/
structure Kept (view : IncrementalView) (H : Row → ℕ) : Prop where
  baseline : ∀ r, view.fullOutput.count r = H r
  snapshot : if view.spec.isMaterialized then ∀ r, view.count r = H r else view.snapshot = none

def ViewHolds (s : Inner P) (v : String) (H : Row → ℕ) : Prop :=
  ∃ view, s.views.lookup v = some view ∧ Kept view H

/-- What a view published in the tick that has just ended. -/
def outputNet (s : Inner P) (v : String) (r : Row) : ℤ :=
  ((s.lastStepOutputs.lookup v).map (DeltaBatch.net · r)).getD 0

/-- The errors of a failed evaluation, as against those of an output that cannot be published. -/
def ViewError.ofEvaluation (e : ViewError) : Prop :=
  e.kind ≠ .publish ∧ e.kind ≠ .outputSchemaMismatch

lemma mem_errorsOf {e : ViewError} : e ∈ errorsOf v errors ↔ e ∈ errors ∧ e.view = v := by
  simp [errorsOf]

lemma mem_errorsOf_append {e : ViewError} (h : e.view = v) : e ∈ errorsOf v (errors ++ [e]) :=
  mem_errorsOf.mpr ⟨mem_append_right _ (mem_singleton.mpr rfl), h⟩

lemma publishDelta_plans (env : Env P) (kind : ViewPlanKind) (st : Progress P) (name : String)
    (view : IncrementalView) (d : DeltaBatch) (retain : Bool) :
    (publishDelta env kind st name view d retain).inner.viewPlans = st.inner.viewPlans := by
  unfold publishDelta
  split
  · dsimp only
    split
    · unfold retainOutput
      split <;> rfl
    · rfl
  · rfl

lemma emitDelta_plans (env : Env P) (hashes : Option (List ℕ)) (kind : ViewPlanKind)
    (st : Progress P) (name : String) (d : DeltaBatch) :
    (emitDelta env hashes kind st name d).1.inner.viewPlans = st.inner.viewPlans := by
  have hrule : EmitRule env name fun st st' : Progress P => st'.inner.viewPlans = st.inner.viewPlans :=
    ⟨fun _ => rfl, fun h h' => h'.trans h, fun _ _ _ => rfl, fun _ _ => rfl, fun _ _ => rfl, fun _ _ => rfl,
      fun st kind view d retain _ => publishDelta_plans env kind st name view d retain⟩
  exact hrule.emitDelta hashes kind st d

variable {st st' : Progress P}

section Recompute

variable {env : Env P} {H H' : Row → ℕ}

/-- What giving out a delta does: an empty one may establish the first snapshot, another is published
and logged. -/
inductive Emission (env : Env P) (kind : ViewPlanKind) (v : String) (w : IncrementalView)
    (d : DeltaBatch) (s s' : Inner P) : Prop
  | nothing (empty : d.isEmpty = true) (view : s'.views.lookup v = some w)
      (log : s'.outputLog = s.outputLog) (delta : s'.lastStepOutputs = s.lastStepOutputs)
  | established (w' : IncrementalView) (empty : d.isEmpty = true)
      (kept : w.spec.isMaterialized = true) (applied : publishVia kind w d = (w', .ok ()))
      (view : s'.views.lookup v = some w')
      (log : s'.outputLog = s.outputLog) (delta : s'.lastStepOutputs = s.lastStepOutputs)
  | published (w' : IncrementalView) (nonempty : d.isEmpty = false)
      (applied : publishVia kind w d = (w', .ok ())) (view : s'.views.lookup v = some w')
      (log : s'.outputLog.lookup v = some ((logOf s v).push env s.outputRetention s.tick d))
      (delta : s'.lastStepOutputs.lookup v = some d)

variable {hashes : Option (List ℕ)} {w : IncrementalView} {d : DeltaBatch}

/-- A publish without an error. -/
lemma publishDelta_published {kind : ViewPlanKind} {retain : Bool}
    (hclean : ∀ e ∈ errorsOf v (publishDelta env kind st v w d retain).summary.erroredViews, e.ofEvaluation) :
    ∃ w', publishVia kind w d = (w', .ok ()) ∧ publishDelta env kind st v w d retain =
        { st with inner :=
            let s := { st.inner with
              views := st.inner.views.insert v w'
              viewOutputTicks := st.inner.viewOutputTicks.insert v st.inner.tick }
            if retain then retainOutput env s v s.tick d else s } := by
  unfold publishDelta at hclean ⊢
  cases hv : publishVia kind w d with
  | mk w' result =>
  rw [hv] at hclean
  cases result with
  | error e => exact absurd rfl (hclean ⟨v, .publish, deltaMessage e⟩ (mem_errorsOf_append rfl)).1
  | ok _ => exact ⟨w', rfl, rfl⟩

lemma emitDelta_emission {kind : ViewPlanKind} (hview : st.inner.views.lookup v = some w)
    (h : emitDelta env hashes kind st v d = (st', none))
    (hclean : ∀ e ∈ errorsOf v st'.summary.erroredViews, e.ofEvaluation) :
    emitsDeclaredRelation d.schema w.spec.outputSchema = true ∧ st'.summary.erroredViews = st.summary.erroredViews ∧
      Emission env kind v w d st.inner st'.inner := by
  unfold emitDelta at h
  rw [hview] at h
  dsimp only at h
  split at h
  · -- other columns than declared
    cases h
    exact absurd rfl (hclean _ (mem_errorsOf_append rfl)).2
  next hdecl =>
  rw [Bool.not_eq_true, Bool.not_eq_false'] at hdecl
  refine ⟨hdecl, ?_⟩
  split at h
  · next hd =>
    split at h
    · next hm =>
      cases h
      rw [Bool.and_eq_true] at hm
      obtain ⟨w', hw', heq⟩ := publishDelta_published hclean
      rw [heq]
      exact ⟨rfl, .established w' hd hm.1 hw' (lookup_insert _) rfl rfl⟩
    · cases h
      exact ⟨rfl, .nothing hd hview rfl rfl⟩
  · next hd =>
    rw [Bool.not_eq_true] at hd
    split at h
    · cases h
    next s hs =>
    cases h
    obtain ⟨provenance, rfl⟩ := recordProvenance_eq hs
    obtain ⟨w', hw', heq⟩ := publishDelta_published hclean
    rw [heq, if_pos rfl]
    unfold retainOutput
    rw [if_neg (by rw [hd]; exact Bool.false_ne_true)]
    exact ⟨rfl, .published w' hd hw' (lookup_insert _) (lookup_insert _) (lookup_insert _)⟩

/-- Publishing the difference leads from the one relation to the other. -/
lemma publishVia_kept {w' : IncrementalView} (hbase : ∀ r, w.fullOutput.count r = H' r)
    (hsnap : if w.spec.isMaterialized then ∀ r, w.count r = H r else w.snapshot = none)
    (hnet : ∀ r, d.net r = H' r - H r) (hcons : ViewState.SettlesSums consolidateBatch w.snapshot d)
    (h : publishVia .diffBased w d = (w', .ok ())) : Kept w' H' := by
  obtain ⟨hspec, hout⟩ := publishOutput_ok h
  by_cases hm : w.spec.isMaterialized = true
  · rw [if_pos hm] at hout hsnap
    have hcount : ∀ r, w'.count r = H' r := by
      intro r
      rw [(hout.1 hcons).2 r, hsnap r, hnet r]
      omega
    refine ⟨fun r => ?_, ?_⟩
    · rw [← hcount r]
      show countOf w'.fullOutput.batch r = countOf w'.snapshot r
      rw [hout.2]
    · rw [hspec, if_pos hm]
      exact hcount
  · rw [if_neg hm] at hout hsnap
    refine ⟨fun r => ?_, ?_⟩
    · rw [hout.2]
      exact hbase r
    rw [hspec, if_neg hm]
    show w'.snapshotState.batch = none
    rw [hout.1]
    exact hsnap

/-- The view has gone from `H` to `H'`, and published exactly that. -/
structure Recomputed (v : String) (H H' : Row → ℕ) (st st' : Progress P) : Prop where
  view : ViewHolds st'.inner v H'
  errors : st'.summary.erroredViews = st.summary.erroredViews
  plans : st'.inner.viewPlans = st.inner.viewPlans
  output : ∀ r, outputNet st'.inner v r = H' r - H r
  silent : (∀ r, H' r = H r) → st'.inner.lastStepOutputs.lookup v = none ∧
    st'.inner.outputLog = st.inner.outputLog

lemma emitDelta_recomputed (hview : st.inner.views.lookup v = some w) (hbase : ∀ r, w.fullOutput.count r = H' r)
    (hsnap : if w.spec.isMaterialized then ∀ r, w.count r = H r else w.snapshot = none)
    (hnet : ∀ r, d.net r = H' r - H r) (hempty : (∀ r, H' r = H r) → d.isEmpty = true)
    (hcons : ViewState.SettlesSums consolidateBatch w.snapshot d)
    (hlast : st.inner.lastStepOutputs.lookup v = none) (h : emitDelta env hashes .diffBased st v d = (st', none))
    (hclean : ∀ e ∈ errorsOf v st'.summary.erroredViews, e.ofEvaluation) : Recomputed v H H' st st' := by
  have hzero : d.isEmpty = true → ∀ r, (0 : ℤ) = H' r - H r := by
    intro hd r
    rw [← hnet r, DeltaBatch.net_of_isEmpty hd]
  have hplans := emitDelta_plans env hashes .diffBased st v d
  rw [h] at hplans
  obtain ⟨-, herrors, hemit⟩ := emitDelta_emission hview h hclean
  cases hemit with
  | nothing empty view log delta =>
    refine ⟨⟨w, view, hbase, ?_⟩, herrors, hplans, fun r => ?_, fun _ => ⟨by rw [delta]; exact hlast, log⟩⟩
    · split
      · next hm =>
        rw [if_pos hm] at hsnap
        intro r
        have := hzero empty r
        rw [hsnap r]
        omega
      · next hm =>
        rw [if_neg hm] at hsnap
        exact hsnap
    · rw [outputNet, delta, hlast]
      exact hzero empty r
  | established w' empty kept applied view log delta =>
    refine ⟨⟨w', view, publishVia_kept hbase hsnap hnet hcons applied⟩, herrors, hplans, fun r => ?_,
      fun _ => ⟨by rw [delta]; exact hlast, log⟩⟩
    rw [outputNet, delta, hlast]
    exact hzero empty r
  | published w' nonempty applied view log delta =>
    refine ⟨⟨w', view, publishVia_kept hbase hsnap hnet hcons applied⟩, herrors, hplans, fun r => ?_, fun heq => ?_⟩
    · rw [outputNet, delta]
      exact hnet r
    · rw [hempty heq] at nonempty
      cases nonempty

/-- A view that is recomputed: there is no result, the diff fails, or the view moves to the result. -/
lemma commitView_recomputed [PlanLogic P] {p : Prepared P} (hkind : planKindOf st.inner v = .diffBased)
    (hholds : ViewHolds st.inner v H) (hlast : st.inner.lastStepOutputs.lookup v = none)
    (hapart : ∀ view b, st.inner.views.lookup v = some view → p.executed.full v = some b →
      RowsApart (view.parts ++ [.fromInserts b]))
    (h : commitView env p hashes st v = (st', none))
    (hclean : ∀ e ∈ errorsOf v st'.summary.erroredViews, e.ofEvaluation) :
    (p.executed.full v = none ∧ Recomputed v H H st st') ∨
    (∃ b e, p.executed.full v = some b ∧ b.rows.isEmpty = false ∧ e.view = v ∧
      st'.summary.erroredViews = st.summary.erroredViews ++ [e] ∧ SameOutput v st.inner st'.inner ∧
      st'.inner.viewPlans = st.inner.viewPlans) ∨
    ∃ b, p.executed.full v = some b ∧ Recomputed v H b.count st st' := by
  obtain ⟨view, hview, hkept⟩ := hholds
  unfold commitView at h
  rw [hview, hkind] at h
  simp only [noteDegraded, produce] at h
  cases hfull : p.executed.full v with
  | none =>
    rw [hfull] at h
    cases h
    refine .inl ⟨rfl, ⟨view, hview, hkept⟩, rfl, rfl, fun r => ?_, fun _ => ⟨hlast, rfl⟩⟩
    show outputNet st.inner v r = _
    rw [outputNet, hlast, sub_self]
    rfl
  | some b =>
    rw [hfull] at h
    dsimp only at h
    cases hdiff : view.diffAndUpdate b with
    | mk view' result =>
    rw [hdiff] at h
    cases result with
    | error e =>
      cases h
      refine .inr (.inl ⟨b, _, rfl, ?_, rfl, rfl, .refl v _, rfl⟩)
      unfold diffAndUpdate diffAndUpdateWith at hdiff
      split at hdiff
      · next hd => exact differentiate_error hd
      · cases hdiff
    | ok d =>
      have hparts := hapart view b hview hfull
      have hresult : DeltaBatch.fromInserts b ∈ view.parts ++ [.fromInserts b] :=
        mem_append_right _ (mem_singleton_self _)
      obtain ⟨hnet, hbase⟩ := diffAndUpdate_ok
        (hparts.apart ⟨_, hresult, rfl⟩ fun p hp => ⟨_, hresult, mem_map_of_mem hp⟩) hdiff
      obtain ⟨hspec, hsnap, -⟩ := diffAndUpdate_spec_snapshot view b
      rw [hdiff] at hspec hsnap
      have hempty : (∀ r, b.count r = H r) → d.isEmpty = true := by
        intro heq
        unfold diffAndUpdate diffAndUpdateWith at hdiff
        split at hdiff
        · cases hdiff
        · next hd =>
          cases hdiff
          exact differentiate_isEmpty hd fun r => (heq r).trans (hkept.baseline r).symm
      refine .inr (.inr ⟨b, rfl, ?_⟩)
      have hold : if view'.spec.isMaterialized then ∀ r, view'.count r = H r
          else view'.snapshot = none := by
        have hs := hkept.snapshot
        unfold IncrementalView.count IncrementalView.snapshot at hs ⊢
        rw [hspec, hsnap]
        exact hs
      obtain ⟨hholds', herrors, hplans, hout, hsilent⟩ := emitDelta_recomputed
        (by exact lookup_insert _) hbase hold (fun r => by rw [hnet r, hkept.baseline r]) hempty
        (by rw [IncrementalView.snapshot, hsnap]; exact settlesSums_of_diff hparts hdiff) (by exact hlast) h hclean
      exact ⟨hholds', herrors, hplans, hout, hsilent⟩

/-- A view maintained by its operator reports an error: the operator failed, and nothing was done
with the view. -/
lemma commitView_operatorFailed [PlanLogic P] {p : Prepared P}
    (hkind : planKindOf st.inner v = .incremental) (h : commitView env p hashes st v = (st', none))
    (hclean : ∀ e ∈ errorsOf v st'.summary.erroredViews, e.ofEvaluation)
    (herr : st'.summary.erroredViews ≠ st.summary.erroredViews) : ∃ e, e.view = v ∧ e.kind = .operatorApply ∧
      st'.summary.erroredViews = st.summary.erroredViews ++ [e] ∧ SameOutput v st.inner st'.inner := by
  unfold commitView at h
  cases hview : st.inner.views.lookup v with
  | none =>
    rw [hview] at h
    cases h
    exact absurd rfl herr
  | some view =>
  rw [hview, hkind] at h
  simp only [noteDegraded, produce] at h
  cases hplan : st.inner.viewPlans.lookup v with
  | none =>
    rw [hplan] at h
    cases h
    exact absurd rfl herr
  | some plan =>
  rw [hplan] at h
  dsimp only at h
  generalize PlanLogic.apply plan _ = out at h
  obtain ⟨plan', _ | e | d⟩ := out
  · cases h
    exact absurd rfl herr
  · cases h
    exact ⟨_, rfl, rfl, rfl, ⟨rfl, rfl, rfl, rfl⟩⟩
  · -- what the operator gave out can only fail to be published
    obtain ⟨-, herrors, -⟩ := emitDelta_emission (by exact hview) h hclean
    exact absurd herrors herr

end Recompute

variable (env : Env P) (p : Prepared P) (hashes : Option (List ℕ))

/-! ## The loop, seen from one view -/

/-- A recompute does not go through a plan. -/
lemma commitView_plans [PlanLogic P] (hkind : planKindOf st.inner name = .diffBased) :
    (commitView env p hashes st name).1.inner.viewPlans = st.inner.viewPlans := by
  unfold commitView
  split
  · rfl
  next view hview =>
  simp only [hkind, noteDegraded, produce]
  split
  · next hs =>
    split at hs
    · cases hs
      rfl
    · split at hs <;> cases hs
  · next hs =>
    split at hs
    · cases hs
    · split at hs <;> cases hs
      rfl
  · next s d hs =>
    refine (emitDelta_plans env hashes .diffBased _ name d).trans ?_
    split at hs
    · cases hs
    · split at hs <;> cases hs
      rfl

/-- The errors that are added are of the view `name`. -/
def AddsErrorsOf (name : String) (st st' : Progress P) : Prop :=
  ∃ es, st'.summary.erroredViews = st.summary.erroredViews ++ es ∧ ∀ e ∈ es, e.view = name

lemma AddsErrorsOf.none (h : st'.summary.erroredViews = st.summary.erroredViews) : AddsErrorsOf name st st' :=
  ⟨[], by rw [h, append_nil], by simp⟩

lemma AddsErrorsOf.fail (st : Progress P) {e : ViewError} (h : e.view = name) : AddsErrorsOf name st (st.fail e) :=
  ⟨[e], rfl, fun x hx => by rw [mem_singleton.mp hx, h]⟩

lemma publishDelta_adds (kind : ViewPlanKind) (st : Progress P) (name : String)
    (view : IncrementalView) (d : DeltaBatch) (retain : Bool) :
    AddsErrorsOf name st (publishDelta env kind st name view d retain) := by
  unfold publishDelta
  split
  · exact .none rfl
  · exact ⟨[_], rfl, fun x hx => by rw [mem_singleton.mp hx]⟩

lemma AddsErrorsOf.trans {st'' : Progress P} (h : AddsErrorsOf name st st')
    (h' : AddsErrorsOf name st' st'') : AddsErrorsOf name st st'' := by
  obtain ⟨es, hes, hname⟩ := h
  obtain ⟨es', hes', hname'⟩ := h'
  exact ⟨es ++ es', by rw [hes', hes, append_assoc], forall_mem_append.mpr ⟨hname, hname'⟩⟩

lemma commitView_adds [PlanLogic P] (st : Progress P) (name : String) :
    AddsErrorsOf name st (commitView env p hashes st name).1 := by
  have hrule : WorkRule env p name (AddsErrorsOf name) :=
    { refl := fun _ => .none rfl
      trans := AddsErrorsOf.trans
      fail := fun st _ h => .fail st h
      count := fun _ _ => .none rfl
      record := fun _ _ => .none rfl
      handOver := fun _ _ => .none rfl
      publish := fun st kind view d retain _ => publishDelta_adds env kind st name view d retain
      note := fun _ kind => by cases kind <;> exact .none rfl
      produce := fun _ _ _ _ => .none rfl }
  exact hrule.commitView hashes st

/-- The view is where it was, and has no new error. -/
structure Untouched (v : String) (st st' : Progress P) : Prop where
  same : SameAt v st st'
  errors : errorsOf v st'.summary.erroredViews = errorsOf v st.summary.erroredViews
  frame : Inner.Framed st.inner st'.inner

lemma Untouched.refl (v : String) (st : Progress P) : Untouched v st st := ⟨.refl v st, rfl, .refl _⟩

lemma Untouched.trans {st'' : Progress P} (h : Untouched v st st') (h' : Untouched v st' st'') :
    Untouched v st st'' :=
  ⟨h.same.trans h'.same, h'.errors.trans h.errors, h.frame.trans h'.frame⟩

/-- The loop changes a plan at the turn of its view only. -/
lemma Untouched.kind [PlanLogic P] (h : Untouched v st st') : planKindOf st'.inner v = planKindOf st.inner v := by
  unfold planKindOf
  rw [h.frame.forceDiffBased, h.same.plan]

lemma commitView_untouched [PlanLogic P] (hne : v ≠ name) (env : Env P)
    (p : Prepared P) (hashes : Option (List ℕ)) (st : Progress P) :
    Untouched v st (commitView env p hashes st name).1 := by
  obtain ⟨es, hes, hname⟩ := commitView_adds env p hashes st name
  refine ⟨commitView_other hne env p hashes st, ?_, commitView_framed env p hashes st name⟩
  rw [hes]
  exact errorsOf_append_other hne hname

lemma commitViews_untouched [PlanLogic P] (hv : v ∉ names) (st : Progress P) :
    Untouched v st (commitViews env p hashes names st).1 :=
  commitViews_rel (R := Untouched v) (.refl v) Untouched.trans
    (fun _ hn st => commitView_untouched (ne_of_mem_of_not_mem hn hv).symm env p hashes st) st

/-- The loop comes to each of its views once. -/
lemma commitViews_reaches [PlanLogic P] (hn : names.Nodup) (hv : v ∈ names)
    (h : commitViews env p hashes names st = (st', none)) :
    ∃ st₁ st₂, Untouched v st st₁ ∧ commitView env p hashes st₁ v = (st₂, none) ∧ Untouched v st₂ st' := by
  induction names generalizing st with
  | nil => cases hv
  | cons name names ih =>
    rw [nodup_cons] at hn
    unfold commitViews at h
    split at h
    · cases h
    next st₁ hst =>
    by_cases heq : v = name
    · subst heq
      refine ⟨st, st₁, .refl v st, hst, ?_⟩
      have hrest := commitViews_untouched env p hashes hn.1 st₁
      rw [h] at hrest
      exact hrest
    · have hone := commitView_untouched heq env p hashes st
      rw [hst] at hone
      obtain ⟨st₂, st₃, hu, hc, hend⟩ := ih hn.2 ((mem_cons.mp hv).resolve_left heq) h
      exact ⟨st₂, st₃, hone.trans hu, hc, hend⟩

/-! ## A tick, seen from one view -/

section Tick

variable [PlanLogic P] {env : Env P} {s : Inner P} {c : TickCtx}

/-- The parts of a prepared tick. -/
lemma prepared_parts {p : Prepared P} (hp : preparedTick env s c = some p) :
    p.topo = toposortViews env (drain env s).2.deps (drain env s).2.specs ∧ p.recompute = s.recomputeViews ∧
    (∃ changed schemas, MarkedBy env (drain env s).2 ⟨changed, s.rebuildAllViews, s.recomputeViews, schemas⟩
      (p.topo.filterMap fun n => (drain env s).2.specs.find? fun s => s.name = n) p.marks) ∧
    ∃ base ctx, registerSources env p.newSnapshots base = .ok ctx ∧
      p.marks.order.foldlM (executeView env (drain env s).2 p.marks.order)
        ⟨ctx, (drain env s).2.prevOutputs, []⟩ = .ok p.executed := by
  obtain ⟨inputs, -, h⟩ := preparedTick_some hp
  refine ⟨(prepare_ok h).2.2.1, ?_⟩
  unfold prepare at h
  simp only [Except.bind_eq_ok_iff] at h
  obtain ⟨pre, -, sources, hsources, rel, -, ctx, hctx, exec, hexec, h⟩ := h
  cases h
  refine ⟨rfl, ⟨inputs.keys.map env.toLowercase, availableSchemas sources (drain env s).2.specs, ?_⟩,
    _, ctx, hctx, hexec⟩
  have hstart : MarkedBy env (drain env s).2 ⟨inputs.keys.map env.toLowercase, s.rebuildAllViews,
      s.recomputeViews, availableSchemas sources (drain env s).2.specs⟩ [] ⟨[], [], [], []⟩ :=
    ⟨Sublist.refl _, by simp, by simp, by simp, by simp⟩
  exact hstart.foldl _

/-- A tick that has gone through its loop. -/
structure TickRun (env : Env P) (s : Inner P) (c : TickCtx) (p : Prepared P) (st : Progress P)
    (s' : Inner P) : Prop where
  prepared : preparedTick env s c = some p
  loop : ∃ hashes, commitViews env p hashes (dirtyNames env p) (loopEntry env s p) = (st, none)
  state : s' = st.summary.erroredViews.foldl (retireFailed p.recompute) (gcPlans st.inner)

/-- A tick that ends well had nothing to do, or has gone through its loop. -/
lemma stepDatafusion_ok {s' : Inner P} {c' : TickCtx} {summary : StepSummary}
    (h : stepDatafusion env s c = (s', c', .ok summary)) :
    (preparedTick env s c = none ∧ (∃ inputs, coalescePending s.pending = .ok inputs ∧
        inputs.entries = []) ∧ s.recomputeViews = [] ∧ summary = .zero ∧
      s' = { marksTaken env s with lastStepOutputs := ∅, tick := s.tick + 1 }) ∨
    ∃ p st, TickRun env s c p st s' ∧ summary = st.summary := by
  rw [stepDatafusion_eq] at h
  cases hin : coalescePending s.pending with
  | error e =>
    rw [hin] at h
    cases h
  | ok inputs =>
    rw [hin] at h
    dsimp only at h
    unfold finishTick at h
    split at h
    · next hidle =>
      cases h
      have hnone : preparedTick env s c = none := by
        rw [preparedTick, hin]
        exact if_pos hidle
      simp only [Bool.and_eq_true, List.isEmpty_iff] at hidle
      exact .inl ⟨hnone, ⟨inputs, rfl, map_eq_nil_iff.mp hidle.1.1⟩, hidle.2, rfl, rfl⟩
    next hbusy =>
    cases hp : prepare env (drain env s).2 inputs s.rebuildAllViews s.recomputeViews c with
    | error e =>
      rw [hp] at h
      cases h
    | ok p =>
      rw [hp] at h
      dsimp only at h
      have hsome : preparedTick env s c = some p := by
        rw [preparedTick, hin]
        dsimp only
        rw [if_neg hbusy, hp]
        rfl
      rcases commit_prepared hsome with ⟨e, hcommit⟩ | ⟨hashes, hcommit⟩
      · rw [hcommit] at h
        cases h
      rw [hcommit] at h
      cases hst : commitViews env p hashes (dirtyNames env p) (loopEntry env s p) with
      | mk st failure =>
      rw [hst] at h
      cases failure with
      | some e => cases h
      | none =>
        cases h
        exact .inr ⟨p, st, ⟨hsome, ⟨hashes, hst⟩, rfl⟩, rfl⟩

namespace TickRun

variable {s' : Inner P} {p : Prepared P}

section

variable (h : TickRun env s c p st s')

include h

lemma framed : Inner.Framed (commitSources (marksTaken env s) p) s' := by
  obtain ⟨hashes, hloop⟩ := h.loop
  have hviews := commitViews_framed env p hashes (dirtyNames env p) (loopEntry env s p)
  rw [hloop] at hviews
  rw [h.state]
  exact ((installPlans_framed env _ p).trans hviews).trans
    ((gcPlans_framed st.inner).trans (.foldl (retireFailed_framed p.recompute) _ _))

/-- What follows the loop leaves the outputs alone. -/
lemma afterLoop (v : String) : SameOutput v st.inner s' := by
  rw [h.state]
  exact afterLoop_sameOutput v st.inner p.recompute st.summary.erroredViews

lemma untouched (hv : v ∉ dirtyNames env p) : Untouched v (loopEntry env s p) st := by
  obtain ⟨hashes, hloop⟩ := h.loop
  have hquiet := commitViews_untouched env p hashes hv (loopEntry env s p)
  rw [hloop] at hquiet
  exact hquiet

/-- The turn of a view of the loop. -/
lemma reaches (hk : ListsKeys env) (hw : WellNamed s) (hv : v ∈ dirtyNames env p) :
    ∃ hashes st₁ st₂, Untouched v (loopEntry env s p) st₁ ∧
      commitView env p hashes st₁ v = (st₂, none) ∧ Untouched v st₂ st := by
  obtain ⟨hashes, hloop⟩ := h.loop
  exact ⟨hashes, commitViews_reaches env p hashes (nodup_dirtyNames hk hw h.prepared) hv hloop⟩

end

end TickRun

/-- Plans are installed for other views only: the view and its plan stay. -/
lemma loopStart_unplanned {p : Prepared P} (h : ∀ plan ∈ p.marks.newPlans, plan.1 ≠ v) :
    (loopStart env s p).views.lookup v = s.views.lookup v ∧
    (loopStart env s p).viewPlans.lookup v = s.viewPlans.lookup v := by
  have hseed : ∀ (views : NameMap IncrementalView) (name : String) (plan : P), name ≠ v →
      ((seedPlan p.seedLookup views name plan).2).lookup v = views.lookup v := by
    intro views name plan hne
    unfold seedPlan
    split
    · unfold seedView
      split
      · rfl
      split
      · rfl
      · split
        · exact lookup_insert_ne hne.symm
        · rfl
    · rfl
  have hone : ∀ e ∈ p.marks.newPlans, ∀ s : Inner P,
      (installPlan env p.seedLookup s e).views.lookup v = s.views.lookup v ∧
      (installPlan env p.seedLookup s e).viewPlans.lookup v = s.viewPlans.lookup v := by
    intro e he s
    refine ⟨?_, lookup_insert_ne (h e he).symm⟩
    show (if _ then _ else _ : P × NameMap IncrementalView).2.lookup v = _
    split
    · rfl
    · exact hseed _ _ _ (h e he)
  obtain ⟨orders, hstart⟩ := loopStart_rel env p s (R := fun s s' => s'.views.lookup v = s.views.lookup v ∧
    s'.viewPlans.lookup v = s.viewPlans.lookup v) (fun _ => ⟨rfl, rfl⟩)
    (fun h h' => ⟨h'.1.trans h.1, h'.2.trans h.2⟩) hone
  exact hstart

/-- A view for which a plan was built has one when the loop starts, and no plan is taken away. -/
lemma loopStart_planned {p : Prepared P}
    (h : (s.viewPlans.lookup v).isSome = true ∨ ∃ plan ∈ p.marks.newPlans, plan.1 = v) :
    ((loopStart env s p).viewPlans.lookup v).isSome = true := by
  have hlook : ∀ (s : Inner P) e, v = e.1 → ((installPlan env p.seedLookup s e).viewPlans.lookup v).isSome = true := by
    rintro s e rfl
    show ((s.viewPlans.insert e.1 _).lookup e.1).isSome = true
    rw [lookup_insert]
    rfl
  have hstay : ∀ (s : Inner P) e, (s.viewPlans.lookup v).isSome = true →
      ((installPlan env p.seedLookup s e).viewPlans.lookup v).isSome = true := by
    intro s e hs
    by_cases heq : v = e.1
    · exact hlook s e heq
    · exact (congrArg Option.isSome (lookup_insert_ne heq)).trans hs
  obtain ⟨orders, horders⟩ := loopStart_eq env s p
  rw [horders]
  rcases h with h | ⟨plan, hplan, hname⟩
  · exact List.foldlRecOn (motive := fun s : Inner P => (s.viewPlans.lookup v).isSome = true) _ _ h
      fun s hs e _ => hstay s e hs
  · exact foldl_of_mem (p := fun s : Inner P => (s.viewPlans.lookup v).isSome = true) hstay hplan
      (fun s => hlook s plan hname.symm) _

/-- The error takes the plan of its view away, and asks for a recompute. -/
def Retires (recompute : List String) (e : ViewError) : Prop :=
  e.kind = .operatorApply ∨ e.kind = .publish ∨ e.view ∈ recompute

omit [PlanLogic P] in
lemma retireFailed_eq (recompute : List String) (s : Inner P) (e : ViewError) :
    (Retires recompute e → (retireFailed recompute s e).viewPlans = s.viewPlans.erase e.view ∧
      ∀ n, n ∈ (retireFailed recompute s e).recomputeViews ↔ n = e.view ∨ n ∈ s.recomputeViews) ∧
    (¬ Retires recompute e → retireFailed recompute s e = s) := by
  unfold retireFailed Retires
  constructor
  · intro h
    rw [if_pos (by simpa [or_assoc] using h)]
    refine ⟨rfl, fun n => ?_⟩
    split
    · next hmem =>
      constructor
      · exact .inr
      · rintro (rfl | hn)
        · exact hmem
        · exact hn
    · exact mem_cons
  · intro h
    rw [if_neg (by simpa [or_assoc] using h)]

omit [PlanLogic P] in
lemma foldl_retireFailed (recompute : List String) (errors : List ViewError) (s : Inner P)
    (v : String) : ((∃ e ∈ errors, e.view = v ∧ Retires recompute e) →
      (errors.foldl (retireFailed recompute) s).viewPlans.lookup v = none ∧
      v ∈ (errors.foldl (retireFailed recompute) s).recomputeViews) ∧
    ((∀ e ∈ errors, e.view = v → ¬ Retires recompute e) →
      (errors.foldl (retireFailed recompute) s).viewPlans.lookup v = s.viewPlans.lookup v) := by
  constructor
  · rintro ⟨e, he, hview, hr⟩
    refine foldl_of_mem (p := fun s : Inner P => s.viewPlans.lookup v = none ∧ v ∈ s.recomputeViews)
      (fun s e hs => ?_) he (fun s => ?_) s
    · -- once it is retired, nothing brings it back
      obtain ⟨hyes, hno⟩ := retireFailed_eq recompute s e
      by_cases hr : Retires recompute e
      · obtain ⟨hplans, hviews⟩ := hyes hr
        refine ⟨?_, (hviews v).mpr (.inr hs.2)⟩
        rw [hplans]
        by_cases heq : v = e.view
        · rw [heq]
          exact lookup_erase _ _
        · rw [lookup_erase_ne heq]
          exact hs.1
      · rw [hno hr]
        exact hs
    · obtain ⟨hplans, hviews⟩ := (retireFailed_eq recompute s e).1 hr
      refine ⟨?_, (hviews v).mpr (.inl hview.symm)⟩
      rw [hplans, ← hview]
      exact lookup_erase _ _
  · intro hall
    refine List.foldlRecOn (motive := fun s' : Inner P => s'.viewPlans.lookup v = s.viewPlans.lookup v) errors _ rfl
      fun s' hs' e he => ?_
    obtain ⟨hyes, hno⟩ := retireFailed_eq recompute s' e
    by_cases hr : Retires recompute e
    · rw [(hyes hr).1, lookup_erase_ne, hs']
      rintro rfl
      exact hall e he rfl hr
    · rw [hno hr, hs']

end Tick

end Krishiv.Ivm
