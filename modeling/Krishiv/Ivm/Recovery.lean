import Krishiv.Ivm.Changelog
import Krishiv.Ivm.TickView

/-!
# Views that fail

What a tick leaves of a view it reports as errored, and what that view publishes when its evaluation
succeeds again.

A failed operator, a recursive body without a result and a failed diff leave the view as it was. A
query that fails is taken as an empty result, so the view retracts everything it holds. In each case the
next evaluation is by SQL (`ByQuery`), and what it publishes is the difference of its result to what the
view holds then.
-/

namespace Krishiv.Ivm

open Krishiv.Delta Progress List Option Prod

variable {P : Type}

/-! ## Names -/

/-- No two view names differ in letter case only. -/
def CaseDistinct (env : Env P) (s : Inner P) : Prop :=
  ∀ n m, (s.views.lookup n).isSome = true → (s.views.lookup m).isSome = true →
    env.toLowercase n = env.toLowercase m → n = m

lemma filterMap_find_names (specs : List IncrementalViewSpec) (l : List String) :
    ((l.filterMap fun n => specs.find? fun s => s.name = n).map IncrementalViewSpec.name).Sublist l := by
  induction l with
  | nil => exact Sublist.refl _
  | cons n l ih =>
    rw [filterMap_cons]
    split
    · exact ih.cons n
    next spec hspec =>
    have hname : spec.name = n := by simpa using find?_some hspec
    rw [map_cons, hname]
    exact ih.cons_cons n

section Tick

variable [PlanLogic P] {env : Env P} {s : Inner P} {c : TickCtx} {p : Prepared P} {v : String}

/-- The marked views are views, each marked once, and they are the views of the loop. -/
lemma marked_names (hk : ListsKeys env) (hw : WellNamed s) (hcase : CaseDistinct env s)
    (hp : preparedTick env s c = some p) : (p.marks.order.map fst).Nodup ∧
    ∀ n, n ∈ dirtyNames env p ↔ n ∈ p.marks.order.map fst := by
  obtain ⟨htopo, -, ⟨changed, schemas, hmarked⟩, -⟩ := prepared_parts hp
  have hnames : ((drain env s).2.specs.map IncrementalViewSpec.name).Nodup := hw.nodup_names hk
  have hnodup : p.topo.Nodup := by
    rw [htopo]
    exact nodup_toposortViews env _ hk hnames
  have hsub : (p.marks.order.map fst).Sublist p.topo := hmarked.names.trans (filterMap_find_names _ _)
  have hview : ∀ n ∈ p.topo, (s.views.lookup n).isSome = true := by
    intro n hn
    rw [htopo, mem_toposortViews env _ hk hnames] at hn
    exact (hw.mem_names hk n).mp hn
  refine ⟨hnodup.sublist hsub, fun n => ?_⟩
  rw [dirtyNames, mem_filter, decide_eq_true_eq, hmarked.dirty]
  constructor
  · rintro ⟨hn, m, hm, hlow⟩
    rw [hcase n m (hview n hn) (hview m (hsub.subset hm)) hlow]
    exact hm
  · intro hn
    exact ⟨hsub.subset hn, n, hn, rfl⟩

/-! ## The output of a marked view -/

/-- The relation of every source is a table, if source names are lower-case and no view is called
like the source. -/
def ShowsSources (env : Env P) (s : Inner P) (sources : NameMap Source) (tables : Tables) : Prop :=
  (∀ n ∈ sources, env.toLowercase n = n) → ∀ n source, sources.lookup n = some source →
    (∀ m, (s.views.lookup m).isSome = true → env.toLowercase m ≠ n) → tables n = some source.table

/-- The output a marked view has after the SQL pass. -/
inductive PassOutcome (env : Env P) (s : Inner P) (p : Prepared P) (v : String)
    (view : IncrementalView) : Prop
  | skipped (marked : (v, true) ∈ p.marks.order) (output : p.executed.full v = view.snapshot)
      (errors : errorsOf v p.executed.errors = [])
  | value (ctx : TickCtx) (full : RecordBatch) (result : ViewValue env view.spec ctx view.snapshot full)
      (tables : ShowsSources env s p.newSnapshots ctx.tables)
      (output : p.executed.full v = some full) (errors : errorsOf v p.executed.errors = [])
  | kept (recursive : view.spec.isRecursive = true) (output : p.executed.full v = view.snapshot)
      (errors : errorsOf v p.executed.errors ≠ [])
  | emptied (plain : view.spec.isRecursive = false)
      (output : p.executed.full v = some (RecordBatch.newEmpty view.spec.outputSchema))
      (errors : errorsOf v p.executed.errors ≠ [])

variable {view : IncrementalView}

lemma pass_outcome (hk : ListsKeys env) (hw : WellNamed s) (hcase : CaseDistinct env s)
    (hp : preparedTick env s c = some p) (hview : s.views.lookup v = some view)
    (hmarked : v ∈ p.marks.order.map fst) : PassOutcome env s p v view := by
  obtain ⟨-, -, -, base, ctx, hctx, hpass⟩ := prepared_parts hp
  obtain ⟨⟨v', flag⟩, he, rfl⟩ := mem_map.mp hmarked
  obtain ⟨a, a', hstep, hfull, herr, htables, hfull', herr'⟩ :=
    foldlM_executeView_at (marked_names hk hw hcase hp).1 he hpass
  have hprev : a.full v' = view.snapshot := by
    rw [hfull]
    show (s.views.lookup v').bind IncrementalView.snapshot = _
    rw [hview]
    rfl
  have hnone : errorsOf v' a.errors = [] := herr
  have hspec : ((drain env s).2.specs.find? fun sp => sp.name = v') = some view.spec := by
    rw [hw.find_spec hk, hview]
    rfl
  have hname : view.spec.name = v' := hw v' view hview
  by_cases hrun : RunsSql env (drain env s).2 p.marks.order (v', flag)
  · -- whatever happens, it happens in the name of the view
    have hadded : ∀ e : ViewError, e.view = view.spec.name → a'.errors = a.errors ++ [e] →
        errorsOf v' p.executed.errors ≠ [] := by
      intro e hev ha'
      rw [herr', ha']
      exact ne_nil_of_mem (mem_errorsOf_append (by rw [hev, hname]))
    cases (executeView_spec hstep).2.1 hrun _ hspec with
    | value ctx₁ full result tables output errors =>
      rw [hname, hprev] at result
      rw [hname] at output
      refine .value ctx₁ full result ?_ (hfull'.trans output) (by rw [herr', errors, hnone])
      intro hlow n source hsource hfree
      have hforeign : Foreign env (drain env s).2 n := fun m hm => hfree m ((hw.mem_names hk m).mp hm)
      rw [tables n hforeign, htables n hforeign]
      show ctx.tables n = _
      rw [registerSources_tables hlow hctx, hsource]
      rfl
    | kept e hev recursive output errors =>
      rw [hname] at output
      exact .kept recursive (hfull'.trans (output.trans hprev)) (hadded e hev errors)
    | emptied e hev plain output errors =>
      rw [hname] at output
      exact .emptied plain (hfull'.trans output) (hadded e hev errors)
  · obtain ⟨hsame, hsameErr⟩ := (executeView_spec hstep).2.2 hrun
    have hflag : flag = true := by
      rw [RunsSql, not_or, Bool.not_eq_false] at hrun
      exact hrun.1
    subst hflag
    refine .skipped he ?_ ?_
    · rw [hfull', hsame]
      exact hprev
    · rw [herr', hsameErr]
      exact hnone

/-! ## A tick that recomputes the view -/

/-- The view publishes nothing. -/
structure Silent (v : String) (s s' : Inner P) : Prop where
  output : s'.lastStepOutputs.lookup v = none
  log : s'.outputLog.lookup v = s.outputLog.lookup v

variable {s' : Inner P}

/-- A view that keeps what it has when the loop starts has published nothing. -/
lemma Silent.of_same (h : SameOutput v (loopStart env s p) s') : Silent v s s' := by
  obtain ⟨hlog, -, hlast⟩ := loopStart_output env s p
  refine ⟨?_, by rw [h.log, hlog]⟩
  rw [h.delta, hlast]
  rfl

/-- The query of a view that is not recursive fails in the tick. -/
def queryFailed (env : Env P) (s : Inner P) (c : TickCtx) (v : String) : Bool :=
  match preparedTick env s c, s.views.lookup v with
  | some p, some view => !view.spec.isRecursive && !(errorsOf v p.executed.errors).isEmpty
  | _, _ => false

/-- What is left of `H` in a tick that fails to evaluate the view. -/
def heldAfter (env : Env P) (s : Inner P) (c : TickCtx) (v : String) (H : Row → ℕ) : Row → ℕ :=
  if queryFailed env s c v then fun _ => 0 else H

lemma heldAfter_eq (h : queryFailed env s c v = false) (H : Row → ℕ) : heldAfter env s c v H = H := by
  rw [heldAfter, h, if_neg Bool.false_ne_true]

/-- No two rows that a marked view holds, or has as the result of the tick, share a key. -/
def ResultApart (env : Env P) (s : Inner P) (c : TickCtx) (v : String) : Prop :=
  ∀ p view b, preparedTick env s c = some p → v ∈ p.marks.order.map Prod.fst → s.views.lookup v = some view →
    p.executed.full v = some b → RowsApart (view.parts ++ [.fromInserts b])

/-- What a tick does to a view that it recomputes, if it touches it at all. -/
inductive TickOutcome (env : Env P) (s s' : Inner P) (c : TickCtx) (v : String) (H : Row → ℕ)
    (errors : List ViewError) : Prop
  | idle (unmarked : ∀ p, preparedTick env s c = some p → (v, false) ∉ p.marks.order)
      (clean : errorsOf v errors = []) (view : ViewHolds s' v H) (silent : Silent v s s')
  | failed (errored : errorsOf v errors ≠ []) (view : ViewHolds s' v (heldAfter env s c v H))
      (output : ∀ r, outputNet s' v r = heldAfter env s c v H r - H r)
      (silent : queryFailed env s c v = false → Silent v s s')
  | evaluated (marked : ∃ p, preparedTick env s c = some p ∧ v ∈ p.marks.order.map Prod.fst)
      (clean : errorsOf v errors = []) (old : IncrementalView)
      (registered : s.views.lookup v = some old) (ctx : TickCtx) (full : RecordBatch)
      (result : ViewValue env old.spec ctx old.snapshot full)
      (tables : ShowsSources env s s'.sourceSnapshots ctx.tables)
      (view : ViewHolds s' v full.count) (output : ∀ r, outputNet s' v r = full.count r - H r)

variable {H : Row → ℕ}

omit [PlanLogic P] in
lemma ViewHolds.congr (h : ViewHolds s v H) (hsame : s'.views.lookup v = s.views.lookup v) : ViewHolds s' v H := by
  obtain ⟨view, hview, hkept⟩ := h
  exact ⟨view, hsame.trans hview, hkept⟩

omit [PlanLogic P] in
lemma outputNet_congr (h : s'.lastStepOutputs.lookup v = s.lastStepOutputs.lookup v)
    (r : Row) : outputNet s' v r = outputNet s v r := by
  rw [outputNet, h]
  rfl

/-- A failure that is not the failure of a query leaves the view as it was. -/
lemma TickOutcome.of_silent {errors : List ViewError} (hq : queryFailed env s c v = false)
    (herr : errorsOf v errors ≠ []) (hholds : ViewHolds s' v H) (hsilent : Silent v s s') :
    TickOutcome env s s' c v H errors := by
  have hheld := heldAfter_eq hq H
  refine .failed herr (hheld.symm ▸ hholds) (fun r => ?_) fun _ => hsilent
  rw [outputNet, hsilent.output, hheld, sub_self]
  rfl

variable {summary : StepSummary} {c' : TickCtx} (hk : ListsKeys env) (hw : WellNamed s)
  (hcase : CaseDistinct env s) (htick : stepDatafusion env s c = (s', c', .ok summary))

include hk hw hcase htick in
/-- A view that is not marked reports nothing. -/
lemma unmarked_clean (hun : ∀ p, preparedTick env s c = some p → v ∉ p.marks.order.map fst) :
    errorsOf v summary.erroredViews = [] := by
  rcases stepDatafusion_ok htick with ⟨-, -, -, rfl, -⟩ | ⟨p, st, hrun, rfl⟩
  · rfl
  have hmem := hun p hrun.prepared
  obtain ⟨-, -, -, -, ctx, -, hexec⟩ := prepared_parts hrun.prepared
  have hquiet := hrun.untouched fun h =>
    hmem (((marked_names hk hw hcase hrun.prepared).2 v).mp h)
  exact hquiet.errors.trans (foldlM_executeView_other hmem hexec).2

variable {st : Progress P}

include hk hw in
/-- The loop over a view that is recomputed, and what follows it. -/
lemma TickRun.recomputed (hrun : TickRun env s c p st s')
    (hmem : v ∈ dirtyNames env p) (hholds : ViewHolds (loopStart env s p) v H)
    (hkind : planKindOf (loopStart env s p) v = .diffBased)
    (hapart : ∀ view b, (loopStart env s p).views.lookup v = some view → p.executed.full v = some b →
      RowsApart (view.parts ++ [.fromInserts b]))
    (hclean : ∀ e ∈ errorsOf v st.summary.erroredViews, e.ofEvaluation) :
    (∃ b, p.executed.full v = some b ∧ b.rows.isEmpty = false ∧
      errorsOf v st.summary.erroredViews ≠ [] ∧ ViewHolds s' v H ∧ Silent v s s') ∨
    ∃ H', (p.executed.full v).elim H RecordBatch.count = H' ∧ ViewHolds s' v H' ∧
      (∀ r, outputNet s' v r = H' r - H r) ∧ (H' = H → Silent v s s') ∧
      errorsOf v st.summary.erroredViews = errorsOf v p.executed.errors := by
  obtain ⟨hashes, st₁, st₂, hbefore, hview, hafter⟩ := hrun.reaches hk hw hmem
  have hsilent₁ : Silent v s st₁.inner := .of_same hbefore.same.output
  have hkind₁ : planKindOf st₁.inner v = .diffBased := hbefore.kind.trans hkind
  -- what the view has at its turn is what it has in the end
  have hend : SameOutput v st₂.inner s' := hafter.same.output.trans (hrun.afterLoop v)
  have herr₁ : errorsOf v st₁.summary.erroredViews = errorsOf v p.executed.errors := hbefore.errors
  have hclean₂ : ∀ e ∈ errorsOf v st₂.summary.erroredViews, e.ofEvaluation := by
    rw [← hafter.errors]
    exact hclean
  have hmoved : ∀ H', Recomputed v H H' st₁ st₂ → ViewHolds s' v H' ∧
      (∀ r, outputNet s' v r = H' r - H r) ∧ (H' = H → Silent v s s') ∧
      errorsOf v st.summary.erroredViews = errorsOf v p.executed.errors := by
    intro H' hrec
    refine ⟨hrec.view.congr hend.view, fun r => ?_, fun heq => ?_, ?_⟩
    · rw [outputNet_congr hend.delta]
      exact hrec.output r
    · obtain ⟨hnone, hlog⟩ := hrec.silent (congrFun heq)
      exact ⟨hend.delta.trans hnone, by rw [hend.log, hlog, hsilent₁.log]⟩
    · rw [hafter.errors, hrec.errors, herr₁]
  rcases commitView_recomputed hkind₁ (hholds.congr hbefore.same.output.view) hsilent₁.output
    (fun view b hl => hapart view b (hbefore.same.output.view.symm.trans hl)) hview hclean₂ with
    ⟨hfull, hrec⟩ | ⟨b, e, hfull, hne, hev, herr, hsame, -⟩ | ⟨b, hfull, hrec⟩
  · exact .inr ⟨H, by rw [hfull]; rfl, hmoved H hrec⟩
  · refine .inl ⟨b, hfull, hne, ?_, ?_, ?_⟩
    · rw [hafter.errors, herr]
      exact ne_nil_of_mem (mem_errorsOf_append hev)
    · exact (hholds.congr hbefore.same.output.view).congr (hend.view.trans hsame.view)
    · exact .of_same ((hbefore.same.output.trans hsame).trans hend)
  · exact .inr ⟨b.count, by rw [hfull]; rfl, hmoved b.count hrec⟩

include hk hw hcase htick in
lemma tick_outcome (hholds : ViewHolds s v H) (hviews : ∀ p, preparedTick env s c = some p →
      (loopStart env s p).views.lookup v = s.views.lookup v)
    (hkind : ∀ p, preparedTick env s c = some p → planKindOf (loopStart env s p) v = .diffBased)
    (hapart : ResultApart env s c v) (hclean : ∀ e ∈ errorsOf v summary.erroredViews, e.ofEvaluation) :
    TickOutcome env s s' c v H summary.erroredViews := by
  rcases stepDatafusion_ok htick with ⟨hnone, -, -, rfl, rfl⟩ | ⟨p, st, hrun, rfl⟩
  · refine .idle (fun p hp => ?_) rfl (hholds.congr rfl) ⟨rfl, rfl⟩
    rw [hnone] at hp
    cases hp
  obtain ⟨view, hview, hkept⟩ := hholds
  have hsome := hrun.prepared
  have hstart : ViewHolds (loopStart env s p) v H := ⟨view, (hviews p hsome).trans hview, hkept⟩
  obtain ⟨horder, hnames⟩ := marked_names hk hw hcase hsome
  have hcount : view.snapshot.elim H RecordBatch.count = H := by
    have hs := hkept.snapshot
    cases hb : view.snapshot with
    | none => rfl
    | some b =>
      split at hs
      · funext r
        rw [← hs r]
        show _ = countOf view.snapshot r
        rw [hb]
        rfl
      · rw [hs] at hb
        cases hb
  have hqf : queryFailed env s c v = (!view.spec.isRecursive && !(errorsOf v p.executed.errors).isEmpty) := by
    simp [queryFailed, hsome, hview]
  by_cases hmem : v ∈ p.marks.order.map fst
  · have hpass := pass_outcome hk hw hcase hsome hview hmem
    have hparts : ∀ view b, (loopStart env s p).views.lookup v = some view → p.executed.full v = some b →
        RowsApart (view.parts ++ [.fromInserts b]) :=
      fun view b hl => hapart p view b hsome hmem ((hviews p hsome).symm.trans hl)
    rcases hrun.recomputed hk hw ((hnames v).mpr hmem) hstart (hkind p hsome) hparts hclean with
      ⟨b, hb, hne, herr, hv, hsilent⟩ | ⟨H', hH, hv, hout, hsilent, herr⟩
    · -- the diff failed
      refine .of_silent ?_ herr hv hsilent
      rw [hqf]
      cases hpass with
      | skipped _ _ errors | value _ _ _ _ _ errors => simp [errors]
      | kept recursive => simp [recursive]
      | emptied _ output =>
        rw [output] at hb
        cases hb
        cases hne
    cases hpass with
    | skipped marked output errors =>
      rw [output, hcount] at hH
      subst hH
      refine .idle (fun p' hp' hf => ?_) (herr.trans errors) hv (hsilent rfl)
      rw [hsome] at hp'
      cases hp'
      cases eq_of_mem_done horder marked hf rfl
    | value ctx full result tables output errors =>
      rw [output] at hH
      subst hH
      refine .evaluated ⟨p, hsome, hmem⟩ (herr.trans errors) view hview ctx full result ?_ hv hout
      rw [hrun.framed.sourceSnapshots]
      exact tables
    | kept recursive output errors =>
      rw [output, hcount] at hH
      subst hH
      exact .of_silent (by rw [hqf, recursive]; rfl) (herr ▸ errors) hv (hsilent rfl)
    | emptied plain output errors =>
      have hq : queryFailed env s c v = true := by
        rw [hqf, plain]
        simpa using errors
      have hheld : heldAfter env s c v H = H' := by
        rw [heldAfter, hq, if_pos rfl, ← hH, output]
        rfl
      refine .failed (herr ▸ errors) (hheld ▸ hv) (hheld ▸ hout) fun hf => ?_
      rw [hq] at hf
      cases hf
  · obtain ⟨-, -, -, -, ctx, -, hexec⟩ := prepared_parts hsome
    have hquiet := hrun.untouched fun h => hmem ((hnames v).mp h)
    have hsame := hquiet.same.output.trans (hrun.afterLoop v)
    refine .idle (fun p' hp' hf => ?_) ?_ (hstart.congr hsame.view) (.of_same hsame)
    · rw [hsome] at hp'
      cases hp'
      exact hmem (mem_map_of_mem hf)
    · exact hquiet.errors.trans (foldlM_executeView_other hmem hexec).2

/-! ## The next evaluation is by SQL -/

/-- The next evaluation of the view runs its SQL. -/
inductive ByQuery (s : Inner P) (v : String) : Prop
  | forced (h : s.forceDiffBased = true)
  | planned (plan : P) (lookup : s.viewPlans.lookup v = some plan) (kind : PlanLogic.kind plan = .diffBased)
  | unplanned (lookup : s.viewPlans.lookup v = none) (runs : v ∈ s.recomputeViews ∨
        ∃ view, s.views.lookup v = some view ∧ view.spec.isRecursive = true)

variable {spec : IncrementalViewSpec}

include hk hw in
lemma ByQuery.runs_or_planned (h : ByQuery s v)
    {rebuild : Bool} {schemas : String → Option Schema} {sources : List String}
    (hspec : ((drain env s).2.specs.find? fun sp => sp.name = v) = some spec) :
    runsAnyway (drain env s).2 ⟨sources, rebuild, s.recomputeViews, schemas⟩ spec = true ∨
      (drain env s).2.planKinds v = some .diffBased := by
  have hname : spec.name = v := by simpa using find?_some hspec
  cases h with
  | forced h =>
    left
    show (s.forceDiffBased || rebuild || _ || _) = true
    rw [h]
    rfl
  | planned plan lookup kind =>
    right
    show (s.viewPlans.lookup v).map PlanLogic.kind = _
    rw [lookup, map_some, kind]
  | unplanned lookup runs =>
    left
    rcases runs with hrec | ⟨view, hview, hrec⟩
    · simp [runsAnyway, hname, hrec]
    · rw [hw.find_spec hk, hview] at hspec
      cases hspec
      simp [runsAnyway, hrec]

include hk hw in
/-- No plan is built for such a view, and it is marked for SQL. -/
lemma ByQuery.marked (h : ByQuery s v) (hp : preparedTick env s c = some p) :
    (∀ plan ∈ p.marks.newPlans, plan.1 ≠ v) ∧ ∀ b, (v, b) ∈ p.marks.order → b = false := by
  obtain ⟨-, -, ⟨changed, schemas, hmarked⟩, -⟩ := prepared_parts hp
  have hfind : ∀ spec, spec ∈ (p.topo.filterMap fun n =>
      (drain env s).2.specs.find? fun sp => sp.name = n) → spec.name = v →
      ((drain env s).2.specs.find? fun sp => sp.name = v) = some spec := by
    intro spec hspec hname
    obtain ⟨n, -, hn⟩ := mem_filterMap.mp hspec
    have : spec.name = n := by simpa using find?_some hn
    rw [← hname, this]
    exact hn
  have hnew : ∀ plan ∈ p.marks.newPlans, plan.1 ≠ v := by
    rintro plan hplan rfl
    obtain ⟨spec, hspec, hname, hany, hnone⟩ := hmarked.plans plan hplan
    rcases h.runs_or_planned hk hw (hfind spec hspec hname) with hruns | hkind
    · rw [hany] at hruns
      cases hruns
    · rw [hnone] at hkind
      cases hkind
  refine ⟨hnew, fun b hb => ?_⟩
  obtain ⟨spec, hspec, hname, ⟨-, hflag⟩ | ⟨hany, hplan⟩⟩ := hmarked.entries _ hb
  · exact hflag
  rcases h.runs_or_planned hk hw (hfind spec hspec hname) with hruns | hkind
  · rw [hany] at hruns
    cases hruns
  rcases hplan with ⟨kind, hk', hflag⟩ | ⟨plan, hplan, hpn⟩
  · rw [hkind] at hk'
    cases hk'
    exact hflag
  · exact absurd hpn (hnew plan hplan)

include hk hw in
/-- The loop recomputes it, from the view as it was. -/
lemma ByQuery.loopStart (h : ByQuery s v) (hp : preparedTick env s c = some p) :
    (loopStart env s p).views.lookup v = s.views.lookup v ∧ planKindOf (loopStart env s p) v = .diffBased := by
  obtain ⟨hviews, hplans⟩ : (Ivm.loopStart env s p).views.lookup v = s.views.lookup v ∧
      (Ivm.loopStart env s p).viewPlans.lookup v = s.viewPlans.lookup v :=
    loopStart_unplanned (h.marked hk hw hp).1
  refine ⟨hviews, ?_⟩
  have hforce : (Ivm.loopStart env s p).forceDiffBased = s.forceDiffBased :=
    (installPlans_framed env (commitSources (marksTaken env s) p) p).forceDiffBased
  unfold planKindOf
  rw [hforce, hplans]
  cases h with
  | forced h => rw [h, if_pos rfl]
  | planned plan lookup kind =>
    rw [lookup, map_some, getD_some, kind]
    split <;> rfl
  | unplanned lookup runs =>
    rw [lookup]
    split <;> rfl

/-- What is left of the plan of a view after the loop. -/
lemma TickRun.plan_after [LawfulPlanLogic P] (hrun : TickRun env s c p st s') (v : String) :
    (s'.viewPlans.lookup v = none ∧ v ∈ s'.recomputeViews) ∨
    ((∀ e ∈ errorsOf v st.summary.erroredViews, ¬ Retires p.recompute e) ∧
      (s'.viewPlans.lookup v).map PlanLogic.kind = (st.inner.viewPlans.lookup v).map PlanLogic.kind) := by
  obtain ⟨hyes, hno⟩ := foldl_retireFailed p.recompute st.summary.erroredViews (gcPlans st.inner) v
  rw [← hrun.state] at hyes hno
  by_cases hr : ∃ e ∈ st.summary.erroredViews, e.view = v ∧ Retires p.recompute e
  · exact .inl (hyes hr)
  have hnone : ∀ e ∈ st.summary.erroredViews, e.view = v → ¬ Retires p.recompute e :=
    fun e he hv hret => hr ⟨e, he, hv, hret⟩
  refine .inr ⟨fun e he => ?_, ?_⟩
  · obtain ⟨hmem, hv⟩ := mem_errorsOf.mp he
    exact hnone e hmem hv
  rw [hno hnone]
  unfold gcPlans
  split
  · rfl
  show ((KVMap.map _ st.inner.viewPlans).lookup v).map _ = _
  rw [KVMap.lookup_map, Option.map_map]
  cases st.inner.viewPlans.lookup v with
  | none => rfl
  | some plan => exact congrArg some (LawfulPlanLogic.kind_gc plan _)

include hk hw in
/-- After a tick that recomputes the view the next evaluation is by SQL again, unless the view had no
plan and is neither recursive nor queued. -/
lemma ByQuery.after [LawfulPlanLogic P]
    (hrun : TickRun env s c p st s') (hkind : planKindOf (Ivm.loopStart env s p) v = .diffBased)
    (hnone : (Ivm.loopStart env s p).viewPlans.lookup v = none → s.forceDiffBased = false →
      (∃ view, s'.views.lookup v = some view ∧ view.spec.isRecursive = true) ∨
      errorsOf v st.summary.erroredViews ≠ [] ∧ v ∈ s.recomputeViews) : ByQuery s' v := by
  -- the plan of the view goes through the loop untouched
  have hplan : st.inner.viewPlans.lookup v = (Ivm.loopStart env s p).viewPlans.lookup v := by
    by_cases hmem : v ∈ dirtyNames env p
    · obtain ⟨hashes, st₁, st₂, hbefore, hview, hafter⟩ := hrun.reaches hk hw hmem
      have hkept := commitView_plans env p hashes (hbefore.kind.trans hkind)
      rw [hview] at hkept
      rw [hafter.same.plan, show st₂.inner.viewPlans = st₁.inner.viewPlans from hkept]
      exact hbefore.same.plan
    · exact (hrun.untouched hmem).same.plan
  rcases hrun.plan_after v with ⟨hgone, hqueued⟩ | ⟨hkept, hkinds⟩
  · exact .unplanned hgone (.inl hqueued)
  by_cases hf : s.forceDiffBased = true
  · exact .forced (hrun.framed.forceDiffBased.trans hf)
  rw [Bool.not_eq_true] at hf
  rw [hplan] at hkinds
  cases hl : (Ivm.loopStart env s p).viewPlans.lookup v with
  | some plan =>
    unfold planKindOf at hkind
    have hstart := installPlans_framed env (commitSources (marksTaken env s) p) p
    rw [show (Ivm.loopStart env s p).forceDiffBased = false from hstart.forceDiffBased.trans hf,
      if_neg Bool.false_ne_true, hl, map_some, getD_some] at hkind
    rw [hl, map_some, hkind] at hkinds
    obtain ⟨plan', hplan', hkind'⟩ := map_eq_some_iff.mp hkinds
    exact .planned plan' hplan' hkind'
  | none =>
    rw [hl, map_none, map_eq_none_iff] at hkinds
    rcases hnone hl hf with hrec | ⟨herr, hmem⟩
    · exact .unplanned hkinds (.inr hrec)
    exfalso
    obtain ⟨e, he⟩ := exists_mem_of_ne_nil _ herr
    refine hkept e he (.inr (.inr ?_))
    rw [(mem_errorsOf.mp he).2, (prepared_parts hrun.prepared).2.1]
    exact hmem

/-! ## A tick that fails to evaluate the view -/

/-- The tick lists the view, for a failed evaluation: an operator, a query, a recursive body or a diff.
The error of a query is the error of the view only if that is recomputed, a plan built in this tick
has not seeded the view, there is no rebuild after a restore, and no two rows share a key. -/
structure EvaluationFails (env : Env P) (s : Inner P) (c : TickCtx) (v : String)
    (summary : StepSummary) : Prop where
  listed : errorsOf v summary.erroredViews ≠ []
  evaluation : ∀ e ∈ errorsOf v summary.erroredViews, e.ofEvaluation
  recomputed : ∀ p, preparedTick env s c = some p → errorsOf v p.executed.errors ≠ [] →
    planKindOf (Ivm.loopStart env s p) v = .diffBased
  unseeded : ∀ p, preparedTick env s c = some p → (Ivm.loopStart env s p).views.lookup v = s.views.lookup v
  noRebuild : s.rebuildAllViews = false
  apart : ResultApart env s c v

/-- What a tick with a failed evaluation leaves. -/
structure LeftBehind (env : Env P) (s s' : Inner P) (c : TickCtx) (v : String) (H : Row → ℕ) : Prop where
  view : ViewHolds s' v (heldAfter env s c v H)
  output : ∀ r, outputNet s' v r = heldAfter env s c v H r - H r
  silent : queryFailed env s c v = false → Silent v s s'
  next : ByQuery s' v

lemma TickOutcome.of_errored {errors : List ViewError} (h : TickOutcome env s s' c v H errors)
    (herr : errorsOf v errors ≠ []) (hnext : ByQuery s' v) : LeftBehind env s s' c v H := by
  cases h with
  | idle unmarked clean view silent => exact absurd clean herr
  | failed errored view output silent => exact ⟨view, output, silent, hnext⟩
  | evaluated marked clean => exact absurd clean herr

include htick in
/-- The specification of a view outlives the tick. -/
lemma spec_after (hview : s.views.lookup v = some view) :
    ∃ view', s'.views.lookup v = some view' ∧ view'.spec = view.spec := by
  have hspec := (stepDatafusion_frame env s c).1 v
  rw [htick, hview, map_some] at hspec
  exact map_eq_some_iff.mp hspec

include hk hw in
/-- The operator of the view failed: view and log are untouched, and a recompute is queued. -/
lemma TickRun.operator_failed [LawfulPlanLogic P] (hrun : TickRun env s c p st s')
    (hkind : planKindOf (loopStart env s p) v = .incremental) (hpass : errorsOf v p.executed.errors = [])
    (hclean : ∀ e ∈ errorsOf v st.summary.erroredViews, e.ofEvaluation)
    (hlisted : errorsOf v st.summary.erroredViews ≠ [])
    (hholds : ViewHolds (loopStart env s p) v H) : LeftBehind env s s' c v H := by
  have hmem : v ∈ dirtyNames env p := by
    by_contra hmem
    exact hlisted ((hrun.untouched hmem).errors.trans hpass)
  obtain ⟨hashes, st₁, st₂, hbefore, hview, hafter⟩ := hrun.reaches hk hw hmem
  have herr₁ : errorsOf v st₁.summary.erroredViews = [] := hbefore.errors.trans hpass
  obtain ⟨e, hev, hek, herr, hsame⟩ := commitView_operatorFailed (hbefore.kind.trans hkind) hview
    (by rw [← hafter.errors]; exact hclean) fun h => by
      rw [hafter.errors, h, herr₁] at hlisted
      exact hlisted rfl
  have hqf : queryFailed env s c v = false := by
    unfold queryFailed
    rw [hrun.prepared]
    split
    · next p' view' hp' hv' =>
      cases hp'
      rw [hpass]
      simp
    · rfl
  have hend : SameOutput v (Ivm.loopStart env s p) s' :=
    ((hbefore.same.output.trans hsame).trans hafter.same.output).trans (hrun.afterLoop v)
  have hlist : e ∈ errorsOf v st.summary.erroredViews := by
    rw [hafter.errors, herr]
    exact mem_errorsOf_append hev
  refine (TickOutcome.of_silent hqf hlisted (hholds.congr hend.view) (.of_same hend)).of_errored hlisted ?_
  rcases hrun.plan_after v with ⟨hgone, hqueued⟩ | ⟨hkept, -⟩
  · exact .unplanned hgone (.inl hqueued)
  · exact absurd (.inl hek) (hkept e hlist)

include hk hw hcase htick in
/-- A tick with a failed evaluation. -/
lemma EvaluationFails.leaves [LawfulPlanLogic P] (hholds : ViewHolds s v H) (h : EvaluationFails env s c v summary) :
    LeftBehind env s s' c v H := by
  rcases stepDatafusion_ok htick with ⟨-, -, -, rfl, -⟩ | ⟨p, st, hrun, rfl⟩
  · exact absurd rfl h.listed
  have hsome := hrun.prepared
  have hviews := h.unseeded p hsome
  cases hkind : planKindOf (Ivm.loopStart env s p) v with
  | incremental =>
    have hpass : errorsOf v p.executed.errors = [] := by
      by_contra hne
      rw [h.recomputed p hsome hne] at hkind
      cases hkind
    exact hrun.operator_failed hk hw hkind hpass h.evaluation h.listed (hholds.congr hviews)
  | diffBased =>
    have hall : ∀ q, preparedTick env s c = some q → planKindOf (Ivm.loopStart env s q) v = .diffBased := by
      intro q hq
      rw [hsome] at hq
      cases hq
      exact hkind
    refine (tick_outcome hk hw hcase htick hholds h.unseeded hall h.apart h.evaluation).of_errored h.listed ?_
    refine ByQuery.after hk hw hrun hkind fun hl hf => ?_
    -- the view was marked, and without a plan that is because it is recursive or queued
    have hmarked : v ∈ p.marks.order.map fst := by
      by_contra hmem
      refine h.listed (unmarked_clean hk hw hcase htick fun q hq => ?_)
      rw [hsome] at hq
      cases hq
      exact hmem
    obtain ⟨⟨v', flag⟩, he, rfl⟩ := mem_map.mp hmarked
    obtain ⟨-, -, ⟨changed, schemas, hm⟩, -⟩ := prepared_parts hsome
    obtain ⟨spec, hspec, hname, ⟨hany, -⟩ | ⟨-, hplan⟩⟩ := hm.entries _ he
    · simp only [runsAnyway, Bool.or_eq_true, decide_eq_true_eq] at hany
      have hf' : (drain env s).2.forceDiffBased = false := hf
      rw [hf', h.noRebuild] at hany
      rcases hany with ((hany | hany) | hrec) | hrec
      · cases hany
      · cases hany
      · exact .inr ⟨h.listed, hname ▸ hrec⟩
      left
      obtain ⟨view, hview, -⟩ := hholds
      obtain ⟨view', hview', hsame⟩ := spec_after htick hview
      obtain ⟨n, -, hn⟩ := mem_filterMap.mp hspec
      have hnn : spec.name = n := by simpa using find?_some hn
      rw [← hnn, hname, hw.find_spec hk, hview] at hn
      cases hn
      exact ⟨view', hview', by rw [hsame]; exact hrec⟩
    · exfalso
      have hisSome : ((Ivm.loopStart env s p).viewPlans.lookup v').isSome = true := by
        refine loopStart_planned ?_
        rcases hplan with ⟨kind, hkd, -⟩ | hplan
        · left
          have hk' : (s.viewPlans.lookup v').map PlanLogic.kind = some kind := hkd
          obtain ⟨plan, hl', -⟩ := map_eq_some_iff.mp hk'
          rw [hl']
          rfl
        · exact .inr hplan
      rw [hl] at hisSome
      cases hisSome

/-! ## Until the evaluation succeeds -/

/-- What is known while a view waits for its next evaluation. -/
structure Waiting (env : Env P) (v : String) (H : Row → ℕ) (s : Inner P) : Prop where
  named : WellNamed s
  distinct : CaseDistinct env s
  view : ViewHolds s v H
  next : ByQuery s v

/-- Feeds, registrations of other views, ticks that do not come to the view and ticks that fail to
evaluate it again, though not in its query. -/
inductive Waits (env : Env P) (v : String) (s₀ : Inner P) : Inner P → Prop
  | start : Waits env v s₀ s₀
  | feed {s : Inner P} (source : String) (d : DeltaBatch) : Waits env v s₀ s → Waits env v s₀ (feed env s source d).1
  | register {s : Inner P} (spec : IncrementalViewSpec) :
      Waits env v s₀ s → v ≠ spec.name → CaseDistinct env (registerView env s spec) →
      Waits env v s₀ (registerView env s spec)
  | pass {s s' : Inner P} {c c' : TickCtx} {summary : StepSummary} :
      Waits env v s₀ s → stepDatafusion env s c = (s', c', .ok summary) →
      (∀ p, preparedTick env s c = some p → v ∉ p.marks.order.map Prod.fst) → Waits env v s₀ s'
  | fails {s s' : Inner P} {c c' : TickCtx} {summary : StepSummary} :
      Waits env v s₀ s → stepDatafusion env s c = (s', c', .ok summary) →
      errorsOf v summary.erroredViews ≠ [] → (∀ e ∈ errorsOf v summary.erroredViews, e.ofEvaluation) →
      ResultApart env s c v → queryFailed env s c v = false → Waits env v s₀ s'

lemma ByQuery.congr (h : ByQuery s v) (hview : s'.views.lookup v = s.views.lookup v)
    (hplan : s'.viewPlans.lookup v = s.viewPlans.lookup v) (hqueue : s'.recomputeViews = s.recomputeViews)
    (hforce : s'.forceDiffBased = s.forceDiffBased) : ByQuery s' v := by
  cases h with
  | forced h => exact .forced (hforce.trans h)
  | planned plan lookup kind => exact .planned plan (hplan.trans lookup) kind
  | unplanned lookup runs =>
    refine .unplanned (hplan.trans lookup) ?_
    rw [hqueue, hview]
    exact runs

lemma Waiting.feed (h : Waiting env v H s) (source : String) (d : DeltaBatch) :
    Waiting env v H (feed env s source d).1 := by
  have hsame : (Ivm.feed env s source d).1.views = s.views ∧ (Ivm.feed env s source d).1.viewPlans = s.viewPlans ∧
      (Ivm.feed env s source d).1.recomputeViews = s.recomputeViews ∧
      (Ivm.feed env s source d).1.forceDiffBased = s.forceDiffBased := by
    rw [(feed_queues env s source d).rest]
    exact ⟨rfl, rfl, rfl, rfl⟩
  obtain ⟨hviews, hplans, hqueue, hforce⟩ := hsame
  refine ⟨?_, ?_, h.view.congr (by rw [hviews]), h.next.congr (by rw [hviews]) (by rw [hplans]) hqueue hforce⟩
  · intro n view hv
    rw [hviews] at hv
    exact h.named n view hv
  · intro n m hn hm
    rw [hviews] at hn hm
    exact h.distinct n m hn hm

lemma Waiting.register (h : Waiting env v H s) (hne : v ≠ spec.name)
    (hcase : CaseDistinct env (registerView env s spec)) : Waiting env v H (registerView env s spec) := by
  have hsame : (registerView env s spec).views.lookup v = s.views.lookup v ∧
      (registerView env s spec).viewPlans.lookup v = s.viewPlans.lookup v ∧
      (registerView env s spec).recomputeViews = s.recomputeViews ∧
      (registerView env s spec).forceDiffBased = s.forceDiffBased := by
    rcases registerView_state env s spec with ⟨-, hs⟩ | ⟨plans, sqls, deps, declared, trackers, hplans, hs⟩ <;>
      rw [hs]
    · exact ⟨rfl, rfl, rfl, rfl⟩
    · exact ⟨AList.lookup_insert_ne hne, hplans v hne, rfl, rfl⟩
  obtain ⟨hview, hplan, hqueue, hforce⟩ := hsame
  exact ⟨h.named.registerView env spec, hcase, h.view.congr hview, h.next.congr hview hplan hqueue hforce⟩

include hw hcase htick in
/-- A tick keeps the names. -/
lemma names_after : WellNamed s' ∧ CaseDistinct env s' := by
  have hspecs := (stepDatafusion_frame env s c).1
  rw [htick] at hspecs
  refine ⟨hw.congr hspecs, fun n m hn hm => ?_⟩
  have hsome : ∀ k, (s'.views.lookup k).isSome = (s.views.lookup k).isSome := by
    intro k
    have := congrArg Option.isSome (hspecs k)
    rwa [isSome_map, isSome_map] at this
  rw [hsome] at hn hm
  exact hcase n m hn hm

include hk htick in
/-- A tick that starts while the view waits. -/
lemma Waiting.outcome (h : Waiting env v H s) (hapart : ResultApart env s c v)
    (hclean : ∀ e ∈ errorsOf v summary.erroredViews, e.ofEvaluation) :
    TickOutcome env s s' c v H summary.erroredViews := by
  exact tick_outcome hk h.named h.distinct htick h.view
    (fun p hp => (h.next.loopStart hk h.named hp).1) (fun p hp => (h.next.loopStart hk h.named hp).2)
    hapart hclean

include hk htick in
/-- It waits on, unless the evaluation succeeded. -/
lemma Waiting.next_after [LawfulPlanLogic P] (h : Waiting env v H s)
    (hwait : errorsOf v summary.erroredViews ≠ [] ∨ ∀ p, preparedTick env s c = some p →
      v ∉ p.marks.order.map fst) : ByQuery s' v := by
  obtain ⟨view, hview, -⟩ := h.view
  rcases stepDatafusion_ok htick with ⟨-, -, hqueue, -, rfl⟩ | ⟨p, st, hrun, rfl⟩
  · exact h.next.congr rfl rfl hqueue.symm rfl
  obtain ⟨-, hkind⟩ := h.next.loopStart hk h.named hrun.prepared
  refine ByQuery.after hk h.named hrun hkind fun hl hf => ?_
  rw [(loopStart_unplanned (h.next.marked hk h.named hrun.prepared).1).2] at hl
  cases h.next with
  | forced hforced =>
    rw [hf] at hforced
    cases hforced
  | planned plan lookup kind =>
    rw [hl] at lookup
    cases lookup
  | unplanned lookup runs =>
    rcases runs with hrec | ⟨view', hview', hrec⟩
    · right
      refine ⟨?_, hrec⟩
      rcases hwait with herr | hun
      · exact herr
      -- a queued view is always marked
      exfalso
      obtain ⟨htopo, -, ⟨changed, schemas, hm⟩, -⟩ := prepared_parts hrun.prepared
      have hspec : ((drain env s).2.specs.find? fun sp => sp.name = v) = some view.spec := by
        rw [h.named.find_spec hk, hview]
        rfl
      have hname : view.spec.name = v := h.named v view hview
      have hmem : v ∈ p.topo := by
        rw [htopo, mem_toposortViews env _ hk (h.named.nodup_names hk), h.named.mem_names hk, hview]
        rfl
      have hmarked := hm.queued view.spec (mem_filterMap.mpr ⟨v, hmem, hspec⟩) (by rw [hname]; exact hrec)
      rw [hname] at hmarked
      exact hun p hrun.prepared hmarked
    · left
      obtain ⟨after, hafter, hsame⟩ := spec_after htick hview'
      exact ⟨after, hafter, by rw [hsame]; exact hrec⟩

include hk in
lemma Waits.waiting [LawfulPlanLogic P] {s₀ : Inner P} (h₀ : Waiting env v H s₀) (h : Waits env v s₀ s) :
    Waiting env v H s := by
  induction h with
  | start => exact h₀
  | feed source d _ ih => exact ih.feed source d
  | register spec _ hne hcase ih => exact ih.register hne hcase
  | @pass s s' c c' summary _ htick hun ih =>
    obtain ⟨hnamed, hdistinct⟩ := names_after ih.named ih.distinct htick
    have hnext := ih.next_after hk htick (.inr hun)
    have hclean := unmarked_clean hk ih.named ih.distinct htick hun
    refine ⟨hnamed, hdistinct, ?_, hnext⟩
    cases ih.outcome hk htick (fun p _ _ hp hmem => absurd hmem (hun p hp)) (by rw [hclean]; simp) with
    | idle _ _ view _ => exact view
    | failed errored => exact absurd hclean errored
    | evaluated marked =>
      obtain ⟨p, hp, hmem⟩ := marked
      exact absurd hmem (hun p hp)
  | @fails s s' c c' summary _ htick herr hclean hapart hquery ih =>
    obtain ⟨hnamed, hdistinct⟩ := names_after ih.named ih.distinct htick
    have hnext := ih.next_after hk htick (.inl herr)
    have hleft := (ih.outcome hk htick hapart hclean).of_errored herr hnext
    exact ⟨hnamed, hdistinct, heldAfter_eq hquery H ▸ hleft.view, hnext⟩

/-! ## The evaluation succeeds -/

end Tick

/-! ## A query that fails once -/

/-- A table scan by full recompute, with a query that fails on a row 0. -/
def divisionEnv : Env StatelessPlan :=
  { scanEnv with
    query := fun tables sql => match tables sql with
      | some b => if [.int 0] ∈ b.rows then .error "Divide by zero error" else .ok [b]
      | none => .error "table not found"
    plan := fun _ _ _ _ => ⟨.diffBased, none⟩ }

/-- The row 1 is in the view, which may be declared as recursive, and the row 0 is queued. -/
def beforeDivision (recursive : Bool) : Inner StatelessPlan :=
  let spec := { scanView "v" "t" with isRecursive := recursive }
  let s := (feed divisionEnv (registerView divisionEnv .new spec) "t" (keyDelta 1 1)).1
  (feed divisionEnv (stepDatafusion divisionEnv s .fresh).1 "t" (keyDelta 0 1)).1

def afterDivision (recursive : Bool) : Inner StatelessPlan :=
  (stepDatafusion divisionEnv (beforeDivision recursive) .fresh).1

def summaryOf (r : IvmResult StepSummary) : StepSummary :=
  match r with
  | .ok summary => summary
  | .error _ => .zero

/-- The row 0 is retracted and the recursive view is evaluated again. -/
def divisionRetracted : Inner StatelessPlan :=
  (feed divisionEnv (afterDivision true) "t" (keyDelta 0 (-1))).1

def afterRecovery : Inner StatelessPlan := (stepDatafusion divisionEnv divisionRetracted .fresh).1

lemma viewHolds_of_rows {P : Type} {s : Inner P} {v : String} {rows : List Row}
    (h : (s.views.lookup v).map (fun w => (w.spec.isMaterialized,
      w.fullOutput.batch.map RecordBatch.rows, w.snapshot.map RecordBatch.rows)) =
        some (true, some rows, some rows)) : ViewHolds s v (ZSet.count rows) := by
  obtain ⟨view, hview, hrows⟩ := map_eq_some_iff.mp h
  simp only [Prod.mk.injEq] at hrows
  obtain ⟨hm, hbase, hsnap⟩ := hrows
  have hcount : ∀ b : Option RecordBatch, b.map RecordBatch.rows = some rows →
      ∀ r, countOf b r = ZSet.count rows r := by
    intro b hb r
    obtain ⟨batch, rfl, rfl⟩ := map_eq_some_iff.mp hb
    rfl
  refine ⟨view, hview, hcount _ hbase, ?_⟩
  rw [if_pos hm]
  exact hcount _ hsnap

lemma resultApart_of_keys {s : Inner StatelessPlan} {v : String}
    (hview : ((s.views.lookup v).all fun view => view.parts.all fun b => decide (IsKeyDelta b)) = true)
    (hfull : ((preparedTick divisionEnv s .fresh).all fun p =>
      (p.executed.full v).all fun b => decide (IsKeyDelta (.fromInserts b))) = true) :
    ResultApart divisionEnv s .fresh v := by
  intro p view b hp _ hl hb
  rw [hl, Option.all_some, List.all_eq_true] at hview
  rw [hp, Option.all_some, hb, Option.all_some] at hfull
  refine rowsApart_of_keys (List.forall_mem_append.mpr ⟨fun x hx => ?_, List.forall_mem_singleton.mpr ?_⟩)
  · exact of_decide_eq_true (hview x hx)
  · exact of_decide_eq_true hfull

lemma beforeDivision_named (recursive : Bool) : WellNamed (beforeDivision recursive) := by
  have hfeed : ∀ {s : Inner StatelessPlan} (d : DeltaBatch), WellNamed s →
      WellNamed (feed divisionEnv s "t" d).1 := by
    intro s d hw n view hview
    rw [(feed_output divisionEnv s "t" d).1] at hview
    exact hw n view hview
  have hnew : WellNamed (Inner.new : Inner StatelessPlan) := fun n view h => by cases h
  have hfed : WellNamed (feed divisionEnv (registerView divisionEnv .new
      { scanView "v" "t" with isRecursive := recursive }) "t" (keyDelta 1 1)).1 :=
    hfeed _ (hnew.registerView divisionEnv _)
  exact hfeed _ (hfed.congr (stepDatafusion_frame divisionEnv _ .fresh).1)

lemma beforeDivision_fails : EvaluationFails divisionEnv (beforeDivision true) .fresh "v"
    (summaryOf (stepDatafusion divisionEnv (beforeDivision true) .fresh).2.2) := by
  have hkind : ((preparedTick divisionEnv (beforeDivision true) .fresh).map fun p =>
      planKindOf (loopStart divisionEnv (beforeDivision true) p) "v") = some .diffBased := by decide +kernel
  have hplans : ((preparedTick divisionEnv (beforeDivision true) .fresh).map fun p =>
      p.marks.newPlans.map fst) = some [] := by decide +kernel
  have herrors : (errorsOf "v" (summaryOf (stepDatafusion divisionEnv (beforeDivision true)
      .fresh).2.2).erroredViews).map ViewError.kind = [.viewSql] := by decide +kernel
  refine ⟨fun h => ?_, fun e he => ?_, fun p hp _ => ?_, fun p hp => ?_, by decide +kernel,
    resultApart_of_keys (by decide +kernel) (by decide +kernel)⟩
  · rw [h] at herrors
    cases herrors
  · have hk := mem_map_of_mem (f := ViewError.kind) he
    rw [herrors, mem_singleton] at hk
    rw [ViewError.ofEvaluation, hk]
    exact ⟨by decide, by decide⟩
  · rw [hp, map_some] at hkind
    exact some.inj hkind
  · rw [hp] at hplans
    have hnil : p.marks.newPlans = [] := by simpa using hplans
    exact (loopStart_unplanned (by rw [hnil]; simp)).1

end Krishiv.Ivm
