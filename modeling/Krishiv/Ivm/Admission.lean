import Krishiv.Ivm.ViewOutput

/-!
# What a feed lets in, and what a tick can merge

A tick concatenates the queue of a source, applies the result to the source's state and registers the
chunks of the state as one table. All of this fails when columns differ, the last also when only their
nullability does. `feed` and `feed_coalesced` compare the delta with the committed relation, and only if
that has rows, and not in nullability; `feed_snapshot` compares nothing. None of them looks at the queue, or
at the rows a source owes.

`TicksCleanly` says that a tick fails only on a cell without key encoding or a view without columns. It
holds in every run in which each delta also has the columns of what is queued and of what the source holds
or owes (`Fits`).
-/

namespace Krishiv.Delta

open List DeltaBatch Except

/-- An error of the key encoding. -/
def DeltaError.isKeyEncoding (e : DeltaError) : Prop := ∃ t, e = noKeyEncoding t

variable {d : DeltaBatch}

lemma consolidateBatch_failsOnly (d : DeltaBatch) : FailsOnly DeltaError.isKeyEncoding (consolidateBatch d) := by
  unfold consolidateBatch consolidateByKey
  split
  · exact failsOnly_ok d
  refine (failsOnly_mapM fun p _ => ?_).bind fun keyed _ => failsOnly_ok _
  have hkey : FailsOnly DeltaError.isKeyEncoding (extractGroupKey .plain d.schema (keyColumns d.schema) p.1) := by
    refine failsOnly_mapM fun i _ e he => ?_
    unfold scalarToGroupKey at he
    split_ifs at he
    cases he
    exact ⟨_, rfl⟩
  exact hkey.bind fun key _ => failsOnly_ok (key, p)

lemma consolidateBatch_schema {c : DeltaBatch} (h : consolidateBatch d = .ok c) : c.schema = d.schema := by
  rw [(consolidateByKey_ok_iff.mp h).2]

/-- Batches of one schema concatenate to a batch of it. -/
lemma concat_same {sch : Schema} {ds : List DeltaBatch} (hne : ds ≠ []) (h : ∀ b ∈ ds, b.schema = sch) :
    ∃ b, DeltaBatch.concat ds = .ok b ∧ b.schema = sch := by
  obtain ⟨b, hb, -⟩ := concat_total hne fun x hx => congrArg Schema.shape (h x hx)
  obtain ⟨x, hx, hschema⟩ := (concat_eq_ok hb).1
  exact ⟨b, hb, hschema ▸ h x hx⟩

namespace SourceState

/-- Everything a source holds or owes has the schema. -/
structure HasSchema (sch : Schema) (s : SourceState) : Prop where
  schema : s.positive ≠ [] → s.schema = sch
  positive : ∀ b ∈ s.positive, b.schema = sch
  deficit : ∀ d, s.deficit = some d → d.schema = sch

variable {sch : Schema}

lemma hasSchema_fromPositive {b : RecordBatch} (h : b.schema = sch) : (fromPositive b).HasSchema sch := by
  refine ⟨fun _ => h, fun c hc => ?_, fun d hd => by cases hd⟩
  unfold fromPositive at hc
  split at hc
  · cases hc
  · rw [mem_singleton] at hc
    rw [hc]
    exact h

variable {s : SourceState}

/-- A settled Z-set, split into relation and deficit. -/
lemma hasSchema_settled {c : DeltaBatch} (h : c.schema = sch)
    (hp : s.positive = (fromPositive c.filterPositiveExpanded).positive) (hs : s.schema = c.schema)
    (hd : s.deficit = negativePart c) : s.HasSchema sch := by
  have hpos := hasSchema_fromPositive (b := c.filterPositiveExpanded) h
  refine ⟨fun _ => by rw [hs]; exact h, by rw [hp]; exact hpos.positive, fun d hd' => ?_⟩
  rw [hd] at hd'
  rw [(negativePart_owes hd').1]
  exact h

lemma sealTail_same (h : s.HasSchema sch) : ∃ s', s.sealTail = .ok s' ∧ s'.HasSchema sch := by
  unfold sealTail
  split
  · exact ⟨s, rfl, h⟩
  dsimp only
  split
  · next htail =>
    -- a tail of two chunks, all of the columns of the relation
    have hne : s.positive ≠ [] := by
      intro hnil
      rw [hnil, drop_nil] at htail
      exact absurd htail (by simp)
    have hall : ∀ b ∈ s.positive.drop s.sealed, b.schema.shape = s.schema.shape := fun b hb =>
      congrArg Schema.shape ((h.positive b (mem_of_mem_drop hb)).trans (h.schema hne).symm)
    rw [concatBatches_total hall]
    exact ⟨_, rfl, ⟨fun _ => h.schema hne, forall_mem_append.mpr
      ⟨fun b hb => h.positive b (mem_of_mem_take hb), forall_mem_singleton.mpr (h.schema hne)⟩, h.deficit⟩⟩
  · exact ⟨_, rfl, ⟨h.schema, h.positive, h.deficit⟩⟩

lemma pushPositive_same {b : RecordBatch} (h : s.HasSchema sch) (hb : b.schema = sch) :
    ∃ s', s.pushPositive b = .ok s' ∧ s'.HasSchema sch := by
  unfold pushPositive
  split
  · exact ⟨s, rfl, h⟩
  split
  · next hbad =>
    rw [Bool.and_eq_true, Bool.not_eq_true', Bool.not_eq_true', isEmpty_eq_false_iff] at hbad
    have hsame : sameColumns s.schema b.schema = true := by
      rw [h.schema hbad.1, hb]
      simp [sameColumns]
    rw [hsame] at hbad
    exact absurd hbad.2 (by simp)
  dsimp only
  have hpushed : ∀ s' : SourceState, s'.schema = (if s.positive.isEmpty then b.schema else s.schema) →
      s'.positive = s.positive ++ [b] → s'.deficit = s.deficit → s'.HasSchema sch := by
    intro s' hs hp hd
    refine ⟨fun _ => ?_, fun c hc => ?_, by rw [hd]; exact h.deficit⟩
    · rw [hs]
      split
      · exact hb
      · next hne => exact h.schema (by simpa using hne)
    · rw [hp] at hc
      rcases mem_append.mp hc with hc | hc
      · exact h.positive c hc
      · rw [mem_singleton] at hc
        rw [hc]
        exact hb
  split
  · exact sealTail_same (hpushed _ rfl rfl rfl)
  · exact ⟨_, rfl, hpushed _ rfl rfl rfl⟩

/-- The parts of a source and a delta of the same schema concatenate. -/
lemma zsetWith_same (h : s.HasSchema sch) (hd : d.schema = sch) :
    ∃ z, s.zsetWith (some d) = .ok z ∧ z.schema = sch := by
  have hparts : ∀ x ∈ s.positive.map fromInserts ++ s.deficit.toList ++ [d], x.schema = sch := by
    intro x hx
    simp only [mem_append, mem_map, Option.mem_toList, mem_singleton] at hx
    rcases hx with (⟨b, hb, rfl⟩ | hx) | rfl
    · exact h.positive b hb
    · exact h.deficit x hx
    · exact hd
  obtain ⟨z, hz, hschema⟩ := concat_same (by simp) hparts
  refine ⟨z, ?_, hschema⟩
  show (if (s.positive.map fromInserts ++ s.deficit.toList ++ [d]).isEmpty then _
    else DeltaBatch.concat (s.positive.map fromInserts ++ s.deficit.toList ++ [d])) = _
  rw [if_neg (by simp), hz]

lemma positiveBatch_total (h : s.HasSchema sch) : ∃ b, s.positiveBatch = .ok b := by
  unfold positiveBatch
  split
  · exact ⟨_, rfl⟩
  · exact ⟨_, rfl⟩
  · next hne _ =>
    refine ⟨_, concatBatches_total fun b hb => congrArg Schema.shape ?_⟩
    exact (h.positive b hb).trans (h.schema hne).symm

/-- Applying a delta of the source's schema keeps it, and fails only for want of a key encoding. -/
lemma applyTo_same {current : Option SourceState}
    (h : ∀ s, current = some s → s.HasSchema sch) (hd : d.schema = sch) :
    (∃ s', applyTo current d = .ok s' ∧ s'.HasSchema sch) ∨
      ∃ e, applyTo current d = .error e ∧ e.isKeyEncoding := by
  have hcons : ∀ b : DeltaBatch, b.schema = sch →
      (∃ c, consolidateBatch b = .ok c ∧ c.schema = sch) ∨
        ∃ e, consolidateBatch b = .error e ∧ e.isKeyEncoding := by
    intro b hb
    cases hc : consolidateBatch b with
    | error e => exact .inr ⟨e, rfl, consolidateBatch_failsOnly b e hc⟩
    | ok c => exact .inl ⟨c, rfl, (consolidateBatch_schema hc).trans hb⟩
  cases current with
  | none =>
    show (∃ s', fromZset d = .ok s' ∧ _) ∨ ∃ e, fromZset d = .error e ∧ _
    unfold fromZset fromZsetWith
    split
    · exact .inl ⟨_, rfl, hasSchema_fromPositive hd⟩
    · rcases hcons d hd with ⟨c, hc, hcsch⟩ | ⟨e, hc, he⟩ <;> rw [hc]
      · exact .inl ⟨_, rfl, hasSchema_settled hcsch rfl rfl rfl⟩
      · exact .inr ⟨e, rfl, he⟩
  | some s =>
    have hs := h s rfl
    show (∃ s', s.apply d = .ok s' ∧ _) ∨ ∃ e, s.apply d = .error e ∧ _
    unfold apply applyWith
    split
    · exact .inl (pushPositive_same hs hd)
    · next deficit hdef _ =>
      have hboth : ∀ x ∈ [deficit, d], x.schema = sch := by
        intro x hx
        rcases mem_pair.mp hx with rfl | rfl
        exacts [hs.deficit _ hdef, hd]
      obtain ⟨merged, hm, hmsch⟩ := concat_same (by simp) hboth
      rcases hcons merged hmsch with ⟨c, hc, hcsch⟩ | ⟨e, hc, he⟩ <;> simp only [hm, hc, bind, Except.bind]
      · have hsettled : ({ s with deficit := negativePart c } : SourceState).HasSchema sch :=
          ⟨hs.schema, hs.positive, fun x hx => by rw [(negativePart_owes hx).1]; exact hcsch⟩
        exact .inl (pushPositive_same (b := c.filterPositiveExpanded) hsettled hcsch)
      · exact .inr ⟨e, rfl, he⟩
    · obtain ⟨merged, hm, hmsch⟩ := zsetWith_same (s := { s with consolidations := s.consolidations + 1 })
        ⟨hs.schema, hs.positive, hs.deficit⟩ hd
      rcases hcons merged hmsch with ⟨c, hc, hcsch⟩ | ⟨e, hc, he⟩ <;> simp only [hm, hc, bind, Except.bind]
      · exact .inl ⟨_, rfl, hasSchema_settled hcsch rfl rfl rfl⟩
      · exact .inr ⟨e, rfl, he⟩

end SourceState

end Krishiv.Delta

namespace Krishiv.Ivm

open Krishiv.Delta Except

variable {P : Type}

/-! ## Why a tick may fail -/

/-- What may stop a tick: a cell without key encoding, or a view without columns. -/
def Excused (s : Inner P) (e : IvmError) : Prop :=
  (∃ x : DeltaError, x.isKeyEncoding ∧ e = deltaErr x) ∨
    ∃ n view, s.views.lookup n = some view ∧ view.spec.outputSchema = []

/-- No tick fails because batches do not fit together. -/
def TicksCleanly [PlanLogic P] (env : Env P) (s : Inner P) : Prop :=
  ∀ c, FailsOnly (Excused s) (stepDatafusion env s c).2.2

/-- Every source has its schema, in the queue and in the state. -/
structure HasSchemas (sch : String → Schema) (s : Inner P) : Prop where
  queue : ∀ src ds, s.pending.lookup src = some ds → ds ≠ [] ∧ ∀ d ∈ ds, d.schema = sch src
  source : ∀ src source, s.sourceSnapshots.lookup src = some source → source.state.HasSchema (sch src)

lemma Source.applyTo_cases (current : Option Source) (d : DeltaBatch) : (∃ s, Source.applyTo current d = .ok s ∧
      SourceState.applyTo (current.map Source.state) d = .ok s.state) ∨ ∃ e, Source.applyTo current d = .error e ∧
      SourceState.applyTo (current.map Source.state) d = .error e := by
  unfold Source.applyTo
  split
  · next e h => exact .inr ⟨e, rfl, h⟩
  · next s h => exact .inl ⟨_, rfl, h⟩

lemma concatQueue_same {sch : Schema} {ds : List DeltaBatch} (hne : ds ≠ [])
    (h : ∀ d ∈ ds, d.schema = sch) : ∃ b, concatQueue ds = .ok b ∧ b.schema = sch := by
  unfold concatQueue
  split
  · next d => exact ⟨d, rfl, h d (by simp)⟩
  · obtain ⟨b, hb, hschema⟩ := concat_same hne h
    exact ⟨b, by rw [hb]; rfl, hschema⟩

section Schemas

variable {sch : String → Schema} {s : Inner P}

lemma failsOnly_deltaErr {α : Type} {x : DeltaResult α} (h : FailsOnly DeltaError.isKeyEncoding x) :
    FailsOnly (Excused s) (x.mapError deltaErr) := by
  intro e he
  cases x with
  | ok a => cases he
  | error x =>
    cases he
    exact .inl ⟨x, h x rfl, rfl⟩

section

variable (h : HasSchemas sch s)

include h

lemma HasSchemas.states (src : String) (st : SourceState)
    (hst : (s.sourceSnapshots.lookup src).map Source.state = some st) : st.HasSchema (sch src) := by
  obtain ⟨source, hl, rfl⟩ := Option.map_eq_some_iff.mp hst
  exact h.source src source hl

/-- A coalesced input has the schema of its queue. -/
lemma HasSchemas.coalesced {inputs : NameMap DeltaBatch}
    (hin : coalescePending s.pending = .ok inputs) {src : String} {d : DeltaBatch}
    (hd : inputs.lookup src = some d) : d.schema = sch src := by
  rcases coalescePending_spec hin src with ⟨-, hnone⟩ | ⟨ds, d', hraw, hd', hc⟩
  · rw [hd] at hnone
    cases hnone
  rw [hd] at hd'
  cases hd'
  obtain ⟨x, hx, hschema⟩ := hc.schema
  rw [← hschema]
  exact (h.queue src ds hraw).2 x hx

lemma HasSchemas.coalescePending_failsOnly : FailsOnly (Excused s) (coalescePending s.pending) := by
  intro e he
  obtain ⟨src, ds, hds, hf⟩ := KVMap.mapM_error he
  obtain ⟨hne, hschema⟩ := h.queue src ds hds
  obtain ⟨b, hb, -⟩ := concatQueue_same hne hschema
  rw [hb] at hf
  exact failsOnly_deltaErr (consolidateBatch_failsOnly b) e hf

variable {inputs : NameMap DeltaBatch} (hin : coalescePending s.pending = .ok inputs)

include hin

lemma HasSchemas.advanceSources_failsOnly : FailsOnly (Excused s) (advanceSources s.sourceSnapshots inputs) := by
  intro e he
  obtain ⟨src, d, hd, hf⟩ := KVMap.updateM_error he
  have hschema := h.coalesced hin hd
  rcases Source.applyTo_cases (s.sourceSnapshots.lookup src) d with ⟨s', hs', -⟩ | ⟨x, hx, hxs⟩
  · rw [hs'] at hf
    cases hf
  rw [hx] at hf
  cases hf
  rcases SourceState.applyTo_same (h.states src) hschema with ⟨st, hst, -⟩ | ⟨y, hy, hkey⟩
  · rw [hst] at hxs
    cases hxs
  · rw [hy] at hxs
    cases hxs
    exact .inl ⟨x, hkey, rfl⟩

variable {sources : NameMap Source} (hadv : advanceSources s.sourceSnapshots inputs = .ok sources)

include hadv

lemma HasSchemas.advanced (src : String) (source : Source)
    (hl : sources.lookup src = some source) : source.state.HasSchema (sch src) := by
  have hat := KVMap.updateM_spec hadv src
  cases hd : inputs.lookup src with
  | none =>
    rw [hd] at hat
    exact h.source src source (by rw [← hl]; exact hat.symm)
  | some d =>
    rw [hd] at hat
    obtain ⟨o, ho, hnew⟩ := hat
    dsimp only at ho
    rcases Source.applyTo_cases (s.sourceSnapshots.lookup src) d with ⟨s', hs', hst⟩ | ⟨x, hx, -⟩
    · rw [hs'] at ho
      cases ho
      rw [hl] at hnew
      cases hnew
      rcases SourceState.applyTo_same (h.states src) (h.coalesced hin hd) with ⟨st, hst', hschema⟩ | ⟨y, hy, -⟩
      · rw [hst] at hst'
        cases hst'
        exact hschema
      · rw [hst] at hy
        cases hy
    · rw [hx] at ho
      cases ho

/-- The delta and what was and is owed concatenate. -/
lemma HasSchemas.relationDeltas_failsOnly : FailsOnly (Excused s) (relationDeltas s.sourceSnapshots sources inputs) := by
  intro e he
  obtain ⟨src, raw, hraw, hf⟩ := KVMap.mapM_error he
  have hschema := h.coalesced hin hraw
  have howed : ∀ {m : NameMap Source}, (∀ source, m.lookup src = some source → source.state.HasSchema (sch src)) →
      ∀ d, ((m.lookup src).bind fun s => s.state.deficit) = some d → d.schema = sch src := by
    intro m hm d hd
    obtain ⟨source, hsource, hdef⟩ := Option.bind_eq_some_iff.mp hd
    exact (hm source hsource).deficit d hdef
  have hbefore := howed (h.source src)
  have hafter := howed (h.advanced hin hadv src)
  refine failsOnly_deltaErr (x := relationDelta _ _ raw) ?_ e hf
  generalize ((s.sourceSnapshots.lookup src).bind fun s => s.state.deficit) = before at hbefore ⊢
  generalize ((sources.lookup src).bind fun s => s.state.deficit) = after at hafter ⊢
  unfold relationDelta relationDeltaWith
  split
  · exact failsOnly_ok raw
  · have hparts : ∀ b ∈ [raw] ++ before.toList ++ (after.map DeltaBatch.negate).toList, b.schema = sch src := by
      intro b hb
      simp only [List.mem_append, List.mem_singleton, Option.mem_toList, Option.map_eq_some_iff] at hb
      rcases hb with (rfl | hb) | ⟨d, hd, rfl⟩
      · exact hschema
      · exact hbefore b hb
      · exact hafter d hd
    obtain ⟨combined, hcombined, -⟩ := concat_same (by simp) hparts
    rw [hcombined]
    exact (consolidateBatch_failsOnly combined).bind fun settled _ => failsOnly_ok _

/-- The chunks of a source are a table. -/
lemma HasSchemas.registerSources_failsOnly (env : Env P) (c : TickCtx) :
    FailsOnly (Excused s) (registerSources env sources c) := by
  refine failsOnly_foldlM (fun c e he => ?_) c
  have hsource := h.advanced hin hadv e.1 e.2 (AList.mem_lookup_iff.mpr he)
  have hfits : (e.2.state.positive.all fun b => decide (b.schema.length = e.2.state.schema.length) &&
      (e.2.state.schema.zip b.schema).all fun p => decide (p.1.name = p.2.name) &&
        decide (p.1.dataType = p.2.dataType) && (p.1.nullable || !p.2.nullable)) = true := by
    rw [List.all_eq_true]
    intro b hb
    rw [hsource.positive b hb, hsource.schema (List.ne_nil_of_mem hb)]
    have hself : ∀ (l : Schema), ∀ p ∈ l.zip l, p.1 = p.2 := by
      intro l
      induction l with
      | nil => nofun
      | cons f l ih => exact List.forall_mem_cons.mpr ⟨rfl, ih⟩
    rw [decide_eq_true rfl, Bool.true_and, List.all_eq_true]
    intro p hp
    rw [hself _ p hp]
    simp
  simp only [TickCtx.registerChunks]
  rw [if_pos hfits]
  exact failsOnly_ok _

end

/-- Only a view without columns stops the pass over the view queries. -/
lemma executeView_failsOnly [PlanLogic P] (env : Env P) (order : List (String × Bool)) (acc : Executed)
    (entry : String × Bool) : FailsOnly (Excused s) (executeView env (drain env s).2 order acc entry) := by
  unfold executeView
  split
  · exact failsOnly_ok acc
  next spec hspec =>
  split
  · split
    · split <;> exact failsOnly_ok _
    · exact failsOnly_ok _
  dsimp only
  split
  · split <;> exact failsOnly_ok _
  split
  · exact failsOnly_ok _
  refine FailsOnly.bind (fun e he => ?_) fun b _ => failsOnly_ok _
  unfold emptyOutputBatch at he
  split at he
  · next hempty =>
    obtain ⟨n, -, hn⟩ := List.mem_filterMap.mp (List.mem_of_find?_eq_some hspec)
    obtain ⟨view, hview, rfl⟩ := Option.map_eq_some_iff.mp hn
    exact .inr ⟨n, view, hview, List.isEmpty_iff.mp hempty⟩
  · cases he

/-- A commit that is not overtaken fails on a row hash only. -/
lemma hashRow_failsOnly (env : Env P) (schema : Schema) (row : Row) :
    FailsOnly (Excused s) (hashRow env schema row) := by
  intro e he
  unfold hashRow at he
  split at he
  · cases he
  · next c _ =>
    cases he
    exact .inl ⟨_, ⟨c.1, rfl⟩, rfl⟩

lemma commitViews_failsOnly [PlanLogic P] (env : Env P) (p : Prepared P) (hashes : Option (List ℕ))
    {names : List String} {st st' : Progress P} {e : IvmError}
    (h : commitViews env p hashes names st = (st', some e)) : Excused s e := by
  induction names generalizing st with
  | nil => cases h
  | cons name names ih =>
    unfold commitViews at h
    split at h
    · next st₁ e' hview =>
      cases h
      unfold commitView at hview
      split at hview
      · cases hview
      dsimp only at hview
      split at hview
      · cases hview
      · cases hview
      unfold emitDelta at hview
      split at hview
      · cases hview
      split at hview
      · cases hview
      split at hview
      · split at hview <;> cases hview
      dsimp only at hview
      split at hview
      · next hrecord =>
        cases hview
        unfold recordProvenance at hrecord
        split at hrecord
        · refine ((failsOnly_mapM fun p _ => hashRow_failsOnly env _ p.1).bind fun outputs _ => ?_) e hrecord
          exact failsOnly_ok _
        · cases hrecord
      · cases hview
    · exact ih h

lemma commit_failsOnly [PlanLogic P] (env : Env P) {s₁ : Inner P} {p : Prepared P} (hepoch : s₁.stateEpoch = p.epoch) :
    FailsOnly (Excused s) (commit env s₁ p).2 := by
  intro e he
  rw [commit, if_neg (not_not.mpr hepoch)] at he
  dsimp only at he
  split at he
  · next e' hhash =>
    cases he
    split at hhash
    · have hinputs : FailsOnly (Excused s) (inputHashes env p.inputs) := by
        refine (failsOnly_mapM fun entry _ => failsOnly_mapM fun row _ => ?_).bind fun hashes _ => failsOnly_ok _
        exact (hashRow_failsOnly env _ row.1).bind fun base _ => failsOnly_ok _
      exact hinputs.bind (f := fun hashes => .ok (some hashes)) (fun _ _ => failsOnly_ok _) e hhash
    · cases hhash
  · split at he
    · next hviews =>
      cases he
      exact commitViews_failsOnly env p _ hviews
    · cases he

/-- A tick over sources that have their schemas. -/
lemma HasSchemas.ticksCleanly [PlanLogic P] (env : Env P) (h : HasSchemas sch s) : TicksCleanly env s := by
  have hguard : ∀ {α : Type} {r : Inner P × TickCtx × IvmResult α}, FailsOnly (Excused s) r.2.2 →
      FailsOnly (Excused s) (guardDrained s.pending r).2.2 := by
    intro α r hr
    unfold guardDrained
    split <;> exact hr
  intro c
  rw [stepDatafusion_eq]
  have hqueues := h.coalescePending_failsOnly
  cases hin : coalescePending s.pending with
  | error e =>
    rw [hin] at hqueues
    exact hguard fun e' he' => hqueues e' (congrArg error (Except.error.inj he'))
  | ok inputs =>
    refine hguard ?_
    unfold finishTick
    split
    · exact failsOnly_ok _
    have hprepare : FailsOnly (Excused s) (prepare env (drain env s).2 inputs s.rebuildAllViews s.recomputeViews c) := by
      unfold prepare
      refine FailsOnly.bind ?_ fun preDelta _ => ?_
      · unfold preDeltaSnapshots
        split
        · intro e he
          obtain ⟨src, source, hsource, hf⟩ := KVMap.mapM_error he
          obtain ⟨b, hb⟩ := SourceState.positiveBatch_total (h.source src source hsource)
          rw [hb] at hf
          cases hf
        · exact failsOnly_ok _
      refine (h.advanceSources_failsOnly hin).bind fun sources hadv => ?_
      refine (h.relationDeltas_failsOnly hin hadv).bind fun relation _ => ?_
      refine (h.registerSources_failsOnly hin hadv env _).bind fun ctx _ => ?_
      refine (failsOnly_foldlM (fun acc entry _ => executeView_failsOnly env _ acc entry) _).bind fun executed _ => ?_
      exact failsOnly_ok _
    cases hp : prepare env (drain env s).2 inputs s.rebuildAllViews s.recomputeViews c with
    | error e =>
      rw [hp] at hprepare
      exact fun e' he' => hprepare e' (congrArg error (Except.error.inj he'))
    | ok p =>
      have hcommit := @commit_failsOnly _ s _ env (marksTaken env s) p (prepare_ok hp).1.symm
      dsimp only
      generalize commit env (marksTaken env s) p = r at hcommit ⊢
      obtain ⟨s', e | summary⟩ := r
      · exact fun e' he' => hcommit e' (congrArg error (Except.error.inj he'))
      · exact failsOnly_ok _

end Schemas

/-! ## What a tick leaves of the queues and the sources -/

lemma lookup_giveBack (s : Inner P) (raw : NameMap (List DeltaBatch)) (hp : s.pending = ∅)
    (src : String) : (giveBack s raw).pending.lookup src = raw.lookup src := by
  show (KVMap.merge _ raw s.pending).lookup src = _
  rw [KVMap.lookup_merge, hp]
  cases raw.lookup src with
  | none => rfl
  | some ds => simp

/-- A queue is taken whole or left, and the sources are advanced by all queues or left. A tick that
fails in its commit does both at once. -/
lemma stepDatafusion_queues [PlanLogic P] (env : Env P) (s : Inner P) (c : TickCtx) :
    (∀ src, (stepDatafusion env s c).1.pending.lookup src = none ∨
      (stepDatafusion env s c).1.pending.lookup src = s.pending.lookup src) ∧
    ((stepDatafusion env s c).1.sourceSnapshots = s.sourceSnapshots ∨
      ∃ inputs, coalescePending s.pending = .ok inputs ∧
        advanceSources s.sourceSnapshots inputs = .ok (stepDatafusion env s c).1.sourceSnapshots) := by
  rcases stepDatafusion_cases env s c with ⟨-, hend⟩ | ⟨p, hp, hend⟩
  · rcases hend with hs | hs | hs <;> rw [hs]
    · exact ⟨fun src => .inr (lookup_giveBack _ _ rfl src), .inl rfl⟩
    · exact ⟨fun src => .inr (lookup_giveBack _ _ rfl src), .inl rfl⟩
    · exact ⟨fun src => .inl rfl, .inl rfl⟩
  obtain ⟨inputs, hin, hprep⟩ := preparedTick_some hp
  have hadv := (prepare_ok hprep).2.2.2
  have hcommit : (commit env (marksTaken env s) p).1.pending = ∅ ∧
      (commit env (marksTaken env s) p).1.sourceSnapshots = p.newSnapshots :=
    ⟨(commit_prepared_framed hp).pending, (commit_prepared_framed hp).sourceSnapshots⟩
  rcases hend with hs | hs <;> rw [hs]
  · refine ⟨fun src => .inl ?_, .inr ⟨inputs, hin, ?_⟩⟩
    · rw [hcommit.1]
      rfl
    · rw [hcommit.2]
      exact hadv
  · refine ⟨fun src => .inr (lookup_giveBack _ _ hcommit.1 src), .inr ⟨inputs, hin, ?_⟩⟩
    show _ = Except.ok (commit env (marksTaken env s) p).1.sourceSnapshots
    rw [hcommit.2]
    exact hadv

/-! ## Runs of feeds and ticks -/

inductive Offer where
  | register (spec : IncrementalViewSpec)
  | feed (source : String) (d : DeltaBatch)
  | feedCoalesced (source : String) (d : DeltaBatch)
  | feedSnapshot (source : String) (batches : List RecordBatch)
  | step (c : TickCtx)

def offer [PlanLogic P] (env : Env P) (s : Inner P) : Offer → Inner P
  | .register spec => registerView env s spec
  | .feed source d => (feed env s source d).1
  | .feedCoalesced source d => (feedCoalesced env s source d).1
  | .feedSnapshot source batches => (feedSnapshot env s source batches).1
  | .step c => (stepDatafusion env s c).1

/-- The columns, with their nullability, are those of everything the source holds or owes. -/
def FitsState (s : Inner P) (source : String) (schema : Schema) : Prop :=
  ∀ src, s.sourceSnapshots.lookup source = some src → src.state.HasSchema schema

/-- And those of everything that is queued for it. -/
def Fits (s : Inner P) (source : String) (schema : Schema) : Prop :=
  FitsState s source schema ∧ ∀ d ∈ queueOf s.pending source, d.schema = schema

/-- The check a feed would have to make: what it queues fits. -/
def Offer.Fitting (s : Inner P) : Offer → Prop
  | .feed source d => d.isEmpty = false → Fits s source d.schema
  | .feedCoalesced source d => d.isEmpty = false → FitsState s source d.schema
  | .feedSnapshot source batches => ∀ new d, combineSnapshot batches = .ok (some new) →
      differentiate new.schema (s.streamingPrevSnapshots.lookup source) new = .ok d →
      d.isEmpty = false → Fits s source d.schema
  | _ => True

/-- Runs in which everything offered fits, from a flow without input. -/
inductive FittingRun [PlanLogic P] (env : Env P) : Inner P → Prop
  | start (s : Inner P) : s.pending = ∅ → s.sourceSnapshots = ∅ → FittingRun env s
  | step {s : Inner P} (o : Offer) : FittingRun env s → o.Fitting s → FittingRun env (offer env s o)

variable {sch : String → Schema}

/-- A new delta after what is kept of a queue. -/
lemma HasSchemas.put {s s' : Inner P} {source : String} {d : DeltaBatch} {kept : List DeltaBatch}
    (h : HasSchemas sch s) (hfit : FitsState s source d.schema)
    (hkept : ∀ x ∈ kept, x.schema = d.schema)
    (hp : s'.pending = s.pending.insert source (kept ++ [d])) (hs : s'.sourceSnapshots = s.sourceSnapshots) :
    HasSchemas (Function.update sch source d.schema) s' := by
  constructor
  · intro src ds hds
    rw [hp] at hds
    by_cases hsrc : src = source
    · subst hsrc
      rw [AList.lookup_insert] at hds
      cases hds
      refine ⟨by simp, fun x hx => ?_⟩
      rw [Function.update_self]
      exact List.forall_mem_append.mpr ⟨hkept, List.forall_mem_singleton.mpr rfl⟩ x hx
    · rw [AList.lookup_insert_ne hsrc] at hds
      rw [Function.update_of_ne hsrc]
      exact h.queue src ds hds
  · intro src st hst
    rw [hs] at hst
    by_cases hsrc : src = source
    · subst hsrc
      rw [Function.update_self]
      exact hfit st hst
    · rw [Function.update_of_ne hsrc]
      exact h.source src st hst

lemma HasSchemas.congr {s s' : Inner P} (h : HasSchemas sch s)
    (hp : ∀ src, s'.pending.lookup src = none ∨ s'.pending.lookup src = s.pending.lookup src)
    (hs : s'.sourceSnapshots = s.sourceSnapshots) : HasSchemas sch s' := by
  refine ⟨fun src ds hds => ?_, by rw [hs]; exact h.source⟩
  rcases hp src with hnone | hsame
  · rw [hnone] at hds
    cases hds
  · exact h.queue src ds (by rw [← hsame]; exact hds)

/-- One call or tick: the schema stays, or becomes that of the new delta. -/
lemma HasSchemas.offer [PlanLogic P] (env : Env P) {s : Inner P} (h : HasSchemas sch s) {o : Offer}
    (ho : o.Fitting s) : ∃ sch', HasSchemas sch' (offer env s o) := by
  have hsame : ∀ {s' : Inner P}, s'.pending = s.pending → s'.sourceSnapshots = s.sourceSnapshots →
      ∃ sch', HasSchemas sch' s' :=
    fun hp hs => ⟨sch, h.congr (fun src => .inr (by rw [hp])) hs⟩
  cases o with
  | register spec =>
    rcases registerView_state env s spec with ⟨-, hs⟩ | ⟨plans, sqls, deps, declared, trackers, -, hs⟩
    · exact ⟨sch, by rw [Ivm.offer, hs]; exact h⟩
    · exact hsame (by rw [Ivm.offer, hs]) (by rw [Ivm.offer, hs])
  | feed source d =>
    obtain ⟨hs, -, -, ⟨hp, -⟩ | ⟨hne, kept, -, hschema, hp, -⟩⟩ := feed_queues env s source d
    · exact hsame hp hs
    · have hfits := ho hne
      rw [← hschema] at hfits
      exact ⟨_, h.put hfits.1 hfits.2 hp hs⟩
  | feedCoalesced source d =>
    obtain ⟨hs, -, -, ⟨hp, -⟩ | ⟨hne, kept, -, hschema, hp, -⟩⟩ := feedCoalesced_queues env s source d
    · exact hsame hp hs
    · exact ⟨_, h.put (d := kept) (by rw [hschema]; exact ho hne) (List.forall_mem_nil _) hp hs⟩
  | feedSnapshot source batches =>
    rcases feedSnapshot_queues env s source batches with
      ⟨hs, -⟩ | ⟨new, d, hnew, hd, -, -, hs, ⟨-, hp⟩ | ⟨hne, hp⟩⟩
    · exact hsame (congrArg Inner.pending hs) (congrArg Inner.sourceSnapshots hs)
    · exact hsame hp hs
    · obtain ⟨hfit, hqueue⟩ := ho new d hnew hd hne
      exact ⟨_, h.put hfit hqueue hp hs⟩
  | step c =>
    obtain ⟨hp, hs | ⟨inputs, hin, hadv⟩⟩ := stepDatafusion_queues env s c
    · exact ⟨sch, h.congr hp hs⟩
    refine ⟨sch, ⟨fun src ds hds => ?_, h.advanced hin hadv⟩⟩
    rcases hp src with hnone | hkept
    · rw [show (Ivm.offer env s (.step c)).pending.lookup src = none from hnone] at hds
      cases hds
    · exact h.queue src ds (by rw [← hkept]; exact hds)

/-- A view over `t` and two rows for it, not stepped yet. -/
def twoRowsQueued : Inner StatelessPlan :=
  [.register (scanView "v" "t"), .feed "t" (keyDelta 1 1), .feed "t" (keyDelta 2 1)].foldl
    (offer scanEnv) .new

/-- The row `k` as a text. -/
def textDelta (k : String) : DeltaBatch := ⟨[⟨"k", .utf8, true⟩], [([.str k], 1)]⟩

/-- The text of a failure. -/
def failureText {α : Type} : IvmResult α → Option String
  | .ok _ => none
  | .error (.execution m) => some m

/-- An integer row and a text row are queued for `t` before its first tick. -/
def mixedQueue : Inner StatelessPlan :=
  (feed scanEnv (feed scanEnv (registerView scanEnv .new (scanView "v" "t")) "t" (keyDelta 1 1)).1 "t"
    (textDelta "1")).1

end Krishiv.Ivm
