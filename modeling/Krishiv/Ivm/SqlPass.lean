import Krishiv.Ivm.Engine

/-!
# The SQL pass of an ordinary tick

The pass runs the SQL of the marked views that are recomputed in full, and of the incremental ones
those read (`RunsSql`). A query finds every source under its name (`registerSources_tables`).
-/

namespace Krishiv.Ivm

open Krishiv.Delta List

variable {P : Type}

/-! ## Tables -/

lemma TickCtx.tables_register {env : Env P} {name : String} (hlow : env.toLowercase name = name)
    (c : TickCtx) (b : RecordBatch) : (c.register env name b).tables = Function.update c.tables name (some b) := by
  show Function.update c.tables (env.toLowercase name) (some b) = _
  rw [hlow]

/-- The table of a source: all its chunks. -/
def Source.table (src : Source) : RecordBatch :=
  ⟨src.state.schema, (src.state.positive.map RecordBatch.rows).flatten⟩

/-- Every source has its table, the other tables are as they were. -/
lemma registerSources_tables {env : Env P} {sources : NameMap Source}
    (hlow : ∀ n ∈ sources, env.toLowercase n = n) {c c' : TickCtx}
    (h : registerSources env sources c = .ok c') (n : String) :
    c'.tables n = ((sources.lookup n).map Source.table).or (c.tables n) := by
  have hfold : ∀ (l : List (Sigma fun _ : String => Source)) (c : TickCtx), l.NodupKeys →
      (∀ e ∈ l, env.toLowercase e.1 = e.1) →
      l.foldlM (fun c e => c.registerChunks env e.1 e.2.state.schema e.2.state.positive) c = .ok c' →
      c'.tables n = ((l.dlookup n).map Source.table).or (c.tables n) := by
    intro l
    induction l with
    | nil =>
      intro c _ _ h
      cases h
      rfl
    | cons e l ih =>
      intro c hn hl h
      rw [foldlM_cons, Except.bind_eq_ok_iff] at h
      obtain ⟨c₁, hc₁, h⟩ := h
      rw [nodupKeys_cons] at hn
      rw [ih c₁ hn.2 (fun e he => hl e (mem_cons_of_mem _ he)) h]
      unfold TickCtx.registerChunks at hc₁
      dsimp only at hc₁
      split at hc₁
      · cases hc₁
        rw [TickCtx.tables_register (hl e mem_cons_self)]
        by_cases he : n = e.1
        · subst he
          rw [dlookup_eq_none.mpr hn.1, Function.update_self, dlookup_cons_eq]
          rfl
        · rw [Function.update_of_ne he, dlookup_cons_ne _ _ he]
      · cases hc₁
  exact hfold sources.entries c sources.nodupKeys
    (fun e he => hlow e.1 (AList.mem_keys.mpr (mem_keys_of_mem he))) h

/-! ## One view -/

/-- The SQL of a marked view runs: it is recomputed in full, or a view that is reads it. -/
def RunsSql (env : Env P) (d : Drained P) (order : List (String × Bool)) (e : String × Bool) : Prop :=
  e.2 = false ∨ owesFullOutput env d order e.1 = true

/-- The names of the views. -/
def Drained.viewNames (d : Drained P) : List String := d.specs.map IncrementalViewSpec.name

lemma mem_viewNames_of_find {d : Drained P} {n : String} {spec : IncrementalViewSpec}
    (h : (d.specs.find? fun s => s.name = n) = some spec) : spec.name = n ∧ n ∈ d.viewNames := by
  have hname : spec.name = n := by simpa using find?_some h
  exact ⟨hname, hname ▸ mem_map_of_mem (mem_of_find?_eq_some h)⟩

/-- An entry is known by its name. -/
lemma eq_of_mem_done {done : List (String × Bool)} (hn : (done.map Prod.fst).Nodup)
    {e e' : String × Bool} (he : e ∈ done) (he' : e' ∈ done) (h : e.1 = e'.1) : e = e' :=
  inj_on_of_nodup_map hn he he' h

end Krishiv.Ivm
