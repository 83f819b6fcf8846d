import Krishiv.Ivm.Input

/-!
# The smallest engine: table scans

`scanEnv` is an engine that knows one query, the scan of a table: the text of a view is the name of
the table it reads. The planner maintains a scan by the identity map when it knows the table's
columns, and by full recompute otherwise. There are no stateful operators.

It is the environment in which concrete histories of a flow are run.
-/

namespace Krishiv.Ivm

open Krishiv.Delta

instance : Operator Empty where
  apply := nofun
  stateBytes := nofun
  restoreStateBytes := nofun
  gcWatermark := nofun

instance : JoinOperator Empty where
  apply := nofun
  stateBytes := nofun
  restoreStateBytes := nofun
  gcTraces := nofun

/-- Plans without stateful operators. -/
abbrev StatelessPlan := ViewPlan Empty Empty

/-- Rows as they are. -/
def identityMap : MapOp := ⟨.ok, none⟩

def scanEnv : Env StatelessPlan where
  toLowercase := id
  query tables sql := match tables sql with
    | some b => .ok [b]
    | none => .error ("table '" ++ sql ++ "' not found")
  cast _ _ v := .ok v
  plan sql _ schemas _ := match schemas sql with
    | some _ => ⟨.stage (.map sql identityMap), none⟩
    | none => ⟨.diffBased, none⟩
  tableRefs sql := some [sql]
  isAlphanumeric := Char.isAlphanum
  rewrite := id
  rowHash row := row.length
  memorySize d := d.numRows
  logicFingerprint sql := sql.length
  lexsort _ b := .ok b
  hashOrder := id

/-- One integer column `k`. -/
def keySchema : Schema := [⟨"k", .int64, true⟩]

/-- Insert, or with a negative weight retract, the row `k`. -/
def keyDelta (k w : ℤ) : DeltaBatch := ⟨keySchema, [([.int k], w)]⟩

/-- A materialized view that scans a table. -/
def scanView (name table : String) : IncrementalViewSpec where
  name := name
  bodySql := table
  outputSchema := keySchema
  isMaterialized := true
  isRecursive := false
  lateness := []

/-- A batch of rows of the column `k`. -/
def IsKeyDelta (d : DeltaBatch) : Prop := d.schema = keySchema ∧ ∀ p ∈ d.rows, keySchema.holds p.1

instance (d : DeltaBatch) : Decidable (IsKeyDelta d) := inferInstanceAs (Decidable (_ ∧ _))

/-- Integers have keys of their own. -/
lemma distinct_key : Distinct .plain keySchema {r | keySchema.holds r} := by
  rintro _ (_ | @⟨_, v, _, _, hv, ⟨⟩⟩) _ (_ | @⟨_, w, _, _, hw, ⟨⟩⟩) h
  simp only [Field.holds, Bool.and_eq_true] at hv hw
  have hpart : groupPart .plain v = groupPart .plain w := List.head_eq_of_cons_eq h
  rcases groupPart_inj hv.1 hw.1 hpart with heq | ⟨_, _, rfl, -⟩ | ⟨_, _, _, rfl, -⟩
  · rw [heq]
  · cases hv.1
  · cases hv.1

lemma rowsApart_of_keys {bs : List DeltaBatch} (h : ∀ b ∈ bs, IsKeyDelta b) : RowsApart bs := by
  have hrow : ∀ {r : Row}, (∃ c ∈ bs, r ∈ c.rows.map Prod.fst) → keySchema.holds r := by
    rintro r ⟨c, hc, hr⟩
    obtain ⟨p, hp, rfl⟩ := List.mem_map.mp hr
    exact (h c hc).2 p hp
  intro b hb r hr r' hr'
  rw [(h b hb).1]
  exact distinct_key r (hrow hr) r' (hrow hr')

/-- Sources and queues of such rows. -/
lemma keysApart_of_keys {sources : NameMap Source} {raw : NameMap (List DeltaBatch)}
    (hsources : ∀ e ∈ sources.entries, ∀ b ∈ SourceState.partsOf (some e.2.state), IsKeyDelta b)
    (hraw : ∀ e ∈ raw.entries, ∀ b ∈ e.2, IsKeyDelta b) : KeysApart sources raw := by
  refine fun src => rowsApart_of_keys fun b hb => ?_
  rcases List.mem_append.mp hb with hb | hb
  · cases hlookup : sources.lookup src with
    | none =>
      rw [hlookup] at hb
      cases hb
    | some source =>
      rw [hlookup] at hb
      exact hsources ⟨src, source⟩ (AList.mem_lookup_iff.mp hlookup) b hb
  · cases hlookup : raw.lookup src with
    | none =>
      rw [queueOf, hlookup] at hb
      cases hb
    | some ds =>
      rw [queueOf, hlookup] at hb
      exact hraw ⟨src, ds⟩ (AList.mem_lookup_iff.mp hlookup) b hb

/-- The rows of a view's snapshot. -/
def viewRows {P : Type} (s : Inner P) (name : String) : Option (List Row) :=
  ((s.views.lookup name).bind IncrementalView.snapshot).map RecordBatch.rows

/-- Feed one delta and step. -/
def scanTick (s : Inner StatelessPlan) (source : String) (d : DeltaBatch) : Inner StatelessPlan :=
  (stepDatafusion scanEnv (feed scanEnv s source d).1 .fresh).1

example : viewRows (scanTick (registerView scanEnv .new (scanView "v" "t")) "t" (keyDelta 1 2)) "v" =
    some [[.int 1], [.int 1]] := by decide +kernel

end Krishiv.Ivm
