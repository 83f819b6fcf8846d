import Krishiv.Delta.Stream
import Krishiv.Lib.ZJoin

/-!
# View state and `IncrementalView`

A view's snapshot is kept as a multiset of rows with positive multiplicities
(`SnapshotIndex`), or as a plain batch where the row format cannot encode the columns
(`ViewState.raw`). The counts stand in the order of their sequence numbers, so the list order is
the order in which `batch` lists the rows; the cached batch of the code is not state of its own.

An `IncrementalView` holds two such states: the materialized `snapshot` and `fullOutput`, the
baseline the next full result is diffed against. `ViewState.applyWith_spec` is the one fact the rest
uses: whichever representation is in force, `apply` leaves `max (count + net) 0` copies.
-/

namespace Krishiv.Delta

open List ZSet ZSet Except Prod

/-! ## `SnapshotIndex` -/

structure SnapshotIndex where
  schema : Schema
  counts : List (Row × ℤ)
  rows : ℕ
  encodable : schema.types.all DataType.rowEncodable = true
  positive : ZSet.Positive counts
  counted : (rows : ℤ) = (counts.map Prod.snd).sum

variable {cons : DeltaBatch → DeltaResult DeltaBatch} {idx : SnapshotIndex} {b : RecordBatch} {schema : Schema}

namespace SnapshotIndex

def new (schema : Schema) : Option SnapshotIndex :=
  if h : schema.types.all DataType.rowEncodable = true then
    some { schema := schema, counts := [], rows := 0, encodable := h, positive := ⟨by simp, by simp⟩, counted := rfl }
  else none

/-- The stored multiplicity of a row, if any. -/
def get (idx : SnapshotIndex) (row : Row) : Option ℤ :=
  (idx.counts.find? fun p => p.1 = row).map Prod.snd

section

variable (idx : SnapshotIndex)

lemma get_eq (r : Row) : (idx.get r).getD 0 = weight idx.counts r := getD_find? idx.positive.nodup r

lemma counted_clampAdd (p : Row × ℤ) :
    ((idx.rows + ((idx.get p.1).getD 0 + p.2).toNat - ((idx.get p.1).getD 0).toNat : ℕ) : ℤ) =
      ((clampAdd p.1 p.2 idx.counts).map snd).sum := by
  have hsum := sum_clampAdd idx.positive p.1 p.2
  have hnonneg : 0 ≤ ((clampAdd p.1 p.2 idx.counts).map snd).sum := by
    rw [← length_expand (idx.positive.clampAdd p.1 p.2).pos]
    exact Int.natCast_nonneg _
  have hbefore := idx.positive.weight_nonneg p.1
  have hrows := idx.counted
  rw [get_eq]
  omega

/-- One settled row: add its weight, and count what had nothing to cancel. -/
def applyRow (acc : SnapshotIndex × ℕ) (p : Row × ℤ) : SnapshotIndex × ℕ :=
  let idx := acc.1
  let before := (idx.get p.1).getD 0
  let after := before + p.2
  ({ idx with
     counts := ZSet.clampAdd p.1 p.2 idx.counts
     rows := idx.rows + after.toNat - before.toNat
     positive := idx.positive.clampAdd p.1 p.2
     counted := idx.counted_clampAdd p },
   acc.2 + (-after).toNat)

/-- Apply a delta and return how many retracted rows were clamped. -/
def apply (consolidate : DeltaBatch → DeltaResult DeltaBatch) (idx : SnapshotIndex) (delta : DeltaBatch) :
    DeltaResult (SnapshotIndex × ℕ) :=
  if delta.rows.isEmpty then .ok (idx, 0)
  else if delta.schema ≠ idx.schema then
    .error (.schemaMismatch "delta schema differs from the accumulated snapshot's")
  else do
    -- net the delta against itself before any clamping
    let settled ← consolidate delta
    .ok (settled.rows.foldl applyRow (idx, 0))

def fromBatch (consolidate : DeltaBatch → DeltaResult DeltaBatch) (schema : Schema) (b : RecordBatch) :
    Option SnapshotIndex := do
  let idx ← new schema
  match idx.apply consolidate (DeltaBatch.fromInserts b) with
  | .ok (idx, _) => some idx
  | .error _ => none

def batch (idx : SnapshotIndex) : RecordBatch := ⟨idx.schema, ZSet.expand idx.counts⟩

lemma count_batch (r : Row) : (idx.batch.count r : ℤ) = weight idx.counts r := by
  have h := count_expand idx.positive.nodup r
  have hnn := idx.positive.weight_nonneg r
  simp only [batch, RecordBatch.count, h]
  omega

lemma numRows_batch : (idx.batch.numRows : ℤ) = idx.rows := by
  rw [idx.counted]
  exact length_expand idx.positive.pos

end

lemma new_spec (h : new schema = some idx) : (∀ r, idx.batch.count r = 0) ∧ idx.schema = schema := by
  unfold new at h
  split at h
  · cases h
    exact ⟨fun _ => rfl, rfl⟩
  · cases h

/-- Folding settled rows: every row ends at the clamped sum of its old count and its weight. -/
private lemma foldl_applyRow (l : List (Row × ℤ)) (hn : (l.map fst).Nodup)
    (acc : SnapshotIndex × ℕ) : (l.foldl applyRow acc).1.schema = acc.1.schema ∧
    ((l.foldl applyRow acc).1.rows : ℤ) - (l.foldl applyRow acc).2 = acc.1.rows - acc.2 + (l.map snd).sum ∧
    ∀ r, weight (l.foldl applyRow acc).1.counts r = if r ∈ l.map fst then max (weight acc.1.counts r + weight l r) 0
      else weight acc.1.counts r := by
  induction l generalizing acc with
  | nil => simp
  | cons p l ih =>
    simp only [map_cons, nodup_cons] at hn
    obtain ⟨hschema, hrows, hw⟩ := ih hn.2 (applyRow acc p)
    refine ⟨hschema, ?_, fun r => ?_⟩
    · have hcounted := (applyRow acc p).1.counted
      have hsum := sum_clampAdd acc.1.positive p.1 p.2
      have hclamped : (applyRow acc p).2 = acc.2 + (-(weight acc.1.counts p.1 + p.2)).toNat := by
        rw [← get_eq]
        rfl
      have hold := acc.1.counted
      change _ = ((clampAdd p.1 p.2 acc.1.counts).map snd).sum at hcounted
      rw [foldl_cons, map_cons, sum_cons]
      omega
    have hstep : weight (applyRow acc p).1.counts r =
        if p.1 = r then max (weight acc.1.counts r + p.2) 0 else weight acc.1.counts r :=
      weight_clampAdd acc.1.positive p.1 p.2 r
    rw [foldl_cons, hw r, hstep]
    have hcons : weight (p :: l) r = (if p.1 = r then p.2 else 0) + weight l r := rfl
    rw [hcons]
    by_cases hr : p.1 = r
    · subst hr
      simp [weight_eq_zero_of_notMem hn.1]
    · have hr' : r ≠ p.1 := Ne.symm hr
      simp only [map_cons, mem_cons, hr', false_or, if_neg hr, zero_add]

lemma apply_spec {idx' : SnapshotIndex} {delta : DeltaBatch} {clamped : ℕ} (hcons : Settles cons delta)
    (h : idx.apply cons delta = .ok (idx', clamped)) : idx'.schema = idx.schema ∧
      (idx'.rows : ℤ) = idx.rows + (delta.rows.map snd).sum + clamped ∧
      ∀ r, idx'.batch.count r = (idx.batch.count r + delta.net r).toNat := by
  unfold apply at h
  split at h
  · next he =>
    cases h
    refine ⟨rfl, ?_, fun r => ?_⟩
    · rw [List.isEmpty_iff.mp he]
      simp
    · rw [DeltaBatch.net_of_isEmpty he]
      omega
  split at h
  · cases h
  obtain ⟨settled, hs, h⟩ := bind_eq_ok_iff.mp h
  obtain ⟨hschema, hrows, hw⟩ := foldl_applyRow (consolidate delta.rows) (nodup_keys_consolidate _) (idx, 0)
  rw [← hcons.rows hs, ok.inj h] at hschema hrows hw
  refine ⟨hschema, ?_, fun r => ?_⟩
  · rw [hcons.rows hs, sum_consolidate] at hrows
    simp only [Nat.cast_zero] at hrows
    omega
  have hold := count_batch idx r
  have hnew := count_batch idx' r
  have hnet : weight settled.rows r = delta.net r := by
    rw [hcons.rows hs, weight_consolidate]
    rfl
  rw [hw r, hnet] at hnew
  dsimp only at hnew
  split at hnew
  · omega
  · next hmem =>
    rw [weight_eq_zero_of_notMem hmem] at hnet
    omega

lemma fromBatch_spec (hcons : Settles cons (.fromInserts b)) (h : fromBatch cons schema b = some idx) :
    idx.schema = schema ∧ ∀ r, idx.batch.count r = b.count r := by
  unfold fromBatch at h
  rw [Option.bind_eq_bind, Option.bind_eq_some_iff] at h
  obtain ⟨idx0, h0, h⟩ := h
  obtain ⟨hzero, hschema0⟩ := new_spec h0
  split at h
  · next happ =>
    cases h
    obtain ⟨hschema, -, hcount⟩ := apply_spec hcons happ
    refine ⟨hschema.trans hschema0, fun r => ?_⟩
    rw [hcount, hzero]
    simp
  · cases h

end SnapshotIndex

open SnapshotIndex

/-! ## `ViewState` -/

inductive ViewState where
  | empty
  | indexed (idx : SnapshotIndex)
  | raw (batch : RecordBatch)

variable {d : DeltaBatch}

namespace ViewState

def batch : ViewState → Option RecordBatch
  | .empty => none
  | .indexed idx => some idx.batch
  | .raw b => some b

/-- Rows by which a materialized relation exceeds what the weights add up to. -/
def clampedRows (prev : Option RecordBatch) (delta : DeltaBatch) (updated : RecordBatch) : ℕ :=
  ((updated.numRows : ℤ) - ((prev.map RecordBatch.numRows).getD 0 + (delta.rows.map Prod.snd).sum)).toNat

section

variable (consolidate : DeltaBatch → DeltaResult DeltaBatch)

/-- The whole-snapshot path: the state becomes the plain batch `apply_delta` returns. -/
def applyWhole (prev : Option RecordBatch) (delta : DeltaBatch) : DeltaResult (ViewState × ℕ) := do
  let updated ← applyDeltaWith consolidate prev delta
  .ok (.raw updated, clampedRows prev delta updated)

/-- The indexed path. -/
def applyIndex (idx : SnapshotIndex) (delta : DeltaBatch) : DeltaResult (ViewState × ℕ) := do
  let (idx, clamped) ← idx.apply consolidate delta
  .ok (.indexed idx, clamped)

/-- A drifted delta schema falls back to the whole-snapshot path. -/
def applyDrifted (idx : SnapshotIndex) (prev : RecordBatch) (delta : DeltaBatch) : DeltaResult (ViewState × ℕ) :=
  match applyIndex consolidate idx delta with
  | .error (.schemaMismatch _) => applyWhole consolidate (some prev) delta
  | other => other

def applyWith (s : ViewState) (schema : Schema) (delta : DeltaBatch) : DeltaResult (ViewState × ℕ) :=
  match s with
  | .empty =>
    match SnapshotIndex.new (if delta.schema.isEmpty then schema else delta.schema) with
    | some idx => applyIndex consolidate idx delta
    | none => applyWhole consolidate none delta
  | .indexed idx => applyDrifted consolidate idx idx.batch delta
  | .raw prev =>
    match SnapshotIndex.fromBatch consolidate prev.schema prev with
    | some idx => applyDrifted consolidate idx prev delta
    | none => applyWhole consolidate (some prev) delta

def setWith (schema : Schema) : Option RecordBatch → ViewState
  | none => .empty
  | some b =>
    match SnapshotIndex.fromBatch consolidate schema b with
    | some idx => .indexed idx
    | none => .raw b

end

def apply : ViewState → Schema → DeltaBatch → DeltaResult (ViewState × ℕ) := applyWith consolidateBatch

def set : Schema → Option RecordBatch → ViewState := setWith consolidateBatch

def setRaw : Option RecordBatch → ViewState
  | none => .empty
  | some b => .raw b

/-- How often a row occurs in the state's relation. -/
def count (s : ViewState) (r : Row) : ℕ := countOf s.batch r

@[simp] lemma batch_setRaw (b : Option RecordBatch) : (setRaw b).batch = b := by
  cases b <;> rfl

variable {delta : DeltaBatch} {clamped : ℕ} {prev : Option RecordBatch} {b' : RecordBatch} {s s' : ViewState}

lemma setWith_spec (hcons : Settles cons (.fromInserts b)) : ∃ b', (setWith cons schema (some b)).batch = some b' ∧
    (∀ r, b'.count r = b.count r) ∧ (b'.schema = schema ∨ b'.schema = b.schema) := by
  unfold setWith
  dsimp only
  split
  · next h =>
    obtain ⟨hschema, hcount⟩ := fromBatch_spec hcons h
    exact ⟨_, rfl, hcount, .inl hschema⟩
  · exact ⟨_, rfl, fun _ => rfl, .inr rfl⟩

section

variable (schema : Schema) (b : Option RecordBatch)

lemma count_set (hb : ∀ x, b = some x → (DeltaBatch.fromInserts x).Apart .plain) (r : Row) :
    (set schema b).count r = countOf b r := by
  cases b with
  | none => rfl
  | some b =>
    obtain ⟨_, hset, hcount, -⟩ := @setWith_spec _ b schema (settles_of_apart (hb b rfl))
    exact (congrArg (countOf · r) hset).trans (hcount r)

end

lemma numRows_congr (h : ∀ r, b.count r = b'.count r) : b.numRows = b'.numRows :=
  (ZSet.perm_iff_count.mpr h).length_eq

/-- What a relation is after a delta, and how many retracted rows had nothing to cancel. -/
structure Becomes (schema : Schema) (prev : Option RecordBatch) (delta : DeltaBatch) (clamped : ℕ) (b : RecordBatch) :
    Prop where
  count : ∀ r, b.count r = (countOf prev r + delta.net r).toNat
  clamped_eq : clamped = clampedRows prev delta b
  schema_eq : b.schema = schema ∨ b.schema = delta.schema ∨ prev.map RecordBatch.schema = some b.schema

/-- Consolidation merges equal rows only in the batches that a delta to the relation makes. -/
structure SettlesSums (cons : DeltaBatch → DeltaResult DeltaBatch) (prev : Option RecordBatch) (delta : DeltaBatch) :
    Prop where
  alone : Settles cons delta
  before : ∀ b, prev = some b → Settles cons (.fromInserts b)
  sum : ∀ m, summed prev delta = .ok m → Settles cons m

lemma applyWhole_spec (hcons : SettlesSums cons prev delta) (h : applyWhole cons prev delta = .ok (s', clamped)) :
    ∃ b, s'.batch = some b ∧ Becomes schema prev delta clamped b := by
  obtain ⟨updated, hu, h⟩ := bind_eq_ok_iff.mp h
  cases h
  obtain ⟨hschema, hcount⟩ := applyDeltaWith_spec hcons.sum hu
  exact ⟨updated, rfl, hcount, rfl, .inr hschema⟩

lemma applyIndex_spec {idx : SnapshotIndex} (hcons : Settles cons delta)
    (hrows : (prev.map RecordBatch.numRows).getD 0 = idx.batch.numRows)
    (hcount : ∀ r, countOf prev r = idx.batch.count r) (h : applyIndex cons idx delta = .ok (s', clamped)) :
    ∃ b, s'.batch = some b ∧ (∀ r, b.count r = (countOf prev r + delta.net r).toNat) ∧
      clamped = clampedRows prev delta b ∧ b.schema = idx.schema := by
  obtain ⟨⟨idx', c⟩, hu, h⟩ := bind_eq_ok_iff.mp h
  cases h
  obtain ⟨hschema, hclamped, hnew⟩ := apply_spec hcons hu
  refine ⟨idx'.batch, rfl, fun r => by rw [hcount, hnew], ?_, hschema⟩
  have hold := idx.numRows_batch
  have hnow := idx'.numRows_batch
  rw [clampedRows, hrows]
  omega

/-- Index with fall-back to the whole-snapshot path. -/
lemma applyDrifted_spec (hcons : SettlesSums cons (some b) delta) (hschema : idx.schema = b.schema)
    (hcount : ∀ r, idx.batch.count r = b.count r) (h : applyDrifted cons idx b delta = .ok (s', clamped)) :
    ∃ b', s'.batch = some b' ∧ Becomes schema (some b) delta clamped b' := by
  unfold applyDrifted at h
  split at h
  · exact applyWhole_spec hcons h
  · obtain ⟨b', hb', hnew, hclamped, hsch⟩ := @applyIndex_spec _ _ _ (some b) _ _ hcons.alone
      (numRows_congr fun r => (hcount r).symm) (fun r => (hcount r).symm) h
    exact ⟨b', hb', hnew, hclamped, .inr (.inr (congrArg some (hschema.symm.trans hsch.symm)))⟩

/-- `apply` leaves the clamped sum, and a state that has been applied to is set. -/
lemma applyWith_spec (hcons : SettlesSums cons s.batch delta)
    (h : s.applyWith cons schema delta = .ok (s', clamped)) :
    ∃ b, s'.batch = some b ∧ Becomes schema s.batch delta clamped b := by
  cases s with
  | empty =>
    simp only [applyWith] at h
    split at h
    · next idx hidx =>
      obtain ⟨hzero, hschema⟩ := new_spec hidx
      have hnone : idx.batch.rows = [] := eq_nil_of_count hzero
      obtain ⟨b, hb, hcount, hclamped, hsch⟩ := @applyIndex_spec _ _ _ none _ _ hcons.alone
        (by rw [RecordBatch.numRows, hnone]; rfl) (fun r => (hzero r).symm) h
      refine ⟨b, hb, hcount, hclamped, ?_⟩
      rw [hsch, hschema]
      split
      exacts [.inl rfl, .inr (.inl rfl)]
    · exact applyWhole_spec hcons h
  | indexed idx => exact applyDrifted_spec hcons rfl (fun _ => rfl) h
  | raw prev =>
    simp only [applyWith] at h
    split at h
    · next idx hidx =>
      obtain ⟨hschema, hcount⟩ := fromBatch_spec (hcons.before prev rfl) hidx
      exact applyDrifted_spec hcons hschema hcount h
    · exact applyWhole_spec hcons h

/-- Without a delta only the rows before it are merged. -/
lemma settlesSums_of_isEmpty (h : RowsApart (prev.map DeltaBatch.fromInserts).toList) (hd : delta.isEmpty = true) :
    SettlesSums consolidateBatch prev delta := by
  have hnil : delta.rows = [] := List.isEmpty_iff.mp hd
  have hdelta : Settles consolidateBatch delta := settles_of_apart fun r hr => by
    rw [hnil] at hr
    cases hr
  have hprev : ∀ b m, prev = some b → m.schema = b.schema → m.rows = (DeltaBatch.fromInserts b).rows →
      Settles consolidateBatch m := by
    intro b m hb hschema hrows
    refine settles_of_apart (h.apart ⟨.fromInserts b, by simp [hb], hschema.symm⟩ fun p hp => ?_)
    exact ⟨.fromInserts b, by simp [hb], List.mem_map_of_mem (hrows ▸ hp)⟩
  refine ⟨hdelta, fun b hb => hprev b _ hb rfl rfl, fun m hm => ?_⟩
  cases prev with
  | none =>
    cases hm
    exact hdelta
  | some b =>
    simp only [summed] at hm
    split at hm
    · cases hm
      exact hdelta
    · simp only [DeltaBatch.concat] at hm
      split at hm
      · cases hm
      · cases hm
        exact hprev b _ rfl rfl (by simp [hnil])

/-- Rows with keys of their own are merged only if they are equal. -/
lemma settlesSums_of_rowsApart (h : RowsApart ((prev.map DeltaBatch.fromInserts).toList ++ [delta])) :
    SettlesSums consolidateBatch prev delta := by
  have hself : ∀ {b}, b ∈ (prev.map DeltaBatch.fromInserts).toList ++ [delta] → Settles consolidateBatch b :=
    fun hb => settles_of_apart (h.apart ⟨_, hb, rfl⟩ fun p hp => ⟨_, hb, List.mem_map_of_mem hp⟩)
  have hdelta := hself (List.mem_append_right _ (List.mem_singleton_self delta))
  refine ⟨hdelta, fun b hb => hself (by simp [hb]), fun m hm => ?_⟩
  cases prev with
  | none =>
    cases hm
    exact hdelta
  | some b =>
    simp only [summed] at hm
    split at hm
    · cases hm
      exact hdelta
    · exact settles_of_apart (h.concat (fun _ h => h) hm)

lemma apply_spec (hcons : SettlesSums consolidateBatch s.batch delta) (h : s.apply schema delta = .ok (s', clamped)) :
    s'.batch.isSome ∧ ∀ r, s'.count r = (s.count r + delta.net r).toNat := by
  obtain ⟨b, hb, hnew⟩ := applyWith_spec hcons h
  exact ⟨Option.isSome_of_eq_some hb, fun r => (congrArg (countOf · r) hb).trans (hnew.count r)⟩

/-- A delta is applied where its columns can be consolidated, unless the rows there are have other types. -/
lemma applyWith_total (hlen : d.schema.length = schema.length)
    (hcons : ∃ c, cons d = .ok c) (hsum : ∀ m, summed s.batch d = .ok m → ∃ c, cons m = .ok c)
    (ht : ∀ b, s.batch = some b → b.rows.isEmpty = true ∨ b.schema.shape = d.schema.shape) :
    ∃ r, s.applyWith cons schema d = .ok r := by
  have hwhole : ∃ r, applyWhole cons s.batch d = .ok r := by
    obtain ⟨b, hb⟩ : ∃ b, applyDeltaWith cons s.batch d = .ok b := applyDeltaWith_total ht fun m _ => hsum m
    simp only [applyWhole, hb, bind, bind]
    exact ⟨_, rfl⟩
  -- an index takes the delta in, or hands it to the path above
  have hindex : ∀ idx : SnapshotIndex, (∃ r, applyIndex cons idx d = .ok r) ∨
      d.schema ≠ idx.schema ∧ ∃ m, applyIndex cons idx d = .error (.schemaMismatch m) := by
    intro idx
    unfold applyIndex SnapshotIndex.apply
    split
    · exact .inl ⟨_, rfl⟩
    split
    · next hne => exact .inr ⟨hne, _, rfl⟩
    · obtain ⟨c, hc⟩ := hcons
      simp only [hc, bind, bind]
      exact .inl ⟨_, rfl⟩
  have hbatch : ∀ (idx : SnapshotIndex) (prev : RecordBatch), s.batch = some prev →
      ∃ r, applyDrifted cons idx prev d = .ok r := by
    intro idx prev hprev
    unfold applyDrifted
    rcases hindex idx with ⟨r, hok⟩ | ⟨-, m, herr⟩
    · rw [hok]
      exact ⟨r, rfl⟩
    · rw [herr]
      exact hprev ▸ hwhole
  cases s with
  | empty =>
    simp only [applyWith]
    split
    · next idx hidx =>
      -- the index of an empty state has the schema of the delta
      refine (hindex idx).resolve_right fun h => h.1 ?_
      rw [(new_spec hidx).2]
      split
      · next he =>
        rw [List.isEmpty_iff] at he
        rw [he, length_nil] at hlen
        rw [he, eq_nil_of_length_eq_zero hlen.symm]
      · rfl
    · exact hwhole
  | indexed idx => exact hbatch idx idx.batch rfl
  | raw prev =>
    simp only [applyWith]
    split
    · next idx _ => exact hbatch idx prev rfl
    · exact hwhole

end ViewState

open ViewState

/-! ## `IncrementalView` -/

/-- One `LATENESS` bound: a timestamp column and how far behind its maximum a row may be. -/
structure LatenessSpec where
  column : String
  latenessMs : ℤ
deriving DecidableEq, Repr

structure IncrementalViewSpec where
  name : String
  bodySql : String
  outputSchema : Schema
  isMaterialized : Bool
  isRecursive : Bool
  lateness : List LatenessSpec
deriving DecidableEq, Repr

structure IncrementalView where
  spec : IncrementalViewSpec
  lastOutput : Option DeltaBatch
  snapshotState : ViewState
  fullOutput : ViewState
  clampedRetractions : ℕ

namespace IncrementalView

def new (spec : IncrementalViewSpec) : IncrementalView where
  spec := spec
  lastOutput := none
  snapshotState := .empty
  fullOutput := .empty
  clampedRetractions := 0

/-- The materialized relation, absent until something was published. -/
def snapshot (v : IncrementalView) : Option RecordBatch := v.snapshotState.batch

def fullOutputBaseline (v : IncrementalView) : Option RecordBatch := v.fullOutput.batch

section

variable (consolidate : DeltaBatch → DeltaResult DeltaBatch)

/-- The full-result path: integrate the delta into the snapshot and set the baseline from it. -/
def publishOutputWith (v : IncrementalView) (output : DeltaBatch) : IncrementalView × DeltaResult Unit :=
  let v := { v with lastOutput := some output }
  if v.spec.isMaterialized then
    match v.snapshotState.applyWith consolidate v.spec.outputSchema output with
    | .error e => (v, .error e)
    | .ok (snap, clamped) =>
      ({ v with snapshotState := snap, fullOutput := .setRaw snap.batch,
                clampedRetractions := v.clampedRetractions + clamped }, .ok ())
  else (v, .ok ())

/-- Diff a fresh full result against the baseline and advance the baseline to it. -/
def diffAndUpdateWith (v : IncrementalView) (newFull : RecordBatch) : IncrementalView × DeltaResult DeltaBatch :=
  match differentiate v.spec.outputSchema v.fullOutput.batch newFull with
  | .error e => (v, .error e)
  | .ok delta => ({ v with fullOutput := .setWith consolidate v.spec.outputSchema (some newFull) }, .ok delta)

/-- Replace the state by a fresh full result. -/
def replaceFull (v : IncrementalView) (newFull : RecordBatch) : IncrementalView × DeltaResult DeltaBatch :=
  match v.diffAndUpdateWith consolidate newFull with
  | (v, .error e) => (v, .error e)
  | (v, .ok delta) =>
    let snap := if v.spec.isMaterialized then .setWith consolidate v.spec.outputSchema (some newFull) else v.snapshotState
    ({ v with snapshotState := snap, lastOutput := some delta }, .ok delta)

/-- The incremental path: integrate the delta into the baseline, then into the snapshot. -/
def applyOutputDeltaWith (v : IncrementalView) (delta : DeltaBatch) : IncrementalView × DeltaResult Unit :=
  match v.fullOutput.applyWith consolidate v.spec.outputSchema delta with
  | .error e => (v, .error e)
  | .ok (full, clamped) =>
    let v := { v with fullOutput := full, clampedRetractions := v.clampedRetractions + clamped }
    if v.spec.isMaterialized then
      match v.snapshotState.applyWith consolidate v.spec.outputSchema delta with
      | .error e => (v, .error e)
      | .ok (snap, _) => ({ v with snapshotState := snap, lastOutput := some delta }, .ok ())
    else ({ v with lastOutput := some delta }, .ok ())

def restoreStateWith (v : IncrementalView) (snapshot fullOutput : Option RecordBatch) : IncrementalView :=
  { v with snapshotState := .setWith consolidate v.spec.outputSchema snapshot
           fullOutput := .setWith consolidate v.spec.outputSchema fullOutput }

end

def publishOutput : IncrementalView → DeltaBatch → IncrementalView × DeltaResult Unit :=
  publishOutputWith consolidateBatch

def diffAndUpdate : IncrementalView → RecordBatch → IncrementalView × DeltaResult DeltaBatch :=
  diffAndUpdateWith consolidateBatch

def applyOutputDelta : IncrementalView → DeltaBatch → IncrementalView × DeltaResult Unit :=
  applyOutputDeltaWith consolidateBatch

def restoreState : IncrementalView → Option RecordBatch → Option RecordBatch → IncrementalView :=
  restoreStateWith consolidateBatch

def resetFullOutput (v : IncrementalView) : IncrementalView :=
  { v with fullOutput := .set v.spec.outputSchema none }

def resetState (v : IncrementalView) : IncrementalView :=
  { v with fullOutput := .set v.spec.outputSchema none
           snapshotState := .set v.spec.outputSchema none }

/-- How often a row occurs in the view's snapshot. -/
def count (v : IncrementalView) (r : Row) : ℕ := v.snapshotState.count r

@[simp] lemma diffAndUpdate_spec_snapshot (v : IncrementalView) (b : RecordBatch) :
    (v.diffAndUpdate b).1.spec = v.spec ∧ (v.diffAndUpdate b).1.snapshotState = v.snapshotState ∧
      (v.diffAndUpdate b).1.lastOutput = v.lastOutput := by
  unfold diffAndUpdate diffAndUpdateWith
  split <;> simp

variable {v v' : IncrementalView}

/-- A successful diff is the difference to the baseline, and the baseline is the new result. -/
lemma diffAndUpdate_ok (hb : (DeltaBatch.fromInserts b).Apart .plain) (h : v.diffAndUpdate b = (v', .ok d)) :
    (∀ r, d.net r = b.count r - v.fullOutput.count r) ∧ ∀ r, v'.fullOutput.count r = b.count r := by
  unfold diffAndUpdate diffAndUpdateWith at h
  split at h
  · cases h
  · next hd =>
    cases h
    exact ⟨differentiate_net hd, count_set _ (some b) fun x hx => Option.some.inj hx ▸ hb⟩

/-- The rows of the snapshot, as a batch. -/
def snapshotParts (v : IncrementalView) : List DeltaBatch := (v.snapshot.map DeltaBatch.fromInserts).toList

/-- The rows of the snapshot and of the baseline. -/
def parts (v : IncrementalView) : List DeltaBatch :=
  v.snapshotParts ++ (v.fullOutput.batch.map DeltaBatch.fromInserts).toList

/-- The difference to a result of rows with keys of their own can be published. -/
lemma settlesSums_of_diff (hapart : RowsApart (v.parts ++ [.fromInserts b])) (h : v.diffAndUpdate b = (v', .ok d)) :
    SettlesSums consolidateBatch v.snapshot d := by
  unfold diffAndUpdate diffAndUpdateWith at h
  split at h
  · cases h
  next hd =>
  cases h
  cases hempty : d.isEmpty with
  | true =>
    refine settlesSums_of_isEmpty (hapart.mono fun x hx => ?_) hempty
    exact List.mem_append_left _ (List.mem_append_left _ hx)
  | false =>
    have hsub : (v.fullOutput.batch.map DeltaBatch.fromInserts).toList ++ [DeltaBatch.fromInserts b] ⊆
        v.parts ++ [DeltaBatch.fromInserts b] := by
      intro x hx
      rcases List.mem_append.mp hx with hx | hx
      · exact List.mem_append_left _ (List.mem_append_right _ hx)
      · exact List.mem_append_right _ hx
    obtain ⟨⟨x, hx, hschema⟩, hrows⟩ := differentiate_made hd hempty
    refine settlesSums_of_rowsApart (hapart.made (fun c hc => ?_) fun c hc p hp => ?_)
    all_goals rcases List.mem_append.mp hc with hc | hc
    · exact ⟨c, List.mem_append_left _ (List.mem_append_left _ hc), rfl⟩
    · rw [List.mem_singleton.mp hc]
      exact ⟨x, hsub hx, hschema⟩
    · exact ⟨c, List.mem_append_left _ (List.mem_append_left _ hc), List.mem_map_of_mem hp⟩
    · rw [List.mem_singleton.mp hc] at hp
      obtain ⟨y, hy, hmem⟩ := hrows p hp
      exact ⟨y, hsub hy, hmem⟩

/-- Publishing a full-result delta: snapshot and baseline both become the clamped sum. -/
lemma publishOutput_ok (h : v.publishOutput d = (v', .ok ())) : v'.spec = v.spec ∧ if v.spec.isMaterialized then
      (SettlesSums consolidateBatch v.snapshot d →
        v'.snapshot.isSome ∧ ∀ r, v'.count r = (v.count r + d.net r).toNat) ∧ v'.fullOutput.batch = v'.snapshot
    else v'.snapshotState = v.snapshotState ∧ v'.fullOutput = v.fullOutput := by
  unfold publishOutput publishOutputWith at h
  dsimp only at h
  split at h
  · next hm =>
    split at h
    · cases h
    next happ =>
    cases h
    refine ⟨rfl, ?_⟩
    rw [if_pos hm]
    exact ⟨fun hcons => apply_spec hcons happ, batch_setRaw _⟩
  · next hm =>
    cases h
    refine ⟨rfl, ?_⟩
    rw [if_neg hm]
    exact ⟨rfl, rfl⟩

/-- Publishing an operator's delta: a snapshot that is kept takes the clamped sum. -/
lemma applyOutputDelta_ok (h : v.applyOutputDelta d = (v', .ok ())) (hm : v.spec.isMaterialized = true)
    (hcons : SettlesSums consolidateBatch v.snapshot d) (r : Row) : v'.count r = (v.count r + d.net r).toNat := by
  unfold applyOutputDelta applyOutputDeltaWith at h
  split at h
  · cases h
  dsimp only at h
  rw [if_pos hm] at h
  split at h
  · cases h
  next hsnap =>
  cases h
  exact (apply_spec hcons hsnap).2 r

end IncrementalView

end Krishiv.Delta
