import Mathlib.Data.List.Sort
import Krishiv.Delta.RowKeys

/-!
# The trace of an incremental operator

A trace holds the batches an operator was fed, on eight levels: a level that has four batches is
consolidated into one batch of the next level. It is probed by key, through an index of key hashes in
each batch; a candidate that only shares the hash is dropped again.

What a trace stands for is the sum of its batches (`Trace.zset`). Inserting a batch adds it
(`insert_zset`) and probing selects the rows with one of the keys (`probeByKeys_eq`), as long as the rows
that consolidation identifies are the same rows (`Distinct`).

Row numbers are not bounded here; the index refuses a batch of more than 2³² rows. The index is built anew
for every probe, where the source keeps it with the batch and drops it when the batch changes.
-/

namespace Krishiv.Delta

open List Except ZSet DeltaBatch List DeltaBatch

/-! ## Columns -/

def colIndices (s : Schema) (names : List String) : DeltaResult (List ℕ) :=
  names.mapM fun name =>
    match s.indexOf name with
    | some i => .ok i
    | none => .error (.columnNotFound name)

variable (F : FloatFormat)

def DeltaBatch.dropZeros (d : DeltaBatch) : DeltaBatch := d.filterMask fun p => p.2 ≠ 0

/-! ## The index of a batch -/

/-- By hash, then by row number. -/
def pairLe (a b : ℕ × ℕ) : Prop := a.1 < b.1 ∨ a.1 = b.1 ∧ a.2 ≤ b.2

instance : DecidableRel pairLe := fun a b =>
  inferInstanceAs (Decidable (a.1 < b.1 ∨ a.1 = b.1 ∧ a.2 ≤ b.2))

/-- Key hashes and row numbers, ascending. -/
structure KeyIndex where
  pairs : List (ℕ × ℕ)

def KeyIndex.build (hash : List Text → ℕ) (keys : List (List Text)) : KeyIndex :=
  ⟨((keys.map hash).zipIdx).insertionSort pairLe⟩

/-- The rows between the two partition points of `h`. -/
def KeyIndex.candidates (index : KeyIndex) (h : ℕ) : List ℕ :=
  ((index.pairs.dropWhile fun p => p.1 < h).takeWhile fun p => p.1 ≤ h).map Prod.snd

/-! ## Traces -/

def numLevels : ℕ := 8

def mergeThreshold : ℕ := 4

structure Trace where
  schema : Schema
  keyCols : List ℕ
  latenessCol : Option ℕ
  levels : List (List DeltaBatch)

/-- Put a batch on the first of some levels. A level that is full moves up in one batch, or stays as it
is if it cannot be consolidated; the last level keeps its batch. -/
def cascadeMerge : List (List DeltaBatch) → DeltaBatch → List (List DeltaBatch)
  | [], _ => []
  | level :: above, batch =>
    let batches := level ++ [batch]
    if batches.length < mergeThreshold then batches :: above
    else
      match DeltaBatch.concat batches >>= consolidateByKey F with
      | .error _ => batches :: above
      | .ok merged => if above = [] then [[merged]] else [] :: cascadeMerge above merged

namespace Trace

def new (schema : Schema) (keyColumns : List String) : DeltaResult Trace := do
  let keyCols ← colIndices schema keyColumns
  .ok ⟨schema, keyCols, none, List.replicate numLevels []⟩

def withLatenessColumn (t : Trace) (name : String) : DeltaResult Trace :=
  match t.schema.indexOf name with
  | some i => .ok { t with latenessCol := some i }
  | none => .error (.columnNotFound name)

def insert (t : Trace) (batch : DeltaBatch) : Trace :=
  if batch.isEmpty then t else { t with levels := cascadeMerge F t.levels batch }

def batches (t : Trace) : List DeltaBatch := t.levels.flatten

/-- The rows of one batch with one of the keys, in order. -/
def probeBatch (hash : List Text → ℕ) (t : Trace) (keySet : List (List Text)) (batch : DeltaBatch) :
    DeltaResult (Option DeltaBatch) := do
  let keys ← batch.rows.mapM fun p => extractGroupKey F batch.schema t.keyCols p.1
  let index := KeyIndex.build hash keys
  let probeHashes := (keySet.map hash).dedup
  let candidates := ((probeHashes.flatMap index.candidates).insertionSort (· ≤ ·)).dedup
  -- a candidate with the hash of a key need not have the key
  let matched := candidates.filter fun i => keys.getD i [] ∈ keySet
  if matched.isEmpty then .ok none
  else .ok (some ⟨batch.schema, matched.filterMap fun i => batch.rows[i]?⟩)

/-- The rows whose key is one of `keys`, a batch of the key columns in order. -/
def probeByKeys (hash : List Text → ℕ) (t : Trace) (keys : RecordBatch) : DeltaResult DeltaBatch :=
  if keys.numRows = 0 then .ok (.empty t.schema)
  else do
    let keySet ← keys.rows.mapM (extractGroupKey F keys.schema (List.range t.keyCols.length))
    let results ← t.batches.mapM (probeBatch F hash t keySet)
    let found := results.filterMap id
    if found.isEmpty then .ok (.empty t.schema)
    else do
      let merged ← DeltaBatch.concat found
      .ok merged.dropZeros

/-! ## Garbage collection -/

/-- A lateness value in milliseconds since the epoch. -/
def latenessMs : DataType → Option (ℤ → ℤ)
  | .int64 | .timestampMillisecond | .date64 => some id
  | .timestampMicrosecond => some fun x => x.tdiv 1000
  | .timestampSecond => some fun x => max (-2 ^ 63) (min (2 ^ 63 - 1) (x * 1000))
  | .timestampNanosecond => some fun x => x.tdiv 1000000
  | .date32 => some fun x => x * 86400000
  | _ => none

/-- Whether a row is kept: late values go, nulls stay. -/
def keepsRow (watermarkMs : ℤ) (toMs : ℤ → ℤ) (col : ℕ) (r : Row) : Bool :=
  match cell r col with
  | .int i => watermarkMs ≤ toMs i
  | _ => true

def gcBatch (watermarkMs : ℤ) (col : ℕ) (batch : DeltaBatch) : DeltaBatch :=
  match (batch.schema[col]?).bind fun f => latenessMs f.dataType with
  | none => batch
  | some toMs => batch.filterMask fun p => keepsRow watermarkMs toMs col p.1

/-- Drop the rows below the watermark, and count them. -/
def gcBelowWatermark (t : Trace) (watermarkMs : ℤ) : Trace × ℕ :=
  match t.latenessCol with
  | none => (t, 0)
  | some col =>
    let levels := t.levels.map (List.map (gcBatch watermarkMs col))
    ({ t with levels := levels },
      (t.batches.map DeltaBatch.numRows).sum - (levels.flatten.map DeltaBatch.numRows).sum)

/-- The rows of a batch that the watermark drops. -/
def expiredOf (watermarkMs : ℤ) (col : ℕ) (batch : DeltaBatch) : List (Row × ℤ) :=
  match (batch.schema[col]?).bind fun f => latenessMs f.dataType with
  | none => []
  | some toMs => batch.rows.filter fun p => !keepsRow watermarkMs toMs col p.1

def expired (t : Trace) (watermarkMs : ℤ) : List (Row × ℤ) :=
  match t.latenessCol with
  | none => []
  | some col => t.batches.flatMap (expiredOf watermarkMs col)

/-- Replace what was accumulated. -/
def replaceBatches (t : Trace) (batches : List DeltaBatch) : Trace :=
  batches.foldl (insert F) { t with levels := List.replicate numLevels [] }

/-! ## What a trace stands for -/

/-- All rows with their weights. -/
def rows (t : Trace) : List (Row × ℤ) := t.batches.flatMap DeltaBatch.rows

noncomputable def zset (t : Trace) : Row →₀ ℤ := ZSet.toZ t.rows

end Trace

noncomputable def DeltaBatch.zset (d : DeltaBatch) : Row →₀ ℤ := ZSet.toZ d.rows

variable {F} {s : Schema} {S : Set Row}

/-! ## Inserting -/

variable {d c : DeltaBatch}
/-- Consolidation does not change what distinct rows stand for. -/
lemma consolidateByKey_spec (hS : Distinct F s S) (hd : d.Of s S)
    (h : consolidateByKey F d = .ok c) : c.Of s S ∧ c.zset = d.zset := by
  rw [((hd.apart hS).consolidateByKey_iff.mp h).2]
  exact ⟨hd.consolidate, toZ_consolidate d.rows⟩

lemma DeltaBatch.Of.concat {ds : List DeltaBatch} (hds : ∀ b ∈ ds, b.Of s S)
    (h : concat ds = .ok d) : d.Of s S ∧ d.zset = (ds.map zset).sum := by
  obtain ⟨⟨b, hb, hschema⟩, hrows⟩ := concat_eq_ok h
  refine ⟨⟨hschema ▸ (hds b hb).schema_eq, fun p hp => ?_⟩, ?_⟩
  · rw [hrows] at hp
    obtain ⟨l, hl, hmem⟩ := mem_flatten.mp hp
    obtain ⟨c, hc, rfl⟩ := mem_map.mp hl
    exact (hds c hc).rows_mem p hmem
  · rw [zset, hrows, toZ_flatten, map_map]
    rfl

/-- The levels of a trace: batches of its schema with rows from `S`. -/
def LevelsOf (s : Schema) (S : Set Row) (levels : List (List DeltaBatch)) : Prop :=
  ∀ b ∈ levels.flatten, b.Of s S

noncomputable def levelsZ (levels : List (List DeltaBatch)) : Row →₀ ℤ :=
  (levels.flatten.map DeltaBatch.zset).sum

variable {batch : DeltaBatch}

lemma cascadeMerge_spec (hS : Distinct F s S) {levels : List (List DeltaBatch)}
    (hne : levels ≠ []) (hlevels : LevelsOf s S levels) (hbatch : batch.Of s S) :
    LevelsOf s S (cascadeMerge F levels batch) ∧ levelsZ (cascadeMerge F levels batch) = levelsZ levels + batch.zset ∧
      cascadeMerge F levels batch ≠ [] := by
  induction levels generalizing batch with
  | nil => exact absurd rfl hne
  | cons level above ih =>
    obtain ⟨hlevel, habove⟩ := forall_mem_append.mp hlevels
    have hlevel : ∀ b ∈ level ++ [batch], b.Of s S := forall_mem_append.mpr ⟨hlevel, forall_mem_singleton.mpr hbatch⟩
    -- what the level would be without moving up
    have hstay : LevelsOf s S ((level ++ [batch]) :: above) ∧
        levelsZ ((level ++ [batch]) :: above) = levelsZ (level :: above) + batch.zset := by
      refine ⟨forall_mem_append.mpr ⟨hlevel, habove⟩, ?_⟩
      simp only [levelsZ, flatten_cons, map_append, sum_append, map_cons, map_nil, sum_cons, sum_nil]
      abel
    unfold cascadeMerge
    dsimp only
    split
    · exact ⟨hstay.1, hstay.2, by simp⟩
    split
    · exact ⟨hstay.1, hstay.2, by simp⟩
    next merged hmerged =>
    obtain ⟨joined, hjoined, hmerged⟩ := bind_eq_ok_iff.mp hmerged
    obtain ⟨hjoinedOf, hjoinedZ⟩ := Of.concat hlevel hjoined
    obtain ⟨hmergedOf, hmergedZ⟩ := consolidateByKey_spec hS hjoinedOf hmerged
    have hsum : merged.zset = (level.map zset).sum + batch.zset := by
      rw [hmergedZ, hjoinedZ]
      simp
    split
    · next hlast =>
      subst hlast
      refine ⟨fun b hb => ?_, ?_, by simp⟩
      · rw [flatten_singleton, mem_singleton] at hb
        rwa [hb]
      · simp [levelsZ, hsum]
    next hmore =>
    obtain ⟨hrestOf, hrestZ, -⟩ := ih hmore habove hmergedOf
    refine ⟨fun b hb => ?_, ?_, by simp⟩
    · rw [flatten_cons, nil_append] at hb
      exact hrestOf b hb
    have hnil : levelsZ ([] :: cascadeMerge F above merged) = levelsZ (cascadeMerge F above merged) := rfl
    rw [hnil, hrestZ, hsum]
    simp only [levelsZ, flatten_cons, map_append, sum_append]
    abel

namespace Trace

/-- A trace over rows from `S`. -/
structure Of (s : Schema) (S : Set Row) (t : Trace) : Prop where
  schema_eq : t.schema = s
  levels : LevelsOf s S t.levels
  levels_ne : t.levels ≠ []

lemma zset_eq (t : Trace) : t.zset = levelsZ t.levels := by
  rw [zset, rows, flatMap, toZ_flatten, map_map]
  rfl

variable {t : Trace}

/-- Inserting adds. -/
lemma insert_zset (hS : Distinct F s S) (ht : t.Of s S) (hbatch : batch.Of s S) :
    (t.insert F batch).Of s S ∧ (t.insert F batch).zset = t.zset + batch.zset := by
  unfold insert
  split_ifs with hempty
  · have hrows : batch.rows = [] := isEmpty_iff.mp hempty
    refine ⟨ht, ?_⟩
    rw [DeltaBatch.zset, hrows, toZ_nil, add_zero]
  · obtain ⟨hof, hz, hne⟩ := cascadeMerge_spec hS ht.levels_ne ht.levels hbatch
    exact ⟨⟨ht.schema_eq, hof, hne⟩, by rw [zset_eq, zset_eq]; exact hz⟩

@[simp] lemma insert_keyCols (t : Trace) (batch : DeltaBatch) : (t.insert F batch).keyCols = t.keyCols := by
  unfold insert
  split_ifs <;> rfl

lemma zset_eq_sum (t : Trace) : t.zset = (t.batches.map DeltaBatch.zset).sum := by
  rw [zset, rows, flatMap, toZ_flatten, map_map]
  rfl

/-- A trace without batches. -/
lemma of_empty {s : Schema} {S : Set Row} (cols : List ℕ) (lateness : Option ℕ) :
    (mk s cols lateness (replicate numLevels [])).Of s S ∧
      (mk s cols lateness (replicate numLevels [])).zset = 0 := by
  refine ⟨⟨rfl, ?_, by simp [numLevels]⟩, ?_⟩
  · intro b hb
    simp at hb
  · simp [Trace.zset, Trace.rows, Trace.batches]

variable {batches : List DeltaBatch}

section

variable (hS : Distinct F s S) (ht : t.Of s S) (hbatches : ∀ b ∈ batches, b.Of s S)

include hS ht hbatches

/-- Inserting one batch after the other. -/
lemma foldl_insert : (batches.foldl (insert F) t).Of s S ∧
      (batches.foldl (insert F) t).zset = t.zset + (batches.map DeltaBatch.zset).sum ∧
      (batches.foldl (insert F) t).keyCols = t.keyCols := by
  induction batches generalizing t with
  | nil => exact ⟨ht, (add_zero _).symm, rfl⟩
  | cons b batches ih =>
    obtain ⟨hof, hz⟩ := t.insert_zset hS ht (hbatches b mem_cons_self)
    obtain ⟨hof', hz', hcols⟩ := ih hof fun x hx => hbatches x (mem_cons_of_mem _ hx)
    refine ⟨hof', ?_, hcols.trans (t.insert_keyCols b)⟩
    rw [foldl_cons, hz', hz, map_cons, sum_cons, add_assoc]

/-- A trace whose batches are replaced holds the new ones. -/
lemma replaceBatches_zset : (t.replaceBatches F batches).Of s S ∧
      (t.replaceBatches F batches).zset = (batches.map DeltaBatch.zset).sum ∧
      (t.replaceBatches F batches).keyCols = t.keyCols := by
  obtain ⟨hempty, hzero⟩ := of_empty (s := s) (S := S) t.keyCols t.latenessCol
  obtain ⟨hof, hz, hcols⟩ := foldl_insert hS hempty hbatches
  rw [hzero, zero_add] at hz
  rw [replaceBatches, ht.schema_eq]
  exact ⟨hof, hz, hcols⟩

end

/-- What garbage collection leaves of a batch, and what it drops. -/
lemma gcBatch_spec (watermarkMs : ℤ) (col : ℕ) (hbatch : batch.Of s S) : (gcBatch watermarkMs col batch).Of s S ∧
      batch.zset = (gcBatch watermarkMs col batch).zset + toZ (expiredOf watermarkMs col batch) := by
  unfold gcBatch expiredOf
  cases (batch.schema[col]?).bind fun f => latenessMs f.dataType with
  | none => exact ⟨hbatch, (add_zero _).symm⟩
  | some toMs =>
    refine ⟨⟨hbatch.schema_eq, fun p hp => hbatch.rows_mem p (mem_filter.mp hp).1⟩, ?_⟩
    have hkept := toZ_filter (fun r => keepsRow watermarkMs toMs col r = true) batch.rows
    have hdropped := toZ_filter (fun r => ¬keepsRow watermarkMs toMs col r = true) batch.rows
    simp only [Bool.decide_eq_true, decide_not] at hkept hdropped
    exact ((congrArg₂ (· + ·) hkept hdropped).trans (Finsupp.filter_add_filter_not _ _)).symm

/-- Garbage collection drops the expired rows. -/
lemma gcBelowWatermark_zset (ht : t.Of s S) (watermarkMs : ℤ) : (t.gcBelowWatermark watermarkMs).1.Of s S ∧
      t.zset = (t.gcBelowWatermark watermarkMs).1.zset + toZ (t.expired watermarkMs) ∧
      (t.gcBelowWatermark watermarkMs).1.keyCols = t.keyCols := by
  unfold gcBelowWatermark expired
  cases t.latenessCol with
  | none => exact ⟨ht, (add_zero _).symm, rfl⟩
  | some col =>
    have hbatches : (t.levels.map (map (gcBatch watermarkMs col))).flatten =
        t.batches.map (gcBatch watermarkMs col) := map_flatten.symm
    refine ⟨⟨ht.schema_eq, ?_, by simpa using ht.levels_ne⟩, ?_, rfl⟩
    · unfold LevelsOf
      rw [hbatches]
      intro b hb
      obtain ⟨b', hb', rfl⟩ := mem_map.mp hb
      exact (gcBatch_spec watermarkMs col (ht.levels b' hb')).1
    · rw [zset_eq_sum, zset_eq_sum]
      show _ = ((t.levels.map (map (gcBatch watermarkMs col))).flatten.map DeltaBatch.zset).sum +
        ZSet.toZ (t.batches.flatMap (expiredOf watermarkMs col))
      rw [hbatches, flatMap, toZ_flatten, map_map, map_map, ← sum_map_add]
      exact congrArg sum (map_congr_left fun b hb => (gcBatch_spec watermarkMs col (ht.levels b hb)).2)

end Trace

/-! ## Candidates -/

variable {l : List (ℕ × ℕ)}

private lemma takeWhile_le_eq_filter {h : ℕ} (hsorted : l.Pairwise fun a b => a.1 ≤ b.1)
    (hge : ∀ a ∈ l, h ≤ a.1) : l.takeWhile (fun p => p.1 ≤ h) = l.filter fun p => p.1 = h := by
  induction l with
  | nil => rfl
  | cons a l ih =>
    have ha := hge a mem_cons_self
    have hl := ih (pairwise_cons.mp hsorted).2 fun b hb => hge b (mem_cons_of_mem _ hb)
    by_cases hle : a.1 ≤ h
    · rw [takeWhile_cons_of_pos (by simpa using hle),
        filter_cons_of_pos (by simpa using le_antisymm hle ha), hl]
    -- everything behind is larger too
    rw [takeWhile_cons_of_neg (by simpa using hle)]
    refine (filter_eq_nil_iff.mpr fun b hb => ?_).symm
    have hab : a.1 ≤ b.1 := by
      rcases mem_cons.mp hb with rfl | hb
      · exact le_rfl
      · exact (pairwise_cons.mp hsorted).1 b hb
    simp only [decide_eq_true_eq]
    omega

/-- Between the two partition points of a hash are the entries with that hash. -/
private lemma partition_eq_filter (hsorted : l.Pairwise fun a b => a.1 ≤ b.1) (h : ℕ) :
    (l.dropWhile fun p => p.1 < h).takeWhile (fun p => p.1 ≤ h) = l.filter fun p => p.1 = h := by
  induction l with
  | nil => rfl
  | cons a l ih =>
    by_cases hlt : a.1 < h
    · rw [dropWhile_cons_of_pos (by simpa using hlt), ih (pairwise_cons.mp hsorted).2,
        filter_cons_of_neg (by simpa using hlt.ne)]
    rw [dropWhile_cons_of_neg (by simpa using hlt)]
    refine takeWhile_le_eq_filter hsorted fun b hb => ?_
    rcases mem_cons.mp hb with rfl | hb
    · omega
    · have hab := (pairwise_cons.mp hsorted).1 b hb
      omega

instance : Std.Total pairLe := ⟨fun a b => by unfold pairLe; omega⟩

instance : IsTrans (ℕ × ℕ) pairLe := ⟨fun a b c => by unfold pairLe; omega⟩

lemma KeyIndex.mem_candidates {hash : List Text → ℕ} {keys : List (List Text)} {h i : ℕ} :
    i ∈ (KeyIndex.build hash keys).candidates h ↔ ∃ k, keys[i]? = some k ∧ hash k = h := by
  have hsorted : (KeyIndex.build hash keys).pairs.Pairwise fun a b => a.1 ≤ b.1 := by
    refine (pairwise_insertionSort pairLe _).imp fun hab => ?_
    unfold pairLe at hab
    omega
  rw [KeyIndex.candidates, partition_eq_filter hsorted, mem_map]
  constructor
  · rintro ⟨⟨h', j⟩, hmem, rfl⟩
    obtain ⟨hpair, hh⟩ := mem_filter.mp hmem
    have hzip := mem_zipIdx_iff_getElem?.mp ((mem_insertionSort _).mp hpair)
    rw [getElem?_map, Option.map_eq_some_iff] at hzip
    obtain ⟨k, hk, hhash⟩ := hzip
    exact ⟨k, hk, by rw [hhash]; simpa using hh⟩
  · rintro ⟨k, hk, rfl⟩
    refine ⟨(hash k, i), mem_filter.mpr ⟨?_, by simp⟩, rfl⟩
    refine (mem_insertionSort _).mpr (mem_zipIdx_iff_getElem?.mpr ?_)
    rw [getElem?_map, hk]
    rfl

/-- Ascending row numbers are determined by which ones they are. -/
private lemma eq_filter_range {l : List ℕ} {n : ℕ} {p : ℕ → Bool} (hsorted : l.Pairwise (· < ·))
    (hmem : ∀ i, i ∈ l ↔ i < n ∧ p i = true) : l = (range n).filter p := by
  refine hsorted.eq_of_mem_iff (pairwise_lt_range.filter p) fun i => ?_
  rw [hmem, mem_filter, mem_range]

/-- Taking the rows with given numbers in order is filtering. -/
private lemma filterMap_range_filter {α : Type} (l : List α) (p : α → Bool) :
    ((range l.length).filter fun i => (l[i]?.map p).getD false).filterMap (fun i => l[i]?) = l.filter p := by
  induction l with
  | nil => rfl
  | cons a l ih =>
    rw [length_cons, range_succ_eq_map]
    have htail : ((map Nat.succ (range l.length)).filter
        fun i => (((a :: l)[i]?).map p).getD false).filterMap (fun i => (a :: l)[i]?) = l.filter p := by
      rw [filter_map, filterMap_map]
      exact ih
    by_cases ha : p a = true
    · rw [filter_cons_of_pos (by simpa using ha), filterMap_cons_some (b := a) (by simp), htail,
        filter_cons_of_pos ha]
    · rw [filter_cons_of_neg (by simpa using ha), htail, filter_cons_of_neg ha]

namespace Trace

variable {t : Trace}

section

variable (hash : List Text → ℕ)

include hash

/-- The candidates that have a key are the rows that have a key, in order. -/
lemma matched_eq (keys keySet : List (List Text)) :
    ((((keySet.map hash).dedup.flatMap (KeyIndex.build hash keys).candidates).insertionSort
        (· ≤ ·)).dedup.filter fun i => keys.getD i [] ∈ keySet) =
      (range keys.length).filter fun i => (keys[i]?.map fun k => decide (k ∈ keySet)).getD false := by
  refine eq_filter_range ?_ fun i => ?_
  · have hsorted := pairwise_insertionSort (· ≤ ·)
      ((keySet.map hash).dedup.flatMap (KeyIndex.build hash keys).candidates)
    have hle := (hsorted.sublist (dedup_sublist _)).filter fun i => decide (keys.getD i [] ∈ keySet)
    have hnodup := (nodup_dedup (((keySet.map hash).dedup.flatMap
      (KeyIndex.build hash keys).candidates).insertionSort (· ≤ ·))).filter
        fun i => decide (keys.getD i [] ∈ keySet)
    exact (hle.and hnodup).imp fun h => lt_of_le_of_ne h.1 h.2
  rw [mem_filter, mem_dedup, mem_insertionSort, mem_flatMap]
  constructor
  · rintro ⟨⟨h, -, hcand⟩, hkey⟩
    obtain ⟨k, hk, -⟩ := KeyIndex.mem_candidates.mp hcand
    have hlt := (List.getElem?_eq_some_iff.mp hk).1
    rw [getD_eq_getElem?_getD, hk] at hkey
    refine ⟨hlt, ?_⟩
    rw [hk]
    simpa using hkey
  rintro ⟨hlt, hkey⟩
  have hk : keys[i]? = some keys[i] := getElem?_eq_getElem hlt
  rw [hk] at hkey
  have hmem : keys[i] ∈ keySet := by simpa using hkey
  refine ⟨⟨hash keys[i], ?_, KeyIndex.mem_candidates.mpr ⟨_, hk, rfl⟩⟩, ?_⟩
  · exact mem_dedup.mpr (mem_map_of_mem hmem)
  · rw [getD_eq_getElem?_getD, hk]
    simpa using hmem

/-- What is found in a batch. -/
lemma probeBatch_eq (keySet : List (List Text)) {batch : DeltaBatch}
    (hkeys : ∀ i ∈ t.keyCols, (batch.schema.typeAt i).renderable = true) :
    ∃ found, probeBatch F hash t keySet batch = .ok found ∧
      (∀ d, found = some d → d.schema = batch.schema ∧ d.rows ≠ []) ∧
      (found.map DeltaBatch.rows).getD [] = batch.rows.filter fun p => groupKeyOf F t.keyCols p.1 ∈ keySet := by
  have hmap : (batch.rows.mapM fun p => extractGroupKey F batch.schema t.keyCols p.1) =
      .ok (batch.rows.map fun p => groupKeyOf F t.keyCols p.1) :=
    mapM_eq_map fun p _ => extractGroupKey_eq fun i hi => .inr (hkeys i hi)
  have hfiltered : ((range (batch.rows.map fun p => groupKeyOf F t.keyCols p.1).length).filter fun i =>
        ((batch.rows.map fun p => groupKeyOf F t.keyCols p.1)[i]?.map fun k => decide (k ∈ keySet)).getD
          false).filterMap (fun i => batch.rows[i]?) =
      batch.rows.filter fun p => groupKeyOf F t.keyCols p.1 ∈ keySet := by
    rw [← filterMap_range_filter batch.rows fun p => decide (groupKeyOf F t.keyCols p.1 ∈ keySet), length_map]
    refine congrArg _ (filter_congr fun i _ => ?_)
    rw [getElem?_map, Option.map_map]
    rfl
  unfold probeBatch
  rw [hmap]
  simp only [bind, Except.bind, matched_eq]
  split_ifs with hempty
  · refine ⟨none, rfl, ?_, ?_⟩
    · intro d hd
      cases hd
    rw [← hfiltered, isEmpty_iff.mp hempty]
    rfl
  refine ⟨_, rfl, fun d hd => ?_, hfiltered⟩
  cases hd
  refine ⟨rfl, fun hnil => hempty ?_⟩
  -- every number that was kept has a row
  rw [List.isEmpty_iff, eq_nil_iff_forall_not_mem]
  intro i hi
  have hlt : i < batch.rows.length := by
    have hrange := (mem_filter.mp hi).1
    rwa [mem_range, length_map] at hrange
  have hmem : batch.rows[i] ∈ ([] : List (Row × ℤ)) := by
    rw [← hnil]
    exact mem_filterMap.mpr ⟨i, hi, getElem?_eq_getElem hlt⟩
  cases hmem

/-- What is found in some batches. -/
lemma mapM_probeBatch (keySet : List (List Text))
    (hkeys : ∀ i ∈ t.keyCols, (s.typeAt i).renderable = true) {bs : List DeltaBatch} (hbs : ∀ b ∈ bs, b.Of s S) :
    ∃ results, bs.mapM (probeBatch F hash t keySet) = .ok results ∧ (∀ d ∈ results.filterMap id, d.Of s S) ∧
      (results.filterMap id).flatMap DeltaBatch.rows =
        (bs.flatMap DeltaBatch.rows).filter fun p => groupKeyOf F t.keyCols p.1 ∈ keySet := by
  induction bs with
  | nil => exact ⟨[], rfl, by simp, rfl⟩
  | cons b bs ih =>
    obtain ⟨results, hresults, hof, hrows⟩ := ih fun c hc => hbs c (mem_cons_of_mem _ hc)
    have hb := hbs b mem_cons_self
    obtain ⟨found, hfound, hschema, hfrows⟩ := probeBatch_eq hash keySet (hb.schema_eq ▸ hkeys)
    refine ⟨found :: results, ?_, ?_, ?_⟩
    · rw [mapM_cons, hfound, hresults]
      rfl
    · intro d hd
      cases found with
      | none => exact hof d (by simpa using hd)
      | some c =>
        have hd' : d = c ∨ d ∈ results.filterMap id := by simpa using hd
        rcases hd' with rfl | hd
        · refine ⟨(hschema d rfl).1.trans hb.schema_eq, fun p hp => hb.rows_mem p ?_⟩
          have hmem : p ∈ b.rows.filter fun p => groupKeyOf F t.keyCols p.1 ∈ keySet := hfrows ▸ hp
          exact (mem_filter.mp hmem).1
        · exact hof d hd
    · rw [flatMap_cons, filter_append, ← hrows, ← hfrows]
      cases found <;> rfl

/-- Probing selects the rows with one of the keys. -/
lemma probeByKeys_eq (keys : RecordBatch) (ht : t.Of s S) (hkeys : ∀ i ∈ t.keyCols, (s.typeAt i).renderable = true)
    (hprobe : ∀ i < t.keyCols.length, (keys.schema.typeAt i).renderable = true) :
    ∃ d, probeByKeys F hash t keys = .ok d ∧ d.Of s S ∧ d.zset = t.zset.filter fun r =>
        groupKeyOf F t.keyCols r ∈ keys.rows.map (groupKeyOf F (range t.keyCols.length)) := by
  have hempty : (empty t.schema).Of s S := ⟨ht.schema_eq, fun p hp => nomatch hp⟩
  unfold probeByKeys
  split_ifs with hnone
  · refine ⟨_, rfl, hempty, ?_⟩
    have hrows : keys.rows = [] := eq_nil_of_length_eq_zero hnone
    rw [hrows]
    exact (Finsupp.filter_eq_zero_iff _ _ |>.mpr fun r hr => nomatch hr).symm
  have hset : keys.rows.mapM (extractGroupKey F keys.schema (range t.keyCols.length)) =
      .ok (keys.rows.map (groupKeyOf F (range t.keyCols.length))) :=
    mapM_eq_map fun r _ => extractGroupKey_eq fun i hi => .inr (hprobe i (mem_range.mp hi))
  obtain ⟨results, hresults, hof, hrows⟩ := mapM_probeBatch hash
    (keys.rows.map (groupKeyOf F (range t.keyCols.length))) hkeys ht.levels
  have hz : ZSet.toZ ((results.filterMap id).flatMap DeltaBatch.rows) = t.zset.filter fun r =>
      groupKeyOf F t.keyCols r ∈ keys.rows.map (groupKeyOf F (range t.keyCols.length)) := by
    rw [hrows, toZ_filter fun r =>
      groupKeyOf F t.keyCols r ∈ keys.rows.map (groupKeyOf F (range t.keyCols.length))]
    rfl
  rw [hset]
  simp only [bind, Except.bind, batches, hresults]
  split_ifs with hfound
  · refine ⟨_, rfl, hempty, ?_⟩
    rw [← hz, isEmpty_iff.mp hfound]
    rfl
  have hne : results.filterMap id ≠ [] := fun hnil => hfound (isEmpty_iff.mpr hnil)
  obtain ⟨d, hd, -⟩ := concat_total hne fun b hb => congrArg Schema.shape (hof b hb).schema_eq
  obtain ⟨hdof, hdz⟩ := Of.concat hof hd
  rw [hd]
  refine ⟨_, rfl, ⟨hdof.schema_eq, fun p hp => hdof.rows_mem p (mem_filter.mp hp).1⟩, ?_⟩
  rw [← hz, flatMap, toZ_flatten, map_map]
  have hdrop : d.dropZeros.zset = d.zset := toZ_filter_ne_zero d.rows
  rw [hdrop, hdz]
  rfl

end

end Trace

end Krishiv.Delta
