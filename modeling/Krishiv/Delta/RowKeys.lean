import Krishiv.Delta.KeyEncoding
import Krishiv.Lib.ZJoin

/-!
# Keys of rows and consolidation

The key of a row has a text for every column, where the column is looked up by its name: of two columns
with one name the first stands for both. `consolidateByKey` is `consolidate_batch` without key columns. It
merges the rows with equal keys into the first of them, which are the equal rows as long as the rows have
keys of their own (`Distinct`).
-/

namespace Krishiv.Delta

open List Except ZSet DeltaBatch

def Schema.indexOf (s : Schema) (name : String) : Option ℕ := s.findIdx? fun f => f.name = name

def Schema.typeAt (s : Schema) (i : ℕ) : DataType := s.types.getD i (.other "")

def cell (r : Row) (i : ℕ) : Value := r.getD i .null

variable (F : FloatFormat)

/-- The group keys of some columns of a row. -/
def extractGroupKey (s : Schema) (cols : List ℕ) (r : Row) : DeltaResult (List Text) :=
  cols.mapM fun i => scalarToGroupKey F (s.typeAt i) (cell r i)

/-- The same for columns that can be rendered. -/
def groupKeyOf (cols : List ℕ) (r : Row) : List Text := cols.map fun i => groupPart F (cell r i)

/-- The column that stands for every column in the key of a row: the first one of its name. -/
def keyColumns (s : Schema) : List ℕ := s.map fun f => (s.indexOf f.name).getD 0

/-- `consolidate_batch` without key columns: rows with equal group keys in all columns are merged. -/
def consolidateByKey (d : DeltaBatch) : DeltaResult DeltaBatch :=
  if d.isEmpty then .ok d
  else do
    let keyed ← d.rows.mapM fun p =>
      (extractGroupKey F d.schema (keyColumns d.schema) p.1).map fun key => (key, p)
    .ok ⟨d.schema, ZSet.consolidateBy keyed⟩

/-- `consolidate_batch` as sources, views and ticks call it. Keys are only compared, so that it does not
matter how floats are written, as long as all NaNs are written alike. -/
def consolidateBatch : DeltaBatch → DeltaResult DeltaBatch := consolidateByKey .plain

/-- Rows that consolidation identifies are the same row. -/
def Distinct (s : Schema) (S : Set Row) : Prop :=
  ∀ r ∈ S, ∀ r' ∈ S, groupKeyOf F (keyColumns s) r = groupKeyOf F (keyColumns s) r' → r = r'

/-- A batch of the schema with rows from `S`. -/
structure DeltaBatch.Of (s : Schema) (S : Set Row) (d : DeltaBatch) : Prop where
  schema_eq : d.schema = s
  rows_mem : ∀ p ∈ d.rows, p.1 ∈ S

variable {F} {s : Schema} {S : Set Row}

lemma scalarToGroupKey_ok {t : DataType} {v : Value} {k : Text} (h : scalarToGroupKey F t v = .ok k) :
    k = groupPart F v := by
  unfold scalarToGroupKey at h
  split_ifs at h
  cases h
  rfl

lemma extractGroupKey_ok {cols : List ℕ} {r : Row} {k : List Text}
    (h : extractGroupKey F s cols r = .ok k) : k = groupKeyOf F cols r :=
  map_of_mapM (fun _ _ => scalarToGroupKey_ok) h

lemma extractGroupKey_eq {cols : List ℕ} {r : Row}
    (h : ∀ i ∈ cols, cell r i = .null ∨ (s.typeAt i).renderable = true) :
    extractGroupKey F s cols r = .ok (groupKeyOf F cols r) := by
  refine mapM_eq_map fun i hi => ?_
  rw [scalarToGroupKey, if_pos (h i hi)]

/-- The rows of a batch with their keys. -/
def keyedRows (F : FloatFormat) (d : DeltaBatch) : List (List Text × Row × ℤ) :=
  d.rows.map fun p => (groupKeyOf F (keyColumns d.schema) p.1, p)

/-- Every cell that goes into a key has a text. -/
def DeltaBatch.Keyable (d : DeltaBatch) : Prop :=
  ∀ p ∈ d.rows, ∀ i ∈ keyColumns d.schema, cell p.1 i = .null ∨ (d.schema.typeAt i).renderable = true

variable {d c : DeltaBatch}

lemma consolidateByKey_ok_iff : consolidateByKey F d = .ok c ↔
    d.Keyable ∧ c = ⟨d.schema, consolidateBy (keyedRows F d)⟩ := by
  unfold consolidateByKey
  split_ifs with hempty
  · have hrows : d.rows = [] := isEmpty_iff.mp hempty
    have hd : mk d.schema (ZSet.consolidateBy (keyedRows F d)) = d := by
      rw [keyedRows, hrows]
      exact congrArg (mk d.schema) hrows.symm
    rw [hd, ok.injEq]
    refine ⟨fun h => ⟨fun p hp => ?_, h.symm⟩, fun h => h.2.symm⟩
    rw [hrows] at hp
    cases hp
  · rw [bind_eq_ok_iff]
    constructor
    · rintro ⟨keyed, hkeyed, h⟩
      cases h
      have hkey : ∀ (p : Row × ℤ) e,
          (extractGroupKey F d.schema (keyColumns d.schema) p.1).map (fun key => (key, p)) = .ok e →
          ∃ key, extractGroupKey F d.schema (keyColumns d.schema) p.1 = .ok key ∧ e = (key, p) := by
        intro p e he
        cases hkey : extractGroupKey F d.schema (keyColumns d.schema) p.1 with
        | error msg =>
          rw [hkey] at he
          cases he
        | ok key =>
          rw [hkey] at he
          cases he
          exact ⟨key, rfl, rfl⟩
      refine ⟨fun p hp i hi => ?_, ?_⟩
      · obtain ⟨e, he⟩ := exists_of_mapM hkeyed p hp
        obtain ⟨key, hok, -⟩ := hkey p e he
        obtain ⟨k, hk⟩ := exists_of_mapM hok i hi
        unfold scalarToGroupKey at hk
        split_ifs at hk with hcell
        exact hcell
      · rw [map_of_mapM (fun p e he => ?_) hkeyed]
        · rfl
        · obtain ⟨key, hok, rfl⟩ := hkey p e he
          rw [extractGroupKey_ok hok]
    · rintro ⟨h, rfl⟩
      refine ⟨keyedRows F d, mapM_eq_map fun p hp => ?_, rfl⟩
      rw [extractGroupKey_eq (h p hp)]
      rfl

/-- No two different rows of the batch have the same keys. -/
def DeltaBatch.Apart (F : FloatFormat) (d : DeltaBatch) : Prop :=
  Distinct F d.schema {r | r ∈ d.rows.map Prod.fst}

/-- Then rows are merged exactly if they are equal. -/
lemma DeltaBatch.Apart.consolidateByKey_iff (hd : d.Apart F) :
    consolidateByKey F d = .ok c ↔ d.Keyable ∧ c = ⟨d.schema, consolidate d.rows⟩ := by
  rw [consolidateByKey_ok_iff, keyedRows, consolidateBy_eq]
  exact fun p hp q hq => hd p.1 (mem_map_of_mem hp) q.1 (mem_map_of_mem hq)

lemma DeltaBatch.Of.apart (hd : d.Of s S) (hS : Distinct F s S) : d.Apart F := by
  intro r hr r' hr'
  obtain ⟨p, hp, rfl⟩ := mem_map.mp hr
  obtain ⟨q, hq, rfl⟩ := mem_map.mp hr'
  rw [hd.schema_eq]
  exact hS p.1 (hd.rows_mem p hp) q.1 (hd.rows_mem q hq)

lemma DeltaBatch.Of.consolidate (hd : d.Of s S) : DeltaBatch.Of s S ⟨d.schema, consolidate d.rows⟩ := by
  refine ⟨hd.schema_eq, fun p hp => ?_⟩
  obtain ⟨q, hq, heq⟩ := mem_map.mp (mem_of_mem_consolidate hp)
  exact heq ▸ hd.rows_mem q hq

lemma settles_of_apart (h : d.Apart F) : Settles (consolidateByKey F) d :=
  fun _ hc => (h.consolidateByKey_iff.mp hc).2

lemma apart_of_distinct (hS : Distinct F d.schema S) (h : ∀ p ∈ d.rows, p.1 ∈ S) : d.Apart F :=
  DeltaBatch.Of.apart ⟨rfl, h⟩ hS

/-- Under the columns of each of the batches all their rows have keys of their own. -/
def RowsApart (bs : List DeltaBatch) : Prop :=
  ∀ b ∈ bs, Distinct .plain b.schema {r | ∃ c ∈ bs, r ∈ c.rows.map Prod.fst}

/-- A batch that is made of them has rows that consolidation does not confuse. -/
lemma RowsApart.apart {bs : List DeltaBatch} (h : RowsApart bs) (hschema : ∃ b ∈ bs, b.schema = d.schema)
    (hrows : ∀ p ∈ d.rows, ∃ c ∈ bs, p.1 ∈ c.rows.map Prod.fst) : d.Apart .plain := by
  obtain ⟨b, hb, hb'⟩ := hschema
  exact apart_of_distinct (hb' ▸ h b hb) hrows

lemma RowsApart.mono {bs cs : List DeltaBatch} (h : RowsApart bs) (hsub : cs ⊆ bs) : RowsApart cs := by
  rintro b hb r ⟨c, hc, hr⟩ r' ⟨c', hc', hr'⟩
  exact h b (hsub hb) r ⟨c, hsub hc, hr⟩ r' ⟨c', hsub hc', hr'⟩

/-- Batches that are made of them have rows with keys of their own. -/
lemma RowsApart.made {bs cs : List DeltaBatch} (h : RowsApart bs) (hschema : ∀ c ∈ cs, ∃ b ∈ bs, b.schema = c.schema)
    (hrows : ∀ c ∈ cs, ∀ p ∈ c.rows, ∃ b ∈ bs, p.1 ∈ b.rows.map Prod.fst) : RowsApart cs := by
  have hmem : ∀ {r : Row}, (∃ c ∈ cs, r ∈ c.rows.map Prod.fst) → ∃ b ∈ bs, r ∈ b.rows.map Prod.fst := by
    rintro r ⟨c, hc, hr⟩
    obtain ⟨p, hp, rfl⟩ := mem_map.mp hr
    exact hrows c hc p hp
  intro c hc r hr r' hr'
  obtain ⟨b, hb, heq⟩ := hschema c hc
  rw [← heq]
  exact h b hb r (hmem hr) r' (hmem hr')

/-- Such are the batches that some of them make together. -/
lemma RowsApart.concat {bs ds : List DeltaBatch} (h : RowsApart bs) (hsub : ds ⊆ bs)
    (hd : DeltaBatch.concat ds = .ok d) : d.Apart .plain := by
  obtain ⟨⟨b, hb, hschema⟩, hrows⟩ := concat_eq_ok hd
  refine h.apart ⟨b, hsub hb, hschema⟩ fun p hp => ?_
  rw [hrows] at hp
  obtain ⟨_, hl, hp⟩ := mem_flatten.mp hp
  obtain ⟨c, hc, rfl⟩ := mem_map.mp hl
  exact ⟨c, hsub hc, mem_map_of_mem hp⟩

/-- What every consolidation by key does: the rows it returns are distinct, and a row of negative weight
is one of the rows before all insertions. -/
structure Merges (cons : DeltaBatch → DeltaResult DeltaBatch) : Prop where
  nodup : ∀ {m c}, cons m = .ok c → (c.rows.map Prod.fst).Nodup
  owing : ∀ {m c l l'}, cons m = .ok c → m.rows = l ++ l' → (∀ p ∈ l', 0 ≤ p.2) →
    ∀ p ∈ c.rows, p.2 < 0 → p.1 ∈ l.map Prod.fst

lemma merges_consolidateByKey (F : FloatFormat) : Merges (consolidateByKey F) where
  nodup h := by
    rw [(consolidateByKey_ok_iff.mp h).2]
    exact nodup_consolidateBy
  owing h hrows hl' p hp hneg := by
    rw [(consolidateByKey_ok_iff.mp h).2, keyedRows, hrows] at hp
    exact mem_of_neg_consolidateBy hl' hp hneg

/-- Consolidation adds no rows. -/
lemma consolidateByKey_mem (h : consolidateByKey F d = .ok c) :
    c.schema = d.schema ∧ ∀ p ∈ c.rows, p.1 ∈ d.rows.map Prod.fst := by
  rw [(consolidateByKey_ok_iff.mp h).2]
  exact ⟨rfl, fun p hp => mem_of_mem_consolidateBy hp⟩

end Krishiv.Delta
