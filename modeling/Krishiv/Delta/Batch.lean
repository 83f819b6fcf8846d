import Krishiv.Lib.ZSet
import Krishiv.Lib.KVMap

/-!
# Record batches and delta batches

A `RecordBatch` is a schema with its rows in order; a `DeltaBatch` is the same with an integer
weight per row (the `_weight` column). Cells are values, rows are lists of cells in column
order, and two rows are the same row when all their cells are, which is what Arrow's row format decides.
Weights are integers: results about operations that add or negate an `i64` weight ask for sums in its range.

What a batch denotes is a Z-set (`DeltaBatch.net`) or a multiset (`RecordBatch.count`). Every
operation below comes with the equation for that denotation.
-/

namespace Krishiv.Delta

open ZSet

/-! ## Schemas, rows, errors -/

/-- The column types the code tells apart. `nested` is a list, a struct or another type whose cells have
parts, with whether Arrow's formatter renders it and whether the row format encodes it: a struct with a
time zone that cannot be parsed is encoded and not rendered. `other` is any further type. -/
inductive DataType where
  | boolean
  | int32
  | int64
  | float64
  | utf8
  | largeUtf8
  | utf8View
  | timestampSecond
  | timestampMillisecond
  | timestampMicrosecond
  | timestampNanosecond
  | date32
  | date64
  | other (name : String)
  | nested (name : String) (rendered encoded : Bool)
deriving DecidableEq, Repr

/-- Whether `ArrayFormatter` renders the type (so that a row of it has a group key). -/
def DataType.renderable : DataType → Bool
  | .nested _ rendered _ => rendered
  | _ => true

/-- Whether `RowConverter` encodes the type. -/
def DataType.rowEncodable : DataType → Bool
  | .nested _ _ encoded => encoded
  | _ => true

/-- The type's display name. -/
def DataType.display : DataType → String
  | .boolean => "Boolean"
  | .int32 => "Int32"
  | .int64 => "Int64"
  | .float64 => "Float64"
  | .utf8 => "Utf8"
  | .largeUtf8 => "LargeUtf8"
  | .utf8View => "Utf8View"
  | .timestampSecond => "Timestamp(s)"
  | .timestampMillisecond => "Timestamp(ms)"
  | .timestampMicrosecond => "Timestamp(µs)"
  | .timestampNanosecond => "Timestamp(ns)"
  | .date32 => "Date32"
  | .date64 => "Date64"
  | .other name | .nested name _ _ => name

structure Field where
  name : String
  dataType : DataType
  nullable : Bool
deriving DecidableEq, Repr

abbrev Schema := List Field

/-- One cell. A float is its bit pattern. A nested cell has the text that Arrow displays for it, which it
can share with other cells, as `[]` and `[NULL]` do; its number tells these apart. -/
inductive Value where
  | null
  | bool (b : Bool)
  | int (i : ℤ)
  | float (bits : ℕ)
  | str (s : String)
  | other (text : String)
  | nested (text : String) (number : ℕ)
deriving DecidableEq, Repr

abbrev Row := List Value

inductive DeltaError where
  | arrow (msg : String)
  | schemaMismatch (msg : String)
  | columnNotFound (name : String)
  | operator (msg : String)
  | viewNotFound (name : String)
  | serialization (msg : String)
deriving DecidableEq, Repr

abbrev DeltaResult := Except DeltaError

/-- The types of the columns, in order: what `concat_batches` and `RowConverter` compare. -/
def Schema.types (s : Schema) : List DataType := s.map Field.dataType

/-- The types of the columns and whether they take NULLs. -/
def Schema.shape (s : Schema) : List (DataType × Bool) := s.map fun f => (f.dataType, f.nullable)

/-- Same column names and types, nullability aside (`same_columns`). -/
def sameColumns (expected got : Schema) : Bool :=
  expected.map (fun f => (f.name, f.dataType)) = got.map fun f => (f.name, f.dataType)

/-- `[name: Type, …]` for error messages. -/
def describeColumns (s : Schema) : String :=
  "[" ++ String.intercalate ", " (s.map fun f => f.name ++ ": " ++ f.dataType.display) ++ "]"

/-! ## Batches -/

structure RecordBatch where
  schema : Schema
  rows : List Row
deriving DecidableEq, Repr

namespace RecordBatch

def numRows (b : RecordBatch) : ℕ := b.rows.length

def newEmpty (schema : Schema) : RecordBatch := ⟨schema, []⟩

/-- How often a row occurs. -/
def count (b : RecordBatch) (r : Row) : ℕ := ZSet.count b.rows r

@[simp] lemma count_newEmpty (s : Schema) (r : Row) : (newEmpty s).count r = 0 := rfl

end RecordBatch

/-- The first column that takes no NULLs under the schema and has one in some part. What a part itself
declares without NULLs has none. -/
def nullColumn (schema : Schema) (parts : List (Schema × List Row)) : Option Field :=
  (schema.zipIdx.find? fun c => !c.1.nullable && parts.any fun p =>
    (p.1[c.2]?.map Field.nullable).getD false && p.2.any fun r => r[c.2]? = some .null).map Prod.fst

/-- Why `concat_batches` refuses the parts, matched by position: other column types, or a NULL where the
schema has none. -/
def concatRefusal (schema : Schema) (parts : List (Schema × List Row)) : Option DeltaError :=
  if parts.all fun p => p.1.types = schema.types then
    (nullColumn schema parts).map fun f =>
      .arrow ("Column '" ++ f.name ++ "' is declared as non-nullable but contains null values")
  else some (.arrow "It is not possible to concatenate arrays of different data types")

/-- Arrow's `concat_batches`: rows one batch after the other under the given schema. -/
def concatBatches (schema : Schema) (bs : List RecordBatch) : DeltaResult RecordBatch :=
  match concatRefusal schema (bs.map fun b => (b.schema, b.rows)) with
  | some e => .error e
  | none => .ok ⟨schema, (bs.map RecordBatch.rows).flatten⟩

lemma types_of_shape {a b : Schema} (h : a.shape = b.shape) : a.types = b.types := by
  have := congrArg (List.map Prod.fst) h
  simpa [Schema.types, Schema.shape, List.map_map, Function.comp_def] using this

section

variable {schema : Schema} {parts : List (Schema × List Row)}

/-- Parts of the same types and nullability are not refused. -/
lemma concatRefusal_of_shape (h : ∀ p ∈ parts, p.1.shape = schema.shape) : concatRefusal schema parts = none := by
  have hnull : nullColumn schema parts = none := by
    rw [nullColumn, Option.map_eq_none_iff, List.find?_eq_none]
    rintro ⟨f, i⟩ hf hbad
    simp only [Bool.and_eq_true, List.any_eq_true, Bool.not_eq_true'] at hbad
    obtain ⟨hfield, p, hp, hpart, -⟩ := hbad
    have hi := (List.mem_zipIdx_iff_getElem?.mp hf)
    have hshape := congrArg (fun l => l[i]?) (h p hp)
    simp only [Schema.shape, List.getElem?_map, hi, Option.map_some] at hshape
    cases hg : p.1[i]? with
    | none => simp [hg] at hshape
    | some g =>
      rw [hg] at hshape hpart
      simp_all
  rw [concatRefusal, if_pos, hnull]
  · rfl
  · rw [List.all_eq_true]
    intro p hp
    exact decide_eq_true (types_of_shape (h p hp))

end

lemma concatBatches_eq_ok {schema : Schema} {bs : List RecordBatch} {b : RecordBatch}
    (h : concatBatches schema bs = .ok b) : b = ⟨schema, (bs.map RecordBatch.rows).flatten⟩ := by
  unfold concatBatches at h
  split at h
  · cases h
  · exact (Except.ok.inj h).symm

lemma concatBatches_total {schema : Schema} {bs : List RecordBatch} (h : ∀ b ∈ bs, b.schema.shape = schema.shape) :
    concatBatches schema bs = .ok ⟨schema, (bs.map RecordBatch.rows).flatten⟩ := by
  rw [concatBatches, concatRefusal_of_shape]
  intro p hp
  obtain ⟨b, hb, rfl⟩ := List.mem_map.mp hp
  exact h b hb

structure DeltaBatch where
  schema : Schema
  rows : List (Row × ℤ)
deriving DecidableEq, Repr

variable {d : DeltaBatch}

/-- The sum of the weights in absolute value, a bound of every sum of some of them. -/
def massOf (rows : List (Row × ℤ)) : ℕ := (rows.map fun p => p.2.natAbs).sum

namespace DeltaBatch

/-- The Z-set a delta denotes. -/
def net (d : DeltaBatch) (r : Row) : ℤ := ZSet.weight d.rows r

def fromInserts (b : RecordBatch) : DeltaBatch := ⟨b.schema, ZSet.uniform 1 b.rows⟩

def fromDeletes (b : RecordBatch) : DeltaBatch := ⟨b.schema, ZSet.uniform (-1) b.rows⟩

def empty (schema : Schema) : DeltaBatch := ⟨schema, []⟩

def numRows (d : DeltaBatch) : ℕ := d.rows.length

def isEmpty (d : DeltaBatch) : Bool := d.rows.isEmpty

/-- The rows without their weights. -/
def dataBatch (d : DeltaBatch) : RecordBatch := ⟨d.schema, d.rows.map Prod.fst⟩

def negate (d : DeltaBatch) : DeltaBatch := ⟨d.schema, ZSet.negate d.rows⟩

/-- Every weight replaced by its sign. -/
def normalizeWeights (d : DeltaBatch) : DeltaBatch :=
  ⟨d.schema, d.rows.map fun p => (p.1, p.2.sign)⟩

/-- The positive part as a relation: a row of weight `k` occurs `k` times. -/
def filterPositiveExpanded (d : DeltaBatch) : RecordBatch := ⟨d.schema, ZSet.expand d.rows⟩

def mass (d : DeltaBatch) : ℕ := massOf d.rows

/-- Every weight exactly `+1`. -/
def allUnitInserts (d : DeltaBatch) : Bool := d.rows.all fun p => p.2 = 1

/-- The rows of the mask, one flag per row. -/
def filterMask (d : DeltaBatch) (mask : Row × ℤ → Bool) : DeltaBatch :=
  ⟨d.schema, d.rows.filter mask⟩

/-- Concatenation under the schema of the first batch; not consolidated. -/
def concat : List DeltaBatch → DeltaResult DeltaBatch
  | [] => .error (.operator "cannot concat empty slice")
  | d :: ds =>
    match concatRefusal d.schema ((d :: ds).map fun b => (b.schema, b.rows.map Prod.fst)) with
    | some e => .error e
    | none => .ok ⟨d.schema, ((d :: ds).map DeltaBatch.rows).flatten⟩

@[simp] lemma net_empty (s : Schema) (r : Row) : (empty s).net r = 0 := rfl

@[simp] lemma net_fromInserts (b : RecordBatch) (r : Row) : (fromInserts b).net r = b.count r := by
  simp [net, fromInserts, weight_uniform, RecordBatch.count]

@[simp] lemma net_negate (d : DeltaBatch) (r : Row) : d.negate.net r = -d.net r := by
  simp [net, negate]

lemma net_of_isEmpty (h : d.isEmpty = true) (r : Row) : d.net r = 0 := by
  rw [isEmpty, List.isEmpty_iff] at h
  rw [net, h, weight_nil]

/-- On unit insertions the data batch is the relation the delta inserts. -/
lemma count_dataBatch_of_unit (h : d.allUnitInserts = true) (r : Row) : (d.dataBatch.count r : ℤ) = d.net r := by
  rw [net, weight_of_all_one (by simpa [allUnitInserts] using h)]
  rfl

variable {ds : List DeltaBatch}

/-- What a successful `concat` returns. -/
lemma concat_eq_ok (h : concat ds = .ok d) : (∃ b ∈ ds, b.schema = d.schema) ∧ d.rows = (ds.map rows).flatten := by
  cases ds with
  | nil => simp [concat] at h
  | cons b bs =>
    simp only [concat] at h
    split at h
    · cases h
    · cases h
      exact ⟨⟨b, by simp, rfl⟩, rfl⟩

lemma net_concat (h : concat ds = .ok d) (r : Row) : d.net r = (ds.map (net · r)).sum := by
  rw [net, (concat_eq_ok h).2, weight_flatten, List.map_map]
  rfl

/-- Batches of the same types and nullability concatenate. -/
lemma concat_cons (h : ∀ b ∈ ds, b.schema.shape = d.schema.shape) :
    concat (d :: ds) = .ok ⟨d.schema, ((d :: ds).map rows).flatten⟩ := by
  rw [concat, concatRefusal_of_shape]
  intro p hp
  obtain ⟨x, hx, rfl⟩ := List.mem_map.mp hp
  rcases List.mem_cons.mp hx with rfl | hx
  exacts [rfl, h x hx]

lemma concat_total (hne : ds ≠ []) {t : List (DataType × Bool)} (h : ∀ b ∈ ds, b.schema.shape = t) :
    ∃ d, concat ds = .ok d ∧ d.schema.shape = t := by
  cases ds with
  | nil => exact absurd rfl hne
  | cons b bs =>
    exact ⟨_, concat_cons fun x hx => (h x (by simp [hx])).trans (h b (by simp)).symm, h b (by simp)⟩

end DeltaBatch

open DeltaBatch

/-! ## Consolidation -/

/-- The error of the key encoding for a type it cannot render. -/
def noKeyEncoding (t : DataType) : DeltaError :=
  .operator ("no injective key encoding for Arrow type " ++ t.display ++
    ": Not yet implemented: formatting " ++ t.display ++ " is not yet supported" ++
    "; incremental maintenance cannot group or cancel rows of this type")

variable {c : DeltaBatch}

/-- The consolidation of the batch merges equal rows and no others. -/
def Settles (cons : DeltaBatch → DeltaResult DeltaBatch) (m : DeltaBatch) : Prop :=
  ∀ c, cons m = .ok c → c = ⟨m.schema, ZSet.consolidate m.rows⟩

lemma Settles.rows {cons : DeltaBatch → DeltaResult DeltaBatch} (h : Settles cons d) (hc : cons d = .ok c) :
    c.rows = consolidate d.rows :=
  congrArg DeltaBatch.rows (h c hc)

/-- The relation a consolidated delta materializes: negative weights are clamped at zero. -/
lemma count_filterPositiveExpanded (h : c.rows = consolidate d.rows) (r : Row) :
    c.filterPositiveExpanded.count r = (d.net r).toNat := by
  rw [net, ← weight_consolidate, ← h]
  exact count_expand (h ▸ nodup_keys_consolidate _) r

end Krishiv.Delta
