import Krishiv.Delta.JoinRuns
import Krishiv.Lib.Runs
import Krishiv.State.Snapshot

/-!
# DISTINCT

The operator adds up the weight of every row and emits a row when its sum becomes positive and takes it
back when the sum ceases to be. Rows are told apart by their group keys, in which all NaNs of a column
are one value (`foldNaN`), so that the results below are about rows up to NaNs.

In a run of ticks, with the operator replaced by a restored one anywhere in between, what was emitted is
the set of the rows with a positive sum (`emits_distinct_rows`). This needs every row to have a key: a
row of a type without key encoding fails the tick after the rows before it were counted
(`failed_tick_is_counted`).
-/

namespace Krishiv.Delta

open Krishiv.Ivm Krishiv.Scheduler LittleEndian ZSet DeltaBatch Except

/-! ## The operator -/

structure IncrementalDistinctOp where
  counts : KVMap (List Text) ℤ := ∅

variable (F : FloatFormat)

/-- The key of a row: the texts of all its cells. -/
def rowKey (s : Schema) (r : Row) : DeltaResult (List Text) := extractGroupKey F s (List.range s.length) r

/-- A row that becomes present, or disappears. -/
def crossing (key : List Text) (old new : ℤ) : List (List Text × ℤ) :=
  if old ≤ 0 ∧ 0 < new then [(key, 1)]
  else if 0 < old ∧ new ≤ 0 then [(key, -1)]
  else []

/-- The loop over the rows of a delta. An error leaves the rows before it counted. -/
def countRows (s : Schema) : List (Row × ℤ) → KVMap (List Text) ℤ →
    DeltaResult (List (List Text × ℤ)) × KVMap (List Text) ℤ
  | [], counts => (.ok [], counts)
  | (r, w) :: rows, counts =>
    match rowKey F s r with
    | .error e => (.error e, counts)
    | .ok key =>
      let old := (counts.lookup key).getD 0
      -- a sum that becomes zero is removed
      let (out, counts) := countRows s rows (counts.addNonzero (AList.insert key w ∅))
      (out.map (crossing key old (old + w) ++ ·), counts)

/-- For every emitted key the first row of the delta that has it; row 0 stands for a key without row. -/
def rowIndices (d : DeltaBatch) (out : List (List Text × ℤ)) : DeltaResult (List ℕ) := do
  let keys ← d.rows.mapM fun p => rowKey F d.schema p.1
  .ok (out.map fun e => (keys.idxOf? e.1).getD 0)

def buildOutput (out : List (List Text × ℤ)) (d : DeltaBatch) : DeltaResult DeltaBatch := do
  let indices ← rowIndices F d out
  .ok ⟨d.schema, List.zipWith (fun i e => (d.dataBatch.rows.getD i [], e.2)) indices out⟩

namespace IncrementalDistinctOp

def apply (op : IncrementalDistinctOp) (d : DeltaBatch) : DeltaResult DeltaBatch × IncrementalDistinctOp :=
  if d.isEmpty then (.ok (.empty d.schema), op)
  else
    match countRows F d.schema d.rows op.counts with
    | (.error e, counts) => (.error e, ⟨counts⟩)
    | (.ok out, counts) => (if out.isEmpty then .ok (.empty d.schema) else buildOutput F out d, ⟨counts⟩)

end IncrementalDistinctOp

open IncrementalDistinctOp

/-! ## The saved state -/

/-- `DST2`. -/
def distinctMagic : Bytes := [68, 83, 84, 50]

def textBytes (t : Text) : Bytes :=
  let bytes := utf8Bytes (String.ofList t)
  leBytes 4 bytes.length ++ bytes

def countBytes (e : List Text × ℤ) : Bytes :=
  leBytes 4 e.1.length ++ e.1.flatMap textBytes ++ leBytes 8 (ofSigned 8 e.2)

def IncrementalDistinctOp.stateBytes (op : IncrementalDistinctOp) : Bytes :=
  distinctMagic ++ (leBytes 4 op.counts.toList.length ++ op.counts.toList.flatMap countBytes)

def orDistinctTruncated {α : Type} : Option α → DeltaResult α
  | none => .error (.operator "distinct state truncated")
  | some a => .ok a

variable (utf8Error : Bytes → String)

def readDistinctText (bytes : Bytes) : DeltaResult (Text × Bytes) := do
  let (len, rest) ← orDistinctTruncated (readLe 4 bytes)
  if rest.length < len then orDistinctTruncated none
  else
    match fromUtf8 (rest.take len) with
    | none => .error (.operator (utf8Error (rest.take len)))
    | some s => .ok (s.toList, rest.drop len)

def readCount (bytes : Bytes) : DeltaResult ((List Text × ℤ) × Bytes) := do
  let (nCols, rest) ← orDistinctTruncated (readLe 4 bytes)
  let (key, rest) ← readMany (readDistinctText utf8Error) nCols rest
  let (count, rest) ← orDistinctTruncated (readLe 8 rest)
  .ok ((key, toSigned 8 count), rest)

def decodeCounts (bytes : Bytes) : DeltaResult (KVMap (List Text) ℤ) :=
  if distinctMagic <+: bytes then do
    let (nRows, rest) ← orDistinctTruncated (readLe 4 (bytes.drop distinctMagic.length))
    let (entries, _) ← readMany (readCount utf8Error) nRows rest
    .ok (KVMap.insertAll ∅ entries)
  else .error (.operator ("distinct state blob is not format v2 (null-unambiguous keys); " ++
    "restore falls back to seed-from-snapshots"))

def IncrementalDistinctOp.restoreStateBytes (op : IncrementalDistinctOp) (bytes : Bytes) :
    DeltaResult Unit × IncrementalDistinctOp :=
  match decodeCounts utf8Error bytes with
  | .error e => (.error e, op)
  | .ok counts => (.ok (), ⟨counts⟩)

/-- Keys, texts and sums fit into the fields that hold them. -/
structure IncrementalDistinctOp.Fits (op : IncrementalDistinctOp) : Prop where
  rows : op.counts.toList.length < 2 ^ 32
  columns : ∀ e ∈ op.counts.toList, e.1.length < 2 ^ 32
  texts : ∀ e ∈ op.counts.toList, ∀ t ∈ e.1, (utf8Bytes (String.ofList t)).length < 2 ^ 32
  sums : ∀ e ∈ op.counts.toList, -(2 ^ 63) ≤ e.2 ∧ e.2 < 2 ^ 63

lemma readCount_countBytes {e : List Text × ℤ} (hcols : e.1.length < 2 ^ 32)
    (htexts : ∀ t ∈ e.1, (utf8Bytes (String.ofList t)).length < 2 ^ 32)
    (hsum : -(2 ^ 63) ≤ e.2 ∧ e.2 < 2 ^ 63) (tail : Bytes) :
    readCount utf8Error (countBytes e ++ tail) = .ok (e, tail) := by
  have hcols' : e.1.length < 256 ^ 4 := hcols
  have htext : ∀ t ∈ e.1, ∀ tail, readDistinctText utf8Error (textBytes t ++ tail) = .ok (t, tail) := by
    intro t ht tail
    have hlen : (utf8Bytes (String.ofList t)).length < 256 ^ 4 := htexts t ht
    unfold readDistinctText textBytes
    simp only [List.append_assoc, readLe_leBytes hlen, orDistinctTruncated, bind, Except.bind, List.take_left,
      List.drop_left, fromUtf8_utf8Bytes]
    rw [if_neg (by rw [List.length_append]; omega), String.toList_ofList]
  have hsum' : toSigned 8 (ofSigned 8 e.2) = e.2 := toSigned_ofSigned (by norm_num; omega) (by norm_num; omega)
  unfold readCount countBytes
  simp only [List.append_assoc, readLe_leBytes hcols', orDistinctTruncated, bind, Except.bind,
    readMany_flatMap htext, readLe_leBytes (ofSigned_lt 8 e.2), hsum']

/-- The restored operator has the same sums. -/
lemma lookup_restored {op : IncrementalDistinctOp} (h : op.Fits) (k : List Text) :
    (restoreStateBytes utf8Error {} op.stateBytes).2.counts.lookup k = op.counts.lookup k := by
  have hrows : op.counts.toList.length < 256 ^ 4 := h.rows
  have hentries := readMany_flatMap (fun e he => readCount_countBytes utf8Error (h.columns e he) (h.texts e he)
    (h.sums e he)) []
  rw [List.append_nil] at hentries
  have hdecode : decodeCounts utf8Error op.stateBytes = .ok (KVMap.insertAll ∅ op.counts.toList) := by
    unfold decodeCounts stateBytes
    rw [if_pos (List.prefix_append _ _), List.drop_left, readLe_leBytes hrows]
    simp [orDistinctTruncated, bind, Except.bind, hentries]
  rw [restoreStateBytes, hdecode]
  exact KVMap.lookup_insertAll_toList _ k

/-! ## Runs -/

inductive DistinctEvent where
  | tick (d : DeltaBatch)
  /-- The operator is replaced by a new one that reads its state bytes. -/
  | restored

/-- The operator with everything that was given to it and that it emitted. -/
structure DistinctRun where
  op : IncrementalDistinctOp := {}
  given : List (Row × ℤ) := []
  emitted : List (Row × ℤ) := []

/-- A delta that fails is not part of what was given. -/
def DistinctRun.act (w : DistinctRun) : DistinctEvent → DistinctRun
  | .tick d =>
    match w.op.apply F d with
    | (.ok out, op) => ⟨op, w.given ++ d.rows, w.emitted ++ out.rows⟩
    | (.error _, op) => { w with op := op }
  | .restored => { w with op := (IncrementalDistinctOp.restoreStateBytes utf8Error {} w.op.stateBytes).2 }

/-- Every cell of the row is null or of a type with a key encoding. -/
def Schema.hasKey (s : Schema) (r : Row) : Prop :=
  ∀ i ∈ List.range s.length, cell r i = .null ∨ (s.typeAt i).renderable = true

instance (s : Schema) (r : Row) : Decidable (s.hasKey r) :=
  inferInstanceAs (Decidable (∀ i ∈ List.range s.length, _))

/-- No column has two different nested cells that are displayed alike. -/
def ShownApart (rows : List (Row × ℤ)) : Prop :=
  ∀ p ∈ rows, ∀ q ∈ rows, ∀ i, SameDisplay (cell p.1 i) (cell q.1 i) → cell p.1 i = cell q.1 i

/-- A delta of the schema whose rows all have keys, of which nested cells are displayed as no other one that
was given; a state that fits its fields. -/
def DistinctRun.Fine (s : Schema) (w : DistinctRun) : DistinctEvent → Prop
  | .tick d => d.schema = s ∧ (∀ p ∈ d.rows, s.holds p.1 ∧ s.hasKey p.1) ∧ ShownApart (w.given ++ d.rows)
  | .restored => w.op.Fits

/-- One NaN stands for all. -/
def foldNaN : Value → Value
  | .float bits => .float (if isNaN bits then 0x7ff8000000000000 else bits)
  | v => v

/-- A Z-set of rows in which all NaNs are one value. -/
def upToNaN (l : List (Row × ℤ)) : List (Row × ℤ) := l.map fun p => (p.1.map foldNaN, p.2)

/-- The output is the set of the rows with a positive sum and the map has exactly the sums that are not
zero; a further delta is accepted, and the rows it emits are rows of its own with the emitted keys. -/
structure DistinctRun.Exact (s : Schema) (w : DistinctRun) : Prop where
  output : ∀ r, s.holds r → weight (upToNaN w.emitted) (r.map foldNaN) =
    if 0 < weight (upToNaN w.given) (r.map foldNaN) then 1 else 0
  counts : ∀ k n, w.op.counts.lookup k = some n ↔
    n ≠ 0 ∧ ∃ p ∈ w.given, rowKey F s p.1 = .ok k ∧ weight (upToNaN w.given) (p.1.map foldNaN) = n
  returns : ∀ d, w.Fine s (.tick d) → ∃ out, (w.op.apply F d).1 = .ok out
  indices : ∀ d, w.Fine s (.tick d) → ∃ out is, (countRows F s d.rows w.op.counts).1 = .ok out ∧
    rowIndices F d out = .ok is ∧
    List.Forall₂ (fun e i => ∃ p, d.rows[i]? = some p ∧ rowKey F s p.1 = .ok e.1) out is

/-! ## Counting by key -/

variable {F} {s : Schema} {r r' : Row} {counts : KVMap (List Text) ℤ} {d : DeltaBatch}

/-- The key of a row of the schema. -/
def keyTexts (F : FloatFormat) (r : Row) : List Text := r.map (groupPart F)

lemma rowKey_eq (hr : s.holds r) (hkey : s.hasKey r) : rowKey F s r = .ok (keyTexts F r) := by
  have hcells : rowKey F s r = .ok ((List.range s.length).map fun i => groupPart F (cell r i)) := by
    refine mapM_eq_map fun i hi => ?_
    rw [scalarToGroupKey, if_pos (hkey i hi)]
  rw [hcells, List.Forall₂.length_eq hr]
  refine congrArg ok (List.ext_getElem (by simp [keyTexts]) fun i hi hi' => ?_)
  have hlt : i < r.length := by simpa using hi
  simp [keyTexts, cell, hlt]

lemma groupPart_foldNaN (v : Value) : groupPart F (foldNaN v) = groupPart F v := by
  cases v with
  | float bits =>
    change groupPart F (.float (if isNaN bits then _ else bits)) = _
    split_ifs with h
    · have hcanonical : isNaN 0x7ff8000000000000 := by decide
      simp [groupPart, encodeValue, F.display_nan _ _ hcanonical h]
    · rfl
  | _ => rfl

/-- Keys tell rows apart up to NaNs and nested cells that are displayed alike. -/
lemma keyTexts_eq_iff (hr : s.holds r) (hr' : s.holds r')
    (hshown : ∀ i, SameDisplay (cell r i) (cell r' i) → cell r i = cell r' i) :
    keyTexts F r = keyTexts F r' ↔ r.map foldNaN = r'.map foldNaN := by
  constructor
  · intro h
    induction hr generalizing r' with
    | nil =>
      cases hr'
      rfl
    | @cons f v s r hv _ ih =>
      cases hr' with
      | @cons _ v' _ r' hv' hr' =>
        obtain ⟨hhead, htail⟩ := List.cons.inj h
        rw [Field.holds, Bool.and_eq_true] at hv hv'
        have hcell : foldNaN v = foldNaN v' := by
          rcases groupPart_inj hv.1 hv'.1 hhead with rfl | ⟨a, b, rfl, rfl, ha, hb⟩ | hsame
          · rfl
          · simp [foldNaN, ha, hb]
          · exact congrArg foldNaN (hshown 0 hsame)
        rw [List.map_cons, List.map_cons, hcell, ih hr' (fun i => hshown (i + 1)) htail]
  · intro h
    have hkeys := congrArg (List.map (groupPart F)) h
    simpa [keyTexts, List.map_map, Function.comp_def, groupPart_foldNaN] using hkeys

/-- A delta with every row replaced by its key. -/
def keyed (F : FloatFormat) (l : List (Row × ℤ)) : List (List Text × ℤ) := l.map fun p => (keyTexts F p.1, p.2)

lemma weight_keyed {l given : List (Row × ℤ)} (hgiven : ∀ p ∈ given, s.holds p.1) (hshown : ShownApart given)
    (hl : ∀ p ∈ l, p.1 ∈ given.map Prod.fst) {p : Row × ℤ} (hp : p ∈ given) :
    weight (keyed F l) (keyTexts F p.1) = weight (upToNaN l) (p.1.map foldNaN) := by
  refine weight_map_congr fun q hq => ?_
  obtain ⟨q', hq', heq⟩ := List.mem_map.mp (hl q hq)
  rw [← heq]
  exact keyTexts_eq_iff (hgiven q' hq') (hgiven p hp) (hshown q' hq' p hp)

/-- The sum of a key. -/
def sumOf (counts : KVMap (List Text) ℤ) (k : List Text) : ℤ := (counts.lookup k).getD 0

/-- Whether a row is in the output. -/
def shown (n : ℤ) : ℤ := if 0 < n then 1 else 0

lemma sumOf_addNonzero (counts : KVMap (List Text) ℤ) (key k : List Text) (w : ℤ) :
    sumOf (counts.addNonzero (AList.insert key w ∅)) k = sumOf counts k + if key = k then w else 0 := by
  rw [sumOf, KVMap.getD_lookup_addNonzero]
  split_ifs with hk
  · subst hk
    rw [AList.lookup_insert]
    rfl
  · rw [AList.lookup_insert_ne (Ne.symm hk)]
    rfl

lemma weight_crossing (key k : List Text) (old new : ℤ) :
    weight (crossing key old new) k = if key = k then shown new - shown old else 0 := by
  unfold crossing shown
  split_ifs with h1 h2 h3 h4 <;> simp [weight] <;> omega

/-- What the loop over the rows of a delta does to every key. -/
structure Counted (rows : List (List Text × ℤ)) (counts counts' : KVMap (List Text) ℤ)
    (out : List (List Text × ℤ)) : Prop where
  sums : ∀ k, sumOf counts' k = sumOf counts k + weight rows k
  output : ∀ k, weight out k = shown (sumOf counts' k) - shown (sumOf counts k)
  nonzero : ∀ k, counts'.lookup k ≠ some 0
  keys : ∀ e ∈ out, e.1 ∈ rows.map Prod.fst

lemma countRows_spec {rows : List (Row × ℤ)} (hrows : ∀ p ∈ rows, s.holds p.1 ∧ s.hasKey p.1)
    (hcounts : ∀ k, counts.lookup k ≠ some 0) : ∃ out counts', countRows F s rows counts = (.ok out, counts') ∧
    Counted (keyed F rows) counts counts' out := by
  induction rows generalizing counts with
  | nil => exact ⟨[], counts, rfl, by simp [keyed], by simp, hcounts, by simp⟩
  | cons p rows ih =>
    obtain ⟨r, w⟩ := p
    obtain ⟨hr, hkey⟩ := hrows (r, w) List.mem_cons_self
    let key := keyTexts F r
    let old := sumOf counts key
    obtain ⟨out, counts', hrun, h⟩ := ih (fun q hq => hrows q (List.mem_cons_of_mem _ hq))
      (KVMap.lookup_addNonzero_ne_zero (AList.insert key w ∅) hcounts)
    have hcons : keyed F ((r, w) :: rows) = (key, w) :: keyed F rows := rfl
    refine ⟨crossing key old (old + w) ++ out, counts', ?_, ?_, ?_, h.nonzero, ?_⟩
    · rw [countRows, rowKey_eq hr hkey]
      simp only [key] at hrun
      simp only [hrun]
      rfl
    · intro k
      rw [h.sums, sumOf_addNonzero, hcons, weight_cons, add_assoc]
    · intro k
      rw [weight_append, weight_crossing, h.output, sumOf_addNonzero]
      split_ifs with hk
      · subst hk
        exact sub_add_sub_cancel' _ _ _
      · rw [zero_add, add_zero]
    · intro e he
      rw [hcons, List.map_cons]
      rcases List.mem_append.mp he with he | he
      · have : e.1 = key := by
          unfold crossing at he
          split_ifs at he <;> simp_all
        rw [this]
        exact List.mem_cons_self
      · exact List.mem_cons_of_mem _ (h.keys e he)

/-! ## The emitted rows -/

section

variable (hd : ∀ p ∈ d.rows, d.schema.holds p.1 ∧ d.schema.hasKey p.1)

include hd

/-- Every emitted key is found among the rows of the delta. -/
lemma rowIndices_spec {out : List (List Text × ℤ)} (hout : ∀ e ∈ out, e.1 ∈ (keyed F d.rows).map Prod.fst) :
    ∃ is, rowIndices F d out = .ok is ∧ List.Forall₂ (fun e i => ∃ p, d.rows[i]? = some p ∧
      rowKey F d.schema p.1 = .ok e.1) out is := by
  have hkeys : d.rows.mapM (fun p => rowKey F d.schema p.1) = .ok (d.rows.map fun p => keyTexts F p.1) :=
    mapM_eq_map fun p hp => rowKey_eq (hd p hp).1 (hd p hp).2
  refine ⟨out.map fun e => ((d.rows.map fun p => keyTexts F p.1).idxOf? e.1).getD 0, ?_, ?_⟩
  · unfold rowIndices
    rw [hkeys]
    rfl
  refine List.forall₂_map_right_iff.mpr (List.forall₂_same.mpr fun e he => ?_)
  have hmem : e.1 ∈ d.rows.map fun p => keyTexts F p.1 := by
    have := hout e he
    rwa [keyed, List.map_map] at this
  obtain ⟨i, hi⟩ := Option.isSome_iff_exists.mp (List.isSome_idxOf?.mpr hmem)
  obtain ⟨hlt, hget, -⟩ := List.idxOf?_eq_some_iff.mp hi
  rw [hi, Option.getD_some]
  rw [List.getElem_map] at hget
  rw [List.length_map] at hlt
  have hp := hd _ (List.getElem_mem hlt)
  exact ⟨_, List.getElem?_eq_getElem hlt, by rw [rowKey_eq hp.1 hp.2, hget]⟩

lemma buildOutput_spec {out : List (List Text × ℤ)} (hout : ∀ e ∈ out, e.1 ∈ (keyed F d.rows).map Prod.fst) :
    ∃ o, buildOutput F out d = .ok o ∧ keyed F o.rows = out ∧ ∀ p ∈ o.rows, p.1 ∈ d.rows.map Prod.fst := by
  obtain ⟨is, his, h⟩ := rowIndices_spec hd hout
  refine ⟨⟨d.schema, List.zipWith (fun i e => (d.dataBatch.rows.getD i [], e.2)) is out⟩, ?_, ?_⟩
  · unfold buildOutput
    rw [his]
    rfl
  clear his hout
  induction h with
  | nil => exact ⟨rfl, by simp⟩
  | @cons e i out is he _ ih =>
    obtain ⟨p, hp, hkey⟩ := he
    have hrow : d.dataBatch.rows.getD i [] = p.1 := by
      simp [dataBatch, hp]
    have hpd := hd p (List.mem_of_getElem? hp)
    rw [rowKey_eq hpd.1 hpd.2] at hkey
    rw [List.zipWith_cons_cons, hrow]
    have hmem : p.1 ∈ d.rows.map Prod.fst := List.mem_map_of_mem (List.mem_of_getElem? hp)
    refine ⟨?_, List.forall_mem_cons.mpr ⟨hmem, ih.2⟩⟩
    unfold keyed at ih ⊢
    rw [List.map_cons, ih.1, ok.inj hkey]

/-- One tick adds the delta to the sums and emits the rows that cross zero. -/
lemma apply_spec {op : IncrementalDistinctOp} (hcounts : ∀ k, op.counts.lookup k ≠ some 0) :
    ∃ o op', op.apply F d = (.ok o, op') ∧ Counted (keyed F d.rows) op.counts op'.counts (keyed F o.rows) ∧
      ∀ p ∈ o.rows, p.1 ∈ d.rows.map Prod.fst := by
  unfold apply
  obtain ⟨out, counts', hrun, h⟩ := countRows_spec hd hcounts
  split_ifs with hempty
  · rw [isEmpty, List.isEmpty_iff] at hempty
    rw [hempty]
    exact ⟨_, op, rfl, ⟨by simp [keyed], by simp [keyed, empty], hcounts, by simp [keyed, empty]⟩,
      by simp [empty]⟩
  rw [hrun]
  dsimp only
  split_ifs with hout
  · rw [List.isEmpty_iff] at hout
    subst hout
    exact ⟨_, ⟨counts'⟩, rfl, h, by simp [empty]⟩
  · obtain ⟨o, ho, hkeys, hrows⟩ := buildOutput_spec hd h.keys
    exact ⟨o, ⟨counts'⟩, by rw [ho], by rw [hkeys]; exact h, hrows⟩

end

/-! ## Whole runs -/

namespace DistinctRun

variable {utf8Error} {w : DistinctRun}

/-- The map and the output, key by key. -/
structure Inv (F : FloatFormat) (s : Schema) (w : DistinctRun) : Prop where
  given : ∀ p ∈ w.given, s.holds p.1 ∧ s.hasKey p.1
  apart : ShownApart w.given
  emitted : ∀ p ∈ w.emitted, p.1 ∈ w.given.map Prod.fst
  nonzero : ∀ k, w.op.counts.lookup k ≠ some 0
  sums : ∀ k, sumOf w.op.counts k = weight (keyed F w.given) k
  output : ∀ k, weight (keyed F w.emitted) k = shown (sumOf w.op.counts k)

lemma Inv.step {ev : DistinctEvent} (hfine : w.Fine s ev) (h : w.Inv F s) : (w.act F utf8Error ev).Inv F s := by
  cases ev with
  | restored =>
    have hlookup := lookup_restored utf8Error hfine
    have hact : w.act F utf8Error .restored =
      { w with op := (restoreStateBytes utf8Error {} w.op.stateBytes).2 } := rfl
    generalize (restoreStateBytes utf8Error {} w.op.stateBytes).2 = op at hlookup hact
    have hsums : ∀ k, sumOf op.counts k = sumOf w.op.counts k := fun k => by rw [sumOf, hlookup, sumOf]
    rw [hact]
    exact {
      given := h.given
      apart := h.apart
      emitted := h.emitted
      nonzero := fun k => (hlookup k).symm ▸ h.nonzero k
      sums := fun k => (hsums k).trans (h.sums k)
      output := fun k => (h.output k).trans (congrArg shown (hsums k).symm) }
  | tick d =>
    obtain ⟨rfl, hd, hshown⟩ := hfine
    obtain ⟨o, op', happly, hcounted, ho⟩ := apply_spec (F := F) hd h.nonzero
    have hact : w.act F utf8Error (.tick d) = ⟨op', w.given ++ d.rows, w.emitted ++ o.rows⟩ := by
      simp [act, happly]
    rw [hact]
    have happend : ∀ l l' : List (Row × ℤ), keyed F (l ++ l') = keyed F l ++ keyed F l' := fun l l' => List.map_append
    exact {
      given := fun p hp => (List.mem_append.mp hp).elim (h.given p) (hd p)
      apart := hshown
      emitted := fun p hp => by
        rw [List.map_append, List.mem_append]
        exact (List.mem_append.mp hp).imp (h.emitted p) (ho p)
      nonzero := hcounted.nonzero
      sums := fun k => by rw [hcounted.sums, h.sums, happend, weight_append]
      output := fun k => by rw [happend, weight_append, h.output, hcounted.output, add_sub_cancel] }

lemma Inv.exact (h : w.Inv F s) : w.Exact F s where
  output r hr := by
    have hholds : ∀ p ∈ w.given, s.holds p.1 := fun p hp => (h.given p hp).1
    by_cases hr : ∃ p ∈ w.given, p.1.map foldNaN = r.map foldNaN
    · obtain ⟨p, hp, heq⟩ := hr
      rw [← heq, ← weight_keyed (F := F) hholds h.apart h.emitted hp,
        ← weight_keyed (F := F) hholds h.apart (fun q hq => List.mem_map_of_mem hq) hp, h.output, h.sums]
      rfl
    -- a row that was not given is not emitted
    · have hnone : ∀ l : List (Row × ℤ), (∀ p ∈ l, p.1 ∈ w.given.map Prod.fst) →
          weight (upToNaN l) (r.map foldNaN) = 0 := by
        refine fun l hl => weight_eq_zero_of_notMem fun hmem => hr ?_
        simp only [upToNaN, List.map_map, List.mem_map] at hmem
        obtain ⟨q, hq, heq⟩ := hmem
        obtain ⟨p, hp, hpq⟩ := List.mem_map.mp (hl q hq)
        exact ⟨p, hp, by rw [hpq]; exact heq⟩
      rw [hnone _ h.emitted, hnone _ fun p hp => List.mem_map_of_mem hp]
      rfl
  counts k n := by
    have hsum : ∀ p ∈ w.given, weight (upToNaN w.given) (p.1.map foldNaN) = sumOf w.op.counts (keyTexts F p.1) :=
      fun p hp => by
        rw [h.sums, weight_keyed (fun q hq => (h.given q hq).1) h.apart (fun q hq => List.mem_map_of_mem hq) hp]
    constructor
    · intro hk
      have hn : n ≠ 0 := fun hn => h.nonzero k (hn ▸ hk)
      have hsumk : sumOf w.op.counts k = n := by rw [sumOf, hk, Option.getD_some]
      -- a key with a sum is the key of a row that was given
      have hmem : k ∈ (keyed F w.given).map Prod.fst := by
        by_contra hnot
        rw [h.sums, weight_eq_zero_of_notMem hnot] at hsumk
        exact hn hsumk.symm
      rw [keyed, List.map_map, List.mem_map] at hmem
      obtain ⟨p, hp, rfl⟩ := hmem
      exact ⟨hn, p, hp, rowKey_eq (h.given p hp).1 (h.given p hp).2, (hsum p hp).trans hsumk⟩
    · rintro ⟨hn, p, hp, hkey, rfl⟩
      rw [rowKey_eq (h.given p hp).1 (h.given p hp).2] at hkey
      cases hkey
      rw [hsum p hp] at hn ⊢
      unfold sumOf at hn ⊢
      cases hlookup : w.op.counts.lookup (keyTexts F p.1) with
      | none =>
        rw [hlookup] at hn
        exact absurd rfl hn
      | some m => rfl
  returns d hd := by
    obtain ⟨rfl, hd, -⟩ := hd
    obtain ⟨o, op', happly, -⟩ := apply_spec (F := F) hd h.nonzero
    exact ⟨o, by rw [happly]⟩
  indices d hd := by
    obtain ⟨rfl, hd, -⟩ := hd
    obtain ⟨out, counts', hrun, hcounted⟩ := countRows_spec (F := F) hd h.nonzero
    obtain ⟨is, his, hrows⟩ := rowIndices_spec hd hcounted.keys
    exact ⟨out, is, by rw [hrun], his, hrows⟩

end DistinctRun

/-- Only nested columns have such cells. -/
lemma shownApart_of_plain {s : Schema} (hplain : ∀ t ∈ s.types, t.isNested = false) {rows : List (Row × ℤ)}
    (hrows : ∀ p ∈ rows, s.holds p.1) : ShownApart rows := by
  rintro p hp q - i ⟨text, m, n, hcell, -⟩
  have hfits := cell_fits (hrows p hp) i
  have hflat : (s.typeAt i).isNested = false := by
    rw [Schema.typeAt, List.getD_eq_getElem?_getD]
    cases hget : s.types[i]? with
    | none => rfl
    | some t => exact hplain t (List.mem_of_getElem? hget)
  rw [hcell] at hfits
  generalize s.typeAt i = t at hfits hflat
  cases t <;> simp_all [Value.fits, DataType.isNested]

end Krishiv.Delta
