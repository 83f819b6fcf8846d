import Krishiv.Delta.RowKeys

/-!
# `SourceState`: a source's accumulated Z-set

The relation of a source is kept as a list of chunks; the part of the Z-set that no relation can
show, the rows of negative net weight, is kept beside it as the *deficit*. `apply` has the three
branches of the code: push a chunk, settle the deficit against unit insertions, or consolidate
the whole Z-set.

`SourceState.net` is the Z-set the state stands for. The main fact is `applyWith_spec`: whichever
branch runs, the state stays well formed, so that the relation and the deficit are the positive and the
negative part of `net`, and the Z-set moves by exactly the delta if only equal rows are merged.
-/

namespace Krishiv.Delta

open List DeltaBatch ZSet

/-- Rows the open tail must reach before it is sealed into one run. -/
def compactTargetRows : ℕ := 8192

structure SourceState where
  schema : Schema
  positive : List RecordBatch
  positiveRows : ℕ
  sealed : ℕ
  unsealedRows : ℕ
  rowsCopied : ℕ
  deficit : Option DeltaBatch
  consolidations : ℕ
deriving DecidableEq, Repr

/-- The rows of negative weight, or nothing when there are none. -/
def negativePart (consolidated : DeltaBatch) : Option DeltaBatch :=
  if (consolidated.filterMask fun p => p.2 < 0).isEmpty then none
  else some (consolidated.filterMask fun p => p.2 < 0)

namespace SourceState

def fromPositive (b : RecordBatch) : SourceState where
  schema := b.schema
  positive := if b.rows.isEmpty then [] else [b]
  positiveRows := b.numRows
  sealed := if b.rows.isEmpty then 0 else 1
  unsealedRows := 0
  rowsCopied := 0
  deficit := none
  consolidations := 0

variable (consolidate : DeltaBatch → DeltaResult DeltaBatch)

/-- `from_zset`, over a given consolidation. -/
def fromZsetWith (zset : DeltaBatch) : DeltaResult SourceState :=
  if zset.allUnitInserts then .ok (fromPositive zset.dataBatch)
  else do
    let consolidated ← consolidate zset
    .ok { fromPositive consolidated.filterPositiveExpanded with
          deficit := negativePart consolidated }

def fromZset : DeltaBatch → DeltaResult SourceState := fromZsetWith consolidateBatch

/-- The chunks, the deficit and `extra` as one Z-set, each as its own part. -/
def zsetWith (s : SourceState) (extra : Option DeltaBatch) : DeltaResult DeltaBatch :=
  let parts := s.positive.map DeltaBatch.fromInserts ++ s.deficit.toList ++ extra.toList
  if parts.isEmpty then .ok (DeltaBatch.fromInserts (RecordBatch.newEmpty s.schema))
  else DeltaBatch.concat parts

def zset (s : SourceState) : DeltaResult DeltaBatch := s.zsetWith none

/-- Seal the open tail into one run; a tail of one chunk already is one. -/
def sealTail (s : SourceState) : DeltaResult SourceState :=
  if s.positive.length < s.sealed then .ok s
  else do
    let tail := s.positive.drop s.sealed
    if 1 < tail.length then
      let merged ← concatBatches s.schema tail
      let positive := s.positive.take s.sealed ++ [merged]
      .ok { s with rowsCopied := s.rowsCopied + s.unsealedRows, positive := positive,
                   sealed := positive.length, unsealedRows := 0 }
    else
      .ok { s with sealed := s.positive.length, unsealedRows := 0 }

def pushPositive (s : SourceState) (newRows : RecordBatch) : DeltaResult SourceState :=
  if newRows.rows.isEmpty then .ok s
  else if !s.positive.isEmpty && !sameColumns s.schema newRows.schema then
    .error (.schemaMismatch ("cannot append rows with columns " ++ describeColumns newRows.schema ++
      " to a relation with columns " ++ describeColumns s.schema))
  else
    let s' : SourceState :=
      { s with
        schema := if s.positive.isEmpty then newRows.schema else s.schema
        positive := s.positive ++ [newRows]
        positiveRows := s.positiveRows + newRows.numRows
        unsealedRows := s.unsealedRows + newRows.numRows }
    if compactTargetRows ≤ s'.unsealedRows then s'.sealTail else .ok s'

/-- A new relation under the same counters and deficit. -/
def replacePositive (s : SourceState) (b : RecordBatch) : SourceState :=
  { fromPositive b with
    rowsCopied := s.rowsCopied, consolidations := s.consolidations, deficit := s.deficit }

/-- `apply`, over a given consolidation. -/
def applyWith (s : SourceState) (delta : DeltaBatch) : DeltaResult SourceState :=
  match s.deficit, delta.allUnitInserts with
  -- append-only against a source that owes nothing: push a chunk
  | none, true => s.pushPositive delta.dataBatch
  -- append-only against a source that owes rows: only owed rows can cancel
  | some deficit, true => do
    let merged ← DeltaBatch.concat [deficit, delta]
    let settled ← consolidate merged
    { s with deficit := negativePart settled }.pushPositive settled.filterPositiveExpanded
  -- a retraction or a non-unit weight: any row may be affected
  | _, false => do
    let s := { s with consolidations := s.consolidations + 1 }
    let merged ← s.zsetWith (some delta)
    let settled ← consolidate merged
    .ok { s.replacePositive settled.filterPositiveExpanded with deficit := negativePart settled }

def applyToWith (current : Option SourceState) (delta : DeltaBatch) : DeltaResult SourceState :=
  match current with
  | none => fromZsetWith consolidate delta
  | some s => s.applyWith consolidate delta

def apply : SourceState → DeltaBatch → DeltaResult SourceState := applyWith consolidateBatch

def applyTo : Option SourceState → DeltaBatch → DeltaResult SourceState := applyToWith consolidateBatch

/-- The batch that a delta has consolidated, none if it is only appended. -/
def merged (current : Option SourceState) (delta : DeltaBatch) : DeltaResult (Option DeltaBatch) :=
  match current with
  | none => .ok (if delta.allUnitInserts then none else some delta)
  | some s =>
    match s.deficit, delta.allUnitInserts with
    | none, true => .ok none
    | some deficit, true => (DeltaBatch.concat [deficit, delta]).map some
    | _, false => (s.zsetWith (some delta)).map some

/-- Replace the deficit, settling it against the relation. -/
def setDeficit (s : SourceState) (deficit : Option DeltaBatch) : DeltaResult SourceState :=
  match deficit with
  | none => .ok { s with deficit := none }
  | some d =>
    if d.isEmpty then .ok { s with deficit := none }
    else do
      let s := { s with deficit := some d }
      let merged ← s.zsetWith none
      let settled ← consolidateBatch merged
      .ok { s.replacePositive settled.filterPositiveExpanded with deficit := negativePart settled }

def numRows (s : SourceState) : ℕ := s.positiveRows

def positiveBatch (s : SourceState) : DeltaResult RecordBatch :=
  match s.positive with
  | [] => .ok (RecordBatch.newEmpty s.schema)
  | [only] => .ok only
  | chunks => concatBatches s.schema chunks

/-! ## What a state denotes -/

/-- How often a row is present in the relation. -/
def pos (s : SourceState) (r : Row) : ℕ := (s.positive.map (RecordBatch.count · r)).sum

/-- The weight a row is owed with: negative, or zero for a row that is not owed. -/
def owed (s : SourceState) (r : Row) : ℤ := (s.deficit.map (DeltaBatch.net · r)).getD 0

/-- The Z-set of the state. -/
def net (s : SourceState) (r : Row) : ℤ := s.pos r + s.owed r

/-- The two invariants of the type: owed weights are negative and no row is both present and
owed. `counted` is the bookkeeping behind `num_rows`. -/
structure WF (s : SourceState) : Prop where
  owed_neg : ∀ d, s.deficit = some d → d.rows ≠ [] ∧ ∀ p ∈ d.rows, p.2 < 0
  disjoint : ∀ r, s.owed r < 0 → s.pos r = 0
  counted : s.positiveRows = (s.positive.map RecordBatch.numRows).sum

variable {s : SourceState}

/-- A batch of negative weights has every row of it with a negative sum. -/
lemma net_neg {d : DeltaBatch} (h : ∀ p ∈ d.rows, p.2 < 0) (r : Row) :
    d.net r ≤ 0 ∧ (r ∈ d.rows.map Prod.fst → d.net r < 0) := by
  unfold DeltaBatch.net
  generalize d.rows = rows at h
  induction rows with
  | nil => simp
  | cons p rows ih =>
    obtain ⟨hle, hlt⟩ := ih fun q hq => h q (mem_cons_of_mem _ hq)
    have hp := h p mem_cons_self
    rw [weight_cons, map_cons, mem_cons]
    split_ifs with hr
    · exact ⟨by omega, fun _ => by omega⟩
    · exact ⟨by omega, fun hmem => by have := hlt (hmem.resolve_left (hr ·.symm)); omega⟩

lemma WF.owed_nonpos (h : s.WF) (r : Row) : s.owed r ≤ 0 := by
  unfold owed
  cases hd : s.deficit with
  | none => exact le_refl _
  | some d => exact (net_neg (h.owed_neg d hd).2 r).1

lemma WF.pos_eq (h : s.WF) (r : Row) : s.pos r = (s.net r).toNat := by
  have h1 := h.owed_nonpos r
  have h2 := h.disjoint r
  unfold net
  by_cases h0 : s.owed r = 0
  · rw [h0]; omega
  · rw [h2 (by omega)]; omega

/-! ## The building blocks -/

variable {d c : DeltaBatch}

lemma negativePart_net (h : (c.rows.map Prod.fst).Nodup) (r : Row) :
    ((negativePart c).map (DeltaBatch.net · r)).getD 0 = min (c.net r) 0 := by
  have hneg : weight (negative c.rows) r = min (c.net r) 0 := weight_negative h r
  unfold negativePart
  split
  · next he =>
    rw [← hneg]
    exact (net_of_isEmpty he r).symm
  · exact hneg

lemma negativePart_owes {n : DeltaBatch} (hn : negativePart c = some n) :
    n.schema = c.schema ∧ n.rows ≠ [] ∧ ∀ p ∈ n.rows, p ∈ c.rows ∧ p.2 < 0 := by
  simp only [negativePart] at hn
  split at hn
  · cases hn
  · next hne =>
    cases hn
    exact ⟨rfl, by simpa [DeltaBatch.isEmpty] using hne, by simp [filterMask]⟩

lemma pos_fromPositive (b : RecordBatch) (r : Row) : (fromPositive b).pos r = b.count r := by
  unfold pos fromPositive
  by_cases h : b.rows.isEmpty = true
  · have hnil : b.rows = [] := by simpa using h
    simp [RecordBatch.count, hnil]
  · simp [h]

lemma counted_fromPositive (b : RecordBatch) :
    (fromPositive b).positiveRows = ((fromPositive b).positive.map RecordBatch.numRows).sum := by
  unfold fromPositive
  by_cases h : b.rows.isEmpty = true
  · have hnil : b.rows = [] := by simpa using h
    simp [RecordBatch.numRows, hnil]
  · simp [h]

/-- A state rebuilt from a settled Z-set: relation and deficit are its two parts. -/
lemma settled_spec (h : (c.rows.map Prod.fst).Nodup)
    (hp : s.positive = (fromPositive c.filterPositiveExpanded).positive)
    (hrows : s.positiveRows = (fromPositive c.filterPositiveExpanded).positiveRows)
    (hd : s.deficit = negativePart c) : s.WF ∧ ∀ r, s.net r = c.net r := by
  have hpos : ∀ r, s.pos r = (c.net r).toNat := by
    intro r
    rw [pos, hp, ← pos, pos_fromPositive]
    exact count_expand h r
  have howed : ∀ r, s.owed r = min (c.net r) 0 := by
    intro r
    rw [owed, hd, negativePart_net h]
  refine ⟨⟨?_, ?_, ?_⟩, ?_⟩
  · intro n hn
    obtain ⟨-, hne, hneg⟩ := negativePart_owes (hd ▸ hn)
    exact ⟨hne, fun p hp => (hneg p hp).2⟩
  · intro r; rw [howed, hpos]; omega
  · rw [hrows, hp]
    exact counted_fromPositive _
  · intro r; rw [net, hpos, howed]; omega

lemma zsetWith_net {extra : Option DeltaBatch} (h : s.zsetWith extra = .ok d) (r : Row) :
    d.net r = s.net r + (extra.map (DeltaBatch.net · r)).getD 0 := by
  have hpos : ∀ l : List RecordBatch, ((l.map fromInserts).map (DeltaBatch.net · r)).sum =
        (((l.map (RecordBatch.count · r)).sum : ℕ) : ℤ) := by
    intro l
    induction l with
    | nil => rfl
    | cons b l ih => rw [map_cons, map_cons, sum_cons, ih]; simp
  have hopt : ∀ o : Option DeltaBatch,
      ((o.toList).map (DeltaBatch.net · r)).sum = (o.map (DeltaBatch.net · r)).getD 0 := by
    intro o
    cases o <;> simp
  have hsum : ((s.positive.map fromInserts ++ s.deficit.toList ++ extra.toList).map
      (DeltaBatch.net · r)).sum = s.net r + (extra.map (DeltaBatch.net · r)).getD 0 := by
    rw [map_append, map_append, sum_append, sum_append, hpos, hopt, hopt]
    rfl
  simp only [zsetWith] at h
  split at h
  · next he =>
    cases h
    rw [List.isEmpty_iff] at he
    rw [← hsum, he]
    simp
  · rw [net_concat h, hsum]

variable {s s' : SourceState}

lemma sealTail_spec (h : s.sealTail = .ok s') :
    (∀ r, s'.pos r = s.pos r) ∧ s'.deficit = s.deficit ∧ s'.positiveRows = s.positiveRows ∧
      (s'.positive.map RecordBatch.numRows).sum = (s.positive.map RecordBatch.numRows).sum ∧
      s'.schema = s.schema := by
  simp only [sealTail] at h
  split at h
  · cases h; simp
  split at h
  · obtain ⟨merged, hm, h⟩ := Except.bind_eq_ok_iff.mp h
    cases h
    rw [concatBatches_eq_ok hm]
    -- the sealed run holds the rows of the tail, so chunk sums are unchanged
    refine ⟨fun r => ?_, rfl, rfl, ?_, rfl⟩
    · unfold pos
      conv_rhs => rw [← take_append_drop s.sealed s.positive]
      rw [map_append, map_append, sum_append, sum_append]
      congr 1
      simp [RecordBatch.count, ZSet.count_flatten, Function.comp_def]
    · conv_rhs => rw [← take_append_drop s.sealed s.positive]
      rw [map_append, map_append, sum_append, sum_append]
      congr 1
      simp only [RecordBatch.numRows, map_cons, map_nil, sum_singleton, length_flatten, map_map]
      rfl
  · cases h; simp [pos]

lemma pushPositive_spec {b : RecordBatch} (h : s.pushPositive b = .ok s')
    (hc : s.positiveRows = (s.positive.map RecordBatch.numRows).sum) :
    (∀ r, s'.pos r = s.pos r + b.count r) ∧ s'.deficit = s.deficit ∧
      s'.positiveRows = (s'.positive.map RecordBatch.numRows).sum := by
  unfold pushPositive at h
  split at h
  · next he =>
    cases h
    have hnil : b.rows = [] := by simpa using he
    exact ⟨fun r => by simp [RecordBatch.count, hnil], rfl, hc⟩
  split at h
  · cases h
  dsimp only at h
  split at h
  · obtain ⟨hpos, hdef, hrows, hsum, _⟩ := sealTail_spec h
    refine ⟨fun r => ?_, hdef, ?_⟩
    · rw [hpos r]; simp [pos]
    · rw [hrows, hsum]; simp [hc]
  · cases h
    exact ⟨fun r => by simp [pos], rfl, by simp [hc]⟩

/-! ## The operations on the Z-set -/

lemma fromPositive_wf (b : RecordBatch) : (fromPositive b).WF := by
  refine ⟨fun d hd => ?_, fun r hr => ?_, counted_fromPositive b⟩
  · cases hd
  · exact absurd hr (lt_irrefl _)

lemma net_fromPositive (b : RecordBatch) (r : Row) : (fromPositive b).net r = b.count r := by
  have h : (fromPositive b).owed r = 0 := rfl
  rw [net, h, pos_fromPositive, add_zero]

variable {cons : DeltaBatch → DeltaResult DeltaBatch}

lemma Settles.net_eq (hcons : Settles cons d) (h : cons d = .ok c) (r : Row) : c.net r = d.net r := by
  rw [DeltaBatch.net, hcons.rows h, weight_consolidate, DeltaBatch.net]

section

variable (hm : Merges cons)

include hm

lemma fromZsetWith_spec (h : fromZsetWith cons d = .ok s) :
    s.WF ∧ ((d.allUnitInserts = false → Settles cons d) → ∀ r, s.net r = d.net r) := by
  unfold fromZsetWith at h
  split at h
  · next hu =>
    cases h
    refine ⟨fromPositive_wf _, fun _ r => ?_⟩
    rw [net_fromPositive, count_dataBatch_of_unit hu]
  · next hu =>
    obtain ⟨c, hc, h⟩ := Except.bind_eq_ok_iff.mp h
    cases h
    obtain ⟨hwf, hnet⟩ := settled_spec (s := { fromPositive c.filterPositiveExpanded with
      deficit := negativePart c }) (hm.nodup hc) rfl rfl rfl
    exact ⟨hwf, fun hcons r => (hnet r).trans (Settles.net_eq (hcons (by simpa using hu)) hc r)⟩

/-- One delta moves the Z-set by exactly itself, whichever branch runs. -/
lemma applyWith_spec (hs : s.WF) (h : s.applyWith cons d = .ok s') : s'.WF ∧
    ((∀ m, merged (some s) d = .ok (some m) → Settles cons m) → ∀ r, s'.net r = s.net r + d.net r) := by
  unfold applyWith at h
  split at h
  · -- push a chunk: nothing is owed, before or after
    next hdef hu =>
    obtain ⟨hpos, hdef', hcount⟩ := pushPositive_spec h hs.counted
    have howed : ∀ r, s'.owed r = 0 := by
      intro r
      rw [owed, hdef', hdef]
      rfl
    have howed0 : ∀ r, s.owed r = 0 := by
      intro r
      rw [owed, hdef]
      rfl
    refine ⟨⟨fun n hn => ?_, fun r hr => ?_, hcount⟩, fun _ r => ?_⟩
    · rw [hdef', hdef] at hn; cases hn
    · rw [howed r] at hr; omega
    · rw [net, net, hpos r, howed r, howed0 r, ← count_dataBatch_of_unit hu]
      push_cast
      ring
  · -- settle the deficit: the relation only receives what is left over
    next deficit hdef hu =>
    simp only [Except.bind_eq_ok_iff] at h
    obtain ⟨merged, hmer, settled, hset, h⟩ := h
    have hnodup := hm.nodup hset
    obtain ⟨hpos, hdef', hcount⟩ := pushPositive_spec h hs.counted
    have hpos' : ∀ r, s'.pos r = s.pos r + (settled.net r).toNat := by
      intro r
      rw [hpos r]
      exact congrArg _ (count_expand hnodup r)
    have howed : ∀ r, s'.owed r = min (settled.net r) 0 := by
      intro r
      rw [owed, hdef', negativePart_net hnodup]
    -- what stays owed was owed before
    have hsub : ∀ r, settled.net r < 0 → s.owed r < 0 := by
      intro r hr
      have hmem : r ∈ settled.rows.map Prod.fst := by
        by_contra hnot
        rw [DeltaBatch.net, weight_eq_zero_of_notMem hnot] at hr
        exact absurd hr (lt_irrefl _)
      obtain ⟨⟨r, w⟩, hp, rfl⟩ := mem_map.mp hmem
      rw [DeltaBatch.net, weight_eq_of_mem hnodup hp] at hr
      have hrows : merged.rows = deficit.rows ++ d.rows := by
        rw [(concat_eq_ok hmer).2]
        simp
      have hrow := hm.owing hset hrows
        (fun p hp => by rw [of_decide_eq_true (all_eq_true.mp hu p hp)]; exact zero_le_one) _ hp hr
      rw [owed, hdef]
      exact (net_neg (hs.owed_neg deficit hdef).2 r).2 hrow
    refine ⟨⟨fun n hn => ?_, fun r hr => ?_, hcount⟩, fun hcons r => ?_⟩
    · rw [hdef'] at hn
      obtain ⟨-, hne, hneg⟩ := negativePart_owes hn
      exact ⟨hne, fun p hp => (hneg p hp).2⟩
    · rw [howed r] at hr
      have hs0 := hs.disjoint r (hsub r (by omega))
      rw [hpos' r, hs0]
      omega
    · have hx : settled.net r = s.owed r + d.net r := by
        rw [Settles.net_eq (hcons merged (by simp [SourceState.merged, hu, hdef, hmer, Except.map])) hset,
          net_concat hmer, owed, hdef]
        simp
      rw [net, net, hpos' r, howed r]
      omega
  · -- consolidate the whole Z-set
    next hu =>
    simp only [Except.bind_eq_ok_iff] at h
    obtain ⟨merged, hmer, settled, hset, h⟩ := h
    cases h
    obtain ⟨hwf, hnet⟩ := settled_spec (s := { ({ s with consolidations := s.consolidations + 1 } :
      SourceState).replacePositive settled.filterPositiveExpanded with
        deficit := negativePart settled }) (hm.nodup hset) rfl rfl rfl
    have hmerged : ∀ {m}, s.zsetWith (some d) = .ok m → SourceState.merged (some s) d = .ok (some m) := by
      intro m hzset
      cases hdef : s.deficit <;> simp [SourceState.merged, hu, hdef, hzset, Except.map]
    refine ⟨hwf, fun hcons r => ?_⟩
    rw [hnet r, Settles.net_eq (hcons merged (hmerged hmer)) hset, zsetWith_net hmer r]
    rfl

variable {current : Option SourceState}

/-- `apply_to`, with an absent state standing for the empty Z-set. -/
lemma applyToWith_spec (hs : ∀ s, current = some s → s.WF) (h : applyToWith cons current d = .ok s') : s'.WF ∧
    ((∀ m, merged current d = .ok (some m) → Settles cons m) → ∀ r, s'.net r = (current.map (net · r)).getD 0 + d.net r) := by
  cases current with
  | none =>
    obtain ⟨hwf, hnet⟩ := fromZsetWith_spec hm h
    exact ⟨hwf, fun hcons r => by rw [hnet (fun hu => hcons d (by simp [merged, hu])) r]; simp⟩
  | some s => exact applyWith_spec hm (hs s rfl) h

end

variable {current : Option SourceState}

/-- No two rows of the batch that a delta has consolidated share a key. -/
def KeysApart (current : Option SourceState) (delta : DeltaBatch) : Prop :=
  ∀ m, merged current delta = .ok (some m) → m.Apart .plain

/-- What a source holds and what it owes, as batches. -/
def partsOf (current : Option SourceState) : List DeltaBatch :=
  (current.map fun s => s.positive.map DeltaBatch.fromInserts ++ s.deficit.toList).getD []

/-- A delta of rows that have keys of their own beside those of the source. -/
lemma keysApart_of_rowsApart {queue : List DeltaBatch} (h : RowsApart (partsOf current ++ queue))
    (hschema : ∃ b ∈ queue, b.schema = d.schema) (hrows : ∀ p ∈ d.rows, ∃ c ∈ queue, p.1 ∈ c.rows.map Prod.fst) :
    KeysApart current d := by
  have hdelta : (∃ b ∈ partsOf current ++ queue, b.schema = d.schema) ∧
      ∀ p ∈ d.rows, ∃ c ∈ partsOf current ++ queue, p.1 ∈ c.rows.map Prod.fst := by
    refine ⟨?_, fun p hp => ?_⟩
    · obtain ⟨b, hb, heq⟩ := hschema
      exact ⟨b, mem_append_right _ hb, heq⟩
    · obtain ⟨c, hc, hmem⟩ := hrows p hp
      exact ⟨c, mem_append_right _ hc, hmem⟩
  -- a concatenation of parts of the source and the delta
  have hconcat : ∀ {bs m}, DeltaBatch.concat bs = .ok m → (∀ b ∈ bs, b ∈ partsOf current ∨ b = d) → m.Apart .plain := by
    intro bs m hm hbs
    obtain ⟨⟨b, hb, hb'⟩, hall⟩ := concat_eq_ok hm
    refine h.apart ?_ fun p hp => ?_
    · rcases hbs b hb with hpart | rfl
      · exact ⟨b, mem_append_left _ hpart, hb'⟩
      · exact hb' ▸ hdelta.1
    · rw [hall] at hp
      obtain ⟨l, hl, hp⟩ := mem_flatten.mp hp
      obtain ⟨c, hc, rfl⟩ := mem_map.mp hl
      rcases hbs c hc with hpart | rfl
      · exact ⟨c, mem_append_left _ hpart, mem_map_of_mem hp⟩
      · exact hdelta.2 p hp
  intro m hm
  cases current with
  | none =>
    simp only [merged, Except.ok.injEq] at hm
    split_ifs at hm
    cases hm
    exact h.apart hdelta.1 hdelta.2
  | some s =>
    have hzset : ∀ {m}, s.zsetWith (some d) = .ok m → m.Apart .plain := by
      intro m hz
      simp only [zsetWith] at hz
      split at hz
      · next he => simp at he
      · refine hconcat hz fun b hb => ?_
        rcases mem_append.mp hb with hb | hb
        exacts [.inl hb, .inr (by simpa using hb)]
    simp only [merged] at hm
    split at hm
    · cases hm
    · next deficit hdef hu =>
      obtain ⟨m', hm', heq⟩ := Except.map_eq_ok_iff.mp hm
      cases heq
      refine hconcat hm' fun b hb => ?_
      rcases mem_pair.mp hb with rfl | rfl
      exacts [.inl (by simp [partsOf, hdef]), .inr rfl]
    · obtain ⟨m', hm', heq⟩ := Except.map_eq_ok_iff.mp hm
      cases heq
      exact hzset hm'

lemma applyTo_spec (hs : ∀ s, current = some s → s.WF) (h : applyTo current d = .ok s') :
    s'.WF ∧ (KeysApart current d → ∀ r, s'.net r = (current.map (net · r)).getD 0 + d.net r) := by
  obtain ⟨hwf, hnet⟩ := applyToWith_spec (merges_consolidateByKey .plain) hs h
  exact ⟨hwf, fun hapart => hnet fun m hmer => settles_of_apart (hapart m hmer)⟩

/-- A relation and a deficit settled against each other. -/
lemma setDeficit_spec (hs : s.WF) (h : s.setDeficit (some d) = .ok s') : s'.WF ∧
    ((∀ m, { s with deficit := some d }.zset = .ok m → m.Apart .plain) → ∀ r, s'.net r = s.pos r + d.net r) := by
  simp only [setDeficit] at h
  split at h
  · next he =>
    cases h
    refine ⟨⟨fun n hn => ?_, fun r hr => absurd hr (lt_irrefl _), hs.counted⟩, fun _ r => ?_⟩
    · cases hn
    · rw [net_of_isEmpty he]
      rfl
  simp only [Except.bind_eq_ok_iff] at h
  obtain ⟨merged, hmer, settled, hset, h⟩ := h
  cases h
  obtain ⟨hwf, hnet⟩ := settled_spec (s := { ({ s with deficit := some d } :
    SourceState).replacePositive settled.filterPositiveExpanded with
      deficit := negativePart settled }) ((merges_consolidateByKey .plain).nodup hset) rfl rfl rfl
  refine ⟨hwf, fun hapart r => ?_⟩
  rw [hnet r, Settles.net_eq (settles_of_apart (hapart merged hmer)) hset, zsetWith_net hmer r]
  exact add_zero _

lemma zset_net (h : s.zset = .ok d) (r : Row) : d.net r = s.net r := by
  have := zsetWith_net h r
  simpa using this

end SourceState

end Krishiv.Delta
