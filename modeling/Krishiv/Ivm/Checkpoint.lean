import Krishiv.Delta.Consolidation
import Krishiv.Ivm.Input

/-!
# Checkpoints of the sources

`checkpoint` writes every source as its Z-set and `restore` reads them back. A *delta checkpoint*
writes what was fed since the last one; `restoreDelta` adds such a slice to the sources, keeping one
copy of a row at most.

Arrow IPC is taken to round-trip batches, so a blob is the map it encodes. A slice is read entry by
entry while the sources are already being changed; an entry that does not decode is an error at the
point where the loop meets it.
-/

namespace Krishiv.Ivm

open Krishiv.Delta List DeltaBatch

variable {P : Type}

/-- Named Z-sets, as written by `checkpoint` and `checkpoint_delta`. -/
abbrev SourceBlob := NameMap DeltaBatch

/-! ## Full checkpoints of the sources -/

def checkpoint (s : Inner P) : IvmResult SourceBlob :=
  KVMap.mapM (fun _ source => source.state.zset.mapError deltaErr) s.sourceSnapshots

def decodeSources (blob : SourceBlob) : IvmResult (NameMap Source) :=
  KVMap.mapM (fun _ zset => (Source.fromZset zset).mapError deltaErr) blob

def restore (s : Inner P) (blob : SourceBlob) : Inner P × IvmResult Unit :=
  match decodeSources blob with
  | .error e => (s, .error e)
  | .ok sources => (replaceSources s sources, .ok ())

/-! ## Delta checkpoints -/

def enableDeltaCheckpoints (s : Inner P) : Inner P := { s with deltaCheckpointEnabled := true }

/-- Write the accumulated deltas, one per source. The accumulator is emptied first, so it is empty
also when the deltas of a source do not concatenate. -/
def checkpointDelta (s : Inner P) : Inner P × IvmResult SourceBlob :=
  ({ s with checkpointDeltas := ∅ }, KVMap.mapM (fun _ deltas => concatQueue deltas) s.checkpointDeltas)

/-- The Z-set of a source, if there is one, and a slice. -/
def addSlice (current : Option Source) (delta : DeltaBatch) : DeltaResult DeltaBatch :=
  match current with
  | some source => do
    let base ← source.state.zset
    DeltaBatch.concat [base, delta]
  | none => .ok delta

/-- The copies that keeping one of each row gives up. -/
def collapsedCopies (d : DeltaBatch) : ℕ := (d.rows.map fun p => p.2.natAbs - 1).sum

/-- One entry of a slice. -/
def restoreEntry (current : Option Source) (delta : DeltaBatch) : DeltaResult (Source × ℕ) := do
  let composed ← addSlice current delta
  let consolidated ← consolidateBatch composed
  let source ← Source.fromZset consolidated.normalizeWeights
  .ok (source, collapsedCopies consolidated)

/-- The entries in order. A source is taken out of the map before its entry is composed, so a
failure leaves the map without it. -/
def restoreEntries : Inner P → List (IvmResult (String × DeltaBatch)) → Inner P × IvmResult Unit
  | s, [] => (s, .ok ())
  | s, .error e :: _ => (s, .error e)
  | s, .ok (name, delta) :: rest =>
    match restoreEntry (s.sourceSnapshots.lookup name) delta with
    | .error e => ({ s with sourceSnapshots := s.sourceSnapshots.erase name }, .error (deltaErr e))
    | .ok (source, collapsed) =>
      let total := (s.deltaRestoreCollapsedRows.lookup name).getD 0 + collapsed
      restoreEntries { s with
          sourceSnapshots := s.sourceSnapshots.insert name source
          deltaRestoreCollapsedRows := if 0 < collapsed
            then s.deltaRestoreCollapsedRows.insert name total
            else s.deltaRestoreCollapsedRows } rest

/-- `restore_delta` on the entries of a byte string. -/
def restoreDeltaEntries (s : Inner P) (entries : List (IvmResult (String × DeltaBatch))) : Inner P × IvmResult Unit :=
  match restoreEntries s entries with
  | (s, .error e) => (s, .error e)
  | (s, .ok ()) => (replaceSources s s.sourceSnapshots, .ok ())

/-- `restore_delta` on a slice that was written by `checkpoint_delta`. -/
def restoreDelta (s : Inner P) (slice : SourceBlob) : Inner P × IvmResult Unit :=
  restoreDeltaEntries s (slice.entries.map fun e => .ok (e.1, e.2))

/-- The slices in order, stopping at the first that fails. -/
def restoreDeltas : Inner P → List SourceBlob → Inner P × IvmResult Unit
  | s, [] => (s, .ok ())
  | s, slice :: slices =>
    match restoreDelta s slice with
    | (s, .error e) => (s, .error e)
    | (s, .ok ()) => restoreDeltas s slices

/-- A base checkpoint and the slices on top of it. -/
def restoreAll (s : Inner P) (base : SourceBlob) (slices : List SourceBlob) : Inner P × IvmResult Unit :=
  match restore s base with
  | (s, .error e) => (s, .error e)
  | (s, .ok ()) => restoreDeltas s slices

/-! ## Columns and rows

A slice is composed with the Z-set of the source, so the columns must not have changed since, not even
while the source was empty, and rows are merged by their keys. -/

/-- All parts of a source have the columns `T` and rows from `K`. -/
structure Source.Typed (T : Schema) (K : Set Row) (s : Source) : Prop where
  schema : s.state.schema = T
  positive : ∀ b ∈ s.state.positive, (fromInserts b).Of T K
  deficit : ∀ d, s.state.deficit = some d → d.Of T K

/-- Under the columns the rows have keys of their own, and all looked-up cells have texts. -/
def TellApart (T : Schema) (K : Set Row) : Prop := Distinct .plain T K ∧ K ⊆ textual T

variable {T : Schema} {K : Set Row}

lemma concat_of_parts {ds : List DeltaBatch} (hne : ds ≠ []) (h : ∀ b ∈ ds, b.Of T K) :
    ∃ d, DeltaBatch.concat ds = .ok d ∧ d.Of T K := by
  obtain ⟨d, hd, -⟩ := concat_total hne fun b hb => congrArg Schema.shape (h b hb).schema_eq
  exact ⟨d, hd, (Of.concat h hd).1⟩

/-- The Z-set of a typed source. -/
lemma Source.Typed.zset {s : Source} (h : s.Typed T K) :
    ∃ z, s.state.zset = .ok z ∧ z.Of T K ∧ ∀ r, z.net r = s.net r := by
  suffices hok : ∃ z, s.state.zset = .ok z ∧ z.Of T K by
    obtain ⟨z, hz, hof⟩ := hok
    exact ⟨z, hz, hof, fun r => SourceState.zset_net hz r⟩
  unfold SourceState.zset SourceState.zsetWith
  dsimp only
  split
  · exact ⟨_, rfl, h.schema, nofun⟩
  next hne =>
  refine concat_of_parts (by simpa using hne) fun b hb => ?_
  simp only [Option.toList_none, append_nil, mem_append, mem_map, Option.mem_toList] at hb
  rcases hb with ⟨p, hp, rfl⟩ | hd
  exacts [h.positive p hp, h.deficit b hd]

/-- What a consolidated batch of the source stands for. -/
lemma consolidateBatch_typed (hK : TellApart T K) {d : DeltaBatch} (hd : d.Of T K) :
    ∃ c, consolidateBatch d = .ok c ∧ c.Of T K ∧ (c.rows.map Prod.fst).Nodup ∧ ∀ r, c.net r = d.net r := by
  refine ⟨_, consolidateByKey_of hK.1 hK.2 hd, hd.consolidate, ZSet.nodup_keys_consolidate _, fun r => ?_⟩
  rw [DeltaBatch.net, ZSet.weight_consolidate, DeltaBatch.net]

/-- A Z-set becomes a typed source. -/
lemma Source.fromZset_typed (hK : TellApart T K) {z : DeltaBatch} (hz : z.Of T K) :
    ∃ s, Source.fromZset z = .ok s ∧ s.Typed T K ∧ ∀ r, s.net r = z.net r := by
  have hpositive : ∀ b : RecordBatch, (fromInserts b).Of T K →
      ∀ p ∈ (SourceState.fromPositive b).positive, (fromInserts p).Of T K := by
    intro b hb p hp
    unfold SourceState.fromPositive at hp
    split at hp
    · cases hp
    · rw [mem_singleton.mp hp]
      exact hb
  have hstate : ∃ st, SourceState.fromZset z = .ok st ∧ st.schema = T ∧
      (∀ b ∈ st.positive, (fromInserts b).Of T K) ∧ ∀ d, st.deficit = some d → d.Of T K := by
    unfold SourceState.fromZset SourceState.fromZsetWith
    by_cases hu : z.allUnitInserts = true
    · rw [if_pos hu]
      refine ⟨_, rfl, hz.schema_eq, hpositive _ ⟨hz.schema_eq, fun p hp => ?_⟩, nofun⟩
      obtain ⟨r, hr, rfl⟩ := mem_map.mp hp
      obtain ⟨q, hq, rfl⟩ := mem_map.mp hr
      exact hz.rows_mem q hq
    rw [if_neg hu]
    obtain ⟨c, hc, hcof, -⟩ := consolidateBatch_typed hK hz
    refine ⟨{ SourceState.fromPositive c.filterPositiveExpanded with deficit := negativePart c },
      by rw [hc]; rfl, hcof.schema_eq, hpositive _ ⟨hcof.schema_eq, fun p hp => ?_⟩, fun d hd => ?_⟩
    · obtain ⟨r, hr, rfl⟩ := mem_map.mp hp
      obtain ⟨q, hq, hrep⟩ := mem_flatMap.mp hr
      rw [eq_of_mem_replicate hrep]
      exact hcof.rows_mem q hq
    · obtain ⟨hschema, -, hrows⟩ := SourceState.negativePart_owes hd
      exact ⟨hschema.trans hcof.schema_eq, fun p hp => hcof.rows_mem p (hrows p hp).1⟩
  obtain ⟨st, hst, hschema, hpos, hdef⟩ := hstate
  obtain ⟨hwf, hnet⟩ := SourceState.fromZsetWith_spec (merges_consolidateByKey .plain) hst
  refine ⟨⟨st, hwf⟩, ?_, ⟨hschema, hpos, hdef⟩, hnet fun _ => settles_of_apart (hz.apart hK.1)⟩
  unfold Source.fromZset Source.applyTo
  split
  · next e he =>
    rw [show SourceState.applyTo (Option.map Source.state none) z = .ok st from hst] at he
    cases he
  next s hs =>
  rw [show SourceState.applyTo (Option.map Source.state none) z = .ok st from hst] at hs
  cases hs
  rfl

/-- Clamping every weight to its sign, where every row is listed once. -/
lemma net_normalizeWeights {c : DeltaBatch} (hn : (c.rows.map Prod.fst).Nodup) (r : Row) :
    c.normalizeWeights.net r = (c.net r).sign := by
  unfold net normalizeWeights
  generalize c.rows = rows at hn
  by_cases hr : r ∈ rows.map Prod.fst
  · obtain ⟨⟨r', w⟩, hmem, rfl⟩ := mem_map.mp hr
    rw [ZSet.weight_eq_of_mem hn hmem]
    apply ZSet.weight_eq_of_mem
    · rw [map_map]
      exact hn
    · exact mem_map_of_mem hmem
  · rw [ZSet.weight_eq_zero_of_notMem hr, Int.sign_zero]
    apply ZSet.weight_eq_zero_of_notMem
    rw [map_map]
    exact hr

/-- A slice entry over a typed source: one copy of every row that is present, one owed copy of every
row that is owed. -/
lemma restoreEntry_typed (hK : TellApart T K) {current : Option Source} {delta : DeltaBatch}
    (hcur : ∀ s, current = some s → s.Typed T K) (hd : delta.Of T K) :
    ∃ s n, restoreEntry current delta = .ok (s, n) ∧ s.Typed T K ∧
      ∀ r, s.net r = ((current.map (Source.net · r)).getD 0 + delta.net r).sign := by
  have hadd : ∃ b, addSlice current delta = .ok b ∧ b.Of T K ∧
      ∀ r, b.net r = (current.map (Source.net · r)).getD 0 + delta.net r := by
    cases current with
    | none => exact ⟨delta, rfl, hd, fun r => by simp⟩
    | some source =>
      obtain ⟨z, hz, hzof, hznet⟩ := (hcur source rfl).zset
      obtain ⟨b, hb, hbof⟩ := concat_of_parts (cons_ne_nil z [delta])
        (forall_mem_cons.mpr ⟨hzof, forall_mem_singleton.mpr hd⟩)
      refine ⟨b, by rw [addSlice, hz]; exact hb, hbof, fun r => ?_⟩
      rw [net_concat hb]
      simp [hznet r]
  obtain ⟨b, hb, hbof, hbnet⟩ := hadd
  obtain ⟨c, hc, hcof, hcnodup, hcnet⟩ := consolidateBatch_typed hK hbof
  have hsigns : c.normalizeWeights.Of T K := by
    refine ⟨hcof.schema_eq, fun p hp => ?_⟩
    obtain ⟨q, hq, rfl⟩ := mem_map.mp hp
    exact hcof.rows_mem q hq
  obtain ⟨s, hs, htyped, hnet⟩ := Source.fromZset_typed hK hsigns
  have hentry : restoreEntry current delta = .ok (s, collapsedCopies c) := by
    simp [restoreEntry, hb, hc, hs, bind, Except.bind]
  refine ⟨s, collapsedCopies c, hentry, htyped, fun r => ?_⟩
  rw [hnet r, net_normalizeWeights hcnodup r, hcnet, hbnet r]

/-- The entries of a written slice are read like one pass over the map. -/
lemma restoreEntries_ok {l : List (Sigma fun _ : String => DeltaBatch)} {s : Inner P} {m : NameMap Source}
    (h : KVMap.updateEntries (fun _ d cur => (restoreEntry cur d).map fun p => some p.1) l
      s.sourceSnapshots = .ok m) : ∃ s', restoreEntries s (l.map fun e => .ok (e.1, e.2)) = (s', .ok ()) ∧
    s'.sourceSnapshots = m := by
  induction l generalizing s with
  | nil =>
    cases h
    exact ⟨s, rfl, rfl⟩
  | cons e l ih =>
    obtain ⟨name, delta⟩ := e
    simp only [KVMap.updateEntries, Except.bind_eq_ok_iff] at h
    obtain ⟨o, ho, h⟩ := h
    obtain ⟨⟨source, collapsed⟩, hentry, rfl⟩ := Except.map_eq_ok_iff.mp ho
    simp only [map_cons, restoreEntries, hentry]
    exact ih h

end Krishiv.Ivm
