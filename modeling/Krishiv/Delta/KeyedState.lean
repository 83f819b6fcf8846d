import Krishiv.Delta.Consolidation
import Krishiv.Delta.SourceState

/-!
# The source state under the code's consolidation

`SourceState.applyWith` with the consolidation of the code. A run keeps the books of the state, and its
relation and deficit are the two parts of the sum of what was fed, as long as no step merges different
rows (`run_booked`).

`applyInPlace` is `apply` on the state it is called on, with what is left of it when it fails. The branch
that settles a deficit takes it out of the state first, so that a delta that does not fit makes the state
forget what it owes (`debt_forgotten`); `applyInPlace_keeps_iff` says which failures keep the Z-set.
-/

namespace Krishiv.Delta.SourceState

open Except

variable {F : FloatFormat} {s s' : SourceState} {d : DeltaBatch}

/-! ## The books -/

/-- The chunks that are not sealed, and how many rows they have. -/
def Sealed (s : SourceState) : Prop :=
  s.sealed ≤ s.positive.length ∧ s.unsealedRows = ((s.positive.drop s.sealed).map RecordBatch.numRows).sum

/-- What the fields of a state say about each other. -/
structure Booked (s : SourceState) : Prop extends s.WF where
  debt : ∀ n, s.deficit = some n → n.rows ≠ [] ∧ ∀ p ∈ n.rows, p.2 < 0 ∧ s.pos p.1 = 0
  chunks : s.Sealed

lemma sealed_fromPositive (b : RecordBatch) : (fromPositive b).Sealed := by
  unfold fromPositive Sealed
  by_cases h : b.rows.isEmpty = true <;> simp [h]

lemma sealTail_sealed (hs : s.Sealed) (h : s.sealTail = .ok s') : s'.Sealed := by
  simp only [sealTail] at h
  split at h
  · cases h
    exact hs
  split at h
  · obtain ⟨run, -, h⟩ := bind_eq_ok_iff.mp h
    cases h
    exact ⟨le_rfl, by rw [List.drop_length]; rfl⟩
  · cases h
    exact ⟨le_rfl, by rw [List.drop_length]; rfl⟩

lemma pushPositive_sealed {b : RecordBatch} (h : s.pushPositive b = .ok s') (hs : s.Sealed) : s'.Sealed := by
  unfold pushPositive at h
  split at h
  · cases h
    exact hs
  split at h
  · cases h
  have hpushed : Sealed { s with
      schema := if s.positive.isEmpty then b.schema else s.schema
      positive := s.positive ++ [b]
      positiveRows := s.positiveRows + b.numRows
      unsealedRows := s.unsealedRows + b.numRows } := by
    refine ⟨by simpa using Nat.le_succ_of_le hs.1, ?_⟩
    rw [List.drop_append_of_le_length hs.1, hs.2]
    simp
  dsimp only at h
  split at h
  · exact sealTail_sealed hpushed h
  · cases h
    exact hpushed

variable {cons : DeltaBatch → DeltaResult DeltaBatch}

/-- Whatever is owed after a delta was settled with it. -/
lemma owed_settled {current : Option SourceState} (hs : ∀ s, current = some s → s.WF)
    (h : applyToWith cons current d = .ok s') {n : DeltaBatch} (hn : s'.deficit = some n) :
    ∃ m c, merged current d = .ok (some m) ∧ cons m = .ok c ∧ negativePart c = some n := by
  cases current with
  | none =>
    simp only [applyToWith, fromZsetWith] at h
    split_ifs at h with hu
    · cases h
      cases hn
    · obtain ⟨c, hc, h⟩ := bind_eq_ok_iff.mp h
      cases h
      exact ⟨d, c, by rw [merged, if_neg hu], hc, hn⟩
  | some s =>
    have hcounted := (hs s rfl).counted
    simp only [applyToWith, applyWith] at h
    split at h
    · next hdef hu =>
      rw [(pushPositive_spec h hcounted).2.1, hdef] at hn
      cases hn
    · next deficit hdef hu =>
      simp only [bind_eq_ok_iff] at h
      obtain ⟨m, hm, c, hc, h⟩ := h
      refine ⟨m, c, by simp [merged, hu, hdef, hm, Except.map], hc, ?_⟩
      rw [← hn, (pushPositive_spec h hcounted).2.1]
    · next hu =>
      simp only [bind_eq_ok_iff] at h
      obtain ⟨m, hm, c, hc, h⟩ := h
      cases h
      have hzset : s.zsetWith (some d) = .ok m := hm
      exact ⟨m, c, by cases hdef : s.deficit <;> simp [merged, hu, hdef, hzset, Except.map], hc, hn⟩

lemma fromPositive_booked (b : RecordBatch) : (fromPositive b).Booked :=
  ⟨fromPositive_wf b, nofun, sealed_fromPositive b⟩

lemma applyWith_booked (hm : Merges cons) (hs : s.Booked) (h : s.applyWith cons d = .ok s') : s'.Booked := by
  have hwf := (applyWith_spec hm hs.toWF h).1
  refine ⟨hwf, fun n hn => ?_, ?_⟩
  · obtain ⟨hne, hneg⟩ := hwf.owed_neg n hn
    refine ⟨hne, fun p hp => ⟨hneg p hp, hwf.disjoint p.1 ?_⟩⟩
    rw [owed, hn]
    exact (net_neg hneg p.1).2 (List.mem_map_of_mem hp)
  · unfold applyWith at h
    split at h
    · exact pushPositive_sealed h hs.chunks
    · simp only [bind_eq_ok_iff] at h
      obtain ⟨m, -, settled, -, h⟩ := h
      exact pushPositive_sealed h hs.chunks
    · simp only [bind_eq_ok_iff] at h
      obtain ⟨m, -, settled, -, h⟩ := h
      cases h
      exact sealed_fromPositive _

/-- No step of the run consolidates two different rows with the same keys. -/
def ApartAlong (F : FloatFormat) : SourceState → List DeltaBatch → Prop
  | _, [] => True
  | s, d :: ds => (∀ m, merged (some s) d = .ok (some m) → m.Apart F) ∧
    ∀ s', s.applyWith (consolidateByKey F) d = .ok s' → ApartAlong F s' ds

lemma Booked.run {ds : List DeltaBatch} (hs : s.Booked) (hapart : ApartAlong F s ds)
    (h : ds.foldlM (applyWith (consolidateByKey F)) s = .ok s') :
    s'.Booked ∧ ∀ r, s'.net r = s.net r + (ds.map (DeltaBatch.net · r)).sum := by
  induction ds generalizing s with
  | nil =>
    cases h
    exact ⟨hs, by simp⟩
  | cons d ds ih =>
    rw [List.foldlM_cons, bind_eq_ok_iff] at h
    obtain ⟨mid, hmid, h⟩ := h
    have hmerges := merges_consolidateByKey F
    obtain ⟨hbooked, hnet⟩ := ih (applyWith_booked hmerges hs hmid) (hapart.2 mid hmid) h
    refine ⟨hbooked, fun r => ?_⟩
    have hone := (applyWith_spec hmerges hs.toWF hmid).2 (fun m hm => settles_of_apart (hapart.1 m hm)) r
    rw [hnet, hone, List.map_cons, List.sum_cons, add_assoc]

/-- Two copies of a row, of which three are retracted. -/
def overdraft : List DeltaBatch :=
  [⟨sharedName.schema, [([.int 1, .int 5, .int 7], 2)]⟩, ⟨sharedName.schema, [([.int 1, .int 5, .int 7], -3)]⟩]

/-- `push_positive` on the state: what is left of it, and the result. -/
def pushInPlace (s : SourceState) (newRows : RecordBatch) : SourceState × DeltaResult Unit :=
  match s.pushPositive newRows with
  | .ok s' => (s', .ok ())
  | .error e =>
    -- other columns are refused before the chunk is kept, a failed seal leaves it in the tail
    if !s.positive.isEmpty && !sameColumns s.schema newRows.schema then (s, .error e)
    else
      ({ s with
         schema := if s.positive.isEmpty then newRows.schema else s.schema
         positive := s.positive ++ [newRows]
         positiveRows := s.positiveRows + newRows.numRows
         unsealedRows := s.unsealedRows + newRows.numRows }, .error e)

/-- `apply` on the state: what is left of it, and the result. -/
def applyInPlace (F : FloatFormat) (s : SourceState) (delta : DeltaBatch) : SourceState × DeltaResult Unit :=
  match delta.allUnitInserts, s.deficit with
  | true, none => s.pushInPlace delta.dataBatch
  | true, some deficit =>
    -- the deficit is taken out before it is settled
    match DeltaBatch.concat [deficit, delta] >>= consolidateByKey F with
    | .error e => ({ s with deficit := none }, .error e)
    | .ok settled => { s with deficit := negativePart settled }.pushInPlace settled.filterPositiveExpanded
  | false, _ =>
    let s := { s with consolidations := s.consolidations + 1 }
    match s.zsetWith (some delta) >>= consolidateByKey F with
    | .error e => (s, .error e)
    | .ok settled =>
      ({ s.replacePositive settled.filterPositiveExpanded with deficit := negativePart settled }, .ok ())

/-- The relation has rows, and its columns are not these. -/
def OtherColumns (s : SourceState) (columns : Schema) : Prop :=
  s.positive ≠ [] ∧ sameColumns s.schema columns = false

/-- A delta that is refused before anything is paid with it. -/
def Refuses (F : FloatFormat) (s : SourceState) (delta : DeltaBatch) : Prop :=
  match s.deficit with
  | none => s.OtherColumns delta.schema
  | some deficit =>
    match DeltaBatch.concat [deficit, delta] >>= consolidateByKey F with
    | .error _ => ∀ r, deficit.net r = 0
    | .ok settled => s.OtherColumns settled.schema ∧
      ∀ r, ((negativePart settled).map (DeltaBatch.net · r)).getD 0 = deficit.net r

lemma pushInPlace_error {b : RecordBatch} {e : DeltaError} (h : (s.pushInPlace b).2 = .error e) :
    ((∀ r, (s.pushInPlace b).1.pos r = s.pos r) ↔ s.OtherColumns b.schema) ∧
      (s.pushInPlace b).1.deficit = s.deficit := by
  unfold pushInPlace at h ⊢
  cases hpush : s.pushPositive b with
  | ok s' =>
    rw [hpush] at h
    cases h
  | error e' =>
    dsimp only
    by_cases hcols : (!s.positive.isEmpty && !sameColumns s.schema b.schema) = true
    · rw [if_pos hcols]
      refine ⟨iff_of_true (fun r => rfl) ?_, rfl⟩
      simpa [OtherColumns] using hcols
    rw [if_neg hcols]
    refine ⟨iff_of_false (fun hpos => ?_) fun hother => hcols ?_, rfl⟩
    · -- an empty chunk is not refused
      have hne : b.rows ≠ [] := by
        intro hnil
        rw [pushPositive, hnil] at hpush
        cases hpush
      refine hne (ZSet.eq_nil_of_count fun r => ?_)
      have := hpos r
      simpa [pos, RecordBatch.count] using this
    · simpa [OtherColumns] using hother

/-- A delta that fails leaves the relation and the deficit as they were exactly if it is not of unit
insertions or is refused before anything is paid with it. -/
theorem applyInPlace_keeps_iff (F : FloatFormat) (s : SourceState) (d : DeltaBatch) (e : DeltaError)
    (h : (s.applyInPlace F d).2 = .error e) :
    (∀ r, (s.applyInPlace F d).1.pos r = s.pos r ∧ (s.applyInPlace F d).1.owed r = s.owed r) ↔
      d.allUnitInserts = false ∨ s.Refuses F d := by
  rw [forall_and]
  unfold applyInPlace Refuses at *
  cases hu : d.allUnitInserts with
  | false =>
    rw [hu] at h
    refine iff_of_true ?_ (.inl rfl)
    dsimp only at h ⊢
    split at h
    · exact ⟨fun r => rfl, fun r => rfl⟩
    · cases h
  | true =>
    rw [hu] at h
    cases hdef : s.deficit with
    | none =>
      rw [hdef] at h
      obtain ⟨hpos, hkept⟩ := pushInPlace_error h
      refine ⟨fun hsame => .inr (hpos.mp hsame.1), fun hor => ⟨hpos.mpr (hor.resolve_left nofun), fun r => ?_⟩⟩
      rw [owed, hkept, ← owed]
    | some deficit =>
      rw [hdef] at h
      dsimp only at h ⊢
      cases hsettled : DeltaBatch.concat [deficit, d] >>= consolidateByKey F with
      | error e' => simp [owed, pos, hdef, eq_comm]
      | ok settled =>
        rw [hsettled] at h
        obtain ⟨hpos, hkept⟩ := pushInPlace_error h
        simp only [owed, hkept, hdef]
        simpa [pos, OtherColumns, DeltaBatch.filterPositiveExpanded] using fun _ => hpos

/-- A source that owes a row, and a delta of other columns. -/
def owing : SourceState :=
  { fromPositive ⟨[⟨"k", .int64, false⟩], []⟩ with deficit := some ⟨[⟨"k", .int64, false⟩], [([.int 1], -1)]⟩ }

def mistyped (w : ℤ) : DeltaBatch := ⟨[⟨"k", .utf8, false⟩], [([.str "a"], w)]⟩

/-- A retraction of other columns is refused, and nothing is lost. -/
theorem owing_keeps : (∃ e, (owing.applyInPlace .plain (mistyped (-1))).2 = .error e) ∧
    ∀ r, (owing.applyInPlace .plain (mistyped (-1))).1.pos r = owing.pos r ∧
      (owing.applyInPlace .plain (mistyped (-1))).1.owed r = owing.owed r :=
  ⟨⟨_, rfl⟩, (applyInPlace_keeps_iff .plain owing (mistyped (-1)) _ rfl).mpr (.inl rfl)⟩

/-- An insertion of other columns is refused too, but the retraction that was owed is forgotten. -/
theorem debt_forgotten : (∃ e, (owing.applyInPlace .plain (mistyped 1)).2 = .error e) ∧
    owing.owed [.int 1] = -1 ∧ (owing.applyInPlace .plain (mistyped 1)).1.owed [.int 1] = 0 :=
  ⟨⟨_, rfl⟩, rfl, rfl⟩

end Krishiv.Delta.SourceState
