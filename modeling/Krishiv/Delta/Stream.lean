import Krishiv.Delta.RowKeys

/-!
# `differentiate` and `apply_delta`

The two conversions between relations and Z-sets: the delta between two materialized relations,
and the relation after a delta. A relation cannot hold a row a negative number of times, so
`applyDelta` clamps: it materializes `max (count + net) 0` copies.
-/

namespace Krishiv.Delta

open List DeltaBatch ZSet Bool

/-- How often a row occurs in a relation that may be absent. -/
def countOf (b : Option RecordBatch) (r : Row) : ℕ := (b.map (RecordBatch.count · r)).getD 0

@[simp] lemma countOf_none (r : Row) : countOf none r = 0 := rfl
@[simp] lemma countOf_some (b : RecordBatch) (r : Row) : countOf (some b) r = b.count r := rfl

/-- The delta from `prev` to `next`. Unmatched rows of `next` are insertions, rows of `prev` that
no row of `next` cancelled are retractions. -/
def differentiate (schema : Schema) (prev : Option RecordBatch) (next : RecordBatch) : DeltaResult DeltaBatch :=
  match prev with
  | none => .ok (DeltaBatch.fromInserts next)
  | some prev =>
    if prev.rows.isEmpty && next.rows.isEmpty then .ok (DeltaBatch.empty schema)
    else if prev.rows.isEmpty then .ok (DeltaBatch.fromInserts next)
    else if next.rows.isEmpty then .ok (DeltaBatch.fromDeletes prev)
    else if !schema.types.all DataType.rowEncodable then
      .error (.arrow "Row format support not yet implemented")
    else if !(prev.schema.types = schema.types && next.schema.types = schema.types) then
      .error (.arrow "RowConverter column schema mismatch")
    else
      let unmatched := ZSet.cancel prev.rows next.rows
      if unmatched.1.isEmpty && unmatched.2.isEmpty then .ok (DeltaBatch.empty schema)
      else
        let inserts := if unmatched.1.isEmpty then []
          else [DeltaBatch.fromInserts ⟨next.schema, unmatched.1⟩]
        let retracts := if unmatched.2.isEmpty then []
          else [DeltaBatch.fromDeletes ⟨prev.schema, unmatched.2⟩]
        DeltaBatch.concat (inserts ++ retracts)

/-- The relation after `delta`. The branches are those of the code: without rows to start from the
delta alone is consolidated, unit insertions are appended, everything else is consolidated
together. -/
def applyDeltaWith (consolidate : DeltaBatch → DeltaResult DeltaBatch) (current : Option RecordBatch)
    (delta : DeltaBatch) : DeltaResult RecordBatch :=
  let first : DeltaResult RecordBatch := do
    let consolidated ← consolidate delta
    .ok consolidated.filterPositiveExpanded
  match current with
  | none => first
  | some prev =>
    if prev.rows.isEmpty then first
    else if delta.allUnitInserts then
      (concatBatches prev.schema [prev, delta.dataBatch]).mapError fun
        | .arrow e => .operator ("apply_delta insert-only concat failed: " ++ e)
        | e => e
    else do
      let merged ← DeltaBatch.concat [DeltaBatch.fromInserts prev, delta]
      let consolidated ← consolidate merged
      .ok consolidated.filterPositiveExpanded

def applyDelta : Option RecordBatch → DeltaBatch → DeltaResult RecordBatch := applyDeltaWith consolidateBatch

/-- The batch that `applyDelta` consolidates. -/
def summed (current : Option RecordBatch) (delta : DeltaBatch) : DeltaResult DeltaBatch :=
  match current with
  | none => .ok delta
  | some prev =>
    if prev.rows.isEmpty then .ok delta else DeltaBatch.concat [DeltaBatch.fromInserts prev, delta]

private lemma flatten_optional_part (w : ℤ) (s : Schema) (rows : List Row) :
    ((if rows.isEmpty then [] else [(⟨s, ZSet.uniform w rows⟩ : DeltaBatch)]).map DeltaBatch.rows).flatten =
      uniform w rows := by
  split
  · next h =>
    rw [List.isEmpty_iff.mp h]
    rfl
  · simp

variable {prev : Option RecordBatch} {schema : Schema} {next : RecordBatch}

section

variable {d : DeltaBatch} (h : differentiate schema prev next = .ok d)

include h

/-- A difference lists the rows of `next` that `prev` lacks and the rows of `prev` that `next` lacks. -/
lemma differentiate_rows : ∃ inserts retracts, d.rows = uniform 1 inserts ++ uniform (-1) retracts ∧
      ∀ r, ZSet.count inserts r = next.count r - countOf prev r ∧
        ZSet.count retracts r = countOf prev r - next.count r := by
  cases prev with
  | none =>
    cases h
    exact ⟨next.rows, [], by simp [fromInserts, uniform], by simp [RecordBatch.count]⟩
  | some prev =>
    simp only [differentiate] at h
    simp only [countOf_some, RecordBatch.count]
    have hcancel := count_cancel prev.rows next.rows
    split at h
    · next he =>
      cases h
      rw [and_eq_true, List.isEmpty_iff, List.isEmpty_iff] at he
      exact ⟨[], [], rfl, by simp [he.1, he.2]⟩
    split at h
    · next he =>
      cases h
      rw [List.isEmpty_iff.mp he]
      exact ⟨next.rows, [], by simp [fromInserts, uniform], by simp⟩
    split at h
    · next he =>
      cases h
      rw [List.isEmpty_iff.mp he]
      exact ⟨[], prev.rows, rfl, by simp⟩
    split at h
    · cases h
    split at h
    · cases h
    split at h
    · next he =>
      cases h
      rw [and_eq_true, List.isEmpty_iff, List.isEmpty_iff] at he
      rw [he.1, he.2] at hcancel
      exact ⟨[], [], rfl, hcancel⟩
    · refine ⟨_, _, ?_, hcancel⟩
      rw [(concat_eq_ok h).2, map_append, flatten_append]
      exact congrArg₂ _ (flatten_optional_part ..) (flatten_optional_part ..)

/-- `differentiate` returns the difference of the two relations. -/
lemma differentiate_net (r : Row) : d.net r = next.count r - countOf prev r := by
  obtain ⟨inserts, retracts, hrows, hcount⟩ := differentiate_rows h
  obtain ⟨hins, hret⟩ := hcount r
  rw [net, hrows, weight_append, weight_uniform, weight_uniform, hins, hret]
  omega

/-- There are no rows that cancel in a difference. -/
lemma differentiate_isEmpty (hsame : ∀ r, next.count r = countOf prev r) : d.isEmpty = true := by
  obtain ⟨inserts, retracts, hrows, hcount⟩ := differentiate_rows h
  have hins : inserts = [] := eq_nil_of_count fun r => by rw [(hcount r).1, hsame r, Nat.sub_self]
  have hret : retracts = [] := eq_nil_of_count fun r => by rw [(hcount r).2, hsame r, Nat.sub_self]
  rw [DeltaBatch.isEmpty, hrows, hins, hret]
  rfl

end

/-- A difference is made of the rows of the two relations. -/
lemma differentiate_made {prev : Option RecordBatch} {next : RecordBatch} {d : DeltaBatch}
    (h : differentiate schema prev next = .ok d) (hd : d.isEmpty = false) :
    (∃ b ∈ (prev.map fromInserts).toList ++ [fromInserts next], b.schema = d.schema) ∧
    ∀ p ∈ d.rows, ∃ b ∈ (prev.map fromInserts).toList ++ [fromInserts next], p.1 ∈ b.rows.map Prod.fst := by
  have hnext : fromInserts next ∈ (prev.map fromInserts).toList ++ [fromInserts next] :=
    mem_append_right _ (mem_singleton_self _)
  constructor
  · cases prev with
    | none =>
      cases h
      exact ⟨_, hnext, rfl⟩
    | some prev =>
      have hprev : fromInserts prev ∈ ((some prev).map fromInserts).toList ++ [fromInserts next] := by simp
      simp only [differentiate] at h
      split at h
      · cases h
        cases hd
      split at h
      · cases h
        exact ⟨_, hnext, rfl⟩
      split at h
      · cases h
        exact ⟨_, hprev, rfl⟩
      split at h
      · cases h
      split at h
      · cases h
      split at h
      · cases h
        cases hd
      obtain ⟨x, hx, hschema⟩ := (concat_eq_ok h).1
      rcases mem_append.mp hx with hx | hx
      · split at hx
        · cases hx
        · rw [mem_singleton.mp hx] at hschema
          exact ⟨_, hnext, hschema⟩
      · split at hx
        · cases hx
        · rw [mem_singleton.mp hx] at hschema
          exact ⟨_, hprev, hschema⟩
  · intro p hp
    obtain ⟨inserts, retracts, hrows, hcount⟩ := differentiate_rows h
    have hfirst : ∀ {b : RecordBatch}, p.1 ∈ b.rows → p.1 ∈ (fromInserts b).rows.map Prod.fst := by
      intro b hb
      simpa [fromInserts, uniform] using hb
    rw [hrows] at hp
    rcases mem_append.mp hp with hp | hp
    · obtain ⟨r, hr, rfl⟩ := mem_map.mp hp
      have hins := (hcount r).1
      have := ZSet.count_pos_iff.mpr hr
      exact ⟨_, hnext, hfirst (ZSet.count_pos_iff.mp (by change 0 < next.count r; omega))⟩
    · obtain ⟨r, hr, rfl⟩ := mem_map.mp hp
      have hret := (hcount r).2
      have := ZSet.count_pos_iff.mpr hr
      cases prev with
      | none =>
        rw [countOf_none, Nat.zero_sub] at hret
        omega
      | some prev =>
        refine ⟨fromInserts prev, by simp, hfirst (ZSet.count_pos_iff.mp ?_)⟩
        change 0 < prev.count r
        rw [countOf_some] at hret
        omega

/-- The difference to an empty relation is always defined. -/
lemma differentiate_error {e : DeltaError} (h : differentiate schema prev next = .error e) :
    next.rows.isEmpty = false := by
  cases prev with
  | none => cases h
  | some prev =>
    simp only [differentiate] at h
    split at h
    · cases h
    split at h
    · cases h
    split at h
    · cases h
    · next hne =>
      rw [not_eq_true] at hne
      exact hne

variable {cons : DeltaBatch → DeltaResult DeltaBatch} {current : Option RecordBatch} {delta : DeltaBatch}

/-- `applyDelta` materializes the clamped sum. -/
lemma applyDeltaWith_spec {b : RecordBatch} (hcons : ∀ m, summed current delta = .ok m → Settles cons m)
    (h : applyDeltaWith cons current delta = .ok b) :
    (b.schema = delta.schema ∨ current.map RecordBatch.schema = some b.schema) ∧
      ∀ r, b.count r = (countOf current r + delta.net r).toNat := by
  have hfirst : Settles cons delta → ∀ b : RecordBatch, (do
      let consolidated ← cons delta
      (.ok consolidated.filterPositiveExpanded : DeltaResult RecordBatch)) = .ok b →
      b.schema = delta.schema ∧ ∀ r, b.count r = (delta.net r).toNat := by
    intro hdelta b hb
    obtain ⟨c, hc, hb⟩ := Except.bind_eq_ok_iff.mp hb
    cases hb
    exact ⟨by rw [hdelta c hc]; rfl, count_filterPositiveExpanded (hdelta.rows hc)⟩
  cases current with
  | none =>
    obtain ⟨hschema, hcount⟩ := hfirst (hcons delta rfl) b h
    exact ⟨.inl hschema, by simpa using hcount⟩
  | some prev =>
    simp only [applyDeltaWith] at h
    simp only [summed] at hcons
    split at h
    · next he =>
      rw [if_pos he] at hcons
      obtain ⟨hschema, hcount⟩ := hfirst (hcons delta rfl) b h
      refine ⟨.inl hschema, fun r => ?_⟩
      have hz : prev.count r = 0 := by rw [RecordBatch.count, List.isEmpty_iff.mp he, ZSet.count_nil]
      rw [hcount]
      simp [hz]
    next hne =>
    rw [if_neg hne] at hcons
    split at h
    · next hu =>
      rw [Except.mapError_eq_ok_iff] at h
      rw [concatBatches_eq_ok h]
      refine ⟨.inr rfl, fun r => ?_⟩
      have hcount := count_dataBatch_of_unit hu r
      simp only [RecordBatch.count] at hcount
      simp only [RecordBatch.count, countOf_some, map_cons, map_nil,
        flatten_cons, flatten_nil, append_nil, ZSet.count_append]
      omega
    · simp only [Except.bind_eq_ok_iff] at h
      obtain ⟨merged, hm, c, hc, h⟩ := h
      cases h
      refine ⟨?_, fun r => ?_⟩
      · obtain ⟨x, hx, hschema⟩ := (concat_eq_ok hm).1
        rw [hcons merged hm c hc]
        rcases mem_pair.mp hx with rfl | rfl
        exacts [.inr (congrArg some hschema), .inl hschema.symm]
      · rw [count_filterPositiveExpanded ((hcons merged hm).rows hc), net_concat hm]
        simp

/-- A delta is applied if its sum with the relation can be consolidated. -/
lemma applyDeltaWith_total (hshape : ∀ b, current = some b → b.rows.isEmpty = true ∨
      b.schema.shape = delta.schema.shape)
    (hcons : ∀ m, m.schema.shape = delta.schema.shape → summed current delta = .ok m → ∃ c, cons m = .ok c) :
    ∃ b, applyDeltaWith cons current delta = .ok b := by
  unfold applyDeltaWith
  cases current with
  | none =>
    obtain ⟨c, hc⟩ := hcons delta rfl rfl
    rw [hc]
    exact ⟨_, rfl⟩
  | some b =>
    simp only [summed] at hcons
    dsimp only
    split
    · next he =>
      rw [if_pos he] at hcons
      obtain ⟨c, hc⟩ := hcons delta rfl rfl
      rw [hc]
      exact ⟨_, rfl⟩
    next hne =>
    rw [if_neg hne] at hcons
    have hsame := (hshape b rfl).resolve_left hne
    split
    · have hall : ∀ x ∈ [b, delta.dataBatch], x.schema.shape = b.schema.shape := by
        intro x hx
        rcases mem_pair.mp hx with rfl | rfl
        exacts [rfl, hsame.symm]
      rw [concatBatches_total hall]
      exact ⟨_, rfl⟩
    have hpair : ∀ x ∈ [fromInserts b, delta], x.schema.shape = delta.schema.shape := by
      intro x hx
      rcases mem_pair.mp hx with rfl | rfl
      exacts [hsame, rfl]
    obtain ⟨m, hm, hmt⟩ := concat_total (by simp) hpair
    obtain ⟨c, hc⟩ := hcons m hmt hm
    simp only [hm, hc, bind, Except.bind]
    exact ⟨_, rfl⟩

end Krishiv.Delta
