import Krishiv.Delta.Consolidation
import Krishiv.Delta.Stream

/-!
# Differences and how they are applied

`differentiate` compares rows in Arrow's row format, `apply_delta` merges them by their keys. The two are
inverse for all relations over some rows exactly if these rows have keys of their own and their types can
be encoded (`roundTrips_iff`). A difference lists a row once for every copy, so that it lists every row at
most once exactly if no row's multiplicity changes by more than one.
-/

namespace Krishiv.Delta

open List DeltaBatch

variable {F : FloatFormat} {sch : Schema} {S : Set Row} {prev : Option RecordBatch} {next : RecordBatch}

/-- A relation of the schema with rows from `S`. -/
structure RecordBatch.Of (sch : Schema) (S : Set Row) (b : RecordBatch) : Prop where
  schema_eq : b.schema = sch
  rows_mem : ∀ r ∈ b.rows, r ∈ S

/-- Applying the difference to `prev` gives `next`, and it lists every row at most once. -/
def RoundTrips (F : FloatFormat) (sch : Schema) (prev : Option RecordBatch) (next : RecordBatch) : Prop :=
  ∃ d b, differentiate sch prev next = .ok d ∧ applyDeltaWith (consolidateByKey F) prev d = .ok b ∧
    (∀ r, b.count r = next.count r) ∧ (d.rows.map Prod.fst).Nodup ∧ ∀ p ∈ d.rows, p.2 ≠ 0

lemma concat_of {ds : List DeltaBatch} (hne : ds ≠ []) (h : ∀ b ∈ ds, b.schema = sch) :
    ∃ d, DeltaBatch.concat ds = .ok d ∧ d.schema = sch := by
  obtain ⟨d, hd, -⟩ := concat_total hne fun b hb => congrArg Schema.shape (h b hb)
  obtain ⟨b, hb, hschema⟩ := (concat_eq_ok hd).1
  exact ⟨d, hd, hschema ▸ h b hb⟩

/-- Relations of the schema have a difference of the schema. -/
lemma differentiate_of (hprev : ∀ b, prev = some b → b.schema = sch) (hnext : next.schema = sch)
    (henc : ∀ r ∈ next.rows, sch.types.all DataType.rowEncodable = true) :
    ∃ d, differentiate sch prev next = .ok d ∧ d.schema = sch := by
  cases prev with
  | none => exact ⟨_, rfl, hnext⟩
  | some prev =>
    have hp := hprev prev rfl
    simp only [differentiate]
    split
    · exact ⟨_, rfl, rfl⟩
    split
    · exact ⟨_, rfl, hnext⟩
    split
    · exact ⟨_, rfl, hp⟩
    next hne =>
    obtain ⟨r, hr⟩ := exists_mem_of_ne_nil _ (mt List.isEmpty_iff.mpr hne)
    simp only [henc r hr, hp, hnext, decide_true, Bool.and_true, Bool.not_true, Bool.false_eq_true, if_false]
    split
    · exact ⟨_, rfl, rfl⟩
    next hparts =>
    refine concat_of (fun hnil => hparts ?_) fun b hb => ?_
    · rw [append_eq_nil_iff] at hnil
      revert hnil
      cases (ZSet.cancel prev.rows next.rows).1.isEmpty <;>
        cases (ZSet.cancel prev.rows next.rows).2.isEmpty <;> simp
    · rcases mem_append.mp hb with hb | hb
      all_goals
        split at hb
        · cases hb
        · rw [mem_singleton.mp hb]
          rfl

/-- What `applyDelta` consolidates is over the same rows. -/
lemma summed_of {d m : DeltaBatch} (hprev : ∀ b, prev = some b → b.Of sch S) (hd : d.Of sch S)
    (h : summed prev d = .ok m) : m.Of sch S := by
  cases prev with
  | none =>
    cases h
    exact hd
  | some b =>
    simp only [summed] at h
    split at h
    · cases h
      exact hd
    refine (Of.concat (fun x hx => ?_) h).1
    rcases mem_pair.mp hx with rfl | rfl
    · refine ⟨(hprev b rfl).schema_eq, fun p hp => ?_⟩
      obtain ⟨r, hr, rfl⟩ := mem_map.mp hp
      exact (hprev b rfl).rows_mem r hr
    · exact hd

/-- Differences over rows with keys of their own, with texts and of encodable types are undone. -/
lemma applyDelta_differentiate (hS : Distinct F sch S) (htexts : S ⊆ textual sch)
    (henc : ∀ r ∈ S, sch.types.all DataType.rowEncodable = true) (hprev : ∀ b, prev = some b → b.Of sch S)
    (hnext : next.Of sch S) : ∃ d b, differentiate sch prev next = .ok d ∧
    applyDeltaWith (consolidateByKey F) prev d = .ok b ∧ ∀ r, b.count r = next.count r := by
  obtain ⟨d, hd, hschema⟩ := differentiate_of (fun b hb => (hprev b hb).schema_eq) hnext.schema_eq fun r hr =>
    henc r (hnext.rows_mem r hr)
  obtain ⟨inserts, retracts, hrows, hcount⟩ := differentiate_rows hd
  have hof : d.Of sch S := by
    refine ⟨hschema, fun p hp => ?_⟩
    rw [hrows] at hp
    -- an inserted row is one of `next`, a retracted one of `prev`
    rcases mem_append.mp hp with hp | hp <;> obtain ⟨r, hr, rfl⟩ := mem_map.mp hp
    · have hpos := ZSet.count_pos_iff.mpr hr
      rw [(hcount r).1] at hpos
      exact hnext.rows_mem r (ZSet.count_pos_iff.mp (hpos.trans_le (Nat.sub_le _ _)))
    have hpos := ZSet.count_pos_iff.mpr hr
    rw [(hcount r).2] at hpos
    cases prev with
    | none => cases hpos.trans_le (Nat.sub_le _ _)
    | some b => exact (hprev b rfl).rows_mem r (ZSet.count_pos_iff.mp (hpos.trans_le (Nat.sub_le _ _)))
  have hsum : ∀ m, summed prev d = .ok m → m.Of sch S := fun m hm => summed_of hprev hof hm
  obtain ⟨b, hb⟩ : ∃ b, applyDeltaWith (consolidateByKey F) prev d = .ok b := by
    refine applyDeltaWith_total (fun b hb => .inr ?_) fun m _ hm => ⟨_, consolidateByKey_of hS htexts (hsum m hm)⟩
    rw [(hprev b hb).schema_eq, hschema]
  refine ⟨d, b, hd, hb, fun r => ?_⟩
  rw [(applyDeltaWith_spec (fun m hm => settles_of_apart ((hsum m hm).apart hS)) hb).2, differentiate_net hd]
  omega

/-- For rows with keys of their own, whose cells have texts and encodable types, and for these only, a
difference is undone by `apply_delta` and lists every row at most once whenever no row's multiplicity
changes by more than one. -/
theorem roundTrips_iff (F : FloatFormat) (sch : Schema) (S : Set Row) :
    (∀ prev next, (∀ b, prev = some b → b.Of sch S) → next.Of sch S →
      (RoundTrips F sch prev next ↔ ∀ r, next.count r ≤ countOf prev r + 1 ∧
      countOf prev r ≤ next.count r + 1)) ↔
    Distinct F sch S ∧ S ⊆ textual sch ∧ ∀ r ∈ S, sch.types.all DataType.rowEncodable = true := by
  constructor
  · intro h
    have henc : ∀ r ∈ S, sch.types.all DataType.rowEncodable = true := by
      intro r hr
      have hb : RecordBatch.Of sch S ⟨sch, [r]⟩ := ⟨rfl, by simpa using hr⟩
      obtain ⟨d, -, hd, -⟩ := (h (some ⟨sch, [r]⟩) ⟨sch, [r]⟩ (fun _ hp => Option.some.inj hp ▸ hb) hb).mpr fun r =>
        ⟨Nat.le_succ _, Nat.le_succ _⟩
      by_contra hno
      simp only [Bool.not_eq_true] at hno
      simp only [differentiate, hno, isEmpty_cons, Bool.and_self, Bool.not_false, Bool.false_eq_true, if_false,
        if_true] at hd
      cases hd
    have htexts : S ⊆ textual sch := by
      intro r hr
      -- the row appears in a relation that was absent
      have hb : RecordBatch.Of sch S ⟨sch, [r]⟩ := ⟨rfl, by simpa using hr⟩
      obtain ⟨d, b, hd, happ, -⟩ := (h none ⟨sch, [r]⟩ (fun _ hp => by cases hp) hb).mpr fun x => by
        simp [RecordBatch.count, ZSet.count, count_cons]
        split <;> omega
      cases hd
      obtain ⟨c, hc, -⟩ := Except.bind_eq_ok_iff.mp happ
      exact (consolidateByKey_ok_iff.mp hc).1 (r, 1) mem_cons_self
    refine ⟨fun r hr r' hr' hkey => ?_, htexts, henc⟩
    by_contra hne
    -- from one of the rows to the other
    have hb : RecordBatch.Of sch S ⟨sch, [r]⟩ := ⟨rfl, by simpa using hr⟩
    have hb' : RecordBatch.Of sch S ⟨sch, [r']⟩ := ⟨rfl, by simpa using hr'⟩
    obtain ⟨d, b, hd, happ, hcount, -⟩ := (h (some ⟨sch, [r]⟩) ⟨sch, [r']⟩ (fun _ hp => Option.some.inj hp ▸ hb)
      hb').mpr fun x => by simp [RecordBatch.count, ZSet.count, count_cons]; split <;> split <;> omega
    have hd' : differentiate sch (some ⟨sch, [r]⟩) ⟨sch, [r']⟩ = .ok ⟨sch, [(r', 1), (r, -1)]⟩ := by
      have hconcat : DeltaBatch.concat [⟨sch, [(r', 1)]⟩, ⟨sch, [(r, -1)]⟩] = .ok ⟨sch, [(r', 1), (r, -1)]⟩ :=
        concat_cons (by simp)
      have henc' := henc r hr
      simp_all [differentiate, ZSet.cancel, Ne.symm hne, fromInserts, fromDeletes, ZSet.uniform]
    cases hd'.symm.trans hd
    have hsum : consolidateByKey F ⟨sch, [(r, 1), (r', 1), (r, -1)]⟩ = .ok ⟨sch, [(r, 1)]⟩ := by
      refine consolidateByKey_ok_iff.mpr ⟨fun p hp => htexts (?_ : p.1 ∈ S), ?_⟩
      · simp only [mem_cons, not_mem_nil, or_false] at hp
        rcases hp with rfl | rfl | rfl
        exacts [hr, hr', hr]
      simp [keyedRows, ZSet.consolidateBy, ZSet.addGroup, hkey]
    have hconcat : DeltaBatch.concat [⟨sch, [(r, 1)]⟩, ⟨sch, [(r', 1), (r, -1)]⟩] = .ok ⟨sch, [(r, 1), (r', 1), (r, -1)]⟩ :=
      concat_cons (by simp)
    simp [applyDeltaWith, allUnitInserts, fromInserts, ZSet.uniform, hconcat, hsum, bind, Except.bind] at happ
    have := hcount r'
    simp [← happ, filterPositiveExpanded, ZSet.expand, RecordBatch.count, ZSet.count, hne] at this
  · rintro ⟨hS, htexts, henc⟩ prev next hprev hnext
    obtain ⟨d, b, hd, hb, hcount⟩ := applyDelta_differentiate hS htexts henc hprev hnext
    obtain ⟨inserts, retracts, hrows, hlists⟩ := differentiate_rows hd
    have hkeys : d.rows.map Prod.fst = inserts ++ retracts := by
      simp [hrows, ZSet.uniform, Function.comp_def]
    have hlisted : ∀ r, ZSet.count (d.rows.map Prod.fst) r =
        (next.count r - countOf prev r) + (countOf prev r - next.count r) := by
      intro r
      rw [hkeys, ZSet.count_append, (hlists r).1, (hlists r).2]
    constructor
    · rintro ⟨d', b', hd', -, -, hnodup, -⟩ r
      cases hd.symm.trans hd'
      have := ZSet.nodup_iff_count.mp hnodup r
      rw [hlisted] at this
      omega
    · intro hclose
      refine ⟨d, b, hd, hb, hcount, ZSet.nodup_iff_count.mpr fun r => ?_, fun p hp => ?_⟩
      · rw [hlisted]
        have := hclose r
        omega
      · rw [hrows] at hp
        rcases mem_append.mp hp with hp | hp <;> obtain ⟨r, -, rfl⟩ := mem_map.mp hp <;> simp

/-- The relation becomes the other one's row, but the row that was there is shown again. -/
theorem round_trip_undone : ∃ d b,
    differentiate sharedName.schema (some ⟨sharedName.schema, [[.int 1, .int 5, .int 7]]⟩)
      ⟨sharedName.schema, [[.int 1, .int 5, .int 8]]⟩ = .ok d ∧
    applyDeltaWith (consolidateByKey .plain) (some ⟨sharedName.schema, [[.int 1, .int 5, .int 7]]⟩) d = .ok b ∧
    b.rows = [[.int 1, .int 5, .int 7]] :=
  ⟨_, _, rfl, rfl, rfl⟩

end Krishiv.Delta
