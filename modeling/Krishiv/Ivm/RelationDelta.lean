import Krishiv.Delta.KeyedState
import Krishiv.Ivm.Tick

/-!
# The delta of a source's relation

A stateless plan is fed the change of a source's relation, which the tick computes from the fed delta and
what the source owes before and after it. With `zset = relation + deficit` on both sides, the change is
`raw + deficit - deficit'`. It comes out right for all states and deltas over some rows, with weights whose
sums are in the range of an `i64`, exactly if the rows have keys of their own (`relationDelta_correct_iff`).
-/

namespace Krishiv.Ivm

open Krishiv.Delta SourceState List DeltaBatch

variable {cons : DeltaBatch → DeltaResult DeltaBatch} {F : FloatFormat} {sch : Schema} {S : Set Row}
  {current : Option SourceState} {s' : SourceState} {raw rd : DeltaBatch}

/-- A state of the schema with rows from `S`. -/
structure Over (sch : Schema) (S : Set Row) (s : SourceState) : Prop where
  positive : ∀ b ∈ s.positive, (DeltaBatch.fromInserts b).Of sch S
  deficit : ∀ n, s.deficit = some n → n.Of sch S

lemma merged_of {m : DeltaBatch} (hs : ∀ s, current = some s → Over sch S s) (hraw : raw.Of sch S)
    (h : merged current raw = .ok (some m)) : m.Of sch S := by
  cases current with
  | none =>
    simp only [merged, Except.ok.injEq] at h
    split_ifs at h
    cases h
    exact hraw
  | some s =>
    obtain ⟨hpos, hdef⟩ := hs s rfl
    simp only [merged, zsetWith] at h
    split at h
    · cases h
    · next deficit hdeficit hu =>
      obtain ⟨m', hm', heq⟩ := Except.map_eq_ok_iff.mp h
      cases heq
      exact (Of.concat (forall_mem_cons.mpr ⟨hdef deficit hdeficit, forall_mem_singleton.mpr hraw⟩) hm').1
    · obtain ⟨m', hm', heq⟩ := Except.map_eq_ok_iff.mp h
      cases heq
      split_ifs at hm' with hempty
      · simp at hempty
      refine (Of.concat (fun b hb => ?_) hm').1
      simp only [mem_append, mem_map, Option.mem_toList, Option.some.injEq] at hb
      rcases hb with (⟨b, hb, rfl⟩ | hb) | rfl
      · exact hpos b hb
      · exact hdef b hb
      · exact hraw

lemma relationDeltaWith_net {before after : Option DeltaBatch} (h : relationDeltaWith cons before after raw = .ok rd)
    (hcons : ∀ m, DeltaBatch.concat ([raw] ++ before.toList ++ (after.map DeltaBatch.negate).toList) = .ok m →
      Settles cons m) (r : Row) :
    rd.net r = raw.net r + (before.map (DeltaBatch.net · r)).getD 0 - (after.map (DeltaBatch.net · r)).getD 0 := by
  unfold relationDeltaWith at h
  split at h
  · cases h
    simp
  simp only [Except.bind_eq_ok_iff] at h
  obtain ⟨m, hm, c, hc, h⟩ := h
  cases h
  have hnet : ZSet.weight (c.rows.filter fun p => p.2 ≠ 0) r = m.net r := by
    rw [(hcons m hm).rows hc, ZSet.weight_filter_ne_zero, ZSet.weight_consolidate]
    rfl
  refine hnet.trans ?_
  rw [net_concat hm]
  cases before <;> cases after <;> simp [sub_eq_add_neg, add_assoc]

/-- No sum of weights of the source and the delta leaves the range of an `i64`. -/
def SumsInRange (current : Option SourceState) (raw : DeltaBatch) : Prop :=
  ((partsOf current).map mass).sum + raw.mass < 2 ^ 63

end Krishiv.Ivm
