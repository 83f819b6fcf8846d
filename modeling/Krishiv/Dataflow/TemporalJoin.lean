import Krishiv.Lib.KVMap
import Krishiv.Lib.Runs

/-!
# Versions of a table in the temporal join

`VersionedTableState` keeps the versions of a table by their time; the join looks up the one in force at a
stream time. An upsert prunes every version older than its own time less the lookback. Such a version is still
in force at the start of the lookback range unless another one follows it there, so the lookup is right as long
as no upsert prunes one that is (`KeepsInForce`).
-/

namespace Krishiv.Dataflow.TemporalJoin

open Runs List Prod

variable {β : Type}

def i64Min : ℤ := -2 ^ 63

structure VersionedTableState (β : Type) where
  versions : KVMap ℤ β
  lookbackMs : ℤ

namespace VersionedTableState

def new (lookbackMs : ℤ) : VersionedTableState β := ⟨∅, lookbackMs⟩

variable (s : VersionedTableState β)

/-- The versions below it are popped. -/
def minVersion (versionMs : ℤ) : ℤ :=
  if 0 < s.lookbackMs then max (versionMs - s.lookbackMs) i64Min
  -- zero lookback pops all versions but the last
  else (versionMs :: s.versions.keys).max?.getD versionMs

def upsertVersion (versionMs : ℤ) (batch : β) : VersionedTableState β :=
  let keep k b := if k < s.minVersion versionMs then none else some b
  { s with versions := KVMap.filterMap keep (s.versions.insert versionMs batch) }

def lookupAsOf (streamTimeMs : ℤ) : Option β :=
  (s.versions.keys.filter (· ≤ streamTimeMs)).max?.bind s.versions.lookup

end VersionedTableState

open VersionedTableState

def act (s : VersionedTableState β) (call : ℤ × β) : VersionedTableState β := s.upsertVersion call.1 call.2

/-- The batch last upserted for the largest version time that is at most `t`. -/
def inForce (calls : List (ℤ × β)) (t : ℤ) : Option β :=
  ((calls.map Prod.fst).filter (· ≤ t)).max?.bind fun k => calls.reverse.lookup k

/-- The upsert prunes below a version, or prunes nothing. -/
def KeepsInForce (s : VersionedTableState β) (call : ℤ × β) : Prop :=
  s.minVersion call.1 ∈ call.1 :: s.versions.keys ∨ ∀ k ∈ call.1 :: s.versions.keys, s.minVersion call.1 ≤ k

/-- After the upserts of `hist`, the last one first, a version that is gone is followed by another one until `t`. -/
structure Covers (lookback t : ℤ) (hist : List (ℤ × β)) (s : VersionedTableState β) : Prop where
  same : s.lookbackMs = lookback
  last : ∀ k ∈ s.versions.keys, k ∈ hist.map Prod.fst ∧ s.versions.lookup k = hist.lookup k
  gone : ∀ k ∈ hist.map Prod.fst, k ∉ s.versions.keys → ∃ k' ∈ hist.map Prod.fst, k < k' ∧ k' ≤ t

variable {s : VersionedTableState β} {c : ℤ × β} {k lookback t : ℤ} {hist calls : List (ℤ × β)}

lemma lookup_act : (act s c).versions.lookup k =
    if k < s.minVersion c.1 then none else if k = c.1 then some c.2 else s.versions.lookup k := by
  rw [act, upsertVersion, KVMap.lookup_filterMap, KVMap.lookup_insert_ite]
  by_cases hlt : k < s.minVersion c.1 <;> simp [hlt]

lemma mem_act : k ∈ (act s c).versions.keys ↔ s.minVersion c.1 ≤ k ∧ k ∈ c.1 :: s.versions.keys := by
  rw [mem_cons, ← AList.mem_keys, ← AList.mem_keys, ← AList.lookup_isSome, ← AList.lookup_isSome, lookup_act]
  grind

lemma minVersion_le (ht : i64Min ≤ t) (h : ∀ v ∈ c.1 :: s.versions.keys, v - s.lookbackMs ≤ t)
    (hlookback : 0 ≤ s.lookbackMs) : s.minVersion c.1 ≤ t := by
  have hc := h c.1 mem_cons_self
  unfold minVersion
  split
  · omega
  obtain ⟨m, hm⟩ : ∃ m, (c.1 :: s.versions.keys).max? = some m := ⟨_, rfl⟩
  have := h m (max?_mem hm)
  rw [hm, Option.getD_some]
  omega

lemma Covers.act (h : Covers lookback t hist s) (hlookback : 0 ≤ lookback) (ht : i64Min ≤ t)
    (hkeeps : KeepsInForce s c) (hhist : ∀ v ∈ (c :: hist).map fst, v - lookback ≤ t) :
    Covers lookback t (c :: hist) (act s c) := by
  obtain ⟨rfl, hlast, hgone⟩ := h
  have hsub : c.1 :: s.versions.keys ⊆ (c :: hist).map fst := cons_subset_cons _ fun x hx => (hlast x hx).1
  refine ⟨rfl, fun k hk => ?_, fun k hk hnot => ?_⟩
  · have := hlast k
    rw [mem_act] at hk
    rw [lookup_act, lookup_cons]
    grind
  · rw [mem_act] at hnot
    by_cases hs : k ∈ c.1 :: s.versions.keys
    · have hlt : k < s.minVersion c.1 := by grind
      have hmem := hkeeps.resolve_right fun hall => Int.not_lt.mpr (hall k hs) hlt
      exact ⟨_, hsub hmem, hlt, minVersion_le ht (fun v hv => hhist v (hsub hv)) hlookback⟩
    · obtain ⟨k', hk', hlt⟩ := hgone k (by grind) (by grind)
      exact ⟨k', mem_cons_of_mem _ hk', hlt⟩

lemma Covers.run (h : Covers lookback t hist s) (hlookback : 0 ≤ lookback) (ht : i64Min ≤ t)
    (hkeeps : Along TemporalJoin.act KeepsInForce s calls)
    (hhist : ∀ v ∈ (calls.reverse ++ hist).map fst, v - lookback ≤ t) :
    Covers lookback t (calls.reverse ++ hist) (run TemporalJoin.act s calls) := by
  induction calls generalizing s hist with
  | nil => exact h
  | cons c calls ih =>
    rw [reverse_cons, append_assoc] at hhist ⊢
    refine ih (h.act hlookback ht hkeeps.1 fun v hv => hhist v ?_) hkeeps.2 hhist
    rw [map_append]
    exact mem_append_right _ hv

/-- As long as no upsert prunes a version still in force, the lookup gives the batch in force. -/
theorem lookup_as_of_in_force (hlookback : 0 ≤ lookback) (hrange : i64Min ≤ t)
    (hkeeps : Along act KeepsInForce (new lookback) calls) (ht : ∀ c ∈ calls, c.1 - lookback ≤ t) :
    (run act (new lookback) calls).lookupAsOf t = inForce calls t := by
  have h : Covers lookback t (calls.reverse ++ []) (run act (new lookback) calls) :=
    Covers.run ⟨rfl, by simp [new], by simp⟩ hlookback hrange hkeeps (by simpa using ht)
  obtain ⟨-, hlast, hgone⟩ := h
  simp only [append_nil, map_reverse, mem_reverse] at hlast hgone
  unfold lookupAsOf inForce
  cases hmax : ((calls.map fst).filter (· ≤ t)).max? with
  | none =>
    rw [max?_eq_none_iff, filter_eq_nil_iff] at hmax
    rw [filter_eq_nil_iff.mpr fun k hk => hmax k (hlast k hk).1]
    rfl
  | some k =>
    simp only [max?_eq_some_iff, mem_filter, decide_eq_true_eq] at hmax
    obtain ⟨⟨hup, hle⟩, hmax⟩ := hmax
    have hk : k ∈ (run act (new lookback) calls).versions.keys := by
      by_contra hnot
      -- the version that follows `k` would be in force
      obtain ⟨k', hk', hlt, ht'⟩ := hgone k hup hnot
      exact Int.not_lt.mpr (hmax k' ⟨hk', ht'⟩) hlt
    have hstored : ((run act (new lookback) calls).versions.keys.filter (· ≤ t)).max? = some k := by
      simp only [max?_eq_some_iff, mem_filter, decide_eq_true_eq]
      exact ⟨⟨hk, hle⟩, fun x hx => hmax x ⟨(hlast x hx.1).1, hx.2⟩⟩
    rw [hstored]
    exact (hlast k hk).2

theorem lookup_as_of_in_force_start :
    (run act (new 10) [(0, 'a'), (10, 'b')]).lookupAsOf 3 = inForce [(0, 'a'), (10, 'b')] 3 := by
  refine lookup_as_of_in_force (by decide) (by decide) ⟨?_, ?_, trivial⟩ (by decide)
  all_goals
    unfold KeepsInForce
    decide

/-- The version of time 0 is in force until 100, and is pruned for it. -/
theorem version_in_force_pruned : (run act (new 10) [(0, 'a'), (100, 'b')]).lookupAsOf 95 = none ∧
    inForce [(0, 'a'), (100, 'b')] 95 = some 'a' := by
  decide

end Krishiv.Dataflow.TemporalJoin
