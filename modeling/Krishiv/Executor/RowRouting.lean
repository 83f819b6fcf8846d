import Krishiv.State.Rescaling

/-!
# Routing rows to subtasks

A run-loop subtask splits each batch by the owner of the key group of each row: its own rows it processes,
the others it sends to their owners. Rows whose key is null are dropped and counted before that.

`sentTo_iff`: a row with a key goes to the owner of its key group and to no other subtask, whichever
subtask does the routing.
-/

namespace Krishiv.Executor

open Krishiv.Ivm Krishiv.State EvenRanges List

structure RoutedBatch (ρ : Type) where
  owned : Option (List ρ)
  routed : List (ℕ × List ρ)
  nullKeyRows : ℕ

/-- The key column of rows: which of them are null there, and the text form of the others as bytes. -/
structure KeyColumn (ρ : Type) where
  isNull : ρ → Bool
  extractAggKey : ρ → Except String Bytes

variable {ρ : Type} (keyHash : Bytes → ℕ)

def splitNullKeyRows (column : KeyColumn ρ) (batch : List ρ) : Option (List ρ) × ℕ :=
  let nullCount := batch.countP column.isNull
  if nullCount = 0 then (some batch, 0)
  else if nullCount = batch.length then (none, nullCount)
  else (some (batch.filter fun r => !column.isNull r), nullCount)

/-- A row with the group of its key. -/
def rowGroup (column : KeyColumn ρ) (r : ρ) : Except String (ρ × ℕ) :=
  match column.extractAggKey r with
  | .ok key => .ok (r, keyGroupForKey keyHash key)
  | .error e => .error s!"stream:rloop cannot derive a routing key: {e}"

/-- The rows of one owner, if there are any. -/
def rowsOf (parallelism ownSubtask : ℕ) (rows : List (ρ × ℕ)) (owner : ℕ) : Option (List ρ) :=
  let own := (rows.filter fun r => ownerOf parallelism ownSubtask r.2 = owner).map Prod.fst
  if own.length = 0 then none else some own

/-- Split a batch. Without the key column there is nothing to route on. -/
def routeBatchByKeyGroup (column : Option (KeyColumn ρ)) (batch : List ρ) (parallelism ownSubtask : ℕ) :
    Except String (RoutedBatch ρ) :=
  match column with
  | none => .ok ⟨some batch, [], 0⟩
  | some column =>
    match splitNullKeyRows column batch with
    | (none, nullKeyRows) => .ok ⟨none, [], nullKeyRows⟩
    | (some batch, nullKeyRows) =>
      if parallelism ≤ 1 then .ok ⟨some batch, [], nullKeyRows⟩
      else do
        let rows ← batch.mapM (rowGroup keyHash column)
        -- in the order of the subtasks
        let peers := (List.range parallelism).filter fun j =>
          decide (j ≠ ownSubtask) && rows.any fun r => ownerOf parallelism ownSubtask r.2 = j
        if peers.length = 0 then .ok ⟨some batch, [], nullKeyRows⟩
        else .ok ⟨rowsOf parallelism ownSubtask rows ownSubtask,
          peers.filterMap fun j => (rowsOf parallelism ownSubtask rows j).map fun own => (j, own),
          nullKeyRows⟩

/-- The subtask `own`, which routes, leaves the row to subtask `j`. -/
def SentTo (out : RoutedBatch ρ) (own j : ℕ) (r : ρ) : Prop :=
  (j = own ∧ ∃ rows, out.owned = some rows ∧ r ∈ rows) ∨ ∃ rows, (j, rows) ∈ out.routed ∧ r ∈ rows

variable {keyHash} {column : KeyColumn ρ} {batch : List ρ} {p own : ℕ}

/-- Rows with a key are never dropped. -/
lemma splitNullKeyRows_keeps {r : ρ} (hr : r ∈ batch) (hnull : column.isNull r = false) :
    ∃ kept n, splitNullKeyRows column batch = (some kept, n) ∧ r ∈ kept := by
  unfold splitNullKeyRows
  by_cases hzero : batch.countP column.isNull = 0
  · rw [if_pos hzero]
    exact ⟨batch, 0, rfl, hr⟩
  have hall : batch.countP column.isNull ≠ batch.length := by
    intro h
    have hnull' := countP_eq_length.mp h r hr
    rw [hnull] at hnull'
    cases hnull'
  rw [if_neg hzero, if_neg hall]
  exact ⟨_, _, rfl, by simp [hr, hnull]⟩

variable {rows : List (ρ × ℕ)}

/-- What `mapM` returned, row by row. -/
lemma mem_mapM_rowGroup (h : batch.mapM (rowGroup keyHash column) = .ok rows) {x : ρ × ℕ} :
    x ∈ rows ↔ x.1 ∈ batch ∧ ∃ key, column.extractAggKey x.1 = .ok key ∧ x.2 = keyGroupForKey keyHash key := by
  rw [Except.mem_mapM_iff h]
  constructor
  · rintro ⟨r, hr, hrow⟩
    unfold rowGroup at hrow
    split at hrow
    · next key hkey =>
      cases hrow
      exact ⟨hr, key, hkey, rfl⟩
    · cases hrow
  · rintro ⟨hr, key, hkey, hgroup⟩
    refine ⟨x.1, hr, ?_⟩
    rw [rowGroup, hkey]
    dsimp only
    rw [← hgroup]

lemma mem_rowsOf {j : ℕ} {r : ρ} :
    (∃ l, rowsOf p own rows j = some l ∧ r ∈ l) ↔ ∃ g, (r, g) ∈ rows ∧ ownerOf p own g = j := by
  unfold rowsOf
  dsimp only
  constructor
  · rintro ⟨l, hl, hr⟩
    split_ifs at hl
    cases hl
    obtain ⟨⟨r', g⟩, hmem, rfl⟩ := mem_map.mp hr
    rw [mem_filter] at hmem
    exact ⟨g, hmem.1, by simpa using hmem.2⟩
  rintro ⟨g, hmem, howner⟩
  have hr : r ∈ (rows.filter fun r => ownerOf p own r.2 = j).map Prod.fst :=
    mem_map.mpr ⟨(r, g), mem_filter.mpr ⟨hmem, by simpa using howner⟩, rfl⟩
  rw [if_neg]
  · exact ⟨_, rfl, hr⟩
  · intro hlen
    rw [length_eq_zero_iff.mp hlen] at hr
    cases hr

/-- The owner does not depend on who routes. -/
lemma ownerOf_eq (own own' : ℕ) (hp : 0 < p) {g : ℕ} (hg : g < numKeyGroups) : ownerOf p own g = ownerOf p own' g :=
  (ownerOf_owns own hp hg).2.unique (ownerOf_owns own' hp hg).2

/-- Where a row with a key goes. -/
lemma sentTo_iff {out : RoutedBatch ρ} (hown : own < p)
    (hout : routeBatchByKeyGroup keyHash (some column) batch p own = .ok out) {r : ρ} (hr : r ∈ batch)
    (hnull : column.isNull r = false) {key : Bytes} (hkey : column.extractAggKey r = .ok key) (j : ℕ) :
    SentTo out own j r ↔ j = ownerOf p 0 (keyGroupForKey keyHash key) := by
  have hp : 0 < p := by omega
  have hgroup := keyGroupForKey_lt keyHash key
  rw [ownerOf_eq 0 own hp hgroup]
  obtain ⟨kept, n, hsplit, hkept⟩ := splitNullKeyRows_keeps hr hnull
  have howner := (ownerOf_owns own hp hgroup).1
  simp only [routeBatchByKeyGroup, hsplit] at hout
  by_cases hone : p ≤ 1
  · -- a single subtask owns everything
    rw [if_pos hone] at hout
    cases hout
    simp only [SentTo, not_mem_nil, false_and, exists_false, or_false]
    constructor
    · rintro ⟨rfl, -⟩
      omega
    · intro hj
      exact ⟨by omega, kept, rfl, hkept⟩
  · rw [if_neg hone] at hout
    obtain ⟨rows, hrows, hout⟩ := Except.bind_eq_ok_iff.mp hout
    -- the row is there with the group of its key and with no other
    have hmem : ∀ g, (r, g) ∈ rows ↔ g = keyGroupForKey keyHash key := by
      intro g
      rw [mem_mapM_rowGroup hrows]
      constructor
      · rintro ⟨-, key', hkey', hg⟩
        rw [hkey] at hkey'
        cases hkey'
        exact hg
      · intro hg
        exact ⟨hkept, key, hkey, hg⟩
    have hrowsOf : ∀ i, (∃ l, rowsOf p own rows i = some l ∧ r ∈ l) ↔
        i = ownerOf p own (keyGroupForKey keyHash key) := by
      intro i
      rw [mem_rowsOf]
      constructor
      · rintro ⟨g, hg, rfl⟩
        rw [(hmem g).mp hg]
      · intro hi
        exact ⟨_, (hmem _).mpr rfl, hi.symm⟩
    split_ifs at hout with hpeers
    · -- no row belongs to a peer, so neither does this one
      cases hout
      have hself : ownerOf p own (keyGroupForKey keyHash key) = own := by
        by_contra hne
        have hpeer : ownerOf p own (keyGroupForKey keyHash key) ∈ (List.range p).filter fun i =>
            decide (i ≠ own) && rows.any fun x => ownerOf p own x.2 = i := by
          simp only [mem_filter, mem_range, Bool.and_eq_true, decide_eq_true_eq, any_eq_true]
          exact ⟨howner, hne, (r, keyGroupForKey keyHash key), (hmem _).mpr rfl, rfl⟩
        rw [length_eq_zero_iff.mp hpeers] at hpeer
        cases hpeer
      simp only [SentTo, not_mem_nil, false_and, exists_false, or_false]
      rw [hself]
      exact ⟨fun h => h.1, fun h => ⟨h, kept, rfl, hkept⟩⟩
    · cases hout
      constructor
      · rintro (⟨rfl, hl⟩ | ⟨l, hl, hrl⟩)
        · exact (hrowsOf j).mp hl
        obtain ⟨i, -, hi⟩ := mem_filterMap.mp hl
        obtain ⟨l', hl', hpair⟩ := Option.map_eq_some_iff.mp hi
        cases hpair
        exact (hrowsOf j).mp ⟨l, hl', hrl⟩
      intro hj
      obtain ⟨l, hl, hrl⟩ := (hrowsOf j).mpr hj
      by_cases hself : j = own
      · rw [hself] at hl
        exact .inl ⟨hself, l, hl, hrl⟩
      · refine .inr ⟨l, mem_filterMap.mpr ⟨j, ?_, by rw [hl]; rfl⟩, hrl⟩
        simp only [mem_filter, mem_range, Bool.and_eq_true, decide_eq_true_eq, any_eq_true]
        exact ⟨by omega, hself, (r, keyGroupForKey keyHash key), (hmem _).mpr rfl, hj.symm⟩

end Krishiv.Executor
