import Krishiv.Dataflow.WindowState
import Krishiv.Executor.RowRouting

/-!
# Keyed state stays with its rows

The snapshots of a window operator on any number of tasks, each entry on the task that owned its key, are
redistributed over `p` tasks. Each entry should be on exactly one new task, the one to which the row router
sends the rows of its key, and every new task should start at the least of the old watermarks.

Top-N buffers break this: their layout is missing from the table, so they are broadcast and every new task
has them (`topNTask_everywhere`), and each will emit them. `kept_iff` says exactly when the entries stay with
their rows: there is one new task, or no top-N buffer and no key whose length was cut.
-/

namespace Krishiv.Executor

open Krishiv.Ivm Krishiv.State Krishiv.Dataflow List

section Rescaled

variable (keyHash : Bytes → ℕ) (opId stateName : String)

/-- The snapshot of a task; a task without state has empty bytes. -/
def snapshotOf : Option WindowTask → Bytes
  | none => []
  | some t => encodeSnapshotEntries (t.entries opId stateName)

/-- All entries of all tasks, in order. -/
def allEntries (tasks : List (Option WindowTask)) : List SnapshotEntry :=
  tasks.flatMap fun t => t.elim [] (WindowTask.entries opId stateName)

/-- The snapshots of tasks that kept to their own keys. -/
structure WellPlaced (tasks : List (Option WindowTask)) : Prop where
  /-- Each entry is on the task that owned its key. -/
  owned : ∀ (i : ℕ) t, tasks[i]? = some (some t) → ∀ x ∈ t.keyed,
    ownerOf tasks.length 0 (keyGroupForKey keyHash x.1.key) = i
  /-- The state of a task is a map. -/
  distinct : ∀ t, some t ∈ tasks → (t.keyed.map Prod.fst).Nodup
  /-- Numbers of entries and lengths of fields are those of vectors. -/
  total : (allEntries opId stateName tasks).length < 2 ^ 63
  fits : ∀ e ∈ allEntries opId stateName tasks, e.Fits

/-- Rows with this key are sent to task `j`, by every router and in every batch. -/
def RowTask (p : ℕ) (key : Bytes) (j : ℕ) : Prop :=
  ∀ (ρ : Type) (column : KeyColumn ρ) (batch : List ρ) (own : ℕ) (out : RoutedBatch ρ) (r : ρ),
    own < p → routeBatchByKeyGroup keyHash (some column) batch p own = .ok out → r ∈ batch →
      column.isNull r = false → column.extractAggKey r = .ok key → ∀ i, SentTo out own i r ↔ i = j

/-- Redistribution over `p` tasks brings each entry, unchanged, to the one task that gets the rows of its
key, and gives every task the least of the old watermarks. -/
def Kept (tasks : List (Option WindowTask)) (p : ℕ) : Prop :=
  ∃ new ess, redistributeSnapshots keyHash (tasks.map (snapshotOf opId stateName)) p .windowGroupKey = .ok new ∧
    new.length = p ∧ List.Forall₂ Decodes new ess ∧
    (∀ t, some t ∈ tasks → ∀ x ∈ t.keyed, ∃ j < p, RowTask keyHash p x.1.key j ∧
      ∀ (i : ℕ) es, ess[i]? = some es → es.count (entryOf opId stateName x) = if i = j then 1 else 0) ∧
    ∀ t, some t ∈ tasks → ∃ least, some least ∈ tasks ∧
      (∀ t', some t' ∈ tasks → least.watermark.toInt ≤ t'.watermark.toInt) ∧
      ∀ es ∈ ess, es.filter (fun e => e.key = wm) = [watermarkEntry opId stateName least.watermark]

end Rescaled

section Entries

variable {keyHash : Bytes → ℕ} {opId stateName : String} {tasks : List (Option WindowTask)} {p : ℕ}
  (h : WellPlaced keyHash opId stateName tasks)

lemma mem_allEntries {e : SnapshotEntry} : e ∈ allEntries opId stateName tasks ↔ ∃ t, some t ∈ tasks ∧
      ((∃ x ∈ t.keyed, e = entryOf opId stateName x) ∨ e = watermarkEntry opId stateName t.watermark) := by
  simp only [allEntries, mem_flatMap]
  constructor
  · rintro ⟨_ | t, ht, he⟩
    · cases he
    refine ⟨t, ht, ?_⟩
    rcases mem_append.mp he with he | he
    · obtain ⟨x, hx, rfl⟩ := mem_map.mp he
      exact .inl ⟨x, hx, rfl⟩
    · exact .inr (mem_singleton.mp he)
  · rintro ⟨t, ht, ⟨x, hx, rfl⟩ | rfl⟩
    · exact ⟨some t, ht, mem_append_left _ (mem_map_of_mem hx)⟩
    · exact ⟨some t, ht, mem_append_right _ mem_cons_self⟩

/-- Where redistribution sends a keyed entry. -/
lemma taskOf_entryOf (x : KeyedState × Bytes) : taskOf keyHash p .windowGroupKey (entryOf opId stateName x) =
      if x.1.Routable then some (ownerOf p 0 (keyGroupForKey keyHash x.1.key)) else none := by
  have hnot : x.1.stateKey ∉ broadcastStateKeys := fun h => stateKey_ne_wm _ (mem_singleton.mp h)
  rw [taskOf, entryOf, routingKey, if_neg hnot, windowGroupKey_stateKey]
  split_ifs <;> rfl

lemma taskOf_watermarkEntry (w : Int64) :
    taskOf keyHash p .windowGroupKey (watermarkEntry opId stateName w) = none := rfl

variable {x : KeyedState × Bytes}

include h in
/-- A state is on one task, once. -/
lemma WellPlaced.unique {t t' : WindowTask}
    (ht : some t ∈ tasks) (ht' : some t' ∈ tasks) {x' : KeyedState × Bytes} (hx : x ∈ t.keyed)
    (hx' : x' ∈ t'.keyed) (heq : x.1 = x'.1) : x = x' := by
  obtain ⟨i, hi⟩ := mem_iff_getElem?.mp ht
  obtain ⟨i', hi'⟩ := mem_iff_getElem?.mp ht'
  -- both tasks own the key
  have hsame : i = i' := by
    rw [← h.owned i t hi x hx, ← h.owned i' t' hi' x' hx', heq]
  subst hsame
  rw [hi] at hi'
  cases hi'
  exact inj_on_of_nodup_map (h.distinct t ht) hx hx' heq

include h in
/-- Entries of one name are one entry, or both watermarks. -/
lemma WellPlaced.sameName {a b : SnapshotEntry}
    (ha : a ∈ allEntries opId stateName tasks) (hb : b ∈ allEntries opId stateName tasks) (hname : SameName a b) :
    a = b ∨ (∃ w, a = watermarkEntry opId stateName w) ∧ ∃ w, b = watermarkEntry opId stateName w := by
  obtain ⟨t, ht, ⟨x, hx, rfl⟩ | rfl⟩ := mem_allEntries.mp ha
  · obtain ⟨t', ht', ⟨x', hx', rfl⟩ | rfl⟩ := mem_allEntries.mp hb
    · left
      rw [h.unique ht ht' hx hx' (stateKey_injective hname.2.2)]
    · exact absurd hname.2.2 (stateKey_ne_wm _)
  · obtain ⟨t', ht', ⟨x', hx', rfl⟩ | rfl⟩ := mem_allEntries.mp hb
    · exact absurd hname.2.2.symm (stateKey_ne_wm _)
    · exact .inr ⟨⟨_, rfl⟩, ⟨_, rfl⟩⟩

include h in
lemma WellPlaced.compatible {q : SnapshotEntry → Bool} : Compatible ((allEntries opId stateName tasks).filter q) := by
  intro a ha b hb hname
  rcases h.sameName (mem_filter.mp ha).1 (mem_filter.mp hb).1 hname with
    rfl | ⟨⟨w, rfl⟩, ⟨w', rfl⟩⟩
  · exact .inl rfl
  · exact .inr ⟨length_leI64 w, length_leI64 w'⟩

/-! ## Counting -/

/-- The keyed state of all tasks. -/
def allKeyed (tasks : List (Option WindowTask)) : List (KeyedState × Bytes) :=
  tasks.flatMap fun t => t.elim [] WindowTask.keyed

include h in
lemma WellPlaced.nodup : (allKeyed tasks).Nodup := by
  apply nodup_flatMap.mpr
  constructor
  · rintro (_ | t) ht
    · exact nodup_nil
    · exact (h.distinct t ht).of_map
  apply pairwise_iff_getElem.mpr
  intro i j hi hj hij x hxi hxj
  -- the key of a common entry would have two owners
  cases hti : tasks[i] with
  | none => simp [hti] at hxi
  | some t =>
    cases htj : tasks[j] with
    | none => simp [htj] at hxj
    | some t' =>
      rw [hti] at hxi
      rw [htj] at hxj
      have howni := h.owned i t (by rw [getElem?_eq_getElem hi, hti]) x hxi
      have hownj := h.owned j t' (by rw [getElem?_eq_getElem hj, htj]) x hxj
      omega

lemma count_allEntries (x : KeyedState × Bytes) :
    (allEntries opId stateName tasks).count (entryOf opId stateName x) = (allKeyed tasks).count x := by
  rw [allEntries, allKeyed, count_flatMap, count_flatMap]
  congr 1
  apply map_congr_left
  rintro (_ | t) _
  · rfl
  have hne : watermarkEntry opId stateName t.watermark ≠ entryOf opId stateName x := by
    intro heq
    exact stateKey_ne_wm x.1 (congrArg SnapshotEntry.key heq).symm
  simp only [Function.comp_apply, Option.elim_some, WindowTask.entries, count_append,
    count_map_of_injective _ _ (entryOf_injective opId stateName)]
  simp [hne]

variable {t : WindowTask}

include h in
/-- Every entry is there once. -/
lemma WellPlaced.count (ht : some t ∈ tasks) (hx : x ∈ t.keyed) :
    (allEntries opId stateName tasks).count (entryOf opId stateName x) = 1 := by
  rw [count_allEntries]
  apply count_eq_one_of_mem h.nodup
  exact mem_flatMap.mpr ⟨some t, ht, hx⟩

/-! ## The new snapshots -/

variable (keyHash opId stateName tasks p) in
/-- The entries of new task `j` when `deduped` is broadcast. -/
def newEntries (deduped : List SnapshotEntry) (j : ℕ) : List SnapshotEntry :=
  ((allEntries opId stateName tasks).filter fun e =>
    taskOf keyHash p .windowGroupKey e = some j) ++ deduped

variable (keyHash opId stateName tasks p) in
/-- The merge of the broadcast entries. -/
abbrev Merged (deduped : List SnapshotEntry) : Prop :=
  Deduped ((allEntries opId stateName tasks).filter fun e =>
    taskOf keyHash p .windowGroupKey e = none) deduped

variable {deduped : List SnapshotEntry}

section

variable (hm : Merged keyHash opId stateName tasks p deduped)

include hm

lemma mem_merged {e : SnapshotEntry} (he : e ∈ deduped) :
    e ∈ allEntries opId stateName tasks ∧ taskOf keyHash p .windowGroupKey e = none := by
  have hmem := mem_filter.mp (hm.mem e he)
  exact ⟨hmem.1, by simpa using hmem.2⟩

include h in
/-- How often a keyed entry is on a new task: once on its owner if it is routed, else once everywhere. -/
lemma count_newEntries (ht : some t ∈ tasks) (hx : x ∈ t.keyed) (j : ℕ) :
    (newEntries keyHash opId stateName tasks p deduped j).count (entryOf opId stateName x) =
      if x.1.Routable then (if j = ownerOf p 0 (keyGroupForKey keyHash x.1.key) then 1 else 0) else 1 := by
  have htask : taskOf keyHash p .windowGroupKey (entryOf opId stateName x) = _ := taskOf_entryOf x
  have hall : entryOf opId stateName x ∈ allEntries opId stateName tasks :=
    mem_allEntries.mpr ⟨t, ht, .inl ⟨x, hx, rfl⟩⟩
  rw [newEntries, count_append]
  by_cases hroute : x.1.Routable
  · rw [if_pos hroute] at htask ⊢
    have hnot : entryOf opId stateName x ∉ deduped := by
      intro he
      rw [(mem_merged hm he).2] at htask
      cases htask
    rw [count_eq_zero_of_not_mem hnot, Nat.add_zero]
    by_cases hj : j = ownerOf p 0 (keyGroupForKey keyHash x.1.key)
    · rw [if_pos hj, count_filter (by simp [htask, hj]), h.count ht hx]
    rw [if_neg hj, count_eq_zero_of_not_mem]
    intro he
    have hsome := (mem_filter.mp he).2
    simp only [htask, decide_eq_true_eq, Option.some.injEq] at hsome
    exact hj hsome.symm
  · rw [if_neg hroute] at htask ⊢
    have hzero : ((allEntries opId stateName tasks).filter fun e =>
        taskOf keyHash p .windowGroupKey e = some j).count (entryOf opId stateName x) = 0 := by
      apply count_eq_zero_of_not_mem
      intro he
      have hsome := (mem_filter.mp he).2
      simp [htask] at hsome
    -- the merge has an entry of this name, and there is only one such entry
    obtain ⟨a, ha, hname⟩ := hm.covers _ (mem_filter.mpr ⟨hall, by simp [htask]⟩)
    have heq : a = entryOf opId stateName x := by
      rcases h.sameName (mem_merged hm ha).1 hall hname with heq | ⟨-, w, hw⟩
      · exact heq
      · exact absurd (congrArg SnapshotEntry.key hw) (stateKey_ne_wm x.1)
    rw [hzero, Nat.zero_add, ← heq]
    exact count_eq_one_of_mem (hm.nodup) ha

/-- Every new task gets one watermark, the least of the old ones. -/
lemma watermark_newEntries (ht : some t ∈ tasks) : ∃ least, some least ∈ tasks ∧
      (∀ t', some t' ∈ tasks → least.watermark.toInt ≤ t'.watermark.toInt) ∧
      ∀ j, (newEntries keyHash opId stateName tasks p deduped j).filter (fun e => e.key = wm) =
        [watermarkEntry opId stateName least.watermark] := by
  have hbroadcast : ∀ t', some t' ∈ tasks →
      watermarkEntry opId stateName t'.watermark ∈ (allEntries opId stateName tasks).filter fun e =>
        taskOf keyHash p .windowGroupKey e = none := by
    intro t' ht'
    refine mem_filter.mpr ⟨mem_allEntries.mpr ⟨t', ht', .inr rfl⟩, ?_⟩
    rw [taskOf_watermarkEntry]
    rfl
  -- an entry under the name of the watermark is the watermark of a task
  have hwm : ∀ e ∈ allEntries opId stateName tasks, e.key = wm →
      ∃ t', some t' ∈ tasks ∧ e = watermarkEntry opId stateName t'.watermark := by
    intro e he hkey
    obtain ⟨t', ht', ⟨x, -, rfl⟩ | rfl⟩ := mem_allEntries.mp he
    · exact absurd hkey (stateKey_ne_wm x.1)
    · exact ⟨t', ht', rfl⟩
  obtain ⟨a, ha, hname⟩ := hm.covers _ (hbroadcast t ht)
  obtain ⟨least, hleast, rfl⟩ := hwm a (mem_merged hm ha).1 hname.2.2
  refine ⟨least, hleast, fun t' ht' => ?_, fun j => ?_⟩
  · have hle := hm.least _ ha _ (hbroadcast t' ht') ⟨rfl, rfl, rfl⟩
    rwa [watermarkEntry, watermarkEntry, leInt64_leI64, leInt64_leI64] at hle
  have hrouted : ((allEntries opId stateName tasks).filter fun e =>
      taskOf keyHash p .windowGroupKey e = some j).filter (fun e => e.key = wm) = [] := by
    rw [filter_eq_nil_iff]
    intro e he hkey
    have hmem := mem_filter.mp he
    obtain ⟨t', -, rfl⟩ := hwm e hmem.1 (by simpa using hkey)
    rw [taskOf_watermarkEntry] at hmem
    simp at hmem
  have hone : deduped.filter (fun e => e.key = wm) = [watermarkEntry opId stateName least.watermark] := by
    have hnodup : (deduped.filter fun e => decide (e.key = wm)).Nodup := hm.nodup.filter _
    have hiff : ∀ e, e ∈ deduped.filter (fun e => decide (e.key = wm)) ↔
        e ∈ [watermarkEntry opId stateName least.watermark] := by
      intro e
      rw [mem_filter, mem_singleton]
      constructor
      · rintro ⟨he, hkey⟩
        obtain ⟨t', -, rfl⟩ := hwm e (mem_merged hm he).1 (by simpa using hkey)
        exact hm.eq_of_sameName he ha ⟨rfl, rfl, rfl⟩
      · rintro rfl
        exact ⟨ha, by simp [watermarkEntry]⟩
    have hperm := (perm_ext_iff_of_nodup hnodup (nodup_singleton _)).mpr hiff
    exact perm_singleton.mp hperm
  rw [newEntries, filter_append, hrouted, hone, nil_append]

end

/-! ## When state stays with its rows -/

include h in
/-- The old snapshots have the entries of their tasks. -/
lemma WellPlaced.decodes : List.Forall₂ Decodes (tasks.map (snapshotOf opId stateName))
      (tasks.map fun t => t.elim [] (WindowTask.entries opId stateName)) := by
  rw [forall₂_map_left_iff, forall₂_map_right_iff, forall₂_same]
  rintro (_ | t) ht
  · exact .inl ⟨rfl, rfl⟩
  have hsub : (t.entries opId stateName).Sublist (allEntries opId stateName tasks) :=
    sublist_flatten_of_mem (mem_map.mpr ⟨some t, ht, rfl⟩)
  have hlen := hsub.length_le
  have htotal := h.total
  exact .inr ⟨encodeSnapshotEntries_ne_nil _,
    decodeSnapshotEntries_encode (by omega) fun e he => h.fits e (hsub.subset he)⟩

include h in
/-- What redistribution gives to the new tasks. -/
lemma WellPlaced.redistribute (hp : 0 < p) : ∃ deduped new, Merged keyHash opId stateName tasks p deduped ∧
      redistributeSnapshots keyHash (tasks.map (snapshotOf opId stateName)) p .windowGroupKey = .ok new ∧
      new.length = p ∧
      List.Forall₂ Decodes new ((List.range p).map (newEntries keyHash opId stateName tasks p deduped)) := by
  obtain ⟨deduped, hfold, hm⟩ := foldlM_mergeBroadcast (h.compatible (q := fun e =>
    decide (taskOf keyHash p .windowGroupKey e = none)))
  refine ⟨deduped, shares keyHash p .windowGroupKey (allEntries opId stateName tasks) deduped, hm, ?_, ?_, ?_⟩
  · have hflat : (tasks.map fun t => t.elim [] (WindowTask.entries opId stateName)).flatten =
        allEntries opId stateName tasks := rfl
    rw [redistributeSnapshots_eq hp h.decodes, hflat, hfold]
    rfl
  · simp [shares]
  rw [shares, forall₂_map_left_iff, forall₂_map_right_iff, forall₂_same]
  intro j _
  apply decodes_encode
  · -- both parts come from the old entries
    have hfilter : ((allEntries opId stateName tasks).filter fun e =>
        taskOf keyHash p .windowGroupKey e = some j).length ≤ (allEntries opId stateName tasks).length :=
      length_filter_le _ _
    have hsubset : deduped ⊆ allEntries opId stateName tasks := fun e he => (mem_merged hm he).1
    have hdeduped : deduped.length ≤ (allEntries opId stateName tasks).length :=
      (hm.nodup.subperm hsubset).length_le
    have htotal := h.total
    rw [length_append]
    omega
  · intro e he
    rcases mem_append.mp he with he | he
    · exact h.fits e (mem_filter.mp he).1
    · exact h.fits e (mem_merged hm he).1

lemma forall₂_decodes_unique {snapshots : List Bytes} {ess ess' : List (List SnapshotEntry)}
    (h : List.Forall₂ Decodes snapshots ess) (h' : List.Forall₂ Decodes snapshots ess') : ess = ess' := by
  induction h generalizing ess' with
  | nil => cases h'; rfl
  | cons hone _ ih =>
    cases h' with
    | cons hone' hrest' => rw [hone.unique hone', ih hrest']

lemma rowTask_ownerOf (key : Bytes) : RowTask keyHash p key (ownerOf p 0 (keyGroupForKey keyHash key)) := by
  intro ρ column batch own out r hown hout hr hnull hkey i
  exact sentTo_iff hown hout hr hnull hkey i

include h in
/-- With several new tasks, state that stays with its rows was routed. -/
lemma Kept.routable (hkept : Kept keyHash opId stateName tasks p)
    (hp : 1 < p) (ht : some t ∈ tasks) (hx : x ∈ t.keyed) : x.1.Routable := by
  obtain ⟨deduped, new, hm, hnew, -, hdecodes⟩ := h.redistribute (p := p) (by omega)
  obtain ⟨new', ess, hnew', -, hdecodes', hcount, -⟩ := hkept
  rw [hnew] at hnew'
  cases hnew'
  have hess : ess = (List.range p).map (newEntries keyHash opId stateName tasks p deduped) :=
    forall₂_decodes_unique hdecodes' hdecodes
  obtain ⟨j, -, -, hj⟩ := hcount t ht x hx
  by_contra hroute
  -- an entry that is not routed is on every task, in particular on the tasks 0 and 1
  have hall : ∀ i < p, i = j := by
    intro i hi
    have hi' := hj i (newEntries keyHash opId stateName tasks p deduped i) (by rw [hess]; simp [hi])
    rw [count_newEntries h hm ht hx, if_neg hroute] at hi'
    by_contra hne
    rw [if_neg hne] at hi'
    cases hi'
  have h₀ := hall 0 (by omega)
  have h₁ := hall 1 (by omega)
  omega

include h in
/-- State that is routed, or has only one task to go to, stays with its rows. -/
lemma WellPlaced.kept (hp : 0 < p) (hcond : p = 1 ∨ ∀ t, some t ∈ tasks → ∀ x ∈ t.keyed, x.1.Routable) :
    Kept keyHash opId stateName tasks p := by
  obtain ⟨deduped, new, hm, hnew, hlen, hdecodes⟩ := h.redistribute hp
  refine ⟨new, _, hnew, hlen, hdecodes, fun t ht x hx => ?_, fun t ht => ?_⟩
  · have howner := (ownerOf_owns 0 hp (keyGroupForKey_lt keyHash x.1.key)).1
    refine ⟨_, howner, rowTask_ownerOf x.1.key, fun i es hes => ?_⟩
    obtain ⟨k, hk, rfl⟩ := Option.map_eq_some_iff.mp (getElem?_map.symm.trans hes)
    obtain ⟨hi, rfl⟩ := List.getElem?_eq_some_iff.mp hk
    rw [length_range] at hi
    rw [getElem_range, count_newEntries h hm ht hx]
    by_cases hroute : x.1.Routable
    · rw [if_pos hroute]
    · have hone : p = 1 := hcond.resolve_right fun hall => hroute (hall t ht x hx)
      rw [if_neg hroute, if_pos (by omega)]
  · obtain ⟨least, hleast, hmin, hwm⟩ := watermark_newEntries hm ht
    refine ⟨least, hleast, hmin, fun es hes => ?_⟩
    obtain ⟨j, -, rfl⟩ := mem_map.mp hes
    exact hwm j

/-- Keyed state stays with its rows exactly if there is one new task, or no top-N buffer and no key of
more than four gigabytes. -/
theorem kept_iff (h : WellPlaced keyHash opId stateName tasks) (hp : 0 < p) :
    Kept keyHash opId stateName tasks p ↔ p = 1 ∨ ∀ t, some t ∈ tasks →
    ∀ x ∈ t.keyed, x.1.Routable := by
  constructor
  · intro hkept
    by_cases hone : p = 1
    · exact .inl hone
    · exact .inr fun t ht x hx => hkept.routable h (by omega) ht hx
  · exact h.kept hp

end Entries

/-! ## Two snapshot sets -/

/-- A hash that tells one-byte keys apart. -/
def spreadHash (key : Bytes) : ℕ := LittleEndian.leNat key * 20000

/-- A session on the first task and a tumbling window on the second. -/
def twoTasks : List (Option WindowTask) :=
  [some ⟨[(.session [0] 0 5, [1])], 7⟩, some ⟨[(.tumbling [1] 0, [2])], 3⟩]

lemma twoTasks_wellPlaced : WellPlaced spreadHash "o" "w" twoTasks where
  owned i t hi x hx := by
    match i with
    | 0 =>
      cases hi
      rw [mem_singleton.mp hx]
      decide +kernel
    | 1 =>
      cases hi
      rw [mem_singleton.mp hx]
      decide +kernel
    | i + 2 => cases hi
  distinct t ht := by
    rcases mem_cons.mp ht with heq | ht
    · cases heq
      exact nodup_singleton _
    · cases mem_singleton.mp ht
      exact nodup_singleton _
  total := by decide +kernel
  fits := by decide +kernel

/-- Over three tasks, session and window stay with their rows. -/
theorem twoTasks_kept : (∀ t, some t ∈ twoTasks → ∀ x ∈ t.keyed, x.1.Routable) ∧
    Kept spreadHash "o" "w" twoTasks 3 := by
  have hroute : ∀ t, some t ∈ twoTasks → ∀ x ∈ t.keyed, x.1.Routable := by
    intro t ht x hx
    rcases mem_cons.mp ht with heq | ht
    · cases heq
      rw [mem_singleton.mp hx]
      decide
    · cases mem_singleton.mp ht
      rw [mem_singleton.mp hx]
      decide
  exact ⟨hroute, (kept_iff twoTasks_wellPlaced (by decide)).mpr (.inr hroute)⟩

/-- One task with one top-N buffer. -/
def topNTask : List (Option WindowTask) := [some ⟨[(.topN [0] 0, [1])], 7⟩]

lemma topNTask_wellPlaced : WellPlaced spreadHash "o" "w" topNTask where
  owned i t hi x hx := by
    match i with
    | 0 =>
      cases hi
      rw [mem_singleton.mp hx]
      decide +kernel
    | i + 1 => cases hi
  distinct t ht := by
    cases mem_singleton.mp ht
    exact nodup_singleton _
  total := by decide +kernel
  fits := by decide +kernel

/-- Over two tasks, the buffer is on both of them. -/
theorem topNTask_everywhere : WellPlaced spreadHash "o" "w" topNTask ∧
    (∃ new ess, redistributeSnapshots spreadHash (topNTask.map (snapshotOf "o" "w")) 2 .windowGroupKey =
      .ok new ∧ List.Forall₂ Decodes new ess ∧ ess.length = 2 ∧
      ∀ es ∈ ess, entryOf "o" "w" (.topN [0] 0, [1]) ∈ es) ∧
    ¬ Kept spreadHash "o" "w" topNTask 2 := by
  refine ⟨topNTask_wellPlaced, ?_, fun hkept => ?_⟩
  · obtain ⟨deduped, new, hm, hnew, -, hdecodes⟩ := topNTask_wellPlaced.redistribute (p := 2) (by decide)
    refine ⟨new, _, hnew, hdecodes, by simp, fun es hes => ?_⟩
    obtain ⟨j, -, rfl⟩ := mem_map.mp hes
    have hcount := count_newEntries topNTask_wellPlaced hm (t := ⟨[(.topN [0] 0, [1])], 7⟩)
      mem_cons_self (x := (.topN [0] 0, [1])) mem_cons_self j
    rw [if_neg (by decide)] at hcount
    exact count_pos_iff.mp (by omega)
  · exact hkept.routable topNTask_wellPlaced (by decide) (t := ⟨[(.topN [0] 0, [1])], 7⟩)
      mem_cons_self (x := (.topN [0] 0, [1])) mem_cons_self

end Krishiv.Executor
