import Mathlib.Algebra.BigOperators.Group.Finset.Piecewise
import Krishiv.State.KeyGroup
import Krishiv.State.Snapshot

/-!
# Redistributing snapshots over a new number of tasks

The entries of all old snapshots are put in one row. An entry with a routing key goes to the task that
owns the group of the key; one without goes to every task, where entries of the same name are merged into
one, the smaller of two eight-byte values being kept.

`redistributeSnapshots_eq` says what comes out: for each new task, the entries routed to it in their old
order and then what the merge left. The check of the number of routed entries never fails.
-/

namespace Krishiv.State

open Krishiv.Ivm LittleEndian List

structure RescaleChecksum where
  totalRows : ℕ
  columnCount : ℕ
  oldParallelism : ℕ
  newParallelism : ℕ

def RescaleChecksum.verify (c : RescaleChecksum) (postShardRowCounts : List ℕ) (postColumnCount : ℕ) : Bool :=
  postShardRowCounts.sum = c.totalRows ∧ postColumnCount = c.columnCount ∧
    postShardRowCounts.length = c.newParallelism

/-! ## Routing keys -/

/-- Prefixes of state keys, as ASCII. -/
def tw : Bytes := [0x74, 0x77, 0x3a]

def sw : Bytes := [0x73, 0x77, 0x3a]

def ses : Bytes := [0x73, 0x65, 0x73, 0x3a]

def wm : Bytes := [0x77, 0x6d, 0x3a]

/-- A prefix and the number of bytes behind the group key. -/
def windowStateKeyLayouts : List (Bytes × ℕ) := [(tw, 8), (sw, 8), (ses, 16)]

def broadcastStateKeys : List Bytes := [wm]

inductive EntryRouting where
  | byStateKey
  | windowGroupKey
  deriving DecidableEq, Repr

/-- The group key of a state key in one of the layouts. -/
def groupKeyIn (stateKey : Bytes) : List (Bytes × ℕ) → Option Bytes
  | [] => none
  | (start, trailing) :: layouts =>
    if start.isPrefixOf stateKey = false ∨ stateKey.length < start.length + 4 + trailing then
      groupKeyIn stateKey layouts
    else
      let rest := stateKey.drop start.length
      let keyLen := leNat (rest.take 4)
      if rest.length = 4 + keyLen + trailing then some ((rest.drop 4).take keyLen)
      else groupKeyIn stateKey layouts

def windowGroupKey (stateKey : Bytes) : Option Bytes := groupKeyIn stateKey windowStateKeyLayouts

def routingKey (stateKey : Bytes) : EntryRouting → Option Bytes
  | .byStateKey => some stateKey
  | .windowGroupKey => if stateKey ∈ broadcastStateKeys then none else windowGroupKey stateKey

/-! ## Redistribution -/

section Redistribute

variable (keyHash : Bytes → ℕ)

/-- `keyHash` is the first eight bytes of the digest of a key, as a number. -/
def keyGroupForKey (key : Bytes) : ℕ := keyHash key % numKeyGroups

structure Split where
  routed : List (List SnapshotEntry)
  broadcast : List SnapshotEntry
  routedTotal : ℕ

def Split.place (rescaler : KeyGroupRescaler) (routing : EntryRouting) (s : Split) (entry : SnapshotEntry) :
    Except StateError Split :=
  match routingKey entry.key routing with
  | some key =>
    let task := rescaler.taskForKeyGroup (keyGroupForKey keyHash key)
    if task < s.routed.length then
      .ok { s with
        routed := s.routed.modify task (· ++ [entry])
        routedTotal := s.routedTotal + 1 }
    else .error (.snapshotCorrupt s!"task index {task} out of range")
  | none => .ok { s with broadcast := s.broadcast ++ [entry] }

/-- Empty bytes are the snapshot of a task without state. -/
def Split.placeAll (rescaler : KeyGroupRescaler) (routing : EntryRouting) (s : Split) (snapshot : Bytes) :
    Except StateError Split :=
  if snapshot.length = 0 then .ok s
  else do
    let entries ← decodeSnapshotEntries snapshot
    entries.foldlM (Split.place keyHash rescaler routing) s

/-- A two's complement number of eight bytes. -/
def leInt64 (bytes : Bytes) : ℤ :=
  let n := leNat bytes
  if n < 2 ^ 63 then n else n - 2 ^ 64

def SameName (a b : SnapshotEntry) : Prop := a.opId = b.opId ∧ a.stateName = b.stateName ∧ a.key = b.key

instance (a b : SnapshotEntry) : Decidable (SameName a b) := inferInstanceAs (Decidable (_ ∧ _ ∧ _))

/-- Two entries of one name. Of the message the key is left out, which stands in it as text. -/
def mergeValue (existing entry : SnapshotEntry) : Except StateError SnapshotEntry :=
  if existing.value.length = 8 ∧ entry.value.length = 8 then
    .ok (if leInt64 entry.value < leInt64 existing.value then { existing with value := entry.value }
      else existing)
  else if entry.value ≠ existing.value then
    .error (.snapshotCorrupt
      "broadcast state key has conflicting non-watermark values across old tasks; cannot redistribute safely")
  else .ok existing

def mergeBroadcast : List SnapshotEntry → SnapshotEntry → Except StateError (List SnapshotEntry)
  | [], entry => .ok [entry]
  | existing :: rest, entry =>
    if SameName existing entry then do
      let merged ← mergeValue existing entry
      .ok (merged :: rest)
    else do
      let rest ← mergeBroadcast rest entry
      .ok (existing :: rest)

def redistributeSnapshots (oldSnapshots : List Bytes) (newParallelism : ℕ) (routing : EntryRouting) :
    Except StateError (List Bytes) := do
  let newParallelism := max newParallelism 1
  let rescaler := KeyGroupRescaler.new (max oldSnapshots.length 1) newParallelism
  let split ← oldSnapshots.foldlM (Split.placeAll keyHash rescaler routing)
    ⟨List.replicate newParallelism [], [], 0⟩
  let deduped ← split.broadcast.foldlM mergeBroadcast []
  let checksum : RescaleChecksum := ⟨split.routedTotal, 0, max oldSnapshots.length 1, newParallelism⟩
  if checksum.verify (split.routed.map List.length) 0 then
    .ok (split.routed.map fun entries =>
      let entries := entries ++ deduped
      if entries.length = 0 then [] else encodeSnapshotEntries entries)
  else .error (.snapshotCorrupt
    (s!"rescale verification failed: {split.routedTotal} routed entries split into " ++
      s!"{split.routed.map List.length} across {newParallelism} tasks"))

/-! ## What is placed where -/

/-- The task of an entry that has a routing key. -/
def taskOf (p : ℕ) (routing : EntryRouting) (e : SnapshotEntry) : Option ℕ :=
  (routingKey e.key routing).map fun key => ownerOf p 0 (keyGroupForKey keyHash key)

/-- The split of these entries over `p` tasks. -/
def splitOf (p : ℕ) (routing : EntryRouting) (entries : List SnapshotEntry) : Split where
  routed := (List.range p).map fun j => entries.filter fun e => taskOf keyHash p routing e = some j
  broadcast := entries.filter fun e => taskOf keyHash p routing e = none
  routedTotal := entries.countP fun e => (taskOf keyHash p routing e).isSome

variable {keyHash} {p old : ℕ} {routing : EntryRouting}

lemma keyGroupForKey_lt (keyHash : Bytes → ℕ) (key : Bytes) : keyGroupForKey keyHash key < numKeyGroups :=
  Nat.mod_lt _ (by decide)

variable {e : SnapshotEntry}

lemma taskOf_lt (hp : 0 < p) {j : ℕ} (h : taskOf keyHash p routing e = some j) : j < p := by
  obtain ⟨key, -, rfl⟩ := Option.map_eq_some_iff.mp h
  exact (ownerOf_owns 0 hp (keyGroupForKey_lt keyHash key)).1

/-- Placing one more entry. -/
lemma place_splitOf (hp : 0 < p) (entries : List SnapshotEntry) (e : SnapshotEntry) :
    Split.place keyHash (.new old p) routing (splitOf keyHash p routing entries) e =
      .ok (splitOf keyHash p routing (entries ++ [e])) := by
  unfold Split.place
  cases hkey : routingKey e.key routing with
  | none =>
    have htask : taskOf keyHash p routing e = none := by rw [taskOf, hkey]; rfl
    simp [splitOf, htask]
  | some key =>
    have hgroup := keyGroupForKey_lt keyHash key
    have htask : taskOf keyHash p routing e = some (ownerOf p 0 (keyGroupForKey keyHash key)) := by
      rw [taskOf, hkey]
      rfl
    have hlt := taskOf_lt hp htask
    dsimp only
    rw [taskForKeyGroup_eq_ownerOf old 0 hp hgroup]
    generalize ownerOf p 0 (keyGroupForKey keyHash key) = t at htask hlt
    rw [if_pos (by simpa [splitOf] using hlt)]
    have hrouted : (splitOf keyHash p routing entries).routed.modify t (· ++ [e]) =
        (splitOf keyHash p routing (entries ++ [e])).routed := by
      apply ext_getElem
      · simp [splitOf]
      intro j h₁ h₂
      rw [getElem_modify]
      by_cases hj : t = j
      · simp [splitOf, htask, hj]
      · simp [splitOf, htask, hj]
    rw [hrouted]
    simp [splitOf, htask]

lemma foldlM_place (hp : 0 < p) (entries l : List SnapshotEntry) :
    l.foldlM (Split.place keyHash (.new old p) routing) (splitOf keyHash p routing entries) =
      .ok (splitOf keyHash p routing (entries ++ l)) := by
  induction l generalizing entries with
  | nil => rw [append_nil]; rfl
  | cons e l ih =>
    rw [foldlM_cons, place_splitOf hp]
    have h := ih (entries ++ [e])
    rwa [append_assoc] at h

/-- The entries of an old snapshot. -/
def Decodes (snapshot : Bytes) (entries : List SnapshotEntry) : Prop :=
  (snapshot = [] ∧ entries = []) ∨ (snapshot ≠ [] ∧ decodeSnapshotEntries snapshot = .ok entries)

lemma Decodes.unique {snapshot : Bytes} {es es' : List SnapshotEntry} (h : Decodes snapshot es)
    (h' : Decodes snapshot es') : es = es' := by
  rcases h with ⟨hnil, rfl⟩ | ⟨hne, hdecode⟩
  · rcases h' with ⟨-, rfl⟩ | ⟨hne, -⟩
    · rfl
    · exact absurd hnil hne
  rcases h' with ⟨hnil, -⟩ | ⟨-, hdecode'⟩
  · exact absurd hnil hne
  · rw [hdecode] at hdecode'
    exact Except.ok.inj hdecode'

lemma encodeSnapshotEntries_ne_nil (entries : List SnapshotEntry) : encodeSnapshotEntries entries ≠ [] := by
  intro h
  have hlen := congrArg List.length h
  simp [encodeSnapshotEntries] at hlen

/-- Entries that fit can be read back from the snapshot of a task, which is empty if there are none. -/
lemma decodes_encode {entries : List SnapshotEntry} (hcount : entries.length < 2 ^ 64) (h : ∀ e ∈ entries, e.Fits) :
    Decodes (if entries.length = 0 then [] else encodeSnapshotEntries entries) entries := by
  by_cases hzero : entries.length = 0
  · rw [if_pos hzero]
    exact .inl ⟨rfl, length_eq_zero_iff.mp hzero⟩
  · rw [if_neg hzero]
    exact .inr ⟨encodeSnapshotEntries_ne_nil _, decodeSnapshotEntries_encode hcount h⟩

variable {ess : List (List SnapshotEntry)} {snapshots : List Bytes}

lemma foldlM_placeAll (hp : 0 < p) (h : List.Forall₂ Decodes snapshots ess) (entries : List SnapshotEntry) :
    snapshots.foldlM (Split.placeAll keyHash (.new old p) routing) (splitOf keyHash p routing entries) =
      .ok (splitOf keyHash p routing (entries ++ ess.flatten)) := by
  induction h generalizing entries with
  | nil => rw [flatten_nil, append_nil]; rfl
  | @cons snapshot es snapshots ess hone _ ih =>
    have hplace : Split.placeAll keyHash (.new old p) routing (splitOf keyHash p routing entries) snapshot =
        .ok (splitOf keyHash p routing (entries ++ es)) := by
      unfold Split.placeAll
      rcases hone with ⟨rfl, rfl⟩ | ⟨hne, hdecode⟩
      · rw [append_nil]
        rfl
      · rw [if_neg (by simpa using hne), hdecode]
        exact foldlM_place hp entries es
    rw [foldlM_cons, hplace]
    have h := ih (entries ++ es)
    rwa [append_assoc] at h

/-! ## The check of the numbers -/

/-- One task is counted once. -/
lemma sum_indicator {t : ℕ} (ht : t < p) : ((range p).map fun j => if t = j then 1 else 0).sum = 1 := by
  have hsum : ((List.range p).map fun j => if t = j then 1 else 0).sum =
      ∑ j ∈ Finset.range p, if t = j then 1 else 0 := rfl
  rw [hsum, Finset.sum_ite_eq, if_pos (Finset.mem_range.mpr ht)]

lemma sum_routed (hp : 0 < p) (entries : List SnapshotEntry) :
    ((splitOf keyHash p routing entries).routed.map length).sum =
      (splitOf keyHash p routing entries).routedTotal := by
  simp only [splitOf, map_map, Function.comp_def]
  induction entries with
  | nil => simp
  | cons e entries ih =>
    cases htask : taskOf keyHash p routing e with
    | none => simpa [htask] using ih
    | some t =>
      have hlen : ∀ j, ((e :: entries).filter fun e => taskOf keyHash p routing e = some j).length =
          (entries.filter fun e => taskOf keyHash p routing e = some j).length + if t = j then 1 else 0 := by
        intro j
        by_cases hj : t = j
        · simp [htask, hj]
        · simp [htask, hj]
      simp only [hlen, sum_map_add, sum_indicator (taskOf_lt hp htask), ih]
      simp [htask]

variable (keyHash p routing) in
/-- What the new tasks get of these entries when `deduped` is broadcast. -/
def shares (entries deduped : List SnapshotEntry) : List Bytes :=
  (List.range p).map fun j =>
    let own := (entries.filter fun e => taskOf keyHash p routing e = some j) ++ deduped
    if own.length = 0 then [] else encodeSnapshotEntries own

/-- What redistribution returns. -/
lemma redistributeSnapshots_eq (hp : 0 < p) (h : List.Forall₂ Decodes snapshots ess) :
    redistributeSnapshots keyHash snapshots p routing =
      ((ess.flatten.filter fun e => taskOf keyHash p routing e = none).foldlM mergeBroadcast []).map
        (shares keyHash p routing ess.flatten) := by
  have hmax : max p 1 = p := by omega
  have hstart : (⟨List.replicate p [], [], 0⟩ : Split) = splitOf keyHash p routing [] := by
    simp [splitOf]
  have hsplit : snapshots.foldlM (Split.placeAll keyHash (.new (max snapshots.length 1) p) routing)
      (splitOf keyHash p routing []) = .ok (splitOf keyHash p routing ess.flatten) :=
    foldlM_placeAll hp h []
  have hsum : ((splitOf keyHash p routing ess.flatten).routed.map List.length).sum =
      (splitOf keyHash p routing ess.flatten).routedTotal := sum_routed hp ess.flatten
  unfold redistributeSnapshots
  rw [hmax]
  dsimp only
  rw [hstart, hsplit]
  simp only [bind, Except.bind]
  have hcheck : RescaleChecksum.verify
      ⟨(splitOf keyHash p routing ess.flatten).routedTotal, 0, max snapshots.length 1, p⟩
      ((splitOf keyHash p routing ess.flatten).routed.map List.length) 0 = true := by
    simp only [RescaleChecksum.verify, decide_eq_true_eq]
    refine ⟨hsum, trivial, ?_⟩
    simp [splitOf]
  simp only [hcheck, if_true]
  simp only [splitOf, map_map, Function.comp_def]
  cases (ess.flatten.filter fun e => taskOf keyHash p routing e = none).foldlM mergeBroadcast [] <;> rfl

/-! ## What is broadcast -/

variable {a b : SnapshotEntry}

lemma SameName.symm (h : SameName a b) : SameName b a := ⟨h.1.symm, h.2.1.symm, h.2.2.symm⟩

lemma SameName.trans {c : SnapshotEntry} (h : SameName a b) (h' : SameName b c) : SameName a c :=
  ⟨h.1.trans h'.1, h.2.1.trans h'.2.1, h.2.2.trans h'.2.2⟩

/-- Entries of one name have the same value, or values of eight bytes. -/
def Compatible (l : List SnapshotEntry) : Prop :=
  ∀ a ∈ l, ∀ b ∈ l, SameName a b → a.value = b.value ∨ (a.value.length = 8 ∧ b.value.length = 8)

/-- `acc` has one entry for each name in `l`, and none in `l` has a smaller value. -/
structure Deduped (l acc : List SnapshotEntry) : Prop where
  distinct : acc.Pairwise fun a b => ¬ SameName a b
  covers : ∀ e ∈ l, ∃ a ∈ acc, SameName a e
  mem : ∀ a ∈ acc, a ∈ l
  least : ∀ a ∈ acc, ∀ e ∈ l, SameName a e → leInt64 a.value ≤ leInt64 e.value

variable {l acc : List SnapshotEntry}

lemma Deduped.nodup (h : Deduped l acc) : acc.Nodup := by
  refine h.distinct.imp ?_
  intro a b hname heq
  subst heq
  exact hname ⟨rfl, rfl, rfl⟩

lemma Deduped.eq_of_sameName (h : Deduped l acc) (ha : a ∈ acc) (hb : b ∈ acc) (hname : SameName a b) : a = b := by
  obtain ⟨i, hi, rfl⟩ := getElem_of_mem ha
  obtain ⟨j, hj, rfl⟩ := getElem_of_mem hb
  have hpair := pairwise_iff_getElem.mp h.distinct
  rcases Nat.lt_trichotomy i j with hlt | heq | hlt
  · exact absurd hname (hpair i j hi hj hlt)
  · subst heq
    rfl
  · exact absurd hname.symm (hpair j i hj hi hlt)

/-- Of two entries of one name the smaller is kept. -/
lemma mergeValue_spec (hname : SameName a e)
    (hvalue : a.value = e.value ∨ (a.value.length = 8 ∧ e.value.length = 8)) :
    ∃ m, mergeValue a e = .ok m ∧ (m = a ∨ m = e) ∧
      leInt64 m.value ≤ leInt64 a.value ∧ leInt64 m.value ≤ leInt64 e.value := by
  unfold mergeValue
  by_cases hlen : a.value.length = 8 ∧ e.value.length = 8
  · rw [if_pos hlen]
    by_cases hlt : leInt64 e.value < leInt64 a.value
    · have heq : { a with value := e.value } = e := by
        obtain ⟨h₁, h₂, h₃⟩ := hname
        cases a
        cases e
        simp_all
      rw [if_pos hlt, heq]
      exact ⟨e, rfl, .inr rfl, hlt.le, le_rfl⟩
    · rw [if_neg hlt]
      exact ⟨a, rfl, .inl rfl, le_rfl, not_lt.mp hlt⟩
  · have heq : a.value = e.value := hvalue.resolve_right hlen
    rw [if_neg hlen, if_neg (by simp [heq])]
    exact ⟨a, rfl, .inl rfl, le_rfl, by rw [heq]⟩

lemma mergeBroadcast_fresh (h : ∀ a ∈ acc, ¬ SameName a e) : mergeBroadcast acc e = .ok (acc ++ [e]) := by
  induction acc with
  | nil => rfl
  | cons a acc ih =>
    rw [mergeBroadcast, if_neg (h a mem_cons_self), ih fun b hb => h b (mem_cons_of_mem _ hb)]
    rfl

lemma mergeBroadcast_known {before after : List SnapshotEntry} {m : SnapshotEntry}
    (h : ∀ b ∈ before, ¬ SameName b e) (hname : SameName a e) (hm : mergeValue a e = .ok m) :
    mergeBroadcast (before ++ a :: after) e = .ok (before ++ m :: after) := by
  induction before with
  | nil =>
    rw [nil_append, mergeBroadcast, if_pos hname, hm]
    rfl
  | cons b before ih =>
    rw [cons_append, mergeBroadcast, if_neg (h b mem_cons_self), ih fun x hx => h x (mem_cons_of_mem _ hx)]
    rfl

lemma Deduped.perm {acc' : List SnapshotEntry} (h : Deduped l acc) (hp : acc.Perm acc') : Deduped l acc' :=
  ⟨(hp.pairwise_iff fun hab hba => hab hba.symm).mp h.distinct, by simpa only [hp.mem_iff] using h.covers,
    by simpa only [hp.mem_iff] using h.mem, by simpa only [hp.mem_iff] using h.least⟩

/-- An entry of a known name takes the place of the one before or is dropped. -/
lemma Deduped.known {rest : List SnapshotEntry} {m : SnapshotEntry} (h : Deduped l (a :: rest))
    (hname : SameName a e) (hor : m = a ∨ m = e) (hma : leInt64 m.value ≤ leInt64 a.value)
    (hme : leInt64 m.value ≤ leInt64 e.value) : Deduped (l ++ [e]) (m :: rest) := by
  obtain ⟨hhead, htail⟩ := pairwise_cons.mp h.distinct
  have hmname : SameName m a := by
    rcases hor with rfl | rfl
    · exact ⟨rfl, rfl, rfl⟩
    · exact hname.symm
  refine ⟨pairwise_cons.mpr ⟨fun b hb hmb => hhead b hb (hmname.symm.trans hmb), htail⟩,
    fun x hx => ?_, fun x hx => ?_, fun x hx y hy hxy => ?_⟩
  · rcases mem_append.mp hx with hx | hx
    · obtain ⟨b, hb, hbx⟩ := h.covers x hx
      rcases mem_cons.mp hb with rfl | hb
      · exact ⟨m, mem_cons_self, hmname.trans hbx⟩
      · exact ⟨b, mem_cons_of_mem _ hb, hbx⟩
    · rw [mem_singleton.mp hx]
      exact ⟨m, mem_cons_self, hmname.trans hname⟩
  · rcases mem_cons.mp hx with rfl | hx
    · rcases hor with rfl | rfl
      · exact mem_append_left _ (h.mem _ mem_cons_self)
      · simp
    · exact mem_append_left _ (h.mem x (mem_cons_of_mem _ hx))
  · rcases mem_cons.mp hx with rfl | hx <;> rcases mem_append.mp hy with hy | hy
    · exact hma.trans (h.least a mem_cons_self y hy (hmname.symm.trans hxy))
    · rw [mem_singleton.mp hy]
      exact hme
    · exact h.least x (mem_cons_of_mem _ hx) y hy hxy
    · rw [mem_singleton.mp hy] at hxy
      exact absurd (hname.trans hxy.symm) (hhead x hx)

lemma Deduped.fresh (h : Deduped l acc) (hfresh : ∀ a ∈ acc, ¬ SameName a e) : Deduped (l ++ [e]) (e :: acc) := by
  refine ⟨pairwise_cons.mpr ⟨fun a ha hea => hfresh a ha hea.symm, h.distinct⟩, fun x hx => ?_,
    fun x hx => ?_, fun x hx y hy hxy => ?_⟩
  · rcases mem_append.mp hx with hx | hx
    · obtain ⟨a, ha, hname⟩ := h.covers x hx
      exact ⟨a, mem_cons_of_mem _ ha, hname⟩
    · rw [mem_singleton.mp hx]
      exact ⟨e, mem_cons_self, rfl, rfl, rfl⟩
  · rcases mem_cons.mp hx with rfl | hx
    · simp
    · exact mem_append_left _ (h.mem x hx)
  · rcases mem_cons.mp hx with rfl | hx <;> rcases mem_append.mp hy with hy | hy
    · -- a known entry of the name of `e` is covered, so `e` would not be fresh
      obtain ⟨a, ha, hay⟩ := h.covers y hy
      exact absurd (hay.trans hxy.symm) (hfresh a ha)
    · rw [mem_singleton.mp hy]
    · exact h.least x hx y hy hxy
    · rw [mem_singleton.mp hy] at hxy
      exact absurd hxy (hfresh x hx)

/-- Merging one more entry. -/
lemma Deduped.merge (h : Deduped l acc) (hcompat : Compatible (l ++ [e])) :
    ∃ acc', mergeBroadcast acc e = .ok acc' ∧ Deduped (l ++ [e]) acc' := by
  by_cases hex : ∃ a ∈ acc, SameName a e
  · obtain ⟨a, ha, hname⟩ := hex
    obtain ⟨before, after, rfl⟩ := append_of_mem ha
    obtain ⟨m, hm, hor, hma, hme⟩ := mergeValue_spec hname
      (hcompat a (mem_append_left _ (h.mem a ha)) e (by simp) hname)
    refine ⟨before ++ m :: after, mergeBroadcast_known (fun b hb hbe => ?_) hname hm,
      ((h.perm perm_middle).known hname hor hma hme).perm perm_middle.symm⟩
    -- no other entry has the name of `a`
    exact (pairwise_append.mp h.distinct).2.2 b hb a mem_cons_self (hbe.trans hname.symm)
  · have hfresh : ∀ a ∈ acc, ¬ SameName a e := fun a ha hname => hex ⟨a, ha, hname⟩
    exact ⟨acc ++ [e], mergeBroadcast_fresh hfresh, (h.fresh hfresh).perm (perm_append_singleton e acc).symm⟩

lemma foldlM_mergeBroadcast (hcompat : Compatible l) :
    ∃ acc, l.foldlM mergeBroadcast [] = .ok acc ∧ Deduped l acc := by
  have hrun : ∀ done rest acc, Deduped done acc → Compatible (done ++ rest) →
      ∃ acc', rest.foldlM mergeBroadcast acc = .ok acc' ∧ Deduped (done ++ rest) acc' := by
    intro done rest
    induction rest generalizing done with
    | nil =>
      intro acc hacc _
      exact ⟨acc, rfl, by rwa [append_nil]⟩
    | cons e rest ih =>
      intro acc hacc hc
      have hsplit : done ++ e :: rest = (done ++ [e]) ++ rest := by simp
      rw [hsplit] at hc ⊢
      obtain ⟨next, hnext, hded⟩ := hacc.merge fun a ha b hb =>
        hc a (mem_append_left _ ha) b (mem_append_left _ hb)
      obtain ⟨acc', hacc', hded'⟩ := ih (done ++ [e]) next hded hc
      refine ⟨acc', ?_, hded'⟩
      rw [foldlM_cons, hnext]
      exact hacc'
  have hnil : Deduped [] [] := ⟨.nil, by simp, by simp, by simp⟩
  exact hrun [] l [] hnil hcompat

end Redistribute

end Krishiv.State
