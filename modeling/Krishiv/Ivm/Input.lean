import Krishiv.Ivm.Frame

/-!
# The input side of a tick

What a tick does to the pending queues and to the sources, views aside. A tick that ends with `Ok`
has advanced every source by exactly the deltas it drained (`TookIn`); any other end leaves queue,
sources and epoch alone (`SameInput`).
-/

namespace Krishiv.Ivm

open Krishiv.Delta

variable {P : Type}

/-! ## Queues -/

lemma queueOf_pushTo {α : Type} (m : NameMap (List α)) (name : String) (a : α) (src : String) :
    queueOf (pushTo m name a) src = queueOf m src ++ if src = name then [a] else [] := by
  unfold pushTo
  by_cases h : src = name
  · subst h
    simp [queueOf]
  · simp [queueOf, h]

section

variable (s : Inner P) (raw : NameMap (List DeltaBatch)) (src : String)

lemma queueOf_giveBack : queueOf (giveBack s raw).pending src = queueOf raw src ++ queueOf s.pending src := by
  simp only [giveBack, queueOf, KVMap.lookup_merge]
  cases raw.lookup src <;> simp

lemma queueOf_reFeed : queueOf (reFeed s raw).pending src = queueOf s.pending src ++ queueOf raw src := by
  simp only [reFeed, queueOf, KVMap.lookup_merge]
  cases raw.lookup src <;> simp

end

/-! ## What a feed queues -/

variable {s s' : Inner P}

/-- Nothing is accepted of an empty delta. -/
lemma accept_empty {env : Env P} {dedup : Bool} {source : String}
    {d kept : DeltaBatch} (h : accept env dedup s source d = (s', .ok (some kept))) : d.isEmpty = false := by
  by_contra hd
  rw [Bool.not_eq_false] at hd
  obtain ⟨s₁, d₁, hd₁, hkept⟩ := accept_ok (congrArg Prod.snd h)
  have hnone : d₁.isEmpty = true := by
    rcases hd₁ with rfl | ⟨w, rows, hrows, rfl⟩
    · exact hd
    · rw [List.isEmpty_iff.mp hd] at hrows
      cases hrows
      rfl
  rw [if_pos (.inl hnone)] at hkept
  cases hkept

/-- What a feed does to the queues: nothing, or what was accepted joins what it keeps of them. -/
structure Queued (keep : List DeltaBatch → List DeltaBatch) (source : String) (d : DeltaBatch)
    (s s' : Inner P) : Prop where
  sources : s'.sourceSnapshots = s.sourceSnapshots
  enabled : s'.deltaCheckpointEnabled = s.deltaCheckpointEnabled
  rest : s' = { s with
    seenInputHashes := s'.seenInputHashes, watermarkTrackers := s'.watermarkTrackers
    lateDroppedRows := s'.lateDroppedRows, pending := s'.pending, checkpointDeltas := s'.checkpointDeltas }
  moved : s'.pending = s.pending ∧ s'.checkpointDeltas = s.checkpointDeltas ∨
    d.isEmpty = false ∧ ∃ kept, kept.isEmpty = false ∧ kept.schema = d.schema ∧
      s'.pending = s.pending.insert source (keep (queueOf s.pending source) ++ [kept]) ∧
      s'.checkpointDeltas = if s.deltaCheckpointEnabled then
        s.checkpointDeltas.insert source (keep (queueOf s.checkpointDeltas source) ++ [kept])
      else s.checkpointDeltas

lemma queued_of_accept {env : Env P} (dedup : Bool) {keep : List DeltaBatch → List DeltaBatch}
    {source : String} {d : DeltaBatch} (h : match accept env dedup s source d with
      | (s₁, .ok (some kept)) => s' = { s₁ with
          pending := s₁.pending.insert source (keep (queueOf s₁.pending source) ++ [kept])
          checkpointDeltas := if s₁.deltaCheckpointEnabled then
            s₁.checkpointDeltas.insert source (keep (queueOf s₁.checkpointDeltas source) ++ [kept])
          else s₁.checkpointDeltas }
      | (s₁, _) => s' = s₁) : Queued keep source d s s' := by
  obtain ⟨seen, trackers, dropped, hstate⟩ := accept_state env dedup s source d
  rcases hs : accept env dedup s source d with ⟨s₁, e | _ | kept⟩ <;> rw [hs] at h hstate <;>
    cases hstate <;> cases h
  · exact ⟨rfl, rfl, rfl, .inl ⟨rfl, rfl⟩⟩
  · exact ⟨rfl, rfl, rfl, .inl ⟨rfl, rfl⟩⟩
  · obtain ⟨hne, hschema⟩ := accept_some hs
    exact ⟨rfl, rfl, rfl, .inr ⟨accept_empty hs, kept, hne, hschema, rfl, rfl⟩⟩

section

variable (env : Env P) (s : Inner P) (source : String)

lemma feed_queues (d : DeltaBatch) : Queued id source d s (feed env s source d).1 := by
  apply queued_of_accept s.inputDedupEnabled
  unfold feed
  rcases accept env s.inputDedupEnabled s source d with ⟨s₁, e | _ | kept⟩
  · rfl
  · rfl
  · dsimp only
    split <;> rfl

/-- A coalesced feed keeps nothing. -/
lemma feedCoalesced_queues (d : DeltaBatch) : Queued (fun _ => []) source d s (feedCoalesced env s source d).1 := by
  apply queued_of_accept false
  unfold feedCoalesced
  rcases accept env false s source d with ⟨s₁, e | _ | kept⟩
  · rfl
  · rfl
  · dsimp only
    split <;> rfl

/-- A snapshot is refused or has no rows, and nothing happens; or its difference is queued, if there is one. -/
lemma feedSnapshot_queues (batches : List RecordBatch) : ((feedSnapshot env s source batches).1 = s ∧
      ((feedSnapshot env s source batches).2 = .ok () → combineSnapshot batches = .ok none)) ∨
    ∃ new d, combineSnapshot batches = .ok (some new) ∧
      differentiate new.schema (s.streamingPrevSnapshots.lookup source) new = .ok d ∧
      (feedSnapshot env s source batches).2 = .ok () ∧ (feedSnapshot env s source batches).1.streamingPrevSnapshots =
        s.streamingPrevSnapshots.insert source new ∧
      (feedSnapshot env s source batches).1.sourceSnapshots = s.sourceSnapshots ∧
      (d.isEmpty = true ∧ (feedSnapshot env s source batches).1.pending = s.pending ∨
        d.isEmpty = false ∧ (feedSnapshot env s source batches).1.pending = pushTo s.pending source d) := by
  unfold feedSnapshot
  split
  · exact .inl ⟨rfl, nofun⟩
  · next hnone => exact .inl ⟨rfl, fun _ => hnone⟩
  next new hnew =>
  split
  · exact .inl ⟨rfl, nofun⟩
  · exact .inl ⟨rfl, nofun⟩
  next d _ hd =>
  refine .inr ⟨new, d, hnew, hd, ?_⟩
  dsimp only
  split
  · next he => exact ⟨rfl, rfl, rfl, .inl ⟨he, rfl⟩⟩
  · next hne =>
    rw [Bool.not_eq_true] at hne
    split <;> exact ⟨rfl, rfl, rfl, .inr ⟨hne, rfl⟩⟩

end

/-! ## What a tick does to the sources -/

/-- The Z-set of a source; nothing is held of a source that was never committed. -/
def sourceNet (sources : NameMap Source) (src : String) (r : Row) : ℤ :=
  ((sources.lookup src).map (Source.net · r)).getD 0

/-- How often a row is in the relation of a source. -/
def sourcePos (sources : NameMap Source) (src : String) (r : Row) : ℕ :=
  ((sources.lookup src).map (Source.pos · r)).getD 0

lemma sourcePos_eq (sources : NameMap Source) (src : String) (r : Row) :
    sourcePos sources src r = (sourceNet sources src r).toNat := by
  unfold sourcePos sourceNet
  cases sources.lookup src with
  | none => rfl
  | some source => exact source.wf.pos_eq r

/-- The Z-set of a queue of deltas. -/
def queueNet (ds : List DeltaBatch) (r : Row) : ℤ := (ds.map (DeltaBatch.net · r)).sum

lemma queueNet_append (ds ds' : List DeltaBatch) (r : Row) :
    queueNet (ds ++ ds') r = queueNet ds r + queueNet ds' r := by
  simp [queueNet]

variable {inputs : NameMap DeltaBatch} {raw : NameMap (List DeltaBatch)}

lemma concatQueue_spec {ds : List DeltaBatch} {b : DeltaBatch} (h : concatQueue ds = .ok b) :
    (∃ x ∈ ds, x.schema = b.schema) ∧ (∀ p ∈ b.rows, ∃ x ∈ ds, p.1 ∈ x.rows.map Prod.fst) ∧
      ∀ r, b.net r = queueNet ds r := by
  unfold concatQueue at h
  split at h
  · cases h
    exact ⟨⟨b, by simp, rfl⟩, fun p hp => ⟨b, by simp, List.mem_map_of_mem hp⟩, fun r => by simp [queueNet]⟩
  · rw [Except.mapError_eq_ok_iff] at h
    obtain ⟨hschema, hrows⟩ := DeltaBatch.concat_eq_ok h
    refine ⟨hschema, fun p hp => ?_, DeltaBatch.net_concat h⟩
    rw [hrows] at hp
    obtain ⟨l, hl, hp⟩ := List.mem_flatten.mp hp
    obtain ⟨x, hx, rfl⟩ := List.mem_map.mp hl
    exact ⟨x, hx, List.mem_map_of_mem hp⟩

/-- What the queue of a source is coalesced to: columns and rows of the queue, and its sum if the rows have
keys of their own. -/
structure Coalesced (ds : List DeltaBatch) (d : DeltaBatch) : Prop where
  merged : ∃ b, concatQueue ds = .ok b ∧ consolidateBatch b = .ok d
  schema : ∃ x ∈ ds, x.schema = d.schema
  rows : ∀ p ∈ d.rows, ∃ x ∈ ds, p.1 ∈ x.rows.map Prod.fst
  net : RowsApart ds → ∀ r, d.net r = queueNet ds r

lemma coalescePending_spec (h : coalescePending raw = .ok inputs) (src : String) :
    (raw.lookup src = none ∧ inputs.lookup src = none) ∨
    ∃ ds d, raw.lookup src = some ds ∧ inputs.lookup src = some d ∧ Coalesced ds d := by
  rcases KVMap.mapM_spec h src with ⟨hraw, hin⟩ | ⟨ds, d, hraw, hd, hin⟩
  · exact .inl ⟨hraw, hin⟩
  obtain ⟨b, hb, hd⟩ := Except.bind_eq_ok_iff.mp hd
  rw [Except.mapError_eq_ok_iff] at hd
  obtain ⟨hschema, hrows, hnet⟩ := concatQueue_spec hb
  obtain ⟨hsame, hsub⟩ := consolidateByKey_mem hd
  refine .inr ⟨ds, d, hraw, hin, ⟨b, hb, hd⟩, hsame ▸ hschema, fun p hp => ?_, fun hapart r => ?_⟩
  · obtain ⟨q, hq, heq⟩ := List.mem_map.mp (hsub p hp)
    exact heq ▸ hrows q hq
  · rw [SourceState.Settles.net_eq (settles_of_apart (hapart.apart hschema hrows)) hd, hnet]

/-- The rows that a source holds, owes and is about to take in have keys of their own. -/
def KeysApart (sources : NameMap Source) (raw : NameMap (List DeltaBatch)) : Prop :=
  ∀ src, RowsApart (SourceState.partsOf ((sources.lookup src).map Source.state) ++ queueOf raw src)

variable {new : NameMap Source}

lemma advanceSources_net {old : NameMap Source} (h : advanceSources old inputs = .ok new) (src : String)
    (hapart : ∀ d, inputs.lookup src = some d → SourceState.KeysApart ((old.lookup src).map Source.state) d)
    (r : Row) : sourceNet new src r =
      sourceNet old src r + ((inputs.lookup src).map (DeltaBatch.net · r)).getD 0 := by
  have hat := KVMap.updateM_spec h src
  unfold sourceNet
  cases hin : inputs.lookup src with
  | none =>
    rw [hin] at hat
    rw [show new.lookup src = old.lookup src from hat]
    simp
  | some d =>
    rw [hin] at hat
    obtain ⟨o, ho, hnew⟩ := hat
    rw [Except.mapError_eq_ok_iff] at ho
    obtain ⟨s, happ, rfl⟩ := Except.map_eq_ok_iff.mp ho
    rw [hnew]
    exact Source.applyTo_net (hapart d hin) happ r

/-- Together: the sources advance by exactly the deltas that were taken. -/
lemma advanceSources_coalesced {old : NameMap Source} (hapart : KeysApart old raw)
    (hc : coalescePending raw = .ok inputs) (h : advanceSources old inputs = .ok new) (src : String) (r : Row) :
    sourceNet new src r = sourceNet old src r + queueNet (queueOf raw src) r := by
  have hparts := hapart src
  unfold queueOf at hparts ⊢
  rcases coalescePending_spec hc src with ⟨hraw, hin⟩ | ⟨ds, d, hraw, hin, hd⟩
  · rw [advanceSources_net h src (by rw [hin]; nofun), hraw, hin]
    rfl
  · rw [hraw, Option.getD_some] at hparts
    rw [advanceSources_net h src, hraw, hin]
    · exact congrArg _ (hd.net (hparts.mono (List.subset_append_right _ _)) r)
    · rintro d' hd'
      cases hin.symm.trans hd'
      exact SourceState.keysApart_of_rowsApart hparts hd.schema hd.rows

/-- Every column of the queues has a key encoding. -/
def Hashable (raw : NameMap (List DeltaBatch)) : Prop := ∀ src, ∀ d ∈ queueOf raw src, Renderable d.schema

lemma Hashable.coalesced (hraw : Hashable raw) (h : coalescePending raw = .ok inputs) (src : String)
    (d : DeltaBatch) (hd : inputs.lookup src = some d) : Renderable d.schema := by
  rcases coalescePending_spec h src with ⟨-, hin⟩ | ⟨ds, d', hlookup, hin, hcoalesced⟩
  · rw [hd] at hin
    cases hin
  cases hd.symm.trans hin
  obtain ⟨x, hx, heq⟩ := hcoalesced.schema
  exact heq ▸ hraw src x (by rw [queueOf, hlookup]; exact hx)

/-- A coalesced map has the keys of the queues. -/
lemma queueOf_eq_nil_of_no_inputs (h : coalescePending raw = .ok inputs)
    (hk : inputs.keys.isEmpty = true) (src : String) : queueOf raw src = [] := by
  rcases coalescePending_spec h src with ⟨hraw, -⟩ | ⟨ds, d, -, hin, -⟩
  · rw [queueOf, hraw]
    rfl
  have hmem : src ∈ inputs := AList.lookup_isSome.mp (by rw [hin]; rfl)
  rw [List.isEmpty_iff] at hk
  have hkey : src ∈ inputs.keys := hmem
  rw [hk] at hkey
  cases hkey

/-! ## The end of a tick -/

/-- The queue, the sources and the epoch are untouched. -/
structure SameInput (s s' : Inner P) : Prop where
  pending : s'.pending = s.pending
  sources : s'.sourceSnapshots = s.sourceSnapshots
  epoch : s'.stateEpoch = s.stateEpoch

/-- The sources have taken in `raw`, under a new epoch if they changed at all. -/
structure TookIn (raw : NameMap (List DeltaBatch)) (s s' : Inner P) : Prop where
  pending : s'.pending = s.pending
  epoch_le : s.stateEpoch ≤ s'.stateEpoch
  same_epoch : s'.stateEpoch = s.stateEpoch → s'.sourceSnapshots = s.sourceSnapshots
  sources : ∀ src r, sourceNet s'.sourceSnapshots src r =
    sourceNet s.sourceSnapshots src r + queueNet (queueOf raw src) r

/-- What was fed since the last cut, and the snapshots that were fed, are untouched. -/
structure SameFeeds (s s' : Inner P) : Prop where
  deltas : s'.checkpointDeltas = s.checkpointDeltas
  enabled : s'.deltaCheckpointEnabled = s.deltaCheckpointEnabled
  snapshots : s'.streamingPrevSnapshots = s.streamingPrevSnapshots

/-- The sources advance under the next epoch. -/
lemma TookIn.advanced (hapart : KeysApart s.sourceSnapshots raw) (hin : coalescePending raw = .ok inputs)
    (hadv : advanceSources s.sourceSnapshots inputs = .ok new) (hpending : s'.pending = s.pending)
    (hepoch : s'.stateEpoch = s.stateEpoch + 1) (hsources : s'.sourceSnapshots = new) : TookIn raw s s' := by
  refine ⟨hpending, by omega, fun he => by omega, fun src r => ?_⟩
  rw [hsources]
  exact advanceSources_coalesced hapart hin hadv src r

/-- Lineage recording is off, or every declared column and every column of the queues can be hashed. -/
def CommitCannotFail (s : Inner P) (raw : NameMap (List DeltaBatch)) : Prop :=
  s.provenance = none ∨ DeclaredRenderable s ∧ Hashable raw

lemma finishTick_spec [PlanLogic P] (env : Env P) {d : Drained P} (rebuild : Bool)
    (recompute : List String) (c : TickCtx) (hin : coalescePending d.raw = .ok inputs)
    (hcur : d.epoch = s.stateEpoch → d.snapshots = s.sourceSnapshots) (hapart : KeysApart s.sourceSnapshots d.raw)
    (hfine : CommitCannotFail s d.raw) :
    match finishTick env d inputs rebuild recompute c s with
    | (s', _, .ok _) => TookIn d.raw s s' ∧ SameFeeds s s'
    | (s', _, .error _) => SameInput s s' ∧ SameFeeds s s' := by
  unfold finishTick
  by_cases hidle : (inputs.keys.isEmpty && !rebuild && recompute.isEmpty) = true
  · -- nothing was drained
    rw [if_pos hidle]
    simp only [Bool.and_eq_true] at hidle
    refine ⟨⟨rfl, le_refl _, fun _ => rfl, fun src r => ?_⟩, rfl, rfl, rfl⟩
    rw [queueOf_eq_nil_of_no_inputs hin hidle.1.1 src]
    show _ = _ + (0 : ℤ)
    rw [add_zero]
  rw [if_neg hidle]
  cases hp : prepare env d inputs rebuild recompute c with
  | error e => exact ⟨⟨rfl, rfl, rfl⟩, rfl, rfl, rfl⟩
  | ok p =>
    obtain ⟨hpe, hpi, -, hadv⟩ := prepare_ok hp
    dsimp only
    rcases commit_framed env s p with ⟨hne, habort⟩ | ⟨heq, hframe⟩
    · -- another tick committed first
      rw [habort]
      exact ⟨⟨rfl, rfl, rfl⟩, rfl, rfl, rfl⟩
    obtain ⟨summary, hok⟩ := commit_total env s p heq
      (hfine.imp id fun h => ⟨h.1, by rw [hpi]; exact h.2.coalesced hin⟩)
    rw [show commit env s p = ((commit env s p).1, .ok summary) from Prod.ext rfl hok]
    rw [hcur (by rw [← hpe, ← heq])] at hadv
    exact ⟨.advanced hapart hin hadv hframe.pending hframe.stateEpoch hframe.sourceSnapshots,
      hframe.checkpointDeltas, hframe.deltaCheckpointEnabled, hframe.streamingPrevSnapshots⟩

/-- A whole tick, undisturbed: the queues are in the sources, or nothing has moved. -/
lemma stepDatafusion_input [PlanLogic P] (env : Env P) (s : Inner P) (c : TickCtx)
    (hapart : KeysApart s.sourceSnapshots s.pending) (hfine : CommitCannotFail s s.pending) :
    SameFeeds s (stepDatafusion env s c).1 ∧
    ((∃ inputs, coalescePending s.pending = .ok inputs) ∧
      (∀ src, queueOf (stepDatafusion env s c).1.pending src = []) ∧
      (∀ src r, sourceNet (stepDatafusion env s c).1.sourceSnapshots src r =
        sourceNet s.sourceSnapshots src r + queueNet (queueOf s.pending src) r) ∨
     (stepDatafusion env s c).2.2.isOk = false ∧
      (∀ src, queueOf (stepDatafusion env s c).1.pending src = queueOf s.pending src) ∧
      (stepDatafusion env s c).1.sourceSnapshots = s.sourceSnapshots) := by
  unfold stepDatafusion stepInterleaved
  dsimp only [id]
  rw [show (drain env s).2.raw = s.pending from rfl]
  split
  · -- nothing was even merged
    refine ⟨⟨rfl, rfl, rfl⟩, .inr ⟨rfl, fun src => ?_, rfl⟩⟩
    show queueOf (giveBack (drain env s).1 s.pending).pending src = _
    rw [queueOf_giveBack]
    exact List.append_nil _
  next inputs hin =>
  have hend := finishTick_spec env (d := (drain env s).2) (s := (takeFlags (drain env s).1).1)
    (takeFlags (drain env s).1).2.1 (takeFlags (drain env s).1).2.2 c hin (fun _ => rfl) hapart hfine
  generalize finishTick env (drain env s).2 inputs (takeFlags (drain env s).1).2.1
    (takeFlags (drain env s).1).2.2 c (takeFlags (drain env s).1).1 = r at hend
  obtain ⟨s', c', e | summary⟩ := r
  · obtain ⟨hsame, hfeeds⟩ := hend
    refine ⟨⟨hfeeds.deltas, hfeeds.enabled, hfeeds.snapshots⟩, .inr ⟨rfl, fun src => ?_, hsame.sources⟩⟩
    show queueOf (giveBack s' s.pending).pending src = _
    rw [queueOf_giveBack, show s'.pending = ∅ from hsame.pending]
    exact List.append_nil _
  · obtain ⟨htook, hfeeds⟩ := hend
    refine ⟨⟨hfeeds.deltas, hfeeds.enabled, hfeeds.snapshots⟩, .inl ⟨⟨inputs, hin⟩, fun src => ?_, htook.sources⟩⟩
    show queueOf s'.pending src = []
    rw [show s'.pending = ∅ from htook.pending]
    rfl

end Krishiv.Ivm
