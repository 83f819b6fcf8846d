import Krishiv.Lib.Runs
import Krishiv.Scheduler.CommitWrites

/-!
# Positions that were acknowledged

A task can be acknowledged twice for one epoch, by the barrier transport and by the `checkpoint_ack` call. Both
acknowledgements are recorded under the task, the later one in place of the earlier. The one of the barrier
transport carries neither offsets nor sink transactions, so that a commit after it lacks what the other one
carried.
-/

namespace Krishiv.Scheduler

open Krishiv.State List AList

/-- `barrier_ack_to_checkpoint_ack`, with the operator id that it derives. -/
def barrierAckToCheckpointAck (jobId : Text) (epoch fencingToken : ℕ) (operatorId taskId : Text)
    (snapshotPath : Option Path) : CheckpointAckRequest :=
  ⟨jobId, operatorId, taskId, epoch, fencingToken, [], snapshotPath, []⟩

/-- A coordinator, and the acks it has accepted. -/
structure Acks where
  coord : CheckpointCoordinator
  accepted : List CheckpointAckRequest

/-- Some offsets and transactions have every partition and every prepared file of an ack. -/
structure Kept (offsets : List SourceOffsetRecord) (transactions : List SinkTransactionRef)
    (ack : CheckpointAckRequest) : Prop where
  offsets : ∀ so ∈ ack.sourceOffsets, ∃ o ∈ offsets, o.partitionId = so.partitionId
  transactions : ∀ tx ∈ ack.sinkTransactions, ∃ t ∈ transactions, t.preparePath = tx.preparePath

lemma Kept.refl (ack : CheckpointAckRequest) : Kept ack.sourceOffsets ack.sinkTransactions ack :=
  ⟨fun so h => ⟨so, h, rfl⟩, fun tx h => ⟨tx, h, rfl⟩⟩

lemma Kept.trans {offsets : List SourceOffsetRecord} {transactions : List SinkTransactionRef}
    {p a : CheckpointAckRequest} (h : Kept offsets transactions p)
    (h' : Kept p.sourceOffsets p.sinkTransactions a) : Kept offsets transactions a := by
  refine ⟨fun so hso => ?_, fun tx htx => ?_⟩
  · obtain ⟨o, ho, heq⟩ := h'.offsets so hso
    exact heq ▸ h.offsets o ho
  · obtain ⟨t, ht, heq⟩ := h'.transactions tx htx
    exact heq ▸ h.transactions t ht

namespace Acks

/-- `receive_ack_async`, at a time. -/
def receive (w : Acks) (ev : CheckpointAckRequest × ℕ) : Acks :=
  match w.coord.receiveAckAsync ev.1 ev.2 with
  | (.ok _, c) => ⟨c, ev.1 :: w.accepted⟩
  | (.error _, c) => { w with coord := c }

/-- A task is acknowledged again only with all that it was acknowledged with before, if the ack passes the
checks. -/
def Fine (w : Acks) (ev : CheckpointAckRequest × ℕ) : Prop :=
  ∀ e t before, w.coord.state = .awaitingAcks e t → (w.coord.recordAck ev.1 e).isOk = true →
    w.coord.pendingAcks.lookup ev.1.taskId = some before → Kept ev.1.sourceOffsets ev.1.sinkTransactions before

/-- What was accepted is kept in the acks that are pending, and then in the commit. -/
structure Inv (w : Acks) : Prop where
  pending : ∀ e t, w.coord.state = .awaitingAcks e t → ∀ a ∈ w.accepted,
    ∃ p, w.coord.pendingAcks.lookup a.taskId = some p ∧ Kept p.sourceOffsets p.sinkTransactions a
  commit : ∀ e commit, w.coord.state = .committing e → w.coord.pendingCommit = some commit →
    ∀ a ∈ w.accepted, Kept commit.metadata.sourceOffsets commit.metadata.sinkTransactions a

end Acks

open CheckpointCoordinator

lemma mem_collectSourceOffsets {acks : List CheckpointAckRequest} {a : CheckpointAckRequest}
    (ha : a ∈ acks) {so : SourceOffsetRecord} (hso : so ∈ a.sourceOffsets) :
    ∃ o ∈ collectSourceOffsets acks, o.partitionId = so.partitionId := by
  have hstay : ∀ (m : KVMap Text SourceOffsetRecord) (x : SourceOffsetRecord),
      (∃ o, m.lookup so.partitionId = some o ∧ o.partitionId = so.partitionId) →
      ∃ o, (m.insert x.partitionId x).lookup so.partitionId = some o ∧ o.partitionId = so.partitionId := by
    intro m x h
    by_cases hx : so.partitionId = x.partitionId
    · exact ⟨x, by rw [hx, lookup_insert], hx.symm⟩
    · rwa [lookup_insert_ne hx]
  obtain ⟨o, ho, hid⟩ := foldl_of_mem hstay (mem_flatMap.mpr ⟨a, ha, hso⟩)
    (fun m => ⟨so, lookup_insert m, rfl⟩) ∅
  exact ⟨o, mem_map.mpr ⟨⟨_, o⟩, mem_lookup_iff.mp ho, rfl⟩, hid⟩

lemma mem_collectSinkTransactions {acks : List CheckpointAckRequest} {a : CheckpointAckRequest}
    (ha : a ∈ acks) {tx : SinkTransactionRef} (htx : tx ∈ a.sinkTransactions) :
    ∃ t ∈ collectSinkTransactions acks, t.preparePath = tx.preparePath := by
  have hmem := mem_flatMap.mpr ⟨a, ha, htx⟩
  unfold collectSinkTransactions
  generalize acks.flatMap (fun a => a.sinkTransactions) = l at hmem
  generalize hm : l.foldl _ (SortedMap.empty : SortedMap Text SinkTransactionRef) = m
  -- what is under a path is a report of it, and every path has one
  suffices h : (∀ k t, m.lookup k = some t → t.preparePath = k) ∧
      ∀ x ∈ l, (m.lookup x.preparePath).isSome = true by
    obtain ⟨hkeyed, hin⟩ := h
    obtain ⟨t, ht⟩ := Option.isSome_iff_exists.mp (hin tx hmem)
    exact ⟨t, mem_map.mpr ⟨(_, t), SortedMap.mem_entries_iff.mpr ht, rfl⟩, hkeyed _ t ht⟩
  clear hmem
  induction l using List.reverseRecOn generalizing m with
  | nil =>
    subst hm
    exact ⟨nofun, nofun⟩
  | append_singleton l x ih =>
    obtain ⟨hkeyed, hin⟩ := ih _ rfl
    rw [foldl_append, foldl_cons, foldl_nil] at hm
    subst hm
    generalize l.foldl _ _ = m at hkeyed hin
    have hinsert : ∀ t, t.preparePath = x.preparePath →
        (∀ k y, (m.insert x.preparePath t).lookup k = some y → y.preparePath = k) ∧
        ∀ y ∈ l ++ [x], ((m.insert x.preparePath t).lookup y.preparePath).isSome = true := by
      intro t ht
      simp only [SortedMap.lookup_insert]
      refine ⟨fun k y hy => ?_, fun y hy => ?_⟩
      · split at hy
        · next hk =>
          cases hy
          exact ht.trans hk.symm
        · exact hkeyed k y hy
      · split
        · rfl
        · next hne =>
          refine hin y ((mem_append.mp hy).resolve_right fun hx => hne ?_)
          rw [mem_singleton.mp hx]
    split
    · exact hinsert x rfl
    · next known hknown => exact hinsert _ (hkeyed _ known hknown)

namespace Acks

variable {w : Acks}

lemma Inv.receive (hinv : Inv w) {ev : CheckpointAckRequest × ℕ} (hfine : Fine w ev) : Inv (w.receive ev) := by
  obtain ⟨ack, now⟩ := ev
  unfold Acks.receive receiveAckAsync
  cases hstate : w.coord.state with
  | awaitingAcks e t =>
    dsimp only
    cases hrec : w.coord.recordAck ack e with
    | error err => exact { hinv with }
    | ok c =>
      obtain ⟨-, -, hc⟩ := recordAck_ok hrec
      have hstate' : c.state = .awaitingAcks e t := hc ▸ hstate
      -- the ack that takes the place of another keeps what that one kept
      have hpending : ∀ a ∈ ack :: w.accepted, ∃ p, c.pendingAcks.lookup a.taskId = some p ∧
          Kept p.sourceOffsets p.sinkTransactions a := by
        rw [hc]
        refine forall_mem_cons.mpr ⟨⟨ack, lookup_insert _, .refl ack⟩, fun a ha => ?_⟩
        obtain ⟨p, hp, hkept⟩ := hinv.pending e t hstate a ha
        by_cases htask : a.taskId = ack.taskId
        · rw [htask] at hp ⊢
          exact ⟨ack, lookup_insert _, (hfine e t p hstate (by rw [hrec]; rfl) hp).trans hkept⟩
        · exact ⟨p, (lookup_insert_ne htask).trans hp, hkept⟩
      by_cases hquorum : c.hasQuorum = true
      · simp only [hquorum, if_true, extractCommitData_eq hstate']
        refine ⟨nofun, fun e commit _ hcommit a ha => ?_⟩
        cases hcommit
        obtain ⟨p, hp, hkept⟩ := hpending a ha
        have hmem : p ∈ c.pendingAcks.entries.map Sigma.snd := mem_map.mpr ⟨⟨_, p⟩, mem_lookup_iff.mp hp, rfl⟩
        exact Kept.trans ⟨fun _ => mem_collectSourceOffsets hmem, fun _ => mem_collectSinkTransactions hmem⟩ hkept
      · simp only [hquorum, Bool.false_eq_true, if_false]
        refine ⟨fun _ _ _ => hpending, fun e' _ h => ?_⟩
        rw [hstate'] at h
        cases h
  | committing e => exact { hinv with }
  | idle | committed e | failed e reason => exact { hinv with }

/-- The metadata of an epoch has what each accepted ack carried, if a task is acknowledged again only with
all that it was acknowledged with before. -/
theorem acked_positions_kept {c : CheckpointCoordinator} {now : ℕ}
    {evs : List (CheckpointAckRequest × ℕ)}
    (hfine : Runs.Along receive Fine ⟨c.started now, []⟩ evs)
    (hrun : Runs.run receive ⟨c.started now, []⟩ evs = w)
    {e : ℕ} (hstate : w.coord.state = .committing e) {commit : PendingCommit}
    (hcommit : w.coord.pendingCommit = some commit) (a : CheckpointAckRequest)
    (ha : a ∈ w.accepted) :
    Kept commit.metadata.sourceOffsets commit.metadata.sinkTransactions a := by
  subst hrun
  have hinv := hfine.invariant (I := Inv) (fun _ _ hev hinv => hinv.receive hev) ⟨nofun, nofun⟩
  exact hinv.commit e commit hstate hcommit a ha

/-- The ack of a task that reads the partition `p` and has prepared the file `f`. -/
def reader : CheckpointAckRequest :=
  ⟨['j'], ['o'], ['r'], 1, 1, [⟨['p'], 7, []⟩], none, [⟨['s'], 1, ['f'], false⟩]⟩

/-- What the barrier transport makes of an ack of a task. -/
def byBarrier (task : Text) : CheckpointAckRequest := barrierAckToCheckpointAck ['j'] 1 1 ['o'] task none

/-- A job of two tasks at its first epoch. -/
def twoTasks : Acks := ⟨(CheckpointCoordinator.new ['j'] ['c'] 1000 2).started 0, []⟩

/-- The reader is acknowledged twice by the call, and the other task by the barrier. -/
theorem reader_kept :
    ∃ commit, (Runs.run receive twoTasks [(reader, 0), (reader, 0), (byBarrier ['t'], 0)]).coord.pendingCommit =
      some commit ∧ Kept commit.metadata.sourceOffsets commit.metadata.sinkTransactions reader := by
  have hfine : Runs.Along receive Fine twoTasks [(reader, 0), (reader, 0), (byBarrier ['t'], 0)] := by
    refine ⟨nofun, fun e t before _ _ h => ?_, nofun, trivial⟩
    cases h
    exact .refl reader
  refine ⟨_, rfl, acked_positions_kept hfine rfl rfl rfl reader ?_⟩
  decide +kernel

/-- The reader is acknowledged by the call and then by the barrier. -/
theorem reader_lost :
    let w := Runs.run receive twoTasks [(reader, 0), (byBarrier ['r'], 0), (byBarrier ['t'], 0)]
    reader ∈ w.accepted ∧ w.coord.state = .committing 1 ∧ w.coord.pendingCommit.map (fun commit =>
      (commit.metadata.sourceOffsets, commit.metadata.sinkTransactions)) = some ([], []) := by
  decide +kernel

end Acks

end Krishiv.Scheduler
