import Krishiv.Lib.Runs
import Krishiv.Scheduler.SinkInvariant

/-!
# Runs of a job with a two-phase sink

`Inv` puts the point, the files, the logs and the acknowledgements together with what the coordinator
knows of them. Each event keeps it under a condition on the state the event meets (`Fine`): a restore
must reach an executor that has its participant, with a disk that works, and with a directive that lists
the staged files its log has lost. The rest of `Fine` keeps the coordinator from sealing an epoch that
not all executors are part of, and from going back behind the latest epoch.
-/

namespace Krishiv.Scheduler.Sink

open Krishiv.Connectors List AList Coordinator Function EpochTransactionLog

variable {X : Type}

/-! ## The checkpoint store -/

/-- The newest epoch comes first. -/
abbrev Descending (storage : List (CheckpointMetadata X)) : Prop :=
  storage.Pairwise fun a b => b.epoch < a.epoch

variable {storage : List (CheckpointMetadata X)} {m : CheckpointMetadata X}

lemma latest_eq_head? {storage : List (CheckpointMetadata X)} (hs : Descending storage) :
    latest storage = storage.head? := by
  cases storage with
  | nil => rfl
  | cons m ms =>
    obtain ⟨hm, hs⟩ := pairwise_cons.mp hs
    rw [latest, latest_eq_head? hs]
    cases ms with
    | nil => rfl
    | cons newest ms => simp [hm newest]

section

variable (hs : Descending storage) (hm : latest storage = some m)

include hs hm

lemma latest_epoch_le {m' : CheckpointMetadata X} (hm' : m' ∈ storage) : m'.epoch ≤ m.epoch := by
  rw [latest_eq_head? hs] at hm
  cases storage with
  | nil => cases hm
  | cons newest ms =>
    cases hm
    rcases mem_cons.mp hm' with rfl | hin
    · exact le_rfl
    · exact (rel_of_pairwise_cons hs hin).le

lemma find?_latest : storage.find? (fun m' => decide (m'.epoch = m.epoch)) = some m := by
  rw [latest_eq_head? hs] at hm
  cases storage with
  | nil => cases hm
  | cons newest ms =>
    cases hm
    simp

end

lemma point_of_latest (hm : latest storage = some m) : point storage = m.point := by
  rw [point, hm]
  rfl

/-- An epoch after the point can be added to the store. -/
lemma descending_cons (hs : Descending storage) (hlt : (point storage).epoch < m.epoch) :
    Descending (m :: storage) := by
  refine pairwise_cons.mpr ⟨fun m' hm' => ?_, hs⟩
  cases hnew : latest storage with
  | none =>
    rw [latest_eq_head? hs, head?_eq_none_iff] at hnew
    rw [hnew] at hm'
    cases hm'
  | some newest =>
    rw [point_of_latest hnew] at hlt
    exact (latest_epoch_le hs hnew hm').trans_lt hlt

/-! ## The references of an epoch -/

lemma collectSinkTransactions_concat (refs : List SinkTransactionRef) (tx : SinkTransactionRef) :
    collectSinkTransactions (refs ++ [tx]) = (collectSinkTransactions refs).insert tx.preparePath
        (match (collectSinkTransactions refs).lookup tx.preparePath with
          | some entry => { entry with committed := entry.committed || tx.committed }
          | none => tx) := by
  rw [collectSinkTransactions, foldl_append]
  rfl

variable {h : ParquetCommitHandle} {refs : List SinkTransactionRef}

lemma mem_collectSinkTransactions :
    h ∈ collectSinkTransactions refs ↔ h ∈ refs.map SinkTransactionRef.preparePath := by
  induction refs using List.reverseRecOn with
  | nil => simp [collectSinkTransactions]
  | append_singleton refs tx ih =>
    rw [collectSinkTransactions_concat, mem_insert, ih, map_append, mem_append]
    simp [or_comm]

variable {r : SinkTransactionRef}

/-- Each entry stands for a reference. -/
lemma lookup_collectSinkTransactions (hr : (collectSinkTransactions refs).lookup h = some r) :
    r.preparePath = h ∧ ∃ r' ∈ refs, r'.epoch = r.epoch := by
  induction refs using List.reverseRecOn generalizing r with
  | nil => simp [collectSinkTransactions] at hr
  | append_singleton refs tx ih =>
    rw [collectSinkTransactions_concat] at hr
    by_cases heq : h = tx.preparePath
    · subst heq
      rw [lookup_insert] at hr
      split at hr
      · next entry hentry =>
        cases hr
        obtain ⟨hpath, r', hr', hepoch⟩ := ih hentry
        exact ⟨hpath, r', mem_append_left _ hr', hepoch⟩
      · cases hr
        exact ⟨rfl, tx, by simp, rfl⟩
    · rw [lookup_insert_ne heq] at hr
      obtain ⟨hpath, r', hr', hepoch⟩ := ih hr
      exact ⟨hpath, r', mem_append_left _ hr', hepoch⟩

variable {c : Coordinator X}

section Extract

variable [DecidableEq X] {epoch : ℕ}

lemma mem_ackTransactions : r ∈ (c.pendingAcks.entries.map fun e => e.2.sinkTransactions).flatten ↔
      ∃ i ack, c.pendingAcks.lookup i = some ack ∧ r ∈ ack.sinkTransactions := by
  simp only [mem_flatten, mem_map]
  constructor
  · rintro ⟨_, ⟨⟨i, ack⟩, he, rfl⟩, hr⟩
    exact ⟨i, ack, mem_lookup_iff.mpr he, hr⟩
  · rintro ⟨i, ack, hlook, hr⟩
    exact ⟨_, ⟨⟨i, ack⟩, mem_lookup_iff.mp hlook, rfl⟩, hr⟩

lemma extractCommitData_epoch_le {bound : ℕ}
    (h : ∀ i ack, c.pendingAcks.lookup i = some ack → ∀ r ∈ ack.sinkTransactions, r.epoch ≤ bound)
    (hr : r ∈ (c.extractCommitData epoch).sinkTransactions) : r.epoch ≤ bound := by
  obtain ⟨⟨path, _⟩, he, rfl⟩ := mem_map.mp hr
  obtain ⟨-, r', hr', hepoch⟩ := lookup_collectSinkTransactions (mem_lookup_iff.mpr he)
  obtain ⟨i, ack, hlook, hmem⟩ := mem_ackTransactions.mp hr'
  exact hepoch ▸ h i ack hlook r' hmem

lemma mem_extractCommitData_refs : h ∈ (c.extractCommitData epoch).point.refs ↔
      ∃ i ack, c.pendingAcks.lookup i = some ack ∧ h ∈ ackPaths ack := by
  have hkeys : (c.extractCommitData epoch).point.refs = (collectSinkTransactions
      (c.pendingAcks.entries.map fun e => e.2.sinkTransactions).flatten).keys := by
    simp only [CheckpointMetadata.point, extractCommitData, map_map, AList.keys, List.keys]
    refine map_congr_left fun e he => ?_
    exact (lookup_collectSinkTransactions (mem_lookup_iff.mpr he)).1
  rw [hkeys, ← AList.mem_keys, mem_collectSinkTransactions, mem_map]
  constructor
  · rintro ⟨r, hr, rfl⟩
    obtain ⟨i, ack, hlook, hmem⟩ := mem_ackTransactions.mp hr
    exact ⟨i, ack, hlook, mem_map_of_mem hmem⟩
  · rintro ⟨i, ack, hlook, hmem⟩
    obtain ⟨r, hr, rfl⟩ := mem_map.mp hmem
    exact ⟨r, mem_ackTransactions.mpr ⟨i, ack, hlook, hr⟩, rfl⟩

end Extract

/-! ## The coordinator -/

section Control

variable [DecidableEq X] [Fintype X]

/-- Acknowledgements are being collected or written. -/
def InFlight (c : Coordinator X) : Prop :=
  (∃ e, c.state = .awaitingAcks e) ∨ ∃ m, c.pendingCommit = some m

/-- What the coordinator alone keeps. -/
structure Control (c : Coordinator X) : Prop where
  descending : Descending c.storage
  listed : ∀ m, latest c.storage = some m → ∀ r ∈ m.sinkTransactions, r.epoch ≤ m.epoch
  current : (point c.storage).epoch ≤ c.currentEpoch
  running : InFlight c → ∀ i, c.running i = true
  awaiting : ∀ e, c.state = .awaitingAcks e → e = c.currentEpoch ∧ (point c.storage).epoch < e ∧
    c.expectedTaskCount = Fintype.card X ∧ c.pendingCommit = none ∧
    ∀ i ∈ c.pendingAcks, c.notifySent i = true
  writing : ∀ m, c.pendingCommit = some m → c.state = .committing m.epoch ∧
    m = c.extractCommitData c.currentEpoch ∧ (point c.storage).epoch < c.currentEpoch ∧
    ∀ i, i ∈ c.pendingAcks
  committed : ∀ e, c.state = .committed e → ∃ m, latest c.storage = some m ∧ m.epoch = e
  directed : ∀ i, c.restorePending i = true → ∃ d m, c.directive = some d ∧
    latest c.storage = some m ∧ d.epoch = m.epoch ∧ d.sinkAbort = [] ∧ d.sinkCommit ⊆ m.point.refs

lemma Control.not_inFlight (hc : Control c) {e : ℕ}
    (h : c.state = .committed e ∨ c.state = .failed e) : ¬ InFlight c := by
  rintro (⟨e', he'⟩ | ⟨m, hm⟩)
  · rw [he'] at h
    simp at h
  · rw [(hc.writing m hm).1] at h
    simp at h

/-- What the executor has acknowledged, if it has. -/
def Acked (c : Coordinator X) (dir : Dir (Batch X)) (i : X) (x : Executor X) : Prop :=
  ∀ ack, c.pendingAcks.lookup i = some ack → c.restorePending i = false ∧
    AckOk (point c.storage) dir c.currentEpoch i x.log ack

structure Inv (w : World X) : Prop where
  control : Control w.coord
  files : Files (point w.coord.storage) w.dir
  executors : ∀ i, ExecutorOk (point w.coord.storage) w.dir w.coord.currentEpoch
    (w.coord.restorePending i) i (w.executors i)
  acks : InFlight w.coord → ∀ i, Acked w.coord w.dir i (w.executors i)
  restored : ∀ i e, w.restored i = some e → e ≤ (point w.coord.storage).epoch ∧
    (e = (point w.coord.storage).epoch → Cleared (point w.coord.storage) w.dir i)

end Control

/-! ## Events of an executor -/

section Steps

variable [DecidableEq X] [Fintype X] {w : World X} {i : X}

section

variable (hw : Inv w)

include hw

lemma Inv.setExecutor {x : Executor X}
    (hx : ExecutorOk (point w.coord.storage) w.dir w.coord.currentEpoch (w.coord.restorePending i) i x)
    (hack : InFlight w.coord → Acked w.coord w.dir i x) : Inv (w.setExecutor i x) where
  __ := hw
  executors := (forall_update_iff _ _).mpr ⟨hx, fun j _ => hw.executors j⟩
  acks hfly := (forall_update_iff _ (Acked w.coord w.dir)).mpr ⟨hack hfly, fun j _ => hw.acks hfly j⟩

lemma Inv.stage (i : X) : Inv (w.stage i) := by
  unfold World.stage
  split
  · exact hw
  next log hlog =>
  have hi := (hw.executors i).log log hlog
  refine hw.setExecutor ⟨?_, nofun⟩ fun hfly ack hack => ?_
  · rintro _ ⟨⟩
    exact hi.stage
  -- what is open is no part of an acknowledgement
  obtain ⟨hp, ha⟩ := hw.acks hfly i ack hack
  refine ⟨hp, { ha with log := ?_ }⟩
  rintro _ ⟨⟩
  exact ha.log log hlog

lemma Inv.crash (i : X) : Inv (w.crash i) := by
  refine hw.setExecutor ⟨nofun, fun _ => rfl⟩ fun hfly ack hack => ?_
  obtain ⟨hp, ha⟩ := hw.acks hfly i ack hack
  exact ⟨hp, ha.crash⟩

lemma Inv.rejoin (i : X) : Inv (w.rejoin i) :=
  hw.setExecutor ⟨(hw.executors i).log, (hw.executors i).bare⟩ fun hfly => hw.acks hfly i

/-- A task that starts reads from the origin while nothing is committed; later it waits for a restore. -/
lemma Inv.launch (hfine : w.coord.storage = [] ∨ w.coord.restorePending i = true) : Inv (w.launch i) := by
  unfold World.launch
  split
  · next hcond =>
    have hstopped : w.coord.running i = false := by simp_all
    have hidle : ¬ InFlight w.coord := fun hfly => by
      rw [hw.control.running hfly i] at hstopped
      cases hstopped
    have hrun : Inv { w with coord := { w.coord with running := update w.coord.running i true } } :=
      { hw with control := { hw.control with running := fun hfly => absurd hfly hidle } }
    refine hrun.setExecutor ⟨?_, nofun⟩ fun hfly => absurd hfly hidle
    rintro log ⟨⟩
    cases hlog : (w.executors i).log with
    | some log => exact (hw.executors i).log log hlog
    | none =>
      rcases hfine with hempty | hpending
      · have hfresh := @LogOk.fresh X (point w.coord.storage) w.dir .new w.coord.currentEpoch
          (w.coord.restorePending i) i rfl rfl (by rw [hempty]; nofun)
        rw [show (point w.coord.storage).offsets i = (w.executors i).next by
          rw [hempty, (hw.executors i).bare hlog]; rfl] at hfresh
        exact hfresh
      · exact LogOk.new_waiting hpending
  · exact hw

variable {dir : Dir (Batch X)}

/-- Publishing files of the point from the log of an executor. -/
lemma Inv.publish {hs : List ParquetCommitHandle} {x : Executor X}
    (hidle : ¬ InFlight w.coord) (hch : Changes Publishes hs w.dir dir) (hsub : hs ⊆ (point w.coord.storage).refs)
    (hx : ExecutorOk (point w.coord.storage) dir w.coord.currentEpoch (w.coord.restorePending i) i x) :
    Inv ({ w with dir := dir }.setExecutor i x) := by
  refine ⟨hw.control, hw.files.publish hch hsub, ?_, fun hfly => absurd hfly hidle, fun j e he => ?_⟩
  · refine (forall_update_iff _ _).mpr ⟨hx, fun j _ => ?_⟩
    exact ⟨fun log hlog => ((hw.executors j).log log hlog).publish hch hsub, (hw.executors j).bare⟩
  · exact ⟨(hw.restored j e he).1, fun heq => ((hw.restored j e he).2 heq).publish hch⟩

lemma Inv.complete (i : X) (disk : Disk) : Inv (w.complete i disk) := by
  unfold World.complete
  split
  · next epoch hstate =>
    split
    · obtain ⟨m, hm, hepoch⟩ := hw.control.committed epoch hstate
      have hp : (point w.coord.storage).epoch = epoch := by
        rw [point_of_latest hm]
        exact hepoch
      have hidle := hw.control.not_inFlight (.inl hstate)
      cases hlog : (w.executors i).log with
      | none => exact { hw with }
      | some log =>
        rcases hct : log.commitThrough disk w.dir epoch with ⟨dir, log', r⟩
        obtain ⟨hch, hopen, hahead, hsub, hleft, -⟩ := commitThrough_spec hct
        rw [← hp] at hch hahead hleft
        have hl := (hw.executors i).log log hlog
        have hrefs := fun x hx => (hl.done x hx).1
        have hnext : Inv ({ w with dir := dir }.setExecutor i { w.executors i with log := some log' }) := by
          refine hw.publish hidle hch hrefs ⟨?_, nofun⟩
          rintro _ ⟨⟩
          exact hl.commitThrough (hw.files.publish hch hrefs) hch hopen hahead hsub hleft
        cases r with
        | error e =>
          dsimp only
          rw [hct]
          exact hnext
        | ok n =>
          dsimp only
          rw [hct]
          exact { hnext with }
    · exact hw
  · exact hw

/-! ## Barriers -/

variable {log : EpochTransactionLog (Batch X)}

lemma Inv.prepared {epoch : ℕ} {hs : List ParquetCommitHandle}
    (hstate : w.coord.state = .awaitingAcks epoch) (hun : i ∉ w.coord.pendingAcks) (hadd : Added hs w.dir dir)
    (hl : LogOk (point w.coord.storage) dir w.coord.currentEpoch (w.coord.restorePending i) i log (w.executors i).next) :
    Inv ({ w with
      dir := dir
      coord := { w.coord with notifySent := update w.coord.notifySent i true } }.setExecutor i
        { w.executors i with log := some log }) := by
  have hc := hw.control
  refine ⟨{ hc with awaiting := fun e he => ?_ }, hw.files.add hadd, ?_, fun hfly => ?_, fun j e he => ?_⟩
  · obtain ⟨hcur, hlt, hcount, hcommit, hsent⟩ := hc.awaiting e he
    refine ⟨hcur, hlt, hcount, hcommit, fun j hj => ?_⟩
    have hne : j ≠ i := fun heq => hun (heq ▸ hj)
    exact (update_of_ne hne _ _).trans (hsent j hj)
  · refine (forall_update_iff _ _).mpr ⟨⟨?_, nofun⟩, fun j _ => ?_⟩
    · rintro _ ⟨⟩
      exact hl
    · exact ⟨fun log hlog => ((hw.executors j).log log hlog).add hw.files hadd, (hw.executors j).bare⟩
  · refine (forall_update_iff _ (Acked w.coord dir)).mpr
      ⟨fun ack hack => absurd (lookup_isSome.mp (by rw [hack]; rfl)) hun, fun j _ ack hack => ?_⟩
    obtain ⟨hp, ha⟩ := hw.acks (.inl ⟨epoch, hstate⟩) j ack hack
    exact ⟨hp, ha.add hw.files hadd⟩
  · refine ⟨(hw.restored j e he).1, fun heq => ((hw.restored j e he).2 heq).congr fun x hx => ?_⟩
    exact Added.at_eq hadd (hw.files.refs_held hx)

end

lemma mem_of_card_le {K V : Type} [DecidableEq K] [Fintype K] {m : KVMap K V}
    (h : Fintype.card K ≤ m.keys.length) (k : K) : k ∈ m := by
  have hcard : m.keys.toFinset.card = m.keys.length := toFinset_card_of_nodup m.nodupKeys
  have huniv : m.keys.toFinset = Finset.univ := Finset.eq_univ_of_card _ (by
    have := Finset.card_le_univ m.keys.toFinset
    omega)
  rw [AList.mem_keys, ← mem_toFinset, huniv]
  exact Finset.mem_univ k

lemma Inv.receiveAck (hw : Inv w) {epoch : ℕ} (hstate : w.coord.state = .awaitingAcks epoch)
    (hlog : (w.executors i).log = some log) (hopen : log.opened = [])
    (hp : w.coord.restorePending i = false) (hsent : w.coord.notifySent i = true) :
    Inv { w with coord := w.coord.receiveAck i epoch ⟨(w.executors i).next, World.ackRefs log⟩ } := by
  have hc := hw.control
  obtain ⟨hcur, hlt, hcount, hcommit, hsents⟩ := hc.awaiting epoch hstate
  have hl := (hw.executors i).log log hlog
  rw [hp] at hl
  have hfly : InFlight w.coord := .inl ⟨epoch, hstate⟩
  generalize hack : (⟨(w.executors i).next, World.ackRefs log⟩ : CheckpointAck) = ack
  have hacked : ∀ j, ∀ a, (w.coord.pendingAcks.insert i ack).lookup j = some a →
      w.coord.restorePending j = false ∧ AckOk (point w.coord.storage) w.dir w.coord.currentEpoch j
        (w.executors j).log a := by
    intro j a ha
    by_cases hji : j = i
    · subst hji
      rw [lookup_insert] at ha
      cases ha
      rw [hlog, ← hack]
      exact ⟨hp, hl.ackOk hopen⟩
    · rw [lookup_insert_ne hji] at ha
      exact hw.acks hfly j a ha
  unfold Coordinator.receiveAck
  rw [hstate]
  dsimp only
  rw [if_pos rfl]
  split
  · -- all have acknowledged
    next hquorum =>
    have hall := mem_of_card_le (hcount.symm.trans_le hquorum)
    refine { hw with
      control := { hc with running := fun _ => hc.running hfly, awaiting := nofun, writing := ?_, committed := nofun }
      acks := fun _ => hacked }
    rintro _ ⟨⟩
    exact ⟨rfl, by rw [hcur]; rfl, hcur ▸ hlt, hall⟩
  · refine { hw with
      control := { hc with
        running := fun _ => hc.running hfly, awaiting := fun e he => ?_, writing := fun m hm => ?_, committed := nofun }
      acks := fun _ => hacked }
    · cases he
      refine ⟨hcur, hlt, hcount, hcommit, fun j hj => ?_⟩
      rcases (mem_insert _).mp hj with rfl | hj
      · exact hsent
      · exact hsents j hj
    · rw [hcommit] at hm
      cases hm

lemma Inv.barrier (hw : Inv w) {i : X} (hp : w.coord.restorePending i = false) (disk : Disk) (delivered : Bool) :
    Inv (w.barrier i disk delivered) := by
  unfold World.barrier
  split
  · next epoch log hstate hlog =>
    split
    · next hcond =>
      obtain ⟨hcur, hlt, -, -, hsent⟩ := hw.control.awaiting epoch hstate
      have hun : i ∉ w.coord.pendingAcks := fun hmem => by simp_all
      have hl := (hw.executors i).log log hlog
      dsimp only
      rcases hpc : log.preCommit disk w.dir epoch with ⟨dir, log', r⟩
      rcases preCommit_spec hpc with
        ⟨e, hs, rfl, hadd, hopen, hprep⟩ | ⟨hs, rfl, hadd, hstaged, -, hopen, hprep⟩
      · -- the batches stay open
        refine hw.prepared hstate hun hadd ?_
        have hl' := hl.add hw.files hadd
        exact ⟨by simpa [doneHandles, hprep] using hl'.done, by simpa [aheadHandles, hprep] using hl'.ahead,
          by simpa [hprep] using hl'.bound, hl'.le, by simpa [aheadHandles, hprep, hopen] using hl'.order,
          by simpa [doneHandles, hprep] using hl'.settled⟩
      have hl' : LogOk (point w.coord.storage) dir w.coord.currentEpoch (w.coord.restorePending i) i
          log' (w.executors i).next := by
        rw [hp] at hl ⊢
        exact hl.preCommit hw.files hadd hstaged hopen hprep hlt hcur.le
      have hnext := hw.prepared hstate hun hadd hl'
      dsimp only
      split
      · exact hnext.receiveAck hstate (by simp [World.setExecutor]) hopen hp (by simp [World.setExecutor])
      · exact hnext
    · exact hw
  · exact hw

/-! ## Events of the coordinator -/

/-- The coordinator turns to another state, with the same store and without acknowledgements. -/
lemma Inv.turn (hw : Inv w) (hc : Control c) (hstorage : c.storage = w.coord.storage)
    (hacks : InFlight c → c.pendingAcks = ∅)
    (hpending : ∀ i, c.restorePending i = false → w.coord.restorePending i = false ∧
      w.coord.currentEpoch ≤ c.currentEpoch) : Inv { w with coord := c } := by
  refine ⟨hc, ?_, fun i => ?_, fun hfly i ack hack => ?_, fun i e he => ?_⟩
  · exact hstorage ▸ hw.files
  · dsimp only
    rw [hstorage]
    exact (hw.executors i).mono (hpending i)
  · dsimp only at hack hfly
    rw [hacks hfly, lookup_empty] at hack
    cases hack
  · dsimp only
    rw [hstorage]
    exact hw.restored i e he

lemma Inv.initiate (hw : Inv w) (hrun : ∀ i, w.coord.running i = true) :
    Inv { w with coord := w.coord.initiate } := by
  have hc := hw.control
  have hcard : (Finset.univ.filter fun i => w.coord.running i = true).card = Fintype.card X := by
    rw [Finset.filter_true_of_mem fun i _ => hrun i]
    rfl
  have hstart (hstate : ∀ e, w.coord.state ≠ .committing e) : Inv { w with coord :=
      { w.coord with
        currentEpoch := w.coord.currentEpoch + 1
        state := .awaitingAcks (w.coord.currentEpoch + 1)
        expectedTaskCount := (Finset.univ.filter fun i => w.coord.running i = true).card
        pendingAcks := ∅
        notifySent := fun _ => false } } := by
    have hnone : w.coord.pendingCommit = none := by
      cases hm : w.coord.pendingCommit with
      | none => rfl
      | some m => exact absurd (hc.writing m hm).1 (hstate m.epoch)
    have hcur := hc.current
    refine hw.turn ⟨hc.descending, hc.listed, Nat.le_succ_of_le hcur, fun _ => hrun, ?_, ?_, nofun,
      hc.directed⟩ rfl (fun _ => rfl) fun i hp => ⟨hp, Nat.le_succ _⟩
    · rintro _ ⟨⟩
      exact ⟨rfl, Nat.lt_succ_of_le hcur, hcard, hnone, nofun⟩
    · intro m hm
      cases hnone.symm.trans hm
  unfold Coordinator.initiate
  cases hstate : w.coord.state with
  | awaitingAcks e | committing e => exact hw
  | idle | committed e | failed e =>
    dsimp only
    split
    · exact hw
    · exact hstart (by rw [hstate]; nofun)

/-- The epoch is given up, and the executors go on. -/
lemma Control.abort (hc : Control c) (e : ℕ) :
    Control { c with pendingCommit := none, pendingAcks := ∅, state := .failed e } := by
  refine ⟨hc.descending, hc.listed, hc.current, ?_, nofun, nofun, nofun, hc.directed⟩
  rintro (⟨_, ⟨⟩⟩ | ⟨_, ⟨⟩⟩)

lemma Control.abortAwaiting (hc : Control c) : Control c.abortAwaiting := by
  unfold Coordinator.abortAwaiting
  split
  · next e hstate =>
    obtain ⟨-, -, -, hnone, -⟩ := hc.awaiting e hstate
    have h := hc.abort e
    rw [← hnone] at h
    exact h
  · exact hc

section

variable (hw : Inv w)

include hw

lemma Inv.timeOut : Inv { w with coord := w.coord.abortAwaiting } := by
  have hc := hw.control.abortAwaiting
  unfold abortAwaiting at hc ⊢
  split
  · next e hstate =>
    rw [hstate] at hc
    exact hw.turn hc rfl (fun _ => rfl) fun i hp => ⟨hp, le_rfl⟩
  · exact hw

/-- The metadata of an epoch is written: the point moves on. -/
lemma Inv.seal (hm : w.coord.pendingCommit = some m) : Inv { w with coord := { w.coord with
      storage := m :: w.coord.storage, pendingCommit := none, state := .committed m.epoch } } := by
  have hc := hw.control
  have hfly : InFlight w.coord := .inr ⟨m, hm⟩
  obtain ⟨-, hextract, hlt, hall⟩ := hc.writing m hm
  have hepoch : m.epoch = w.coord.currentEpoch := by
    rw [hextract]
    rfl
  choose acks hlook using fun i => Option.isSome_iff_exists.mp (lookup_isSome.mpr (hall i))
  have hacks := fun i => hw.acks hfly i (acks i) (hlook i)
  have hdesc : Descending (m :: w.coord.storage) := descending_cons hc.descending (hepoch ▸ hlt)
  have hlatest : latest (m :: w.coord.storage) = some m := latest_eq_head? hdesc
  have hpoint := point_of_latest hlatest
  have hoff : ∀ i, m.point.offsets i = (acks i).offset := by
    intro i
    rw [hextract]
    simp [CheckpointMetadata.point, extractCommitData, hlook]
  have hrefs : ∀ h, h ∈ m.point.refs ↔ ∃ i, h ∈ ackPaths (acks i) := by
    intro h
    rw [hextract, mem_extractCommitData_refs]
    refine exists_congr fun i => ?_
    simp [hlook]
  refine ⟨⟨hdesc, fun m' hm' r hr => ?_, ?_, ?_, nofun, nofun, ?_, fun i hp => ?_⟩, ?_, fun i => ?_, ?_,
    fun i e he => ?_⟩
  · -- the references of the new epoch are not newer than it
    cases hlatest.symm.trans hm'
    rw [hepoch]
    rw [hextract] at hr
    refine extractCommitData_epoch_le (fun i ack hack => ?_) hr
    exact (hw.acks hfly i ack hack).2.bound
  · exact (congrArg Point.epoch hpoint).trans_le hepoch.le
  · rintro (⟨_, ⟨⟩⟩ | ⟨_, ⟨⟩⟩)
  · rintro e ⟨⟩
    exact ⟨m, hlatest, rfl⟩
  · cases (hacks i).1.symm.trans hp
  · dsimp only
    rw [hpoint]
    exact hw.files.seal (fun i => (hacks i).2) hoff hrefs
  · have hx : ExecutorOk m.point w.dir w.coord.currentEpoch false i (w.executors i) := by
      refine ⟨fun log hlog => ?_, (hw.executors i).bare⟩
      have hl := (hw.executors i).log log hlog
      rw [(hacks i).1] at hl
      exact hl.seal (fun i => (hacks i).2) hoff hrefs hlog hepoch
    rw [hpoint]
    exact hx.mono fun _ => ⟨rfl, le_rfl⟩
  · rintro (⟨_, ⟨⟩⟩ | ⟨_, ⟨⟩⟩)
  · dsimp only
    rw [hpoint]
    have hle := (hw.restored i e he).1
    have hp : m.point.epoch = m.epoch := rfl
    refine ⟨?_, fun heq => ?_⟩ <;> omega

lemma Inv.endWrite (written : Bool) : Inv { w with coord := w.coord.endWrite written } := by
  unfold Coordinator.endWrite
  split
  · exact hw
  next m hm =>
  split
  · exact hw.seal hm
  · exact hw.turn (hw.control.abort m.epoch) rfl (fun _ => rfl) fun i hp => ⟨hp, le_rfl⟩

/-- The executors are sent back to the latest epoch. -/
lemma Inv.direct {d : RestoreDirective} (hm : latest w.coord.storage = some m)
    (hd : d.epoch = m.epoch) (habort : d.sinkAbort = []) (hcommit : d.sinkCommit ⊆ m.point.refs)
    (hstorage : c.storage = w.coord.storage) (hidle : ¬ InFlight c) (hcurrent : m.epoch ≤ c.currentEpoch)
    (hstate : ∀ e, c.state = .committed e → e = m.epoch) (hdir : c.directive = some d)
    (hsent : ∀ i, c.restoreNotifySent i = false) : Inv { w with coord := c } := by
  have hc := hw.control
  have hpending : ∀ i, c.restorePending i = true := by
    intro i
    rw [restorePending, hdir, hsent]
    rfl
  have hm' : latest c.storage = some m := hstorage ▸ hm
  refine hw.turn ⟨hstorage ▸ hc.descending, hstorage ▸ hc.listed, ?_, fun hfly => absurd hfly hidle,
    fun e he => absurd (.inl ⟨e, he⟩) hidle, fun m hm => absurd (.inr ⟨m, hm⟩) hidle,
    fun e he => ⟨m, hm', (hstate e he).symm⟩, fun _ _ => ⟨d, m, hdir, hm', hd, habort, hcommit⟩⟩
    hstorage (fun hfly => absurd hfly hidle) fun i hp => ?_
  · rw [point_of_latest hm']
    exact hcurrent
  · rw [hpending i] at hp
    cases hp

lemma Inv.loss (i : X) (hnone : w.coord.pendingCommit = none) :
    Inv { w with coord := w.coord.handleExecutorLoss i } := by
  obtain ⟨hstorage, hcurrent, hpending⟩ : w.coord.abortAwaiting.storage = w.coord.storage ∧
      w.coord.abortAwaiting.currentEpoch = w.coord.currentEpoch ∧
      ∀ j, w.coord.abortAwaiting.restorePending j = w.coord.restorePending j := by
    unfold abortAwaiting
    split <;> exact ⟨rfl, rfl, fun _ => rfl⟩
  have hidle : ¬ InFlight w.coord.abortAwaiting := by
    unfold abortAwaiting InFlight
    cases hstate : w.coord.state <;> simp [hstate, hnone]
  unfold handleExecutorLoss
  split
  · dsimp only
    rw [hstorage]
    cases hm : latest w.coord.storage with
    | some m =>
      refine hw.direct hm rfl rfl (nil_subset _) hstorage hidle ?_ (fun e he => ?_) rfl fun _ => rfl
      · have hcur := hw.control.current
        rw [point_of_latest hm] at hcur
        exact hcur.trans hcurrent.ge
      obtain ⟨m', hm', hepoch⟩ := hw.control.abortAwaiting.committed e he
      rw [hstorage, hm] at hm'
      cases hm'
      exact hepoch.symm
    | none =>
      have hc := hw.control.abortAwaiting
      exact hw.turn { hc with running := fun hfly => absurd hfly hidle } hstorage
        (fun hfly => absurd hfly hidle) fun j hp => ⟨(hpending j).symm.trans hp, hcurrent.ge⟩
  · exact hw

lemma Inv.activate (hm : latest w.coord.storage = some m) :
    Inv { w with coord := w.coord.activateRestore m.epoch } := by
  have hc := hw.control
  have hstart : Inv { w with coord := { w.coord with
      storage := w.coord.storage.filter fun m' => m'.epoch ≤ m.epoch
      currentEpoch := m.epoch
      pendingAcks := ∅
      pendingCommit := none
      state := .committed m.epoch
      notifySent := fun _ => false
      directive := some ⟨m.epoch,
        (planSinkTransactionRecovery m.sinkTransactions m.epoch).commit.map SinkTransactionRef.preparePath,
        (planSinkTransactionRecovery m.sinkTransactions m.epoch).abort.map SinkTransactionRef.preparePath⟩
      restoreNotifySent := fun _ => false } } := by
    refine hw.direct hm rfl ?_ ?_ ?_ ?_ le_rfl ?_ rfl fun _ => rfl
    · -- an epoch lists nothing newer than itself
      rw [map_eq_nil_iff, planSinkTransactionRecovery, filter_eq_nil_iff]
      intro r hr
      simpa using hc.listed m hm r hr
    · exact map_subset _ filter_sublist.subset
    · exact filter_eq_self.mpr fun m' hm' => decide_eq_true (latest_epoch_le hc.descending hm hm')
    · rintro (⟨_, ⟨⟩⟩ | ⟨_, ⟨⟩⟩)
    · rintro e ⟨⟩
      rfl
  unfold activateRestore
  cases hstate : w.coord.state with
  | awaitingAcks e | committing e => exact hw
  | idle | committed e | failed e =>
    rw [find?_latest hc.descending hm]
    exact hstart

/-! ## Restores -/

/-- The restore finds all it needs: a disk that works, the participant, and in its log or in the
directive every staged file of the executor that the latest epoch lists. -/
def Recoverable (w : World X) (i : X) (disk : Disk) : Prop :=
  (∀ h, disk h = true) ∧ ∃ log, (w.executors i).log = some log ∧
    ∀ d m, w.coord.directive = some d → latest w.coord.storage = some m →
      ∀ h ∈ m.point.refs, ∀ k, (w.dir.at h).1 = some ⟨i, k⟩ → h ∈ log.prepared.handles ∨ h ∈ d.sinkCommit

/-- The executor stands at the point again. -/
lemma Inv.restoredTo {epoch : ℕ} (hm : latest w.coord.storage = some m)
    (hepoch : epoch = m.epoch) (hpend : w.coord.restorePending i = true)
    (hkeep : Keeps (point w.coord.storage) i w.dir dir) (hclear : Cleared (point w.coord.storage) dir i)
    (hopen : log.opened = []) (hprep : log.prepared = []) : Inv ({ w with
      dir := dir
      coord := { w.coord with
        restoreNotifySent := update w.coord.restoreNotifySent i true }
      restored := update w.restored i (some epoch)
      completed := update w.completed i none }.setExecutor i
        { w.executors i with log := some log, next := m.sourceOffsets i }) := by
  have hc := hw.control
  have hpoint := point_of_latest hm
  have hother : ∀ j ≠ i, ({ w.coord with restoreNotifySent := update w.coord.restoreNotifySent i true } :
        Coordinator X).restorePending j = w.coord.restorePending j := by
    intro j hj
    simp [restorePending, update_of_ne hj]
  refine ⟨{ hc with directed := fun _ _ => hc.directed i hpend }, hkeep.files, ?_, fun hfly => ?_, ?_⟩
  · refine (forall_update_iff _ _).mpr ⟨⟨?_, nofun⟩, fun j hj => ⟨fun log hlog => ?_, ?_⟩⟩
    · rintro _ ⟨⟩
      have hfresh := @LogOk.fresh X (point w.coord.storage) dir log w.coord.currentEpoch
        (({ w.coord with restoreNotifySent := update w.coord.restoreNotifySent i true } :
          Coordinator X).restorePending i) i hopen hprep hclear
      rw [show (point w.coord.storage).offsets i = m.sourceOffsets i by rw [hpoint]; rfl] at hfresh
      exact hfresh
    · have hl := hkeep.log j hj _ _ _ _ ((hw.executors j).log log hlog)
      rw [← hother j hj] at hl
      exact hl
    · exact (hw.executors j).bare
  · refine (forall_update_iff _ (Acked { w.coord with
      restoreNotifySent := update w.coord.restoreNotifySent i true } dir)).mpr
      ⟨fun ack hack => ?_, fun j hj ack hack => ?_⟩
    · -- an executor with a restore ahead has acknowledged nothing
      cases hpend.symm.trans (hw.acks hfly i ack hack).1
    · obtain ⟨hp, ha⟩ := hw.acks hfly j ack hack
      exact ⟨(hother j hj).trans hp, hkeep.ack j hj _ _ _ ha⟩
  · refine (forall_update_iff _ fun j r => ∀ e, r = some e → e ≤ (point w.coord.storage).epoch ∧
        (e = (point w.coord.storage).epoch → Cleared (point w.coord.storage) dir j)).mpr ⟨?_, ?_⟩
    · rintro e ⟨⟩
      rw [hpoint] at hclear ⊢
      exact ⟨hepoch.le, fun _ => hclear⟩
    · intro j hj e he
      exact ⟨(hw.restored j e he).1, fun heq => hkeep.cleared j ((hw.restored j e he).2 heq)⟩

lemma Inv.restore {disk : Disk} (hfine : (w.executors i).alive = true → w.coord.restorePending i = true →
      Recoverable w i disk) : Inv (w.restore i disk) := by
  unfold World.restore
  split
  · exact hw
  next d hdir =>
  split
  · next hcond =>
    obtain ⟨halive, hpend⟩ := Bool.and_eq_true_iff.mp hcond
    obtain ⟨hdisk, log, hlog, hlisted⟩ := hfine halive hpend
    obtain ⟨_, m, hdir', hm, hepoch, habort, hcommit⟩ := hw.control.directed i hpend
    cases hdir.symm.trans hdir'
    have hlisted := hlisted d m hdir hm
    have hl := (hw.executors i).log log hlog
    have hf := hw.files
    have hpoint := point_of_latest hm
    have hp : (point w.coord.storage).epoch = d.epoch := by rw [hpoint, hepoch]; rfl
    rw [← hpoint] at hcommit hlisted
    -- the two halves of the restore, and the directive
    obtain ⟨dir₁, dir₂, log', n, hto, hopen, hprep, hpub, hdone, hdrop⟩ :=
      @restoreTo_ok _ disk w.dir log d.epoch hdisk fun x hx =>
        hf.present (hl.done x (hp ▸ hx)).1
    rw [← hp] at hpub hdone hdrop
    have hrefs := fun x hx => (hl.done x hx).1
    have hkeep₁ : Keeps (point w.coord.storage) i w.dir dir₁ := .publish hf hpub hrefs
    have hkeep₂ := hkeep₁.trans (.drop hkeep₁.files (hl.publish hpub hrefs) hdrop)
    obtain ⟨dir₃, n', hrec, hpub', hfinal⟩ :=
      @recoverPreparedRefs_ok _ disk dir₂ log' hdisk d.sinkCommit fun x hx =>
        hkeep₂.files.present (hcommit hx)
    have hkeep := hkeep₂.trans (.publish hkeep₂.files hpub' hcommit)
    have hclear := restore_cleared hl hkeep₁.files hkeep.files hpub hdone hdrop hpub' hfinal hlisted
    rw [← habort] at hrec
    have hfind : w.coord.storage.find? (fun m' => decide (m'.epoch = d.epoch)) = some m := by
      rw [hepoch]
      exact find?_latest hw.control.descending hm
    simp only [hfind, World.restoreJob, hlog, hto, hrec]
    exact hw.restoredTo hm hepoch hpend hkeep hclear hopen hprep
  · exact hw

end

/-! ## Runs -/

/-- The condition on an event, in the world it meets. -/
def Fine (w : World X) : Event X → Prop
  | .initiate => ∀ i, w.coord.running i = true
  | .barrier i _ _ => w.coord.restorePending i = false
  | .launch i => w.coord.storage = [] ∨ w.coord.restorePending i = true
  | .loss _ => w.coord.pendingCommit = none
  | .activate epoch => (latest w.coord.storage).map CheckpointMetadata.epoch = some epoch
  | .restore i disk => (w.executors i).alive = true → w.coord.restorePending i = true → Recoverable w i disk
  | _ => True

/-- The worlds reached by events that are all fine. -/
def FineRun : World X → Prop := Runs.Reached World.act Fine .new

lemma Inv.new : Inv (World.new : World X) := by
  refine ⟨⟨.nil, nofun, le_rfl, ?_, nofun, nofun, nofun, nofun⟩, ⟨fun _ => .inl rfl, nofun, nofun, nofun⟩,
    fun i => ⟨nofun, fun _ => rfl⟩, ?_, nofun⟩
  · rintro (⟨_, ⟨⟩⟩ | ⟨_, ⟨⟩⟩)
  · rintro (⟨_, ⟨⟩⟩ | ⟨_, ⟨⟩⟩)

lemma Inv.act (hw : Inv w) {ev : Event X} (hfine : Fine w ev) : Inv (w.act ev) := by
  cases ev with
  | stage i => exact hw.stage i
  | initiate => exact hw.initiate hfine
  | barrier i disk delivered => exact hw.barrier hfine disk delivered
  | endWrite written => exact hw.endWrite written
  | timeOut => exact hw.timeOut
  | complete i disk => exact hw.complete i disk
  | crash i => exact hw.crash i
  | rejoin i => exact hw.rejoin i
  | launch i => exact hw.launch hfine
  | loss i =>
    unfold World.act
    dsimp only
    split
    · exact hw
    · exact hw.loss i hfine
  | activate epoch =>
    obtain ⟨m, hm, rfl⟩ := Option.map_eq_some_iff.mp hfine
    exact hw.activate hm
  | restore i disk => exact hw.restore hfine

lemma FineRun.inv (h : FineRun w) : Inv w :=
  Runs.Reached.invariant (I := Inv) (fun _ _ hfine hw => hw.act hfine) h .new

def World.run (w : World X) (events : List (Event X)) : World X := Runs.run World.act w events

end Steps

/-! ## Two runs of a job on one executor -/

/-- The executor crashes after the first epoch; an operator activates the restore. -/
def activatedRun : List (Event Unit) :=
  [.launch (), .stage (), .initiate, .barrier () (fun _ => true) true, .endWrite true, .crash (),
    .loss (), .activate 1, .rejoin (), .launch (), .restore () (fun _ => true),
    .complete () (fun _ => true)]

/-- The same crash, with the directive of the loss alone. -/
def lostRun : List (Event Unit) :=
  [.launch (), .stage (), .initiate, .barrier () (fun _ => true) true, .endWrite true, .crash (),
    .loss (), .rejoin (), .launch (), .restore () (fun _ => true), .complete () (fun _ => true)]

lemma activatedRun_fine : FineRun (World.new.run activatedRun) := by
  refine ⟨activatedRun, ⟨.inl rfl, trivial, fun _ => rfl, rfl, trivial, trivial, rfl, rfl, trivial,
    .inr rfl, fun _ _ => ⟨fun _ => rfl, _, rfl, fun d m hd hm h hh k _ => ?_⟩, trivial, trivial⟩, rfl⟩
  -- the directive lists what the epoch lists
  cases hd
  cases hm
  exact .inr hh

end Krishiv.Scheduler.Sink
