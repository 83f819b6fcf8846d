import Krishiv.Lib.Runs
import Krishiv.Scheduler.CheckpointCoordinator

/-!
# Acks and restores

An ack answers one initiation of an epoch, and may arrive late. The coordinator tells acks apart by epoch
and fencing token only. Restoring sets the epoch counter back, so numbers are used again, and a restore
without a new leader token keeps the old token or goes back to the one in the metadata. A late ack of an
earlier initiation is then counted for the new one (`rewoundRun_crossed`).

What separates the initiations is the pair of epoch and token. If every restore is activated under a
token that initiated no epoch newer than the restored one, the pairs never repeat, and every ack counted
towards a committed epoch answers the initiation in flight, the one made after the last restore
(`counted_answers_current`).
-/

namespace Krishiv.Scheduler

open Krishiv.State List

namespace Generations

open CheckpointCoordinator

/-- What an initiation sends to the tasks. -/
structure Initiation where
  epoch : ℕ
  token : ℕ
  deriving DecidableEq, Repr

/-- An epoch that got its quorum: the initiation in flight, the number of initiations before the last
restore, and the initiations that the counted acks answer. -/
structure Commit where
  epoch : ℕ
  opened : ℕ
  restoredAt : ℕ
  answered : List ℕ
  deriving DecidableEq, Repr

/-- All fields but the coordinator and its files are ghosts. -/
structure World (Bytes : Type) where
  coord : CheckpointCoordinator
  files : KVMap Path Bytes
  initiations : List Initiation
  /-- Every ack a task produced, with the initiation it answers. -/
  produced : List (CheckpointAckRequest × ℕ)
  /-- By task, the initiation that its pending ack answers. -/
  counted : KVMap Text ℕ
  restoredAt : ℕ
  commits : List Commit

/-- An ack is delivered by its place among the produced ones: late, out of order, more than once or
never. -/
inductive Event where
  | initiate (now : ℕ)
  | initiateSavepoint (label : Option Text) (now : ℕ)
  | tryTick (elapsed timeout now : ℕ)
  | setExpectedTaskCount (count : ℕ)
  | abortEpoch (reason : String)
  | finalizeCommit (epoch : ℕ)
  | activate (metadata : CheckpointMetadata) (activeFencingToken : Option ℕ)
  | answer (initiation : ℕ) (ack : CheckpointAckRequest)
  | receiveAck (k now : ℕ) (script : List CallOutcome)
  | receiveAckAsync (k now : ℕ)

variable {Bytes : Type} (H : Host Bytes)

namespace World

def cold (c : CheckpointCoordinator) (files : KVMap Path Bytes) : World Bytes := ⟨c, files, [], [], ∅, 0, []⟩

/-- The world with a coordinator that may have just initiated an epoch. -/
def goto (w : World Bytes) (c : CheckpointCoordinator) : World Bytes :=
  if c.currentEpoch = w.coord.currentEpoch then { w with coord := c }
  else
    { w with
      coord := c
      initiations := w.initiations ++ [⟨c.currentEpoch, c.fencingToken⟩]
      counted := ∅ }

def count (w : World Bytes) (ack : CheckpointAckRequest) (s : ℕ) : World Bytes :=
  if w.coord.records ack then { w with counted := w.counted.insert ack.taskId s } else w

/-- The commit that a coordinator in state `s` has just reached, if it has. -/
def reached (w : World Bytes) : CheckpointCoordinatorState → List Commit
  | .committing e => [⟨e, w.initiations.length - 1, w.restoredAt, w.counted.entries.map Sigma.snd⟩]
  | .committed e => [⟨e, w.initiations.length - 1, w.restoredAt, w.counted.entries.map Sigma.snd⟩]
  | _ => []

/-- The world after the delivery of an ack; a quorum that it completed is noted. -/
def settle (w : World Bytes) (c : CheckpointCoordinator) : World Bytes :=
  match w.coord.state with
  | .awaitingAcks _ _ => { w with coord := c, commits := w.commits ++ w.reached c.state }
  | _ => { w with coord := c }

def act (w : World Bytes) : Event → World Bytes
  | .initiate now => w.goto (w.coord.initiate now).2
  | .initiateSavepoint label now => w.goto (w.coord.initiateSavepoint label now).2
  | .tryTick elapsed timeout now => w.goto (w.coord.tryTick elapsed timeout now).2
  | .setExpectedTaskCount count => w.goto (w.coord.setExpectedTaskCount count)
  | .abortEpoch reason => w.goto (w.coord.abortEpoch reason)
  | .finalizeCommit epoch =>
    match w.coord.finalizeCommit epoch with
    | .ok c => w.goto c
    | .error _ => w
  | .activate metadata token =>
    match w.coord.activateRestoredEpoch metadata token with
    | .ok c => { w with coord := c, restoredAt := w.initiations.length }
    | .error _ => w
  | .answer s ack =>
    if w.initiations[s]? = some ⟨ack.epoch, ack.fencingToken⟩ then
      { w with produced := w.produced ++ [(ack, s)] }
    else w
  | .receiveAck k now script =>
    match w.produced[k]? with
    | none => w
    | some (ack, s) =>
      match w.coord.receiveAck H ack now ⟨w.files, script⟩ with
      | (.ok (_, c), st) => { (w.count ack s).settle c with files := st.files }
      | (.error _, st) => { w with files := st.files }
  | .receiveAckAsync k now =>
    match w.produced[k]? with
    | none => w
    | some (ack, s) => (w.count ack s).settle (w.coord.receiveAckAsync ack now).2

def run (w : World Bytes) (events : List Event) : World Bytes := Runs.run (act H) w events

end World

open World

/-! ## The invariant -/

/-- The counted acks of a commit answer the initiation that was in flight. -/
structure Commit.Current (initiations : List Initiation) (r : Commit) : Prop where
  epoch : ∃ token, initiations[r.opened]? = some ⟨r.epoch, token⟩
  restored : r.restoredAt ≤ r.opened
  answered : ∀ s ∈ r.answered, s = r.opened

structure Inv (w : World Bytes) : Prop where
  /-- The counter is past every initiation under the current token. -/
  bounded : ∀ n ∈ w.initiations, n.token = w.coord.fencingToken → n.epoch ≤ w.coord.currentEpoch
  restored : w.restoredAt ≤ w.initiations.length
  /-- A waiting epoch is the last initiation, the only one with its epoch and token. -/
  waiting : ∀ e t, w.coord.state = .awaitingAcks e t →
    e = w.coord.currentEpoch ∧ w.restoredAt < w.initiations.length ∧
      (∀ s, w.initiations[s]? = some ⟨e, w.coord.fencingToken⟩ ↔ s + 1 = w.initiations.length) ∧
      ∀ task s, w.counted.lookup task = some s → s + 1 = w.initiations.length
  produced : ∀ p ∈ w.produced, w.initiations[p.2]? = some ⟨p.1.epoch, p.1.fencingToken⟩
  commits : ∀ r ∈ w.commits, r.Current w.initiations

variable {H} {w : World Bytes} {c : CheckpointCoordinator}

lemma Commit.Current.append {l l' : List Initiation} {r : Commit} (h : r.Current l) : r.Current (l ++ l') := by
  obtain ⟨token, htoken⟩ := h.epoch
  refine ⟨⟨token, ?_⟩, h.restored, h.answered⟩
  rw [getElem?_append_left (List.getElem?_eq_some_iff.mp htoken).1]
  exact htoken

section

variable (hinv : Inv w)

include hinv

/-- Calls that keep epoch and token, and after which no other epoch waits. -/
lemma Inv.keep (hepoch : c.currentEpoch = w.coord.currentEpoch) (htoken : c.fencingToken = w.coord.fencingToken)
    (hwait : ∀ e t, c.state = .awaitingAcks e t → w.coord.state = .awaitingAcks e t) : Inv (w.goto c) := by
  have hgoto : w.goto c = { w with coord := c } := by simp [goto, hepoch]
  rw [hgoto]
  refine { hinv with bounded := fun n hn htok => ?_, waiting := fun e t hstate => ?_ }
  · exact (hinv.bounded n hn (htok.trans htoken)).trans_eq hepoch.symm
  · obtain ⟨he, hrest⟩ := hinv.waiting e t (hwait e t hstate)
    refine ⟨he.trans hepoch.symm, ?_⟩
    simpa only [htoken] using hrest

section

variable (hsame : SameQuorum w.coord c)

include hsame

lemma Inv.same : Inv (w.goto c) :=
  hinv.keep hsame.epoch hsame.token fun _ _ hstate => hsame.state.symm.trans hstate

/-- A new epoch is past all initiations under its token, so its pair is new. -/
lemma Inv.started (now : ℕ) : Inv (w.goto (c.started now)) := by
  have hepoch := hsame.epoch
  have hne : ¬ c.currentEpoch + 1 = w.coord.currentEpoch := by omega
  have hgoto : w.goto (c.started now) = { w with
        coord := c.started now
        initiations := w.initiations ++ [⟨c.currentEpoch + 1, c.fencingToken⟩]
        counted := ∅ } := by
    simp [goto, CheckpointCoordinator.started, hne]
  rw [hgoto]
  have hold : ∀ n ∈ w.initiations, n.token = c.fencingToken → n.epoch ≤ c.currentEpoch := fun n hn htok =>
    (hinv.bounded n hn (htok.trans hsame.token)).trans_eq hepoch.symm
  have hrestored := hinv.restored
  refine ⟨fun n hn htok => ?_, ?_, fun e t hstate => ?_, fun p hp => ?_, fun r hr => ?_⟩
  · rcases mem_append.mp hn with hn | hn
    · exact (hold n hn htok).trans (Nat.le_succ _)
    · rw [mem_singleton.mp hn]
      exact le_rfl
  · simp only [length_append, length_singleton]
    omega
  · cases hstate
    refine ⟨rfl, ?_, fun s => ?_, fun task s hs => ?_⟩
    · simp only [length_append, length_singleton]
      omega
    · simp only [length_append, length_singleton, Nat.add_right_cancel_iff]
      constructor
      · intro hs
        by_contra hlast
        -- an earlier initiation with this pair would be within the counter
        obtain ⟨hlt, -⟩ := List.getElem?_eq_some_iff.mp hs
        have hlt' : s < w.initiations.length := by
          simp only [length_append, length_singleton] at hlt
          omega
        rw [getElem?_append_left hlt'] at hs
        have hle := hold _ (mem_of_getElem? hs) rfl
        simp only at hle
        omega
      · rintro rfl
        simp [CheckpointCoordinator.started]
    · cases hs
  · have h := hinv.produced p hp
    rw [getElem?_append_left (List.getElem?_eq_some_iff.mp h).1]
    exact h
  · exact (hinv.commits r hr).append

lemma Inv.initiate (now : ℕ) : Inv (w.goto (c.initiate now).2) := by
  rcases initiate_cases c now with h | ⟨-, h⟩
  · rw [h]; exact hinv.same hsame
  · rw [h]; exact hinv.started hsame now

end

lemma Inv.tryTick (elapsed timeout now : ℕ) : Inv (w.goto (w.coord.tryTick elapsed timeout now).2) := by
  obtain ⟨-, htick⟩ := tryTick_cases w.coord elapsed timeout now
  rcases htick with h | ⟨c₀, h, -, hc⟩ | ⟨c₀, e, r, t, h, -, hc⟩
  · exact hinv.same h
  · rw [hc]; exact hinv.started h now
  · rw [hc]
    exact hinv.keep h.epoch h.token fun e t hstate => by cases hstate

/-- What is counted once the coordinator records a produced ack. -/
lemma Inv.counts {ack : CheckpointAckRequest} {s e t : ℕ} {c' : CheckpointCoordinator}
    (hprod : w.initiations[s]? = some ⟨ack.epoch, ack.fencingToken⟩)
    (hstate : w.coord.state = .awaitingAcks e t) (hrec : w.coord.recordAck ack e = .ok c')
    (task : Text) (s' : ℕ) (hs' : (w.counted.insert ack.taskId s).lookup task = some s') :
    s' + 1 = w.initiations.length := by
  by_cases htask : task = ack.taskId
  · subst htask
    rw [AList.lookup_insert] at hs'
    cases hs'
    -- the ack answers the initiation in flight
    obtain ⟨hepoch, htoken, -⟩ := recordAck_ok hrec
    rw [hepoch, htoken] at hprod
    exact ((hinv.waiting e t hstate).2.2.1 s).mp hprod
  · rw [AList.lookup_insert_ne htask] at hs'
    exact (hinv.waiting e t hstate).2.2.2 task s' hs'

end

lemma count_recorded {ack : CheckpointAckRequest} {s e t : ℕ} {c' : CheckpointCoordinator}
    (hstate : w.coord.state = .awaitingAcks e t) (hrec : w.coord.recordAck ack e = .ok c') :
    w.count ack s = { w with counted := w.counted.insert ack.taskId s } := by
  simp [World.count, records_of_recordAck hstate hrec]

/-- Delivering a produced ack, on either commit path. -/
lemma Inv.ack {closed : ℕ → CheckpointCoordinatorState}
    (hclosed : closed = .committing ∨ closed = .committed) (hinv : Inv w) {ack : CheckpointAckRequest} {s : ℕ}
    (hprod : w.initiations[s]? = some ⟨ack.epoch, ack.fencingToken⟩)
    (hleaves : AckLeaves closed w.coord ack c) : Inv ((w.count ack s).settle c) := by
  cases hleaves with
  | refused hno =>
    have hcount : w.count ack s = w := by simp [World.count, hno]
    rw [hcount]
    unfold settle
    split
    · next e t hstate =>
      have hreached : w.reached w.coord.state = [] := by rw [hstate]; rfl
      rw [hreached, append_nil]
      exact hinv
    · exact hinv
  | @recorded e t c' hstate hrec =>
    have hcounts := hinv.counts hprod hstate hrec
    have hcount := count_recorded (s := s) hstate hrec
    obtain ⟨-, -, rfl⟩ := recordAck_ok hrec
    obtain ⟨hepoch, hrestored, hpair, -⟩ := hinv.waiting e t hstate
    have hreached : reached { w with counted := w.counted.insert ack.taskId s } w.coord.state = [] := by
      rw [hstate]; rfl
    simp only [hcount, settle, hstate]
    rw [← hstate, hreached, append_nil]
    refine { hinv with waiting := fun e' t' hstate' => ?_ }
    have heq : w.coord.state = .awaitingAcks e' t' := hstate'
    rw [hstate] at heq
    cases heq
    exact ⟨hepoch, hrestored, hpair, hcounts⟩
  | @quorum e t c' _ hstate hrec _ hst hep htok =>
    have hcounts := hinv.counts hprod hstate hrec
    have hcount := count_recorded (s := s) hstate hrec
    obtain ⟨-, -, rfl⟩ := recordAck_ok hrec
    obtain ⟨-, hrestored, hpair, -⟩ := hinv.waiting e t hstate
    have hreached : reached { w with counted := w.counted.insert ack.taskId s } c.state =
        [⟨e, w.initiations.length - 1, w.restoredAt,
          (w.counted.insert ack.taskId s).entries.map Sigma.snd⟩] := by
      rw [hst]
      rcases hclosed with rfl | rfl <;> rfl
    have hnew : Commit.Current w.initiations ⟨e, w.initiations.length - 1, w.restoredAt,
          (w.counted.insert ack.taskId s).entries.map Sigma.snd⟩ := by
      have hlast : w.initiations.length - 1 + 1 = w.initiations.length := by omega
      refine ⟨⟨w.coord.fencingToken, (hpair _).mpr hlast⟩, Nat.le_sub_one_of_lt hrestored, fun s' hs' => ?_⟩
      obtain ⟨⟨task, s''⟩, hmem, rfl⟩ := mem_map.mp hs'
      have hcur := hcounts task s'' (AList.mem_lookup_iff.mpr hmem)
      dsimp only
      omega
    simp only [hcount, settle, hstate, hreached]
    refine ⟨fun n hn htoken => ?_, hinv.restored, fun e' t' hstate' => ?_, hinv.produced,
      forall_mem_append.mpr ⟨hinv.commits, forall_mem_singleton.mpr hnew⟩⟩
    · exact (hinv.bounded n hn (htoken.trans htok)).trans_eq hep.symm
    · have heq : c.state = .awaitingAcks e' t' := hstate'
      rw [hst] at heq
      rcases hclosed with rfl | rfl <;> cases heq

/-! ## The condition and the result -/

/-- A restore is activated under a token that initiated no epoch newer than the restored one. -/
def Fine (w : World Bytes) : Event → Prop
  | .activate metadata token =>
    ∀ n ∈ w.initiations, n.token = token.getD metadata.fencingToken → n.epoch ≤ metadata.epoch
  | _ => True

variable (H) in
/-- Every event of the run meets the condition when it happens. -/
def FineRun : World Bytes → List Event → Prop := Runs.Along (World.act H) Fine

/-- Activating sets epoch and token, and no epoch waits afterwards. -/
lemma activateRestoredEpoch_ok {c' : CheckpointCoordinator} {metadata : CheckpointMetadata}
    {token : Option ℕ} (h : c.activateRestoredEpoch metadata token = .ok c') :
    c'.currentEpoch = metadata.epoch ∧ c'.fencingToken = token.getD metadata.fencingToken ∧
      c'.state = .committed metadata.epoch := by
  obtain ⟨-, -, h⟩ := Except.bind_eq_ok_iff.mp h
  split at h
  · cases h
  dsimp only at h
  split at h
  · cases h
  · cases h
    exact ⟨rfl, rfl, rfl⟩

lemma Inv.act (hinv : Inv w) {ev : Event} (hfine : Fine w ev) : Inv (w.act H ev) := by
  cases ev with
  | initiate now => exact hinv.initiate ⟨rfl, rfl, rfl, rfl⟩ now
  | initiateSavepoint label now =>
    have hsame : SameQuorum w.coord { w.coord with pendingIsSavepoint := true, pendingSavepointLabel := label } :=
      ⟨rfl, rfl, rfl, rfl⟩
    exact hinv.initiate hsame now
  | tryTick elapsed timeout now => exact hinv.tryTick elapsed timeout now
  | setExpectedTaskCount count => exact hinv.same ⟨rfl, rfl, rfl, rfl⟩
  | abortEpoch reason =>
    rcases abortEpoch_cases w.coord reason with h | ⟨e, -, h⟩
    · simp only [World.act, h]
      exact hinv.same ⟨rfl, rfl, rfl, rfl⟩
    · simp only [World.act, h]
      exact hinv.keep rfl rfl fun e t hstate => by cases hstate
  | finalizeCommit epoch =>
    simp only [World.act]
    split
    · next c hfin =>
      unfold CheckpointCoordinator.finalizeCommit at hfin
      split at hfin
      · split at hfin
        · cases hfin
          exact hinv.keep rfl rfl fun e t hstate => by cases hstate
        · cases hfin
      · cases hfin
    · exact hinv
  | activate metadata token =>
    simp only [World.act]
    split
    · next c hact =>
      obtain ⟨hepoch, htoken, hstate⟩ := activateRestoredEpoch_ok hact
      refine ⟨fun n hn htok => ?_, le_rfl, fun e t hwait => ?_, hinv.produced, hinv.commits⟩
      · rw [hepoch]
        exact hfine n hn (htok.trans htoken)
      · have heq : c.state = .awaitingAcks e t := hwait
        rw [hstate] at heq
        cases heq
    · exact hinv
  | answer s ack =>
    simp only [World.act]
    split
    · next hs =>
      exact { hinv with produced := forall_mem_append.mpr ⟨hinv.produced, forall_mem_singleton.mpr hs⟩ }
    · exact hinv
  | receiveAck k now script =>
    simp only [World.act]
    split
    · exact hinv
    next ack s hk =>
    have hprod := hinv.produced (ack, s) (mem_of_getElem? hk)
    split
    · next r c st heq =>
      exact { hinv.ack (.inr rfl) hprod (receiveAck_leaves heq) with }
    · exact { hinv with }
  | receiveAckAsync k now =>
    simp only [World.act]
    split
    · exact hinv
    · next ack s hk =>
      have hprod := hinv.produced (ack, s) (mem_of_getElem? hk)
      exact hinv.ack (.inl rfl) hprod (receiveAckAsync_leaves w.coord ack now)

lemma Inv.run (hinv : Inv w) {events : List Event} (hfine : FineRun H w events) : Inv (w.run H events) :=
  Runs.Along.invariant (I := Inv) (fun _ _ hfine hinv => hinv.act hfine) hfine hinv

lemma Inv.cold (jobId coordinatorId : Text) (interval expected : ℕ) (files : KVMap Path Bytes) :
    Inv (World.cold (.new jobId coordinatorId interval expected) files) := by
  refine ⟨fun n hn => ?_, le_rfl, fun e t hstate => ?_, fun p hp => ?_, fun r hr => ?_⟩
  · cases hn
  · cases hstate
  · cases hp
  · cases hr

/-- In every run in which each restore is activated under a token that initiated no epoch newer than the
restored one, every ack counted towards an epoch that got its quorum answers the initiation of that
epoch that was in flight, and that initiation was made after the last restore. -/
theorem counted_answers_current (jobId coordinatorId : Text) (interval expected : ℕ)
    (files : KVMap Path Bytes) (events : List Event)
    (hfine : FineRun H (World.cold (.new jobId coordinatorId interval expected) files) events) :
    let w := (World.cold (.new jobId coordinatorId interval expected) files).run H events
    ∀ r ∈ w.commits, r.restoredAt ≤ r.opened ∧
      (∃ token, w.initiations[r.opened]? = some ⟨r.epoch, token⟩) ∧ ∀ s ∈ r.answered, s = r.opened :=
  fun r hr =>
    have h := ((Inv.cold jobId coordinatorId interval expected files).run hfine).commits r hr
    ⟨h.restored, h.epoch, h.answered⟩

/-! ## Two runs -/

/-- A job with one task. -/
def oneTask : World Tagged := .cold (.new ['j'] ['c'] 10 1) ∅

def ackFor (epoch token : ℕ) : CheckpointAckRequest := ⟨['j'], ['o'], ['t'], epoch, token, [], none, []⟩

/-- The metadata of epoch 1, written under the first token. -/
def firstEpoch : CheckpointMetadata :=
  ⟨3, 1, ['j'], 1, none, 0, [], [], false, none, none, none, [], none⟩

/-- Epoch 1 is committed; epoch 2 is initiated, answered and given up; the job is restored to epoch 1
under `token`; epoch 2 is initiated again, and the answer to its first initiation arrives. -/
def rewoundRun (token : Option ℕ) : List Event :=
  [.initiate 0, .answer 0 (ackFor 1 1), .receiveAckAsync 0 0, .finalizeCommit 1,
    .initiate 0, .answer 1 (ackFor 2 1), .abortEpoch "timeout", .activate firstEpoch token,
    .initiate 0, .receiveAckAsync 1 0]

/-- Without a new leader token the late ack completes the quorum: epoch 2, opened by the third
initiation, is committed on the answer to the second one, made before the restore. -/
theorem rewoundRun_crossed : (oneTask.run Host.tagged (rewoundRun none)).coord.state = .committing 2 ∧
      (oneTask.run Host.tagged (rewoundRun none)).commits = [⟨1, 0, 0, [0]⟩, ⟨2, 2, 2, [1]⟩] :=
  ⟨rfl, rfl⟩

/-- Under a new leader token the late ack is refused, and the one commit so far is sound. -/
theorem rewoundRun_fenced : (oneTask.run Host.tagged (rewoundRun (some 2))).commits = [⟨1, 0, 0, [0]⟩] ∧
      ∀ r ∈ (oneTask.run Host.tagged (rewoundRun (some 2))).commits, r.restoredAt ≤ r.opened ∧
        (∃ token, (oneTask.run Host.tagged (rewoundRun (some 2))).initiations[r.opened]? =
          some ⟨r.epoch, token⟩) ∧ ∀ s ∈ r.answered, s = r.opened := by
  have hfresh : ∀ n ∈ ([⟨1, 1⟩, ⟨2, 1⟩] : List Initiation), n.token = 2 → n.epoch ≤ 1 := by decide
  have hfine : FineRun Host.tagged oneTask (rewoundRun (some 2)) :=
    ⟨trivial, trivial, trivial, trivial, trivial, trivial, trivial, hfresh, trivial, trivial, trivial⟩
  exact ⟨rfl, counted_answers_current ['j'] ['c'] 10 1 ∅ (rewoundRun (some 2)) hfine⟩

end Generations

end Krishiv.Scheduler
