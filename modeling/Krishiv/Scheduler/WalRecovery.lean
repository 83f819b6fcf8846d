import Krishiv.Ivm.Epoch
import Krishiv.Scheduler.WriteAheadLog

/-!
# Recovery from the write-ahead log

What should a process that has forgotten a job bring back? The job that the requests answered with
success produce (`produce`), and of the requests that were running when a process stopped any (`Accounts`).

`Sound` is the invariant of a live job: the process and the store both hold that job. It rests on two
facts about replay, which are stated once: a log with one entry more replays that entry last
(`rehydrate_appendLog`), and a snapshot that covers the whole log replays nothing (`rehydrate_saved`).

It is not kept by a request that takes effect and is then refused: a step whose entry cannot be
written has ticked the flow of the process, and no log entry says so.
-/

namespace Krishiv.Scheduler.Wal

open Krishiv.Delta Krishiv.Ivm List Option Bool Prod

variable {J B ω : Type} (L : JobLogic J B ω) (wire : Wire) (cfg : Config)

/-! ## What the requests produce -/

/-- A feed, without a log. -/
def Job.feed (job : Job J) (entry : WalEntry) : Job J :=
  match entryFeed wire entry with
  | some (source, key, .ok op) =>
    if job.wal.isRepeatedFeed source key then job
    else
      let fed := L.exec job.flow op
      ⟨fed.1, if fed.2 then job.wal.noteFeedKey source key else job.wal⟩
  | _ => job

def Job.exec (job : Job J) (op : JobOp) : Job J := { job with flow := (L.exec job.flow op).1 }

/-- What a request makes of the job. -/
def produce (job : Option (Job J)) (r : Request) : Option (Job J) :=
  match job, r with
  | none, .create => some ⟨L.fresh, .default⟩
  | none, _ => none
  | some job, .create => some job
  | some job, .feed source key ipc => some (job.feed L wire (.feed source key ipc))
  | some job, .feedSnapshot source key ipc => some (job.feed L wire (.snapshot source key ipc))
  | some job, .step => some (job.exec L .step)
  | some job, .registerView spec => some (job.exec L (.registerView spec))
  | some job, .dropView name => some (job.exec L (.dropView name))
  | some job, .restore state => some (job.exec L (.restore state))
  | some job, .restoreDelta slice => some (job.exec L (.restoreDelta slice))

/-- The requests that count: all that were answered with success, none that was refused, and any of
those that were running when a process stopped. -/
inductive Accounts : List (Request × Except Halt Reply) → List Request → Prop
  | start : Accounts [] []
  | success {h k} (r : Request) (reply : Reply) : Accounts h k → Accounts (h ++ [(r, .ok reply)]) (k ++ [r])
  | refused {h k} (r : Request) (status : Status) : Accounts h k →
      Accounts (h ++ [(r, .error (.refused status))]) k
  | stoppedBefore {h k} (r : Request) : Accounts h k → Accounts (h ++ [(r, .error .stopped)]) k
  | stoppedAfter {h k} (r : Request) : Accounts h k → Accounts (h ++ [(r, .error .stopped)]) (k ++ [r])

/-- Jobs that cannot be told apart, with the same keys. -/
structure Same (job job' : Job J) : Prop where
  flow : L.Indistinguishable job.flow job'.flow
  keys : job'.wal.feedKeys = job.wal.feedKeys

variable {L wire cfg} {job job' : Job J}

lemma Same.repeated (h : Same L job job') (source : String) (key : Option Bytes) :
    job'.wal.isRepeatedFeed source key = job.wal.isRepeatedFeed source key := by
  cases key with
  | none => rfl
  | some key => rw [IvmWalState.isRepeatedFeed, IvmWalState.isRepeatedFeed, h.keys]

lemma noteFeedKey_keys {wal wal' : IvmWalState} (h : wal'.feedKeys = wal.feedKeys) (source : String)
    (key : Option Bytes) : (wal'.noteFeedKey source key).feedKeys = (wal.noteFeedKey source key).feedKeys := by
  cases key with
  | none => exact h
  | some key => exact congrArg (·.insert source key) h

lemma noteFeedKey_lastSeq (wal : IvmWalState) (source : String) (key : Option Bytes) :
    (wal.noteFeedKey source key).lastSeq = wal.lastSeq := by
  cases key <;> rfl

/-! ## Replay -/

/-- Sequence numbers the job has seen. -/
structure Ahead (job : Job J) (st : Store B) : Prop where
  log : ∀ e ∈ st.log, e.1 ≤ job.wal.lastSeq
  snapshot : ∀ p, st.snapshot = some p → p.walSeq ≤ job.wal.lastSeq

lemma replayEntry_lastSeq {e : ℕ × Bytes} (h : replayEntry L wire job e = .ok job') :
    job'.wal.lastSeq = max job.wal.lastSeq e.1 := by
  unfold replayEntry at h
  split at h
  · cases h
  split at h
  · cases h
    rfl
  · cases h
    dsimp only [IvmWalState.observeSeq]
    split
    · rw [noteFeedKey_lastSeq]
    · rfl
  · dsimp only at h
    split at h
    · cases h
      rfl
    · cases h

lemma replay_lastSeq {entries : List (ℕ × Bytes)} (h : entries.foldlM (replayEntry L wire) job = .ok job') :
    job.wal.lastSeq ≤ job'.wal.lastSeq ∧ ∀ e ∈ entries, e.1 ≤ job'.wal.lastSeq := by
  induction entries generalizing job with
  | nil =>
    cases h
    exact ⟨le_rfl, by simp⟩
  | cons e entries ih =>
    rw [foldlM_cons, Except.bind_eq_ok_iff] at h
    obtain ⟨job₁, hone, hrest⟩ := h
    have hseq := replayEntry_lastSeq hone
    obtain ⟨hle, hall⟩ := ih hrest
    exact ⟨by omega, forall_mem_cons.mpr ⟨by omega, hall⟩⟩

/-- A job as its snapshot has it. -/
def fromSnapshot (p : PersistedIvmJob B) (flow : J) : Job J :=
  ⟨flow, { IvmWalState.default with lastSeq := p.walSeq, feedKeys := p.feedKeys }⟩

variable {st : Store B}

lemma rehydrate_eq_ok : rehydrate L wire st = .ok (some job) ↔
      ∃ p flow, st.snapshot = some p ∧ L.restore p.state = some flow ∧
        (st.loadLog p.walSeq).foldlM (replayEntry L wire) (fromSnapshot p flow) = .ok job := by
  constructor
  · intro h
    cases hp : st.snapshot with
    | none => simp [rehydrate, hp] at h
    | some p =>
      cases hflow : L.restore p.state with
      | none => simp [rehydrate, restoreDurableSnapshot, hp, hflow] at h
      | some flow =>
        refine ⟨p, flow, rfl, hflow, ?_⟩
        cases hreplay : (st.loadLog p.walSeq).foldlM (replayEntry L wire) (fromSnapshot p flow) with
        | error e =>
          unfold fromSnapshot at hreplay
          simp [rehydrate, restoreDurableSnapshot, hp, hflow, hreplay] at h
        | ok job' =>
          unfold fromSnapshot at hreplay
          simp [rehydrate, restoreDurableSnapshot, hp, hflow, hreplay] at h
          rw [h]
  · rintro ⟨p, flow, hp, hflow, hreplay⟩
    unfold fromSnapshot at hreplay
    simp [rehydrate, restoreDurableSnapshot, hp, hflow, hreplay]

/-- A job that was brought back is ahead of its store. -/
lemma rehydrate_ahead (h : rehydrate L wire st = .ok (some job)) : Ahead job st := by
  obtain ⟨p, flow, hp, -, hreplay⟩ := rehydrate_eq_ok.mp h
  obtain ⟨hle, hall⟩ := replay_lastSeq hreplay
  refine ⟨fun e he => ?_, fun q hq => ?_⟩
  · by_cases hcovered : p.walSeq < e.1
    · exact hall e (mem_filter.mpr ⟨he, decide_eq_true hcovered⟩)
    · exact le_trans (not_lt.mp hcovered) hle
  · rw [hp] at hq
    cases hq
    exact hle

variable {n : ℕ}

/-- An entry with a new number stands at the end of the log. -/
lemma appendLog_log (h : ∀ e ∈ st.log, e.1 < n) (entry : Bytes) :
    (st.appendLog n entry).log = st.log ++ [(n, entry)] := by
  have hbefore : st.log.filter (fun e => decide (e.1 < n)) = st.log :=
    filter_eq_self.mpr fun e he => decide_eq_true (h e he)
  have hafter : st.log.filter (fun e => decide (n < e.1)) = [] := by
    rw [filter_eq_nil_iff]
    intro e he hlt
    have hlt' := of_decide_eq_true hlt
    have := h e he
    omega
  rw [Store.appendLog, hbefore, hafter]

/-- The log with one entry more is replayed with that entry last. -/
lemma rehydrate_appendLog {entry : Bytes} (h : rehydrate L wire st = .ok (some job))
    (hlog : ∀ e ∈ st.log, e.1 < n) (hsnap : ∀ p, st.snapshot = some p → p.walSeq < n)
    (hlast : replayEntry L wire job (n, entry) = .ok job') :
    rehydrate L wire (st.appendLog n entry) = .ok (some job') := by
  obtain ⟨p, flow, hp, hflow, hreplay⟩ := rehydrate_eq_ok.mp h
  refine rehydrate_eq_ok.mpr ⟨p, flow, hp, hflow, ?_⟩
  have hload : (st.appendLog n entry).loadLog p.walSeq = st.loadLog p.walSeq ++ [(n, entry)] := by
    rw [Store.loadLog, appendLog_log hlog, filter_append]
    congr 1
    exact filter_eq_self.mpr (by simpa using hsnap p hp)
  rw [hload, foldlM_append, hreplay]
  show (replayEntry L wire job (n, entry) >>= pure) = _
  rw [bind_pure, hlast]

/-- Where a snapshot covers the whole log nothing is replayed. -/
lemma rehydrate_saved {p : PersistedIvmJob B} {flow : J} (hp : st.snapshot = some p)
    (hlog : ∀ e ∈ st.log, e.1 ≤ p.walSeq) (hflow : L.restore p.state = some flow) :
    rehydrate L wire st = .ok (some (fromSnapshot p flow)) := by
  refine rehydrate_eq_ok.mpr ⟨p, flow, hp, hflow, ?_⟩
  have hload : st.loadLog p.walSeq = [] := by
    rw [Store.loadLog, filter_eq_nil_iff]
    intro e he hlt
    have hlt' := of_decide_eq_true hlt
    have := hlog e he
    omega
  rw [hload]
  rfl

/-! ## Live jobs -/

variable (L wire) in
/-- The store brings the job back. -/
def Durable (job : Job J) (st : Store B) : Prop :=
  ∃ job', rehydrate L wire st = .ok (some job') ∧ Same L job job'

variable (L wire) in
/-- Both the process and the store hold the job. -/
structure Sound (job : Job J) (x : Live J B) : Prop where
  live : Same L job x.job
  ahead : Ahead x.job x.store
  durable : Durable L wire job x.store

variable (L wire) in
/-- How a request may end, where it makes `next` of `job`. -/
def Ends {R : Type} (job next : Job J) (ended : Live J B × Except Halt R) : Prop :=
  match ended.2 with
  | .ok _ => Sound L wire next ended.1
  | .error (.refused _) => Sound L wire job ended.1
  | .error .stopped => Durable L wire job ended.1.store ∨ Durable L wire next ended.1.store

variable (L) in
/-- The durable snapshot of the flow brings it back. -/
def Exact (flow : J) : Prop :=
  ∃ state flow', L.checkpoint flow = some state ∧ L.restore state = some flow' ∧
    L.Indistinguishable flow flow'

variable (L) in
/-- If the flow refuses the operation it is as it was. -/
def LeavesNoTrace (flow : J) (op : JobOp) : Prop :=
  (L.exec flow op).2 = false → L.Indistinguishable flow (L.exec flow op).1

section FineRequests

variable (L wire cfg)

/-- A snapshot of the flow is written, and brings it back. -/
def SnapshotFine (flow : J) (f : Faults) : Prop := f.save ≠ .failed ∧ Exact L flow

def FineFeed (job : Job J) (entry : WalEntry) (f : Faults) : Prop :=
  entry.Fits ∧ ∀ source key op, entryFeed wire entry = some (source, key, .ok op) →
    LeavesNoTrace L job.flow op ∧ ((L.exec job.flow op).2 = true →
      (job.wal.nextSeq.noteAppend entry.encode.length (entry = .step)).snapshotDue cfg = true →
        SnapshotFine L (L.exec job.flow op).1 f)

def FineStep (job : Job J) (f : Faults) : Prop :=
  LeavesNoTrace L job.flow .step ∧ ((L.exec job.flow .step).2 = true → f.append ≠ .failed ∧
    ((job.wal.nextSeq.noteAppend WalEntry.step.encode.length true).snapshotDue cfg = true →
      SnapshotFine L (L.exec job.flow .step).1 f))

def FineChange (job : Job J) (op : JobOp) (f : Faults) : Prop :=
  LeavesNoTrace L job.flow op ∧ ((L.exec job.flow op).2 = true → SnapshotFine L (L.exec job.flow op).1 f)

end FineRequests

variable {x : Live J B} {f : Faults}

/-- Writing a snapshot: the process stops before it, or the store holds the job from it alone. -/
lemma persist_cases (wire : Wire) (hlive : Same L job x.job) (hahead : Ahead x.job x.store)
    (hfine : SnapshotFine L x.job.flow f) : persist L x f = (x, .error .stopped) ∨
    ∃ x', Sound L wire job x' ∧ (persist L x f = (x', .ok ()) ∨ persist L x f = (x', .error .stopped)) := by
  obtain ⟨hsave, state, flow, hstate, hflow, hsame⟩ := hfine
  have hsaved : ∀ log : List (ℕ × Bytes), (∀ e ∈ log, e ∈ x.store.log) →
      Sound L wire job ⟨{ x.job with wal := x.job.wal.noteSnapshot },
        ⟨some ⟨state, x.job.wal.lastSeq, x.job.wal.feedKeys⟩, log⟩⟩ := by
    intro log hlog
    have hle : ∀ e ∈ log, e.1 ≤ x.job.wal.lastSeq := fun e he => hahead.log e (hlog e he)
    refine ⟨⟨hlive.flow, hlive.keys⟩, ⟨hle, fun p hp => ?_⟩,
      ⟨_, rehydrate_saved rfl hle hflow, hlive.flow.trans hsame, hlive.keys⟩⟩
    cases hp
    exact le_rfl
  unfold persist
  rw [hstate]
  cases hs : f.save with
  | stopped => exact .inl rfl
  | failed => exact absurd hs hsave
  | done =>
    right
    cases f.truncate with
    | stopped => exact ⟨_, hsaved x.store.log fun _ he => he, .inr rfl⟩
    | failed => exact ⟨_, hsaved x.store.log fun _ he => he, .inl rfl⟩
    | done => exact ⟨_, hsaved _ fun _ he => (mem_filter.mp he).1, .inl rfl⟩

variable {next : Job J}

/-- The store with one entry more brings back what replaying the entry makes of the job. -/
lemma Durable.appended {holder : Job J} {entry : Bytes} (h : Durable L wire job st) (hahead : Ahead holder st)
    (hreplay : ∀ job', Same L job job' →
      ∃ job'', replayEntry L wire job' (holder.wal.lastSeq + 1, entry) = .ok job'' ∧ Same L next job'') :
    Durable L wire next (st.appendLog (holder.wal.lastSeq + 1) entry) := by
  obtain ⟨job', hback, hsame⟩ := h
  obtain ⟨job'', hentry, hsame'⟩ := hreplay job' hsame
  exact ⟨job'', rehydrate_appendLog hback (fun e he => Nat.lt_succ_of_le (hahead.log e he))
    (fun p hp => Nat.lt_succ_of_le (hahead.snapshot p hp)) hentry, hsame'⟩

lemma Ahead.appended (h : Ahead job st) (hseq : job'.wal.lastSeq = job.wal.lastSeq + 1) (entry : Bytes) :
    Ahead job' (st.appendLog (job.wal.lastSeq + 1) entry) := by
  refine ⟨fun e he => ?_, fun p hp => ?_⟩
  · rw [appendLog_log fun e he => Nat.lt_succ_of_le (h.log e he)] at he
    rcases mem_append.mp he with he | he
    · have := h.log e he
      omega
    · rw [mem_singleton.mp he]
      omega
  · have := h.snapshot p hp
    omega

variable {entry : WalEntry} {key : Option Bytes} {source : String}

/-- Replaying a feed that was logged. -/
lemma replayEntry_feed {op : JobOp} (hsame : Same L job job') (hfits : entry.Fits)
    (hentry : entryFeed wire entry = some (source, key, .ok op)) :
    ∃ job'', replayEntry L wire job' (n, entry.encode) = .ok job'' ∧
      L.Indistinguishable (L.exec job.flow op).1 job''.flow ∧
      job''.wal.feedKeys = (if (L.exec job.flow op).2 then job.wal.noteFeedKey source key else job.wal).feedKeys := by
  refine ⟨⟨(L.exec job'.flow op).1, (if (L.exec job'.flow op).2 then
    job'.wal.noteFeedKey source key else job'.wal).observeSeq n⟩, ?_, hsame.flow.exec op, ?_⟩
  · simp [replayEntry, WalEntry.decode_encode hfits, hentry]
  rw [← hsame.flow.answer_eq op]
  split
  · exact noteFeedKey_keys hsame.keys source key
  · exact hsame.keys

/-- Replaying a step whose tick ended well. -/
lemma replayEntry_step (hsame : Same L job job') (hok : (L.exec job.flow .step).2 = true) :
    ∃ job'', replayEntry L wire job' (n, WalEntry.step.encode) = .ok job'' ∧ Same L (job.exec L .step) job'' := by
  refine ⟨⟨(L.exec job'.flow .step).1, job'.wal.observeSeq n⟩, ?_, hsame.flow.exec .step, hsame.keys⟩
  have hok' : (L.exec job'.flow .step).2 = true := by rw [← hsame.flow.answer_eq, hok]
  simp [replayEntry, WalEntry.decode_encode (e := .step) trivial, entryFeed, hok']

/-! ## Handlers -/

/-- A sequence number was spent for nothing. -/
lemma Sound.numbered (h : Sound L wire job x) :
    Sound L wire job { x with job := { x.job with wal := x.job.wal.nextSeq } } where
  live := ⟨h.live.flow, h.live.keys⟩
  ahead := ⟨fun e he => Nat.le_succ_of_le (h.ahead.log e he),
    fun p hp => Nat.le_succ_of_le (h.ahead.snapshot p hp)⟩
  durable := h.durable

variable {R : Type} {reply : R}

/-- A snapshot that is written at the end of a request. -/
lemma Ends.saved (hdurable : Durable L wire job x.store ∨ Durable L wire next x.store) (hlive : Same L next x.job)
    (hahead : Ahead x.job x.store) (hfine : SnapshotFine L x.job.flow f) :
    Ends L wire job next (match persist L x f with
      | (x, .error halt) => (x, .error halt)
      | (x, .ok ()) => (x, .ok reply)) := by
  rcases persist_cases wire hlive hahead hfine with hstop | ⟨x', hx', hres | hres⟩
  · rw [hstop]
    exact hdurable
  · rw [hres]
    exact hx'
  · rw [hres]
    exact .inr hx'.durable

/-- A snapshot that is due after a request has taken effect. -/
lemma Ends.persisted (h : Sound L wire next x)
    (hdue : x.job.wal.snapshotDue cfg = true → SnapshotFine L x.job.flow f) :
    Ends L wire job next (match persistIfDue L cfg x f with
      | (x, .error halt) => (x, .error halt)
      | (x, .ok ()) => (x, .ok reply)) := by
  unfold persistIfDue
  by_cases hd : x.job.wal.snapshotDue cfg = true
  · rw [if_pos hd]
    exact .saved (.inr h.durable) h.live h.ahead (hdue hd)
  · rw [if_neg hd]
    exact h

section

variable (h : Sound L wire job x)

include h

lemma acceptFeed_ends {op : JobOp} (hfits : entry.Fits) (hentry : entryFeed wire entry = some (source, key, .ok op))
    (hno : LeavesNoTrace L x.job.flow op) (hdue : (L.exec x.job.flow op).2 = true →
      (x.job.wal.nextSeq.noteAppend entry.encode.length (entry = .step)).snapshotDue cfg = true →
      SnapshotFine L (L.exec x.job.flow op).1 f) :
    Ends L wire job (job.feed L wire entry) (acceptFeed L cfg x entry source key op f) := by
  have hrepeated := h.live.repeated source key
  have hanswer := h.live.flow.answer_eq op
  have hfed : job.wal.isRepeatedFeed source key = false → job.feed L wire entry =
      ⟨(L.exec job.flow op).1, if (L.exec job.flow op).2 then job.wal.noteFeedKey source key
        else job.wal⟩ := by
    intro hnew
    simp [Job.feed, hentry, hnew]
  unfold acceptFeed
  split
  · next hrep =>
    have hsame : job.feed L wire entry = job := by
      rw [hrepeated] at hrep
      simp [Job.feed, hentry, hrep]
    rw [hsame]
    exact h
  next hnew =>
  rw [hrepeated, not_eq_true] at hnew
  unfold walAppend
  cases f.append with
  | stopped => exact .inl h.durable
  | failed => exact h.numbered
  | done =>
    dsimp only
    split
    · -- accepted, in the process and in the replay
      next hok =>
      have hnext := hfed hnew
      rw [hanswer, hok, if_pos rfl] at hnext
      refine Ends.persisted ?_ fun hd => hdue hok ?_
      · rw [hnext]
        have hkept : (x.job.wal.nextSeq.noteAppend entry.encode.length (entry = .step)).feedKeys =
            job.wal.feedKeys := h.live.keys
        refine ⟨⟨h.live.flow.exec op, noteFeedKey_keys hkept source key⟩,
          h.ahead.appended (noteFeedKey_lastSeq _ source key) _,
          h.durable.appended h.ahead fun job' hjob' => ?_⟩
        obtain ⟨job'', hrun, hflow, hkeys⟩ := replayEntry_feed hjob' hfits hentry
        rw [hanswer, hok, if_pos rfl] at hkeys
        exact ⟨job'', hrun, hflow, hkeys⟩
      · cases key <;> exact hd
    · -- refused in both
      next hno' =>
      rw [not_eq_true] at hno'
      have hback : L.Indistinguishable (L.exec job.flow op).1 job.flow :=
        ((h.live.flow.exec op).trans (hno hno').symm).trans h.live.flow.symm
      refine ⟨⟨h.live.flow.trans (hno hno'), h.live.keys⟩, h.ahead.appended rfl _,
        h.durable.appended h.ahead fun job' hjob' => ?_⟩
      obtain ⟨job'', hrun, hflow, hkeys⟩ := replayEntry_feed hjob' hfits hentry
      rw [hanswer, hno'] at hkeys
      exact ⟨job'', hrun, hback.symm.trans hflow, hkeys⟩

lemma stepJob_ends (hf : FineStep L cfg x.job f) : Ends L wire job (job.exec L .step) (stepJob L cfg x f) := by
  obtain ⟨hno, hfine⟩ := hf
  unfold stepJob
  dsimp only
  split
  · next hok =>
    obtain ⟨happend, hdue⟩ := hfine hok
    have hok' : (L.exec job.flow .step).2 = true := by rw [h.live.flow.answer_eq, hok]
    cases ha : f.append with
    | stopped => exact .inl h.durable
    | failed => exact absurd ha happend
    | done =>
      refine Ends.persisted ?_ hdue
      exact ⟨⟨h.live.flow.exec .step, h.live.keys⟩, h.ahead.appended rfl _,
        h.durable.appended ⟨h.ahead.log, h.ahead.snapshot⟩ fun job' hjob' => replayEntry_step hjob' hok'⟩
  · next hno' =>
    rw [not_eq_true] at hno'
    exact ⟨⟨h.live.flow.trans (hno hno'), h.live.keys⟩, ⟨h.ahead.log, h.ahead.snapshot⟩, h.durable⟩

lemma changeJob_ends {op : JobOp} (hf : FineChange L x.job op f) :
    Ends L wire job (job.exec L op) (changeJob L x op f) := by
  obtain ⟨hno, hfine⟩ := hf
  unfold changeJob
  dsimp only
  split
  · next hok =>
    exact .saved (x := { x with job := { x.job with flow := (L.exec x.job.flow op).1 } }) (.inl h.durable)
      ⟨h.live.flow.exec op, h.live.keys⟩ ⟨h.ahead.log, h.ahead.snapshot⟩ (hfine hok)
  · next hno' =>
    rw [not_eq_true] at hno'
    exact ⟨⟨h.live.flow.trans (hno hno'), h.live.keys⟩, ⟨h.ahead.log, h.ahead.snapshot⟩, h.durable⟩

/-- What was refused before it was looked at. -/
lemma feedBytes_ends (hfine : FineFeed L wire cfg x.job entry f) :
    Ends L wire job (job.feed L wire entry) (feedBytes L wire cfg x entry f) := by
  unfold feedBytes
  split
  · split
    · next source key op hentry =>
      obtain ⟨hno, hdue⟩ := hfine.2 source key op hentry
      exact acceptFeed_ends h hfine.1 hentry hno hdue
    · exact h
  · exact h

end

/-! ## Runs -/

section Fine

variable (L wire cfg)

/-- What a request must not meet: that it takes effect and its entry or its snapshot is then not
written, that it is refused and takes effect, and a snapshot that does not bring the flow back. The
entry of a feed may fail to be written, and so may a truncation. -/
def Fine (w : World J B) (r : Request) (f : Faults) : Prop :=
  ∀ job, ensureJob L wire w r = .ok job →
    match r with
    | .create => SnapshotFine L job.flow f
    | .feed source key ipc => FineFeed L wire cfg job (.feed source key ipc) f
    | .feedSnapshot source key ipc => FineFeed L wire cfg job (.snapshot source key ipc) f
    | .step => FineStep L cfg job f
    | .registerView spec => FineChange L job (.registerView spec) f
    | .dropView name => FineChange L job (.dropView name) f
    | .restore state => FineChange L job (.restore state) f
    | .restoreDelta slice => FineChange L job (.restoreDelta slice) f

/-- Runs of such requests, with what each was answered. -/
inductive FineRun : World J B → List (Request × Except Halt Reply) → Prop
  | start : FineRun .new []
  | request {w h} (r : Request) (f : Faults) : FineRun w h → Fine L wire cfg w r f →
      FineRun (serve L wire cfg w r f).1 (h ++ [(r, (serve L wire cfg w r f).2)])

/-- Requests in order, with what they are answered. -/
def World.run (w : World J B) : List (Request × Faults) → World J B × List (Request × Except Halt Reply)
  | [] => (w, [])
  | (r, f) :: rest =>
    let ended := World.run (serve L wire cfg w r f).1 rest
    (ended.1, (r, (serve L wire cfg w r f).2) :: ended.2)

def FineAll (w : World J B) : List (Request × Faults) → Prop
  | [] => True
  | (r, f) :: rest => Fine L wire cfg w r f ∧ FineAll (serve L wire cfg w r f).1 rest

/-- The store, and the process if it knows the job, hold what the requests have produced. -/
structure Recoverable (job : Option (Job J)) (w : World J B) : Prop where
  durable : ∃ job', rehydrate L wire w.store = .ok job' ∧ Option.Rel (Same L) job job'
  live : ∀ job', w.memory = some job' → Option.Rel (Same L) job (some job') ∧ Ahead job' w.store
  bare : w.store.snapshot = none → w.store.log = []

end Fine

variable {h : List (Request × Except Halt Reply)} {w : World J B}

lemma FineRun.run {requests : List (Request × Faults)} (hrun : FineRun L wire cfg w h)
    (hfine : FineAll L wire cfg w requests) : FineRun L wire cfg (World.run L wire cfg w requests).1
      (h ++ (World.run L wire cfg w requests).2) := by
  induction requests generalizing w h with
  | nil =>
    rw [World.run, append_nil]
    exact hrun
  | cons rf rest ih =>
    have hrest := ih (.request rf.1 rf.2 hrun hfine.1) hfine.2
    rw [append_assoc] at hrest
    exact hrest

lemma handle_ends {r : Request} (h : Sound L wire job x) (hjob : ensureJob L wire w r = .ok x.job)
    (hf : Fine L wire cfg w r f) : ∃ next, produce L wire (some job) r = some next ∧
      Ends L wire job next (handle L wire cfg x r f) := by
  have hfine := hf x.job hjob
  cases r with
  | create =>
    refine ⟨job, rfl, ?_⟩
    exact .saved (.inl h.durable) h.live h.ahead hfine
  | feed source key ipc | feedSnapshot source key ipc => exact ⟨_, rfl, feedBytes_ends h hfine⟩
  | step => exact ⟨_, rfl, stepJob_ends h hfine⟩
  | registerView spec => exact ⟨_, rfl, changeJob_ends h hfine⟩
  | dropView name => exact ⟨_, rfl, changeJob_ends h hfine⟩
  | restore state => exact ⟨_, rfl, changeJob_ends h hfine⟩
  | restoreDelta slice => exact ⟨_, rfl, changeJob_ends h hfine⟩

lemma Durable.recoverable (h : Durable L wire job st) : Recoverable L wire (some job) ⟨none, st⟩ := by
  obtain ⟨job', hback, hsame⟩ := h
  refine ⟨⟨some job', hback, .some hsame⟩, fun _ hm => (by cases hm), fun hnone => ?_⟩
  obtain ⟨p, -, hp, -⟩ := rehydrate_eq_ok.mp hback
  rw [show st.snapshot = none from hnone] at hp
  cases hp

lemma Sound.recoverable (h : Sound L wire job x) : Recoverable L wire (some job) ⟨some x.job, x.store⟩ := by
  refine ⟨h.durable.recoverable.durable, fun job' hm => ?_, h.durable.recoverable.bare⟩
  cases hm
  exact ⟨.some h.live, h.ahead⟩

variable (L wire) in
/-- How a world may look after a request, by its answer. -/
def Continues (job next : Option (Job J)) (ended : World J B × Except Halt Reply) : Prop :=
  match ended.2 with
  | .ok _ => Recoverable L wire next ended.1
  | .error (.refused _) => Recoverable L wire job ended.1
  | .error .stopped => Recoverable L wire job ended.1 ∨ Recoverable L wire next ended.1

/-- The process stops where a handler ends, or goes on. -/
lemma Ends.continues {ended : Live J B × Except Halt Reply}
    (h : Ends L wire job next ended) (answered : Bool) : Continues L wire (some job) (some next)
      (if ended.2 = .error .stopped ∨ answered = false then (⟨none, ended.1.store⟩, .error .stopped)
        else (⟨some ended.1.job, ended.1.store⟩, ended.2)) := by
  obtain ⟨x, answer⟩ := ended
  split
  · rcases answer with (status | _) | reply
    · exact .inl h.durable.recoverable
    · exact h.imp Durable.recoverable Durable.recoverable
    · exact .inr h.durable.recoverable
  · next hgoes =>
    rcases answer with (status | _) | reply
    · exact h.recoverable
    · exact absurd (.inl rfl) hgoes
    · exact h.recoverable

/-- One request. -/
lemma serve_continues {job : Option (Job J)} {r : Request} (h : Recoverable L wire job w)
    (hf : Fine L wire cfg w r f) : Continues L wire job (produce L wire job r) (serve L wire cfg w r f) := by
  obtain ⟨job', hback, hrel⟩ := h.durable
  cases hrel with
  | some hsame =>
    next job job' =>
    -- the job is known, or brought back
    obtain ⟨j, hj, hsound⟩ : ∃ j, ensureJob L wire w r = .ok j ∧ Sound L wire job ⟨j, w.store⟩ := by
      cases hm : w.memory with
      | some j =>
        obtain ⟨hlive, hahead⟩ := h.live j hm
        refine ⟨j, by simp only [ensureJob, hm], ?_, hahead, ⟨job', hback, hsame⟩⟩
        cases hlive with
        | some hlive => exact hlive
      | none =>
        exact ⟨job', by simp only [ensureJob, hm, hback], hsame, rehydrate_ahead hback, ⟨job', hback, hsame⟩⟩
    obtain ⟨next, hnext, hends⟩ := handle_ends hsound hj hf
    rw [hnext, serve, hj]
    exact hends.continues f.answered
  | none =>
    have hm : w.memory = none := by
      cases hm : w.memory with
      | none => rfl
      | some j =>
        obtain ⟨hlive, -⟩ := h.live j hm
        cases hlive
    by_cases hr : r = .create
    · subst hr
      have hj : ensureJob L wire w .create = .ok ⟨L.fresh, .default⟩ := by
        simp [ensureJob, hm, hback]
      have hsnap : w.store.snapshot = none := by
        cases hp : w.store.snapshot with
        | none => rfl
        | some p =>
          rw [rehydrate, hp] at hback
          dsimp only at hback
          split at hback
          · cases hback
          · split at hback <;> cases hback
      have hahead : Ahead (⟨L.fresh, .default⟩ : Job J) w.store := by
        refine ⟨fun e he => ?_, fun p hp => ?_⟩
        · rw [h.bare hsnap] at he
          cases he
        · rw [hsnap] at hp
          cases hp
      have hfine := hf _ hj
      rw [serve, hj]
      dsimp only
      rw [handle, createJob]
      rcases persist_cases wire (x := ⟨⟨L.fresh, .default⟩, w.store⟩) ⟨.refl _, rfl⟩ hahead
        hfine with hstop | ⟨x', hx', hres | hres⟩
      · rw [hstop]
        exact .inl ⟨⟨none, hback, .none⟩, fun _ hm' => (by cases hm'), h.bare⟩
      · rw [hres]
        dsimp only
        split
        · exact .inr hx'.durable.recoverable
        · exact hx'.recoverable
      · rw [hres]
        exact .inr hx'.durable.recoverable
    · have hnotFound : ensureJob L wire w r = .error .notFound := by
        cases r with
        | create => exact absurd rfl hr
        | _ => simp [ensureJob, hm, hback]
      rw [serve, hnotFound]
      exact h

/-- What a run leaves is what the requests that count have produced. -/
lemma FineRun.recoverable (hrun : FineRun L wire cfg w h) :
    ∃ kept, Accounts h kept ∧ Recoverable L wire (kept.foldl (produce L wire) none) w := by
  induction hrun with
  | start => exact ⟨[], .start, ⟨none, rfl, .none⟩, fun _ hm => (by cases hm), fun _ => rfl⟩
  | @request w h r f _ hfine ih =>
    obtain ⟨kept, hkept, hrec⟩ := ih
    have hnext := serve_continues hrec hfine
    have hsnoc : (kept ++ [r]).foldl (produce L wire) none =
        produce L wire (kept.foldl (produce L wire) none) r := foldl_concat _ _ _ _
    generalize serve L wire cfg w r f = ended at hnext
    obtain ⟨w', (status | _) | reply⟩ := ended
    · exact ⟨kept, .refused r status hkept, hnext⟩
    · rcases hnext with hnext | hnext
      · exact ⟨kept, .stoppedBefore r hkept, hnext⟩
      · exact ⟨kept ++ [r], .stoppedAfter r hkept, by rw [hsnoc]; exact hnext⟩
    · exact ⟨kept ++ [r], .success r reply hkept, by rw [hsnoc]; exact hnext⟩

/-- A feed with the key that its source accepted last changes nothing. -/
lemma feedBytes_repeated (h : ∀ source key op, entryFeed wire entry = some (source, key, .ok op) →
      x.job.wal.isRepeatedFeed source key = true) : (feedBytes L wire cfg x entry f).1 = x := by
  unfold feedBytes
  split
  · split
    · next source key op hentry =>
      rw [acceptFeed, if_pos (h source key op hentry)]
    · rfl
  · rfl

/-- A process that has forgotten the job brings back what the requests answered with success have
produced, and of each request it was stopped in all or nothing. A feed repeated with the key that
its source accepted last finds the job as it is and leaves it so. -/
theorem rehydrate_exact {w : World J B} {h : List (Request × Except Halt Reply)}
    (hrun : FineRun L wire cfg w h) :
    ∃ kept job, Accounts h kept ∧ rehydrate L wire w.store = .ok job ∧
      job.map (L.observe ·.flow) = (kept.foldl (produce L wire) none).map (L.observe ·.flow) ∧
      ∀ j made, job = some j → kept.foldl (produce L wire) none = some made →
        ∀ source key ipc f, made.wal.isRepeatedFeed source (some key) = true →
          (handle L wire cfg ⟨j, w.store⟩ (.feed source (some key) ipc) f).1 = ⟨j, w.store⟩ ∧
          (handle L wire cfg ⟨j, w.store⟩ (.feedSnapshot source (some key) ipc) f).1 = ⟨j, w.store⟩ := by
  obtain ⟨kept, hkept, ⟨job, hback, hrel⟩, -, -⟩ := hrun.recoverable
  refine ⟨kept, job, hkept, hback, ?_, ?_⟩
  · generalize kept.foldl (produce L wire) none = made at hrel
    cases hrel with
    | none => rfl
    | some hsame => exact congrArg some hsame.flow.observe_eq.symm
  intro j made hj hmade source key ipc f hrep
  rw [hj, hmade] at hrel
  cases hrel with
  | some hsame =>
    have hkey : j.wal.isRepeatedFeed source (some key) = true := by
      rw [hsame.repeated]
      exact hrep
    refine ⟨feedBytes_repeated fun source' key' op hentry => ?_,
      feedBytes_repeated fun source' key' op hentry => ?_⟩
    all_goals
      simp only [entryFeed, some.injEq, mk.injEq] at hentry
      obtain ⟨rfl, rfl, -⟩ := hentry
      exact hkey

/-! ## Histories -/

/-- The requests answered with success. -/
def successful (h : List (Request × Except Halt Reply)) : List Request :=
  (h.filter fun x => x.2.isOk).map Prod.fst

/-- Where no process stopped the requests answered with success are those that count. -/
lemma Accounts.eq_successful {kept : List Request} (hkept : Accounts h kept)
    (hnever : ∀ x ∈ h, x.2 ≠ .error .stopped) : kept = successful h := by
  induction hkept with
  | start => rfl
  | success r reply _ ih =>
    rw [ih fun x hx => hnever x (mem_append_left _ hx), successful, successful, filter_append, map_append]
    rfl
  | refused r status _ ih =>
    rw [ih fun x hx => hnever x (mem_append_left _ hx), successful, successful, filter_append, map_append]
    exact (append_nil _).symm
  | stoppedBefore r _ _ | stoppedAfter r _ _ => exact absurd rfl (hnever _ (mem_append_right _ (.head _)))

/-- A feed that is accepted while no snapshot is due. -/
lemma fine_feed {ipc : Bytes} {d : DeltaBatch} (hfits : (WalEntry.feed source key ipc).Fits)
    (hd : wire.delta ipc = .ok d)
    (h : (ensureJob L wire w (.feed source key ipc)).toOption.map (fun job =>
      (L.exec job.flow (.feed source (dropZeros d))).2 &&
        !(job.wal.nextSeq.noteAppend (WalEntry.feed source key ipc).encode.length false).snapshotDue cfg) = some true) :
    Fine L wire cfg w (.feed source key ipc) f := by
  intro job hjob
  rw [hjob] at h
  simp only [Except.toOption, map_some, some.injEq, and_eq_true, not_eq_true'] at h
  refine ⟨hfits, fun source' key' op hentry => ?_⟩
  simp only [entryFeed, hd, Except.map, some.injEq, mk.injEq, Except.ok.injEq] at hentry
  obtain ⟨-, -, rfl⟩ := hentry
  refine ⟨fun hrefused => ?_, fun _ hdue => ?_⟩
  · rw [h.1] at hrefused
    cases hrefused
  · rw [show (decide (WalEntry.feed source key ipc = .step)) = false from rfl, h.2] at hdue
    cases hdue

/-- A step that is logged while no snapshot is due. -/
lemma fine_step (hlog : f.append ≠ .failed)
    (h : (ensureJob L wire w .step).toOption.map (fun job => (L.exec job.flow .step).2 &&
      !(job.wal.nextSeq.noteAppend WalEntry.step.encode.length true).snapshotDue cfg) = some true) :
    Fine L wire cfg w .step f := by
  intro job hjob
  rw [hjob] at h
  simp only [Except.toOption, map_some, some.injEq, and_eq_true, not_eq_true'] at h
  refine ⟨fun hrefused => ?_, fun _ => ⟨hlog, fun hdue => ?_⟩⟩
  · rw [h.1] at hrefused
    cases hrefused
  · rw [h.2] at hdue
    cases hdue

/-! ## Single flows

What a snapshot of a new job brings back has another epoch, and nothing else. -/

/-- The epoch of a flow is not seen. -/
lemma singleFlow_withEpoch {P : Type} [PlanLogic P] (env : Env P) (s : Inner P) (c : TickCtx) (e : ℕ) :
    (singleFlow env).Indistinguishable (s, c) (s.withEpoch e, c) := by
  refine .of_simulation (fun x y => ∃ e, y = (x.1.withEpoch e, x.2)) ?_ ?_ ⟨e, rfl⟩
  · rintro x y ⟨e, rfl⟩
    rfl
  rintro ⟨s, c⟩ y op ⟨e, rfl⟩
  cases op with
  | feed source d =>
    have h := feed_withEpoch env s e source d
    exact ⟨congrArg (·.2.isOk) h.symm, e, congrArg (fun r => (r.1, c)) h⟩
  | feedSnapshot source batches =>
    have h := feedSnapshot_withEpoch env s e source batches
    exact ⟨congrArg (·.2.isOk) h.symm, e, congrArg (fun r => (r.1, c)) h⟩
  | step =>
    obtain ⟨e', h⟩ := stepDatafusion_withEpoch env s c e
    exact ⟨congrArg (·.2.2.isOk) h.symm, e', congrArg (fun r => (r.1, r.2.1)) h⟩
  | registerView spec => exact ⟨rfl, e, congrArg (·, c) (registerView_withEpoch env s e spec)⟩
  | dropView name => exact ⟨rfl, e, rfl⟩
  | restore state =>
    obtain ⟨e', h⟩ := restoreFull_withEpoch env s e (.ok state)
    exact ⟨congrArg (·.2.isOk) h.symm, e', congrArg (fun r => (r.1, c)) h⟩
  | restoreDelta slice =>
    obtain ⟨e', h⟩ := restoreDelta_withEpoch s e slice
    exact ⟨congrArg (·.2.isOk) h.symm, e', congrArg (fun r => (r.1, c)) h⟩

lemma scanEnv_fresh_exact : Exact (singleFlow scanEnv) (singleFlow scanEnv).fresh :=
  ⟨_, (Inner.new.withEpoch 1, .fresh), rfl, rfl, singleFlow_withEpoch scanEnv .new .fresh 1⟩

/-- A body is one byte, the key of the row that is inserted. -/
def keyWire : Wire where
  delta
    | [k] => .ok (keyDelta k.toNat 1)
    | _ => .error "not one byte"
  snapshot _ := .error "no snapshots"

/-- The limits where none are configured. -/
def Config.default : Config := ⟨32, 64 * 1024 * 1024, 1024 * 1024 * 1024⟩

/-- The tick, the queue of `t` and the rows of the view `v`. -/
structure Facts where
  tick : ℕ
  pending : List (List (Row × ℤ))
  rows : Option (List Row)
deriving DecidableEq

def Job.facts (job : Job (Inner StatelessPlan × TickCtx)) : Facts :=
  ⟨job.flow.1.tick, (queueOf job.flow.1.pending "t").map DeltaBatch.rows, viewRows job.flow.1 "v"⟩

def allDone : Faults := ⟨.done, .done, .done, true⟩

/-- A fed job ticks, and the process stops while it handles the next feed. -/
def stoppedFeed : List (Request × Faults) :=
  [(.create, allDone), (.feed "t" (some [7]) [1], allDone), (.step, allDone),
    (.feed "t" (some [8]) [2], { allDone with answered := false })]

lemma stoppedFeed_fine : FineAll (singleFlow scanEnv) keyWire .default .new stoppedFeed := by
  refine ⟨fun job hjob => ?_, ?_, ?_, ?_, trivial⟩
  · cases hjob
    exact ⟨by decide, scanEnv_fresh_exact⟩
  · exact fine_feed (d := keyDelta 1 1) ⟨by decide +kernel, by simp, by simp⟩ rfl (by decide +kernel)
  · exact fine_step (by decide) (by decide +kernel)
  · exact fine_feed (d := keyDelta 2 1) ⟨by decide +kernel, by simp, by simp⟩ rfl (by decide +kernel)

/-- The job comes back with its tick, and with the feed whose answer never left. -/
theorem stoppedFeed_exact :
    (rehydrate (singleFlow scanEnv) keyWire (World.run (singleFlow scanEnv) keyWire .default .new
      stoppedFeed).1.store).toOption.map (Option.map Job.facts) = some (some ⟨1, [[([.int 2], 1)]], none⟩) ∧
    ∃ kept job, Accounts (World.run (singleFlow scanEnv) keyWire .default .new stoppedFeed).2 kept ∧
      rehydrate (singleFlow scanEnv) keyWire (World.run (singleFlow scanEnv) keyWire .default .new
        stoppedFeed).1.store = .ok job ∧
      job.map ((singleFlow scanEnv).observe ·.flow) =
        (kept.foldl (produce (singleFlow scanEnv) keyWire) none).map
          ((singleFlow scanEnv).observe ·.flow) := by
  refine ⟨by decide +kernel, ?_⟩
  obtain ⟨kept, job, hkept, hback, hobs, -⟩ := rehydrate_exact (FineRun.run .start stoppedFeed_fine)
  exact ⟨kept, job, hkept, hback, hobs⟩

/-- The log cannot be written at the end of two steps; in between a view is registered. -/
def lostSteps : List (Request × Faults) :=
  [(.create, allDone), (.registerView (scanView "v" "t"), allDone), (.feed "t" none [1], allDone),
    (.step, { allDone with append := .failed }), (.registerView (scanView "w" "t"), allDone),
    (.feed "t" none [2], allDone), (.step, { allDone with append := .failed })]

/-- No request is running when the process is lost, and the steps were refused. What comes back has
ticked once: the process had ticked twice, and the requests that were answered with success not at
all. -/
theorem lostSteps_inexact : (World.run (singleFlow scanEnv) keyWire .default .new lostSteps).2.map Prod.snd =
      [.ok .done, .ok .done, .ok (.fed false), .error (.refused .serviceUnavailable), .ok .done,
        .ok (.fed false), .error (.refused .serviceUnavailable)] ∧
    (World.run (singleFlow scanEnv) keyWire .default .new lostSteps).1.memory.map Job.facts =
      some ⟨2, [], some [[.int 1], [.int 2]]⟩ ∧
    (rehydrate (singleFlow scanEnv) keyWire (World.run (singleFlow scanEnv) keyWire .default .new
      lostSteps).1.store).toOption.map (Option.map Job.facts) =
        some (some ⟨1, [[([.int 2], 1)]], some [[.int 1]]⟩) ∧
    ∀ kept, Accounts (World.run (singleFlow scanEnv) keyWire .default .new lostSteps).2 kept →
      (kept.foldl (produce (singleFlow scanEnv) keyWire) none).map Job.facts =
        some ⟨0, [[([.int 1], 1)], [([.int 2], 1)]], none⟩ := by
  have hanswers : (World.run (singleFlow scanEnv) keyWire .default .new lostSteps).2.map snd =
      [.ok .done, .ok .done, .ok (.fed false), .error (.refused .serviceUnavailable), .ok .done,
        .ok (.fed false), .error (.refused .serviceUnavailable)] := by decide +kernel
  refine ⟨hanswers, by decide +kernel, by decide +kernel, fun kept hkept => ?_⟩
  rw [hkept.eq_successful fun x hx => ?_]
  · decide +kernel
  have hmem := mem_map_of_mem (f := snd) hx
  rintro hstop
  rw [hstop] at hmem
  revert hmem
  decide

end Krishiv.Scheduler.Wal
