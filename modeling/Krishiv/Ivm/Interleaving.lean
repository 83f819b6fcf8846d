import Krishiv.Ivm.Custody
import Krishiv.Lib.Ledger

/-!
# Every interleaving of feeds and ticks

`World` is a flow together with the ticks that run on it: local ticks between their lock sections,
and remote ticks between `take_pending` and their end. `World.step` is one lock section of one of
them. A ledger numbers the deltas that `feed` accepts and records where each one went.

`World.Accounted` ties the ledger to the state: the pending queues, the deltas in the custody of
each running tick and the committed sources are what the ledger says. Every step keeps it, with two
exceptions that `Fine` excludes: a commit that fails after it has replaced the sources, and a remote
tick that returns its deltas behind newer ones.
-/

namespace Krishiv.Ivm

open Krishiv.Delta List

variable {P : Type}

/-! ## Remote ticks -/

/-- Apply the deltas of a remote tick view by view; on a failure put the views already done back. -/
def applyRemoteViews : List (Sigma fun _ : String => DeltaBatch) → NameMap IncrementalView →
    List (String × Option RecordBatch × Option RecordBatch) → List (String × DeltaBatch) →
      NameMap IncrementalView × DeltaResult (List (String × DeltaBatch))
  | [], views, _, applied => (views, .ok applied)
  | ⟨name, delta⟩ :: rest, views, undo, applied =>
    if delta.isEmpty then applyRemoteViews rest views undo applied
    else
      match views.lookup name with
      | none => applyRemoteViews rest views undo applied
      | some view =>
        match view.applyOutputDelta delta with
        | (view, .error e) =>
          let putBack := fun (views : NameMap IncrementalView)
              (u : String × Option RecordBatch × Option RecordBatch) =>
            match views.lookup u.1 with
            | some v => views.insert u.1 (v.restoreState u.2.1 u.2.2)
            | none => views
          (undo.foldl putBack (views.insert name view), .error e)
        | (next, .ok ()) =>
          applyRemoteViews rest (views.insert name next)
            (undo ++ [(name, view.snapshot, view.fullOutputBaseline)]) (applied ++ [(name, delta)])

/-- Count, stamp, log and announce one output delta of a remote tick. -/
def noteRemoteOutput (env : Env P) (st : Progress P) (out : String × DeltaBatch) : Progress P :=
  let st := handOver (countOutput st out.1 out.2) out.1 out.2
  let s := { st.inner with viewOutputTicks := st.inner.viewOutputTicks.insert out.1 st.inner.tick }
  { st with inner := retainOutput env s out.1 s.tick out.2 }

/-- The commit of a remote tick. -/
def commitRemote (s : Inner P) (sources : NameMap Source) (views : NameMap IncrementalView) : Inner P :=
  { s with views := views, sourceSnapshots := sources, tick := s.tick + 1
           stateEpoch := s.stateEpoch + 1, lastStepOutputs := ∅ }

/-- `apply_remote_tick`: advance the sources by the deltas the caller took, the views by the deltas
the executor computed. -/
def applyRemoteTick (env : Env P) (s : Inner P) (raw : NameMap (List DeltaBatch))
    (outputs : NameMap DeltaBatch) : Inner P × IvmResult StepSummary :=
  match coalescePending raw with
  | .error e => (s, .error e)
  | .ok inputs =>
    match advanceSources s.sourceSnapshots inputs with
    | .error e => (s, .error e)
    | .ok sources =>
      match applyRemoteViews outputs.entries s.views [] [] with
      | (views, .error e) => ({ s with views := views }, .error (deltaErr e))
      | (views, .ok applied) =>
        let st := applied.foldl (noteRemoteOutput env) ⟨commitRemote s sources views, ∅, .zero⟩
        (st.inner, .ok st.summary)

/-! ## Worlds -/

/-- A tick between two lock sections. -/
inductive Running (P : Type) where
  | drained (d : Drained P)
  | flagged (d : Drained P) (inputs : NameMap DeltaBatch) (rebuild : Bool) (recompute : List String)
  | remote (raw : NameMap (List DeltaBatch))

/-- The deltas in a running tick's custody. -/
def Running.raw : Running P → NameMap (List DeltaBatch)
  | .drained d => d.raw
  | .flagged d _ _ _ => d.raw
  | .remote raw => raw

/-- What a local tick read when it drained. -/
def Running.read : Running P → Option (Drained P)
  | .drained d => some d
  | .flagged d _ _ _ => some d
  | .remote _ => none

/-- What can happen to a running tick. A `cancel` is a failure of its own or a dropped future. -/
inductive TickEvent where
  | takeFlags
  | commit (c : TickCtx)
  | cancel
  | applyRemote (outputs : NameMap DeltaBatch)
  | reFeed

/-- What an event does to the tick: nothing, it goes on, it ends and its guard returns the deltas, it
ends and its caller re-feeds them, or it has committed. -/
inductive Effect (P : Type) where
  | nothing
  | goesOn (s : Inner P) (t : Running P)
  | abandons (s : Inner P)
  | refeeds (s : Inner P)
  | commits (s : Inner P)

def tickEffect [PlanLogic P] (env : Env P) (s : Inner P) (t : Running P) (e : TickEvent) : Effect P :=
  match t, e with
  | .drained d, .takeFlags =>
    match coalescePending d.raw with
    | .error _ => .abandons s
    | .ok inputs => .goesOn (takeFlags s).1 (.flagged d inputs (takeFlags s).2.1 (takeFlags s).2.2)
  | .drained _, .cancel => .abandons s
  | .flagged d inputs rebuild recompute, .commit c =>
    match finishTick env d inputs rebuild recompute c s with
    | (s, _, .ok _) => .commits s
    | (s, _, .error _) => .abandons s
  | .flagged _ _ _ _, .cancel => .abandons s
  | .remote raw, .applyRemote outputs =>
    match applyRemoteTick env s raw outputs with
    | (s, .ok _) => .commits s
    | (s, .error _) => .goesOn s (.remote raw)
  | .remote _, .reFeed => .refeeds s
  | _, _ => .nothing

/-- One lock section of one caller. -/
inductive Event where
  | feed (source : String) (d : DeltaBatch)
  | drain
  | takePending
  | tick (i : ℕ) (e : TickEvent)

/-- The flow, its running ticks, and the ledger of the accepted deltas; `deltas` lists them by
number. -/
structure World (P : Type) where
  inner : Inner P
  running : List (Running P)
  ledger : Ledger String
  deltas : List DeltaBatch

namespace World

def start (s : Inner P) : World P := ⟨s, [], .empty, []⟩

/-- The delta of a number. -/
def delta (w : World P) (n : ℕ) : DeltaBatch := (w.deltas[n]?).getD (.empty [])

def step [PlanLogic P] (env : Env P) (w : World P) : Event → World P
  | .feed source d =>
    match accept env w.inner.inputDedupEnabled w.inner source d with
    | (_, .ok (some kept)) =>
      { w with inner := (feed env w.inner source d).1, ledger := w.ledger.accept source
               deltas := w.deltas ++ [kept] }
    | _ => { w with inner := (feed env w.inner source d).1 }
  | .drain =>
    { w with inner := (Ivm.drain env w.inner).1, ledger := w.ledger.take
             running := w.running ++ [.drained (Ivm.drain env w.inner).2] }
  | .takePending =>
    { w with inner := (Ivm.takePending w.inner).1, ledger := w.ledger.take
             running := w.running ++ [.remote (Ivm.takePending w.inner).2] }
  | .tick i e =>
    match w.running[i]? with
    | none => w
    | some t =>
      match tickEffect env w.inner t e with
      | .nothing => w
      | .goesOn s t => { w with inner := s, running := w.running.set i t }
      | .abandons s =>
        { w with inner := giveBack s t.raw, running := w.running.eraseIdx i
                 ledger := w.ledger.putFront i }
      | .refeeds s =>
        { w with inner := reFeed s t.raw, running := w.running.eraseIdx i
                 ledger := w.ledger.putBack i }
      | .commits s =>
        { w with inner := s, running := w.running.eraseIdx i, ledger := w.ledger.settle i }

end World

/-! ## What one event does to a running tick -/

lemma noteRemoteOutput_framed (env : Env P) (l : List (String × DeltaBatch)) (st : Progress P) :
    Inner.Framed st.inner (l.foldl (noteRemoteOutput env) st).inner := by
  induction l generalizing st with
  | nil => exact Inner.Framed.refl _
  | cons out l ih =>
    refine Inner.Framed.trans ?_ (ih (noteRemoteOutput env st out))
    refine Inner.Framed.trans ?_ (retainOutput_framed env _ out.1 _ out.2)
    constructor <;> intros <;> rfl

lemma applyRemoteTick_spec (env : Env P) (s : Inner P) (raw : NameMap (List DeltaBatch))
    (outputs : NameMap DeltaBatch) (hapart : KeysApart s.sourceSnapshots raw) :
    match applyRemoteTick env s raw outputs with
    | (s', .ok _) => TookIn raw s s'
    | (s', .error _) => SameInput s s' := by
  unfold applyRemoteTick
  cases hin : coalescePending raw with
  | error e => exact ⟨rfl, rfl, rfl⟩
  | ok inputs =>
  dsimp only
  cases hadv : advanceSources s.sourceSnapshots inputs with
  | error e => exact ⟨rfl, rfl, rfl⟩
  | ok sources =>
  rcases applyRemoteViews outputs.entries s.views [] [] with ⟨views, e | applied⟩
  · exact ⟨rfl, rfl, rfl⟩
  · have hframe := noteRemoteOutput_framed env applied ⟨commitRemote s sources views, ∅, .zero⟩
    exact .advanced hapart hin hadv hframe.pending hframe.stateEpoch hframe.sourceSnapshots

/-! ## The ledger is right -/

namespace World

/-- The state is what the ledger says, `base` being the sources at the start; and every local tick
that still could commit has read the sources as they are. -/
structure Accounted (base : String → Row → ℤ) (w : World P) : Prop where
  exact : w.ledger.Exact
  deltas : w.deltas.length = w.ledger.accepted.length
  running : w.running.length = w.ledger.held.length
  pending : ∀ src, queueOf w.inner.pending src = (w.ledger.queued src).map w.delta
  custody : ∀ i t, w.running[i]? = some t → ∀ src, queueOf t.raw src = (w.ledger.itemsAt i src).map w.delta
  sources : ∀ src r, sourceNet w.inner.sourceSnapshots src r =
    base src r + queueNet ((w.ledger.settled src).map w.delta) r
  current : ∀ t ∈ w.running, ∀ d, t.read = some d → d.epoch ≤ w.inner.stateEpoch ∧
    (d.epoch = w.inner.stateEpoch → d.snapshots = w.inner.sourceSnapshots)
  inputs : ∀ d inputs rebuild recompute,
    Running.flagged d inputs rebuild recompute ∈ w.running → coalescePending d.raw = .ok inputs

/-- What each event must not meet: a commit that can fail after the sources are replaced or that takes
one row for another, and a re-feed behind deltas of the same source that arrived in the meantime. -/
def Fine (w : World P) : Event → Prop
  | .tick i (.commit _) => ∀ t, w.running[i]? = some t →
      KeysApart w.inner.sourceSnapshots t.raw ∧ CommitCannotFail w.inner t.raw
  | .tick i (.applyRemote _) => ∀ t, w.running[i]? = some t → KeysApart w.inner.sourceSnapshots t.raw
  | .tick i .reFeed => ∀ t, w.running[i]? = some t →
      ∀ src, queueOf t.raw src = [] ∨ queueOf w.inner.pending src = []
  | _ => True

lemma accounted_start (s : Inner P) (h : s.pending = ∅) : (start s).Accounted (sourceNet s.sourceSnapshots) where
  exact := Ledger.exact_empty
  deltas := rfl
  running := rfl
  pending src := by rw [show (start s).inner.pending = ∅ from h]; rfl
  custody := by simp [start]
  sources src r := by
    show sourceNet s.sourceSnapshots src r = _ + (0 : ℤ)
    rw [add_zero]
  current := by simp [start]
  inputs := by simp [start]

variable {base : String → Row → ℤ} {w : World P} {t : Running P} {i : ℕ} {s : Inner P}

section

variable (h : w.Accounted base)

include h

/-- Another caller's section that leaves the input side alone. -/
lemma Accounted.sameInput (hs : SameInput w.inner s) : ({ w with inner := s } : World P).Accounted base := by
  refine { h with pending := fun src => ?_, sources := fun src r => ?_, current := fun t ht d hd => ?_ }
  · rw [hs.pending]; exact h.pending src
  · rw [hs.sources]; exact h.sources src r
  · rw [hs.epoch, hs.sources]
    exact h.current t ht d hd

/-- A feed that accepts a delta: it gets the next number, at the end of its queue. -/
lemma Accounted.accepted (source : String) (d : DeltaBatch) :
    ({ w with inner := { w.inner with pending := pushTo w.inner.pending source d },
              ledger := w.ledger.accept source, deltas := w.deltas ++ [d] } : World P).Accounted base := by
  -- an old number still names the same delta
  have hold : ∀ src, ∀ n ∈ w.ledger.everywhere src, ((w.deltas ++ [d])[n]?).getD (.empty []) = w.delta n := by
    intro src n hn
    have hlt := h.exact.lt_length hn
    rw [← h.deltas] at hlt
    rw [getElem?_append_left hlt]
    rfl
  have hmap : ∀ src (l : List ℕ), (∀ n ∈ l, n ∈ w.ledger.everywhere src) →
      l.map (fun n => ((w.deltas ++ [d])[n]?).getD (.empty [])) = l.map w.delta :=
    fun src l hl => map_congr_left fun n hn => hold src n (hl n hn)
  refine { h with exact := h.exact.accept source, deltas := ?_, pending := fun src => ?_,
                  custody := fun i t ht src => ?_, sources := fun src r => ?_ }
  · show (w.deltas ++ [d]).length = (w.ledger.accepted ++ [source]).length
    simp [h.deltas]
  · show queueOf _ src = (w.ledger.queued src ++ _).map fun n => _
    rw [queueOf_pushTo, map_append, h.pending src]
    congr 1
    · exact (hmap src _ fun n hn =>
        mem_append_left _ (mem_append_left _ hn)).symm
    by_cases hs : src = source
    · rw [if_pos hs, if_pos hs, ← h.deltas]
      simp [delta]
    · rw [if_neg hs, if_neg hs]
      rfl
  · rw [h.custody i t ht src]
    refine (hmap src _ fun n hn => ?_).symm
    have hheld := (w.ledger.held_perm i src).mem_iff.mpr (mem_append_left _ hn)
    exact mem_append_left _ (mem_append_right _ hheld)
  · show _ = base src r + queueNet ((w.ledger.settled src).map _) r
    rw [h.sources src r]
    congr 2
    exact (hmap src _ fun n hn => mem_append_right _ hn).symm

/-- A tick takes everything that is pending. -/
lemma Accounted.took (hraw : t.raw = w.inner.pending) (hread : ∀ d, t.read = some d → d.epoch = w.inner.stateEpoch ∧
      d.snapshots = w.inner.sourceSnapshots)
    (hflag : ∀ d inputs rebuild recompute, t ≠ .flagged d inputs rebuild recompute) :
    ({ w with inner := { w.inner with pending := ∅ }, running := w.running ++ [t], ledger := w.ledger.take } :
      World P).Accounted base := by
  refine { h with exact := h.exact.take, running := ?_, pending := fun _ => rfl, custody := fun i t' ht' src => ?_,
                  current := forall_mem_append.mpr ⟨h.current, forall_mem_singleton.mpr fun d hd => ?_⟩
                  inputs := fun d inputs rebuild recompute hmem => ?_ }
  · show (w.running ++ [t]).length = (w.ledger.held ++ [_]).length
    simp [h.running]
  · have hi : i < w.running.length ∨ i = w.running.length := by
      have hlt := (List.getElem?_eq_some_iff.mp ht').1
      rw [length_append, length_singleton] at hlt
      omega
    rcases hi with hi | hi
    · have hat : (w.running ++ [t])[i]? = w.running[i]? := getElem?_append_left hi
      have hitems : w.ledger.take.itemsAt i src = w.ledger.itemsAt i src := by
        rw [h.running] at hi
        simp only [Ledger.itemsAt, Ledger.take]
        rw [getElem?_append_left hi]
      rw [hitems]
      exact h.custody i t' (hat ▸ ht') src
    · subst hi
      have htt : t' = t := by simpa using ht'.symm
      have hitems : w.ledger.take.itemsAt w.running.length src = w.ledger.queued src := by
        rw [h.running]
        simp [Ledger.itemsAt, Ledger.take]
      rw [hitems, htt, hraw]
      exact h.pending src
  · obtain ⟨hepoch, hsnap⟩ := hread d hd
    exact ⟨hepoch.le, fun _ => hsnap⟩
  · rcases mem_append.mp hmem with hold | hnew
    · exact h.inputs d inputs rebuild recompute hold
    · exact absurd (mem_singleton.mp hnew).symm (hflag d inputs rebuild recompute)

/-- A running tick that goes on with the same deltas. -/
lemma Accounted.goesOn {t t' : Running P} (ht : w.running[i]? = some t)
    (hraw : t'.raw = t.raw) (hread : t'.read = t.read)
    (hin : ∀ d inputs rebuild recompute, t' = .flagged d inputs rebuild recompute →
      coalescePending d.raw = .ok inputs) : ({ w with running := w.running.set i t' } : World P).Accounted base := by
  refine { h with running := ?_, custody := fun j u hu src => ?_, current := fun u hu d hd => ?_,
                  inputs := fun d inputs rebuild recompute hmem => ?_ }
  · show (w.running.set i t').length = _
    rw [length_set]
    exact h.running
  · by_cases hj : i = j
    · subst hj
      have hlt := (List.getElem?_eq_some_iff.mp ht).1
      have hu' : u = t' := by
        have : (w.running.set i t')[i]? = some t' := getElem?_set_self hlt
        exact Option.some.inj (hu.symm.trans this)
      rw [hu', hraw]
      exact h.custody i t ht src
    · have hat : (w.running.set i t')[j]? = w.running[j]? := getElem?_set_ne hj
      exact h.custody j u (hat ▸ hu) src
  · rcases mem_or_eq_of_mem_set hu with hold | hnew
    · exact h.current u hold d hd
    · rw [hnew, hread] at hd
      exact h.current t (mem_of_getElem? ht) d hd
  · rcases mem_or_eq_of_mem_set hmem with hold | hnew
    · exact h.inputs d inputs rebuild recompute hold
    · exact hin d inputs rebuild recompute hnew.symm

/-- Removing a tick keeps what is known of the others. -/
private lemma custody_eraseIdx (i : ℕ) {l : Ledger String}
    (hheld : l.held = w.ledger.held.eraseIdx i) (j : ℕ) (t : Running P)
    (ht : (w.running.eraseIdx i)[j]? = some t) (src : String) :
    queueOf t.raw src = (l.itemsAt j src).map w.delta := by
  rw [getElem?_eraseIdx] at ht
  have hitems : l.itemsAt j src = w.ledger.itemsAt (if j < i then j else j + 1) src := by
    simp only [Ledger.itemsAt]
    rw [hheld, getElem?_eraseIdx]
    split <;> rfl
  rw [hitems]
  split at ht
  · next hlt => rw [if_pos hlt]; exact h.custody j t ht src
  · next hge => rw [if_neg hge]; exact h.custody (j + 1) t ht src

/-- A tick ends: its deltas are back in the queue, or in the sources, which no other tick has read then. -/
lemma Accounted.ended {l : Ledger String} (hexact : l.Exact)
    (hheld : l.held = w.ledger.held.eraseIdx i) (haccepted : l.accepted = w.ledger.accepted)
    (hpending : ∀ src, queueOf s.pending src = (l.queued src).map w.delta)
    (hsources : ∀ src r, sourceNet s.sourceSnapshots src r = base src r + queueNet ((l.settled src).map w.delta) r)
    (hepoch : w.inner.stateEpoch ≤ s.stateEpoch)
    (hsame : s.stateEpoch = w.inner.stateEpoch → s.sourceSnapshots = w.inner.sourceSnapshots) :
    ({ w with inner := s, running := w.running.eraseIdx i, ledger := l } :
      World P).Accounted base := by
  refine ⟨hexact, ?_, ?_, hpending, custody_eraseIdx h i hheld, hsources, fun t ht d hd => ?_,
    fun d inputs rebuild recompute hm => h.inputs d inputs rebuild recompute (mem_of_mem_eraseIdx hm)⟩
  · rw [haccepted]
    exact h.deltas
  · rw [hheld, length_eraseIdx, length_eraseIdx, h.running]
  obtain ⟨hle, heq⟩ := h.current t (mem_of_mem_eraseIdx ht) d hd
  refine ⟨hle.trans hepoch, fun he => ?_⟩
  -- the epoch did not move, so neither did the sources
  have hstill : s.stateEpoch = w.inner.stateEpoch := le_antisymm (he ▸ hle) hepoch
  rw [hsame hstill]
  exact heq (he.trans hstill)

end

/-- What each effect stands for, at an event that is fine. -/
lemma Accounted.tickEffect_spec [PlanLogic P] (env : Env P) (h : w.Accounted base)
    (ht : w.running[i]? = some t) {e : TickEvent} (hf : w.Fine (.tick i e)) : match tickEffect env w.inner t e with
    | .nothing => True
    | .goesOn s t' => SameInput w.inner s ∧ t'.raw = t.raw ∧ t'.read = t.read ∧
        ∀ d inputs rebuild recompute, t' = .flagged d inputs rebuild recompute → coalescePending d.raw = .ok inputs
    | .abandons s => SameInput w.inner s
    | .refeeds s => s = w.inner ∧ e = .reFeed
    | .commits s => TookIn t.raw w.inner s := by
  have hmem := mem_of_getElem? ht
  cases t with
  | drained d =>
    cases e with
    | takeFlags =>
      unfold tickEffect
      dsimp only
      cases hc : coalescePending d.raw with
      | error e => exact ⟨rfl, rfl, rfl⟩
      | ok inputs =>
        refine ⟨⟨rfl, rfl, rfl⟩, rfl, rfl, ?_⟩
        intro d' inputs' rebuild recompute heq
        cases heq
        exact hc
    | cancel => exact ⟨rfl, rfl, rfl⟩
    | commit c => trivial
    | applyRemote outputs => trivial
    | reFeed => trivial
  | flagged d inputs rebuild recompute =>
    cases e with
    | commit c =>
      have hin := h.inputs d inputs rebuild recompute hmem
      have hcur := (h.current _ hmem d rfl).2
      obtain ⟨hapart, hcommit⟩ := hf _ ht
      have hend := finishTick_spec env rebuild recompute c hin hcur hapart hcommit
      unfold tickEffect
      dsimp only
      generalize finishTick env d inputs rebuild recompute c w.inner = r at hend
      obtain ⟨s, c', _ | _⟩ := r <;> exact hend.1
    | cancel => exact ⟨rfl, rfl, rfl⟩
    | takeFlags => trivial
    | applyRemote outputs => trivial
    | reFeed => trivial
  | remote raw =>
    cases e with
    | applyRemote outputs =>
      have hend := applyRemoteTick_spec env w.inner raw outputs (hf _ ht)
      unfold tickEffect
      dsimp only
      generalize applyRemoteTick env w.inner raw outputs = r at hend
      obtain ⟨s, _ | _⟩ := r
      · exact ⟨hend, rfl, rfl, fun _ _ _ _ heq => by cases heq⟩
      · exact hend
    | reFeed => exact ⟨rfl, rfl⟩
    | takeFlags => trivial
    | commit c => trivial
    | cancel => trivial

/-- Every event that is fine keeps the ledger right. -/
lemma Accounted.step [PlanLogic P] (env : Env P) (h : w.Accounted base) (e : Event)
    (hf : w.Fine e) : (w.step env e).Accounted base := by
  cases e with
  | feed source d =>
    obtain ⟨seen, trackers, dropped, hstate⟩ := accept_state env w.inner.inputDedupEnabled w.inner source d
    unfold World.step
    dsimp only
    split
    · next s₁ kept hacc =>
      rw [hacc] at hstate
      have hs₁ : s₁ = _ := hstate
      have hfeed : SameInput { w.inner with pending := pushTo w.inner.pending source kept }
          (feed env w.inner source d).1 := by
        unfold feed
        rw [hacc, hs₁]
        dsimp only
        split <;> exact ⟨rfl, rfl, rfl⟩
      exact (h.accepted source kept).sameInput hfeed
    · next hacc =>
      have hfeed : SameInput w.inner (feed env w.inner source d).1 := by
        unfold feed
        split
        · next s₁ e hs => rw [hs] at hstate; rw [show s₁ = _ from hstate]; exact ⟨rfl, rfl, rfl⟩
        · next s₁ hs => rw [hs] at hstate; rw [show s₁ = _ from hstate]; exact ⟨rfl, rfl, rfl⟩
        · next s₁ kept hs => exact absurd hs (hacc s₁ kept)
      exact h.sameInput hfeed
  | drain =>
    refine (h.took rfl (fun d hd => ?_) fun _ _ _ _ heq => by cases heq).sameInput ⟨rfl, rfl, rfl⟩
    cases hd
    exact ⟨rfl, rfl⟩
  | takePending =>
    exact (h.took rfl (fun d hd => by cases hd) fun _ _ _ _ heq => by cases heq).sameInput ⟨rfl, rfl, rfl⟩
  | tick i e =>
    unfold World.step
    dsimp only
    split
    · exact h
    next t ht =>
    have hspec := h.tickEffect_spec env ht hf
    split
    · exact h
    · next s t' heff =>
      rw [heff] at hspec
      obtain ⟨hsame, hraw, hread, hin⟩ := hspec
      exact (h.sameInput hsame).goesOn ht hraw hread hin
    · next s heff =>
      rw [heff] at hspec
      have h' := h.sameInput hspec
      refine h'.ended (l := w.ledger.putFront i) (h.exact.putFront i) rfl rfl (fun src => ?_) h'.sources le_rfl
        fun _ => rfl
      show _ = (w.ledger.itemsAt i src ++ w.ledger.queued src).map w.delta
      rw [queueOf_giveBack, h.custody i t ht src, h'.pending src, map_append]
      rfl
    · next s heff =>
      rw [heff] at hspec
      rw [hspec.1]
      refine h.ended (l := w.ledger.putBack i) (h.exact.putBack i) rfl rfl (fun src => ?_) h.sources le_rfl
        fun _ => rfl
      show _ = (w.ledger.queued src ++ w.ledger.itemsAt i src).map w.delta
      rw [queueOf_reFeed, h.custody i t ht src, h.pending src, map_append]
    · next s heff =>
      rw [heff] at hspec
      refine h.ended (l := w.ledger.settle i) (h.exact.settle i) rfl rfl (fun src => ?_) (fun src r => ?_)
        hspec.epoch_le hspec.same_epoch
      · rw [hspec.pending]
        exact h.pending src
      · show _ = base src r + queueNet ((w.ledger.settled src ++ w.ledger.itemsAt i src).map w.delta) r
        rw [hspec.sources src r, h.sources src r, h.custody i t ht src, map_append, queueNet_append,
          add_assoc]

/-- The worlds that fine events lead to. -/
inductive FineRun [PlanLogic P] (env : Env P) (s : Inner P) : World P → Prop
  | start : FineRun env s (start s)
  | step {w : World P} {e : Event} : FineRun env s w → w.Fine e → FineRun env s (w.step env e)

lemma FineRun.accounted [PlanLogic P] {env : Env P} (hs : s.pending = ∅) (hw : FineRun env s w) :
    w.Accounted (sourceNet s.sourceSnapshots) := by
  induction hw with
  | start => exact accounted_start s hs
  | step _ hf ih => exact ih.step env _ hf

/-- Every accepted delta is in one place, and the places are what the state holds. -/
structure Placed (base : String → Row → ℤ) (w : World P) : Prop where
  once : ∀ src, ∀ n ∈ w.ledger.numbers src, (w.ledger.queued src).count n +
      ((w.ledger.held.map (Holder.items · src)).map (List.count n)).sum +
      (w.ledger.settled src).count n = 1
  pending : ∀ src, queueOf w.inner.pending src = (w.ledger.queued src).map w.delta
  custody : ∀ i t, w.running[i]? = some t → ∀ src, queueOf t.raw src = (w.ledger.itemsAt i src).map w.delta
  committed : ∀ src r, sourceNet w.inner.sourceSnapshots src r =
    base src r + queueNet ((w.ledger.settled src).map w.delta) r

/-- The event ends the tick and returns its deltas to the queues. -/
def GivesBack [PlanLogic P] (env : Env P) (w : World P) (t : Running P) (e : TickEvent) : Prop :=
  ∃ s, tickEffect env w.inner t e = .abandons s ∨ tickEffect env w.inner t e = .refeeds s

/-- A scan of `t`, not yet fed. -/
def scanFlow : Inner StatelessPlan := registerView scanEnv .new (scanView "v" "t")

/-- One delta is fed, a tick drains it and takes the marks, a second delta is fed, the tick is
cancelled. -/
def cancelledTick : World StatelessPlan :=
  ((((start scanFlow).step scanEnv (.feed "t" (keyDelta 1 1))).step scanEnv .drain).step scanEnv
    (.tick 0 .takeFlags)).step scanEnv (.feed "t" (keyDelta 2 1))

/-- A remote tick takes the first delta, a second one is fed, the remote tick fails and is re-fed. -/
def refedTick : World StatelessPlan :=
  (((start scanFlow).step scanEnv (.feed "t" (keyDelta 1 1))).step scanEnv .takePending).step scanEnv
    (.feed "t" (keyDelta 2 1))

/-- A flow that records lineage. -/
def lineageFlow : Inner StatelessPlan := { (Inner.new : Inner StatelessPlan) with provenance := some [] }

/-- A row with two columns of one name. The second is a struct with a time zone that does not parse, which
Arrow cannot display; it is not looked at when rows are merged. -/
def twiceNamed : DeltaBatch :=
  ⟨[⟨"k", .int64, true⟩, ⟨"v", .int64, true⟩, ⟨"v", .nested "Struct(Timestamp(s, \"x\"))" false true, true⟩],
    [([.int 1, .int 5, .nested "" 1], 1)]⟩

/-- One delta is fed and a tick runs on it. -/
def lineageTick : World StatelessPlan :=
  ((((start lineageFlow).step scanEnv (.feed "t" twiceNamed)).step scanEnv .drain).step scanEnv
    (.tick 0 .takeFlags)).step scanEnv (.tick 0 (.commit .fresh))

end World

end Krishiv.Ivm
