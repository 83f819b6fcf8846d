import Krishiv.Ivm.Input
import Krishiv.Ivm.Scan

/-!
# In-order streams under a lateness bound

A lateness bound drops insertions that arrive behind the watermark; retractions always pass. So when
the insertion of a row was dropped, its retraction finds nothing to cancel and the row gets a
negative weight in the source, although the stream was in order.

Beside the flow, `LateStream` keeps the Z-set that was offered and the part of it that was dropped.
What the source and its queue hold is exactly the rest, only insertions are ever dropped, and so no
row falls further below zero than the weight of its dropped insertions.
-/

namespace Krishiv.Ivm

open Krishiv.Delta ZSet

variable {P : Type}

/-! ## What is dropped of a delta -/

/-- Rows of weight zero or more can only be missing. -/
lemma weight_filter_le {l : List (Row × ℤ)} {keep : Row × ℤ → Bool}
    (h : ∀ p ∈ l, keep p = false → 0 ≤ p.2) (r : Row) : weight (l.filter keep) r ≤ weight l r := by
  induction l with
  | nil => exact le_refl _
  | cons p l ih =>
    have hrest := ih fun q hq => h q (List.mem_cons_of_mem _ hq)
    have hp := h p List.mem_cons_self
    rw [List.filter_cons, weight_cons]
    split
    · rw [weight_cons]
      omega
    · next hkeep =>
      have hnonneg := hp (by simpa using hkeep)
      split <;> omega

/-- The bound drops insertions only. -/
lemma boundLateness_net_le (tracker : WatermarkTracker) (d : DeltaBatch) (r : Row) :
    (boundLateness tracker d).2.net r ≤ d.net r := by
  refine weight_filter_le (fun p _ hp => ?_) r
  rw [Bool.not_eq_false', Bool.and_eq_true] at hp
  exact of_decide_eq_true hp.1

lemma feedLateness_net_le (s : Inner P) (source : String) (d : DeltaBatch) (r : Row) :
    (feedLateness s source d).2.net r ≤ d.net r := by
  unfold feedLateness applyLateness
  dsimp only
  split
  · exact le_refl _
  · split
    · exact le_refl _
    · exact boundLateness_net_le _ d r

/-- So does deduplication. -/
lemma dedupFilter_weight_le (env : Env P) (capacity evictBatch : ℕ) (schema : Schema)
    (l : List (Row × ℤ)) (w : DedupWindow) {out : List (Row × ℤ)}
    (h : (dedupFilter env capacity evictBatch schema l w).2 = .ok out) (r : Row) : weight out r ≤ weight l r := by
  -- a row that is kept is in front of what is kept of the rest
  have hkept : ∀ {x : IvmResult (List (Row × ℤ))} {p : Row × ℤ} {l out : List (Row × ℤ)},
      (∀ out, x = .ok out → weight out r ≤ weight l r) → x.map (p :: ·) = .ok out →
      weight out r ≤ weight (p :: l) r := by
    intro x p l out hx h
    cases x with
    | error e => cases h
    | ok rest =>
      cases h
      have := hx rest rfl
      rw [weight_cons, weight_cons]
      omega
  induction l generalizing w out with
  | nil =>
    cases h
    exact le_refl _
  | cons p l ih =>
    unfold dedupFilter at h
    split at h
    · exact hkept (fun out => ih w) h
    next hpos =>
    split at h
    · cases h
    split at h
    · have := ih w h
      rw [weight_cons]
      split <;> omega
    · exact hkept (fun out => ih _) h

variable {env : Env P} {source : String} {d : DeltaBatch}

/-- What deduplication and the bound leave of a delta together. -/
lemma accept_net_le {dedup : Bool} {s : Inner P} {kept : Option DeltaBatch}
    (h : (accept env dedup s source d).2 = .ok kept) (r : Row) :
    ((kept.map (DeltaBatch.net · r)).getD 0) ≤ d.net r := by
  obtain ⟨s₁, d₁, hd₁, rfl⟩ := accept_ok h
  have hle : d₁.net r ≤ d.net r := by
    rcases hd₁ with rfl | ⟨w, rows, hrows, rfl⟩
    · exact le_refl _
    · exact dedupFilter_weight_le env _ _ _ _ _ hrows r
  have hlate := feedLateness_net_le s₁ source d₁ r
  split
  · next he =>
    rcases he with he | he
    · rwa [DeltaBatch.net_of_isEmpty he r] at hle
    · rw [DeltaBatch.net_of_isEmpty he r] at hlate
      exact hlate.trans hle
  · exact hlate.trans hle

/-- What a feed adds to the queue of its source. -/
def acceptedNet (env : Env P) (s : Inner P) (source : String) (d : DeltaBatch) (r : Row) : ℤ :=
  match (accept env s.inputDedupEnabled s source d).2 with
  | .ok kept => (kept.map (DeltaBatch.net · r)).getD 0
  | .error _ => 0

lemma acceptedNet_le {s : Inner P} (h : (feed env s source d).2 = .ok ()) (r : Row) :
    acceptedNet env s source d r ≤ d.net r := by
  unfold acceptedNet
  split
  · next kept hk => exact accept_net_le hk r
  next e he =>
  exfalso
  unfold feed at h
  rw [show accept env s.inputDedupEnabled s source d = (_, .error e) from Prod.ext rfl he] at h
  cases h

lemma acceptedNet_refused {s : Inner P} {e : IvmError} (h : (feed env s source d).2 = .error e)
    (r : Row) : acceptedNet env s source d r = 0 := by
  unfold feed at h
  unfold acceptedNet
  generalize accept env s.inputDedupEnabled s source d = accepted at h
  obtain ⟨s₁, e | _ | kept⟩ := accepted
  · rfl
  · cases h
  · cases h

/-- The sources stay as they are, and the queue of one grows by what was accepted. -/
lemma feed_net (env : Env P) (s : Inner P) (source : String) (d : DeltaBatch) :
    (feed env s source d).1.sourceSnapshots = s.sourceSnapshots ∧
    ∀ src r, queueNet (queueOf (feed env s source d).1.pending src) r =
      queueNet (queueOf s.pending src) r + if src = source then acceptedNet env s source d r else 0 := by
  refine ⟨(feed_queues env s source d).1, fun src r => ?_⟩
  obtain ⟨seen, trackers, dropped, hstate⟩ := accept_state env s.inputDedupEnabled s source d
  unfold feed acceptedNet
  generalize accept env s.inputDedupEnabled s source d = accepted at hstate
  obtain ⟨s₁, e | _ | kept⟩ := accepted
  · rw [show s₁ = _ from hstate]
    simp
  · rw [show s₁ = _ from hstate]
    simp
  have hpending : s₁.pending = s.pending := by rw [show s₁ = _ from hstate]
  dsimp only
  have hpush : ∀ s₂ : Inner P, s₂.pending = s₁.pending → queueNet (queueOf (pushTo s₂.pending source kept) src) r =
        queueNet (queueOf s.pending src) r + if src = source then kept.net r else 0 := by
    intro s₂ hs₂
    rw [hs₂, hpending, queueOf_pushTo, queueNet_append]
    split <;> simp [queueNet]
  split <;> exact hpush _ rfl

/-! ## Streams -/

/-- A flow, with the Z-set offered to each source and the part of it that was dropped. -/
structure LateStream (P : Type) where
  inner : Inner P
  offered : String → Row → ℤ
  dropped : String → Row → ℤ

inductive LateStream.Event where
  | register (spec : IncrementalViewSpec)
  | feed (source : String) (d : DeltaBatch)
  | step (c : TickCtx)

/-- One more entry of a Z-set per source. -/
def addAt (m : String → Row → ℤ) (source : String) (w : Row → ℤ) : String → Row → ℤ :=
  fun src r => m src r + if src = source then w r else 0

/-- A refused feed offers nothing. -/
def LateStream.act [PlanLogic P] (env : Env P) (s : LateStream P) : Event → LateStream P
  | .register spec => { s with inner := registerView env s.inner spec }
  | .feed source d =>
    match feed env s.inner source d with
    | (inner, .ok ()) =>
      ⟨inner, addAt s.offered source d.net,
        addAt s.dropped source fun r => d.net r - acceptedNet env s.inner source d r⟩
    | (inner, .error _) => { s with inner }
  | .step c => { s with inner := (stepDatafusion env s.inner c).1 }

variable {s : LateStream P}

lemma LateStream.act_feed_ok [PlanLogic P] {inner : Inner P} (h : feed env s.inner source d = (inner, .ok ())) :
    s.act env (.feed source d) = ⟨inner, addAt s.offered source d.net,
      addAt s.dropped source fun r => d.net r - acceptedNet env s.inner source d r⟩ := by
  simp [LateStream.act, h]

lemma LateStream.act_feed_refused [PlanLogic P] {inner : Inner P} {e : IvmError}
    (h : feed env s.inner source d = (inner, .error e)) : s.act env (.feed source d) = { s with inner } := by
  simp [LateStream.act, h]

/-- Each retraction follows the insertion it takes back. A tick takes no row for another, and its commit does
not fail halfway. -/
def LateStream.InOrder [PlanLogic P] (env : Env P) (s : LateStream P) : Event → Prop
  | .register _ => True
  | .feed source d => ∀ r, 0 ≤ (s.act env (.feed source d)).offered source r
  | .step _ => KeysApart s.inner.sourceSnapshots s.inner.pending ∧ CommitCannotFail s.inner s.inner.pending

/-- The states of in-order streams into a flow that starts without data. -/
inductive InOrderRun [PlanLogic P] (env : Env P) : LateStream P → Prop
  | start (s : Inner P) : s.pending = ∅ → s.sourceSnapshots = ∅ →
      InOrderRun env ⟨s, fun _ _ => 0, fun _ _ => 0⟩
  | act {s : LateStream P} (e : LateStream.Event) : InOrderRun env s → s.InOrder env e →
      InOrderRun env (s.act env e)

/-- What was offered is in the source, in its queue, or dropped. No retraction is dropped, so the
source owes at most what was. -/
structure Balanced (s : LateStream P) : Prop where
  total : ∀ src r, sourceNet s.inner.sourceSnapshots src r +
    queueNet (queueOf s.inner.pending src) r = s.offered src r - s.dropped src r
  offered : ∀ src r, 0 ≤ s.offered src r
  dropped : ∀ src r, 0 ≤ s.dropped src r
  owed : ∀ src r, -s.dropped src r ≤ sourceNet s.inner.sourceSnapshots src r

lemma Balanced.feed [PlanLogic P] (h : Balanced s) (hin : s.InOrder env (.feed source d)) :
    Balanced (s.act env (.feed source d)) := by
  obtain ⟨hsources, hqueue⟩ := feed_net env s.inner source d
  have hoffered : ∀ r, 0 ≤ (s.act env (.feed source d)).offered source r := hin
  cases hf : Ivm.feed env s.inner source d with
  | mk inner result =>
  rw [hf] at hsources hqueue
  cases result with
  | error e =>
    rw [LateStream.act_feed_refused hf]
    -- nothing was accepted, and nothing is counted
    have hnone := acceptedNet_refused (by rw [hf] : (Ivm.feed env s.inner source d).2 = .error e)
    refine ⟨fun src r => ?_, h.offered, h.dropped, fun src r => ?_⟩
    · show sourceNet inner.sourceSnapshots src r + queueNet (queueOf inner.pending src) r = _
      rw [hsources, hqueue, hnone, ite_self, add_zero]
      exact h.total src r
    · show _ ≤ sourceNet inner.sourceSnapshots src r
      rw [hsources]
      exact h.owed src r
  | ok _ =>
    rw [LateStream.act_feed_ok hf] at hoffered ⊢
    have hle := acceptedNet_le (by rw [hf] : (Ivm.feed env s.inner source d).2 = .ok ())
    have hdropped : ∀ src r, s.dropped src r ≤ addAt s.dropped source
        (fun r => d.net r - acceptedNet env s.inner source d r) src r := by
      intro src r
      have := hle r
      dsimp only [addAt]
      split <;> omega
    refine ⟨fun src r => ?_, fun src r => ?_, fun src r => (h.dropped src r).trans (hdropped src r),
      fun src r => ?_⟩
    · have := h.total src r
      dsimp only [addAt] at hsources hqueue ⊢
      rw [hsources, hqueue]
      split <;> omega
    · by_cases hsrc : src = source
      · rw [hsrc]
        exact hoffered r
      · dsimp only [addAt]
        rw [if_neg hsrc, add_zero]
        exact h.offered src r
    · show _ ≤ sourceNet inner.sourceSnapshots src r
      rw [hsources]
      exact (neg_le_neg (hdropped src r)).trans (h.owed src r)

lemma Balanced.step [PlanLogic P] (h : Balanced s) (c : TickCtx)
    (hin : s.InOrder env (.step c)) : Balanced (s.act env (.step c)) := by
  have hinput := (stepDatafusion_input env s.inner c hin.1 hin.2).2
  refine ⟨fun src r => ?_, h.offered, h.dropped, fun src r => ?_⟩
  · show sourceNet (stepDatafusion env s.inner c).1.sourceSnapshots src r +
      queueNet (queueOf (stepDatafusion env s.inner c).1.pending src) r = _
    rcases hinput with ⟨-, hqueue, hsources⟩ | ⟨-, hqueue, hsources⟩
    · rw [hqueue, hsources]
      exact (add_zero _).trans (h.total src r)
    · rw [hqueue, hsources]
      exact h.total src r
  show _ ≤ sourceNet (stepDatafusion env s.inner c).1.sourceSnapshots src r
  rcases hinput with ⟨-, -, hsources⟩ | ⟨-, -, hsources⟩
  · -- the queue is in the source now, and what was offered covers all of it
    have htotal := h.total src r
    have := h.offered src r
    rw [hsources]
    show -s.dropped src r ≤ _
    omega
  · rw [hsources]
    exact h.owed src r

lemma InOrderRun.balanced [PlanLogic P] (h : InOrderRun env s) : Balanced s := by
  induction h with
  | start s hpending hsources =>
    have hnet : ∀ src r, sourceNet s.sourceSnapshots src r = 0 := by
      intro src r
      rw [hsources]
      rfl
    refine ⟨fun src r => ?_, fun _ _ => le_refl _, fun _ _ => le_refl _, fun src r => ?_⟩
    · show sourceNet s.sourceSnapshots src r + queueNet (queueOf s.pending src) r = _
      rw [hnet, hpending]
      rfl
    · show -(0 : ℤ) ≤ sourceNet s.sourceSnapshots src r
      rw [hnet, neg_zero]
  | @act s e _ hin ih =>
    cases e with
    | register spec =>
      -- a registration may declare a bound, but holds no rows
      have hsame : (registerView env s.inner spec).sourceSnapshots = s.inner.sourceSnapshots ∧
          (registerView env s.inner spec).pending = s.inner.pending := by
        rcases registerView_state env s.inner spec with ⟨-, hs⟩ | ⟨_, _, _, _, _, -, hs⟩ <;> rw [hs] <;>
          exact ⟨rfl, rfl⟩
      refine ⟨fun src r => ?_, ih.offered, ih.dropped, fun src r => ?_⟩
      · show sourceNet (registerView env s.inner spec).sourceSnapshots src r +
          queueNet (queueOf (registerView env s.inner spec).pending src) r = _
        rw [hsame.1, hsame.2]
        exact ih.total src r
      · show _ ≤ sourceNet (registerView env s.inner spec).sourceSnapshots src r
        rw [hsame.1]
        exact ih.owed src r
    | feed source d => exact ih.feed hin
    | step c => exact ih.step c hin

/-! ## What the source can owe -/

/-- A view over `t` that bounds the lateness of `k` by zero. -/
def boundedView : IncrementalViewSpec :=
  { scanView "v" "t" with lateness := [⟨"k", 0⟩] }

/-- The stream `(k, w)` of one source, under that bound. -/
def boundedFeeds (rows : List (ℤ × ℤ)) : LateStream StatelessPlan :=
  rows.foldl (fun s p => s.act scanEnv (.feed "t" (keyDelta p.1 p.2)))
    (LateStream.act scanEnv ⟨.new, fun _ _ => 0, fun _ _ => 0⟩ (.register boundedView))

/-- 5 arrives behind 10 and is dropped; then it is retracted. -/
def lateHistory : LateStream StatelessPlan :=
  (boundedFeeds [(10, 1), (5, 1), (5, -1)]).act scanEnv (.step .fresh)

lemma lateHistory_inOrder : InOrderRun scanEnv lateHistory := by
  have hlate : (feed scanEnv (boundedFeeds [(10, 1)]).inner "t" (keyDelta 5 1)).2 = .ok () := by
    decide +kernel
  have hback : (feed scanEnv (boundedFeeds [(10, 1), (5, 1)]).inner "t" (keyDelta 5 (-1))).2 = .ok () := by
    decide +kernel
  have hoffered : ∀ {s : LateStream StatelessPlan} {k w : ℤ},
      (feed scanEnv s.inner "t" (keyDelta k w)).2 = .ok () → ∀ r,
      (s.act scanEnv (.feed "t" (keyDelta k w))).offered "t" r =
        s.offered "t" r + if [.int k] = r then w else 0 := by
    intro s k w hok r
    rw [LateStream.act_feed_ok (Prod.ext rfl hok)]
    simp [addAt, keyDelta, DeltaBatch.net, weight_cons]
  -- an insertion is always in order
  have hinsert : ∀ {s : LateStream StatelessPlan} {k : ℤ}, InOrderRun scanEnv s →
      (feed scanEnv s.inner "t" (keyDelta k 1)).2 = .ok () →
      InOrderRun scanEnv (s.act scanEnv (.feed "t" (keyDelta k 1))) := by
    intro s k hrun hok
    refine .act _ hrun fun r => ?_
    rw [hoffered hok]
    have := hrun.balanced.offered "t" r
    split <;> omega
  have hstart : InOrderRun scanEnv (boundedFeeds []) :=
    .act (.register boundedView) (.start .new rfl rfl) trivial
  have hrun1 : InOrderRun scanEnv (boundedFeeds [(10, 1)]) := hinsert (k := 10) hstart (by decide +kernel)
  have hrun2 : InOrderRun scanEnv (boundedFeeds [(10, 1), (5, 1)]) := hinsert hrun1 hlate
  have hrun3 : InOrderRun scanEnv (boundedFeeds [(10, 1), (5, 1), (5, -1)]) := by
    refine .act (.feed "t" (keyDelta 5 (-1))) hrun2 fun r => ?_
    -- the dropped insertion was offered, so the retraction is in order
    have : 0 ≤ (boundedFeeds [(10, 1)]).offered "t" r := hrun1.balanced.offered "t" r
    have hsecond : (boundedFeeds [(10, 1), (5, 1)]).offered "t" r =
        (boundedFeeds [(10, 1)]).offered "t" r + if [.int 5] = r then 1 else 0 := hoffered hlate r
    rw [hoffered hback, hsecond]
    split <;> omega
  exact .act (.step .fresh) hrun3 ⟨keysApart_of_keys (by decide +kernel) (by decide +kernel), .inl (by decide +kernel)⟩

end Krishiv.Ivm
