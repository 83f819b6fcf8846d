import Krishiv.Ivm.Partitioned

/-!
# Following a partitioned view with one cursor

A reader of a partitioned flow asks for the deltas after its cursor and moves it to the largest tick
it was given, or to `resume_after` when it was told of a gap. Beside the flow we keep what each shard
has published.

Each shard numbers its deltas with its own clock, and a shard whose tick fails stays behind. As long
as no clock is behind the cursor, whatever is published later has a larger number, and the reader gets
each delta once (`Followed.fineRun_exactly_once`). A shard that is behind publishes under a number the
cursor has passed, and nobody is told (`Followed.late_shard_is_skipped`).
-/

namespace Krishiv.Ivm

open Krishiv.Delta List Except TickLog

variable {P : Type}

/-! ## One shard -/

/-- What a shard has published, after it went from `s` to `s'`: a tick that counted on may have
added a delta. -/
def published (v : String) (s s' : Inner P) (pub : List (ℕ × DeltaBatch)) : List (ℕ × DeltaBatch) :=
  if s.tick < s'.tick then pub ++ ((publishedBy s' v).map fun d => (s'.tick, d)).toList else pub

/-- What one call on the partitioned flow does to one shard. -/
inductive ShardStep [PlanLogic P] (env : Env P) : Shard P → Shard P → Prop
  | same (s : Shard P) : ShardStep env s s
  | register (s : Shard P) (spec : IncrementalViewSpec) :
      ShardStep env s { s with inner := Ivm.registerView env s.inner spec }
  | retention (s : Shard P) (deltas bytes : ℕ) :
      ShardStep env s { s with inner := Ivm.setOutputRetention s.inner deltas bytes }
  | feed (s : Shard P) (source : String) (d : DeltaBatch) :
      ShardStep env s { s with inner := (Ivm.feed env s.inner source d).1 }
  | step (s : Shard P) (fails : Option IvmError) : ShardStep env s (PartitionedFlow.stepShard env fails s).1

/-- The log of a shard is what it has published, less what its bound of evicted ticks covers. -/
structure Lane (v : String) (s : Inner P) (pub : List (ℕ × DeltaBatch)) : Prop where
  named : WellNamed s
  outputTick : OutputTickBounded s v
  increasing : pub.Pairwise fun e e' => e.1 < e'.1
  bounded : ∀ e ∈ pub, e.1 ≤ s.tick
  kept : ∃ gone, pub = gone ++ (logOf s v).deltas ∧ ∀ e ∈ gone, e.1 ≤ (logOf s v).evictedThrough

/-- A shard only adds numbers above its clock. -/
def Grown (tick : ℕ) (pub pub' : List (ℕ × DeltaBatch)) : Prop :=
  ∃ new, pub' = pub ++ new ∧ ∀ e ∈ new, tick < e.1

variable {v : String} {env : Env P}

namespace Lane

variable {s s' : Inner P} {pub : List (ℕ × DeltaBatch)}

lemma published_of_tick (h : s'.tick = s.tick) : published v s s' pub = pub := by
  rw [published, if_neg (by omega)]

/-- A call that publishes nothing. -/
lemma quiet (h : Lane v s pub) (hn : WellNamed s') (htick : s.tick ≤ s'.tick)
    (hlog : logOf s' v = logOf s v) (hout : OutputTickBounded s' v) (hpub : published v s s' pub = pub) :
    Lane v s' (published v s s' pub) ∧ Grown s.tick pub (published v s s' pub) ∧ s.tick ≤ s'.tick := by
  rw [hpub]
  refine ⟨⟨hn, hout, h.increasing, fun e he => le_trans (h.bounded e he) htick, ?_⟩,
    ⟨[], (append_nil pub).symm, by simp⟩, htick⟩
  rw [hlog]
  exact h.kept

/-- A tick that publishes: the number is new, and what the push evicts its bound covers. -/
lemma push (h : Lane v s pub) (hn : WellNamed s') {d : DeltaBatch} (htick : s'.tick = s.tick + 1)
    (hlog : logOf s' v = (logOf s v).push env s.outputRetention (s.tick + 1) d)
    (hout : OutputTickBounded s' v) : Lane v s' (pub ++ [(s'.tick, d)]) := by
  obtain ⟨gone, hpub, hgone⟩ := h.kept
  obtain ⟨evicted, hpush, hle, hev⟩ := OutputLog.push_spec env s.outputRetention (logOf s v) (s.tick + 1) d
  refine ⟨hn, hout, ?_, fun e he => ?_, gone ++ evicted, ?_, fun e he => ?_⟩
  · refine pairwise_append.mpr ⟨h.increasing, pairwise_singleton _ _, fun e he e' he' => ?_⟩
    rw [mem_singleton] at he'
    have := h.bounded e he
    subst he'
    show e.1 < s'.tick
    omega
  · rcases mem_append.mp he with he | he
    · have := h.bounded e he
      omega
    · rw [mem_singleton] at he
      rw [he]
  · rw [hlog, append_assoc, ← hpush, ← append_assoc, ← hpub, htick]
  · rw [hlog]
    rcases mem_append.mp he with he | he
    · exact le_trans (hgone e he) hle
    · exact hev e he

/-- A tick of a shard. -/
lemma tick [PlanLogic P] (hk : ListsKeys env) (h : Lane v s pub) (c : TickCtx) :
    Lane v (stepDatafusion env s c).1 (published v s (stepDatafusion env s c).1 pub) ∧
      Grown s.tick pub (published v s (stepDatafusion env s c).1 pub) ∧ s.tick ≤ (stepDatafusion env s c).1.tick := by
  have hn := h.named.congr (stepDatafusion_frame env s c).1
  cases hv : s.views.lookup v with
  | none =>
    -- no view of this name: nothing is published, whatever the clock does
    obtain ⟨hlog, hout, htick⟩ := stepDatafusion_unregistered env c hv
    generalize (stepDatafusion env s c).1 = s' at *
    have hbound : OutputTickBounded s' v := fun t ht =>
      le_trans (h.outputTick t (by rw [← hout]; exact ht)) htick
    refine h.quiet hn htick hlog hbound ?_
    unfold published
    split
    · next hlt =>
      have hne : ¬s'.viewOutputTicks.lookup v = some s'.tick := by
        intro heq
        rw [hout] at heq
        have := h.outputTick _ heq
        omega
      rw [publishedBy, if_neg hne]
      exact append_nil pub
    · rfl
  | some view =>
    have hout := stepDatafusion_output hk h.named c hv
    generalize (stepDatafusion env s c).1 = s' at *
    cases hout with
    | gaveUp htick hsame =>
      refine h.quiet hn htick.ge ?_ (fun t ht => ?_) (published_of_tick htick)
      · unfold logOf
        rw [hsame.log]
      · rw [htick]
        exact h.outputTick t (by rw [← hsame.outputTick]; exact ht)
    | quiet htick hlog _ houtTick silent =>
      refine h.quiet hn (by omega) hlog (fun t ht => ?_) ?_
      · rcases houtTick with hsame | hnew
        · have := h.outputTick t (by rw [← hsame]; exact ht)
          omega
        · rw [hnew] at ht
          cases ht
          omega
      · rw [published, if_pos (by omega), silent h.outputTick]
        exact append_nil pub
    | published d htick _ hlog _ houtTick hdelta =>
      have hpub : published v s s' pub = pub ++ [(s'.tick, d)] := by
        rw [published, if_pos (by omega), hdelta]
        rfl
      rw [hpub]
      refine ⟨h.push hn htick hlog fun t ht => ?_, ⟨_, rfl, fun e he => ?_⟩, by omega⟩
      · rw [houtTick] at ht
        cases ht
        omega
      rw [mem_singleton] at he
      rw [he]
      show s.tick < s'.tick
      omega

/-- Every call on a shard. -/
lemma step [PlanLogic P] {env : Env P} (hk : ListsKeys env) {s s' : Shard P}
    (h : Lane v s.inner pub) (hs : ShardStep env s s') : Lane v s'.inner (published v s.inner s'.inner pub) ∧
      Grown s.inner.tick pub (published v s.inner s'.inner pub) ∧ s.inner.tick ≤ s'.inner.tick := by
  have hsame : ∀ {s' : Inner P}, WellNamed s' → SameLogs s.inner s' → Lane v s' (published v s.inner s' pub) ∧
        Grown s.inner.tick pub (published v s.inner s' pub) ∧ s.inner.tick ≤ s'.tick := by
    intro s' hn hl
    refine h.quiet hn hl.tick.ge ?_ (fun t ht => ?_) (published_of_tick hl.tick)
    · unfold logOf
      rw [hl.log]
    · rw [hl.tick]
      exact h.outputTick t (by rw [← hl.outputTicks]; exact ht)
  cases hs with
  | same => exact hsame h.named ⟨rfl, rfl, rfl, rfl⟩
  | register spec => exact hsame (h.named.registerView env spec) (registerView_output env s.inner spec).1
  | retention deltas bytes => exact hsame h.named ⟨rfl, rfl, rfl, rfl⟩
  | feed source d =>
    obtain ⟨hviews, hl⟩ := feed_output env s.inner source d
    exact hsame (fun n view hview => h.named n view (by rw [← hviews]; exact hview)) hl
  | step fails =>
    cases fails with
    | none => exact h.tick hk s.ctx
    | some e => exact hsame h.named ⟨rfl, rfl, rfl, rfl⟩

end Lane

/-! ## All shards -/

variable {f : PartitionedFlow P}

namespace PartitionedFlow

/-- A call on the partitioned flow is at most one call on each shard. -/
def Stepped [PlanLogic P] (env : Env P) (f f' : PartitionedFlow P) : Prop :=
  List.Forall₂ (ShardStep env) f.shards f'.shards

section

variable (env : Env P)

lemma forall₂_same [PlanLogic P] (l : List (Shard P)) :
    List.Forall₂ (ShardStep env) l l := List.forall₂_same.mpr fun s _ => .same s

lemma registerView_stepped [PlanLogic P] (f : PartitionedFlow P)
    (spec : IncrementalViewSpec) : f.Stepped env (f.registerView env spec) :=
  forall₂_map_right_iff.mpr (List.forall₂_same.mpr fun s _ => .register s spec)

lemma setOutputRetention_stepped [PlanLogic P] (f : PartitionedFlow P)
    (deltas bytes : ℕ) : f.Stepped env (f.setOutputRetention deltas bytes) :=
  forall₂_map_right_iff.mpr (List.forall₂_same.mpr fun s _ => .retention s deltas bytes)

/-- Feeding part by part; the shards behind a refusal are left as they were. -/
lemma feedEach_stepped [PlanLogic P] (source : String) (shards : List (Shard P)) (parts : List DeltaBatch) :
    List.Forall₂ (ShardStep env) shards (feedEach env source shards parts).1 := by
  induction shards generalizing parts with
  | nil => exact .nil
  | cons s shards ih =>
    cases parts with
    | nil => exact forall₂_same env _
    | cons d parts =>
      unfold feedEach
      split
      · exact .cons (.same s) (ih parts)
      have hfeed := (ShardStep.feed s source d : ShardStep env s _)
      cases hr : Ivm.feed env s.inner source d with
      | mk inner r =>
        rw [hr] at hfeed
        cases r with
        | error e => exact .cons hfeed (forall₂_same env _)
        | ok u => exact .cons hfeed (ih parts)

end

lemma checkRoutedKeyType_shards {f' : PartitionedFlow P} {schema : Schema}
    (h : f.checkRoutedKeyType schema = .ok f') : f'.shards = f.shards := by
  unfold checkRoutedKeyType at h
  split at h
  · cases h
    rfl
  split at h
  · cases h
    rfl
  · cases h
    rfl
  · split at h
    · cases h
    · cases h
      rfl

section

variable (env : Env P) (h : KeyHash) (f : PartitionedFlow P) (source : String)

include h

lemma feed_stepped [PlanLogic P] (d : DeltaBatch) : f.Stepped env (f.feed env h source d).1 := by
  unfold Stepped feed
  split
  · next s hs =>
    rw [hs]
    exact .cons (.feed s source d) .nil
  cases hc : f.checkRoutedKeyType (weightedSchema d.schema) with
  | error e => exact forall₂_same env _
  | ok f' =>
    have hshards := checkRoutedKeyType_shards hc
    dsimp only
    cases partitionByKey h d f'.keyColumn f.shards.length with
    | error e =>
      rw [hshards]
      exact forall₂_same env _
    | ok parts => exact feedEach_stepped env source f.shards parts

lemma feedSnapshot_stepped [PlanLogic P] (batches : List RecordBatch) :
    f.Stepped env (f.feedSnapshot env h source batches).1 := by
  unfold feedSnapshot
  split
  · exact forall₂_same env _
  dsimp only
  split
  · exact forall₂_same env _
  split
  · exact forall₂_same env _
  split
  · exact forall₂_same env _
  · next next' _ _ d _ _ =>
    exact feed_stepped env h { f with streamingPrev := f.streamingPrev.insert source next' } source d

end

lemma stepDatafusion_stepped [PlanLogic P] (env : Env P) (fails : ℕ → Option IvmError)
    (f : PartitionedFlow P) : f.Stepped env (f.stepDatafusion env fails).1 := by
  have hall : ∀ (shards : List (Shard P)) (k : ℕ), List.Forall₂ (ShardStep env) shards
      (((shards.zipIdx k).map fun s => stepShard env (fails s.2) s.1).map Prod.fst) := by
    intro shards
    induction shards with
    | nil => exact fun _ => .nil
    | cons s shards ih => exact fun k => .cons (.step s (fails k)) (ih (k + 1))
  exact hall f.shards 0

end PartitionedFlow

/-- What all shards have published after a call. -/
def publishedAll (v : String) (shards shards' : List (Shard P)) (pubs : List (List (ℕ × DeltaBatch))) :
    List (List (ℕ × DeltaBatch)) :=
  List.zipWith (fun p pub => published v p.1.inner p.2.inner pub) (shards.zip shards') pubs

/-- Each shard with what it has published. -/
def Lanes (v : String) (shards : List (Shard P)) (pubs : List (List (ℕ × DeltaBatch))) : Prop :=
  List.Forall₂ (fun s pub => Lane v s.inner pub) shards pubs

variable {pubs : List (List (ℕ × DeltaBatch))} {shards shards' : List (Shard P)} {after : ℕ}

namespace Lanes

/-- A call keeps every lane, publishes nothing under a number that every clock has reached, and sets no
clock back. -/
lemma step [PlanLogic P] {env : Env P} (hk : ListsKeys env) (h : Lanes v shards pubs)
    (hs : List.Forall₂ (ShardStep env) shards shards') : Lanes v shards' (publishedAll v shards shards' pubs) ∧
      (∀ t, (∀ s ∈ shards, t ≤ s.inner.tick) → List.Forall₂ (fun pub pub' : List (ℕ × DeltaBatch) =>
        ∃ new, pub' = pub ++ new ∧ ∀ e ∈ new, e.1 ≠ t) pubs (publishedAll v shards shards' pubs)) ∧
      ∀ s' ∈ shards', ∃ s ∈ shards, s.inner.tick ≤ s'.inner.tick := by
  induction hs generalizing pubs with
  | nil =>
    cases h
    exact ⟨.nil, fun _ _ => .nil, nofun⟩
  | @cons s _ _ _ hstep _ ih =>
    cases h with
    | cons hl hrest =>
      obtain ⟨hlane, ⟨new, hnew, habove⟩, hle⟩ := hl.step hk hstep
      obtain ⟨hlanes, hgrown, hclocks⟩ := ih hrest
      refine ⟨.cons hlane hlanes, fun t ht => .cons ⟨new, hnew, fun e he => ?_⟩
        (hgrown t (forall_mem_cons.mp ht).2), forall_mem_cons.mpr ⟨?_, fun s' hs' => ?_⟩⟩
      · exact ((ht s mem_cons_self).trans_lt (habove e he)).ne'
      · exact ⟨s, mem_cons_self, hle⟩
      · obtain ⟨y, hy, hle⟩ := hclocks s' hs'
        exact ⟨y, mem_cons_of_mem _ hy, hle⟩

/-- The answer of a shard: deltas it has published, and all of them when it reports no gap. -/
def Answers (after : ℕ) (a : OutputSince) (pub : List (ℕ × DeltaBatch)) : Prop :=
  (∀ e ∈ a.deltas, e ∈ pub ∧ after < e.1) ∧ (a.missed = false → a.deltas = TickLog.since after pub)

lemma answers {got : List OutputSince} (h : Lanes v shards pubs)
    (hgot : shards.mapM (fun s => viewOutputSince s.inner v after) = .ok got) :
    List.Forall₂ (Answers after) got pubs := by
  have hall := forall₂_of_mapM hgot
  clear hgot
  induction h generalizing got with
  | nil =>
    cases hall
    exact .nil
  | @cons s pub _ _ hl _ ih =>
    obtain ⟨a, rest, ha, hrest, rfl⟩ := forall₂_cons_left_iff.mp hall
    refine .cons ?_ (ih hrest)
    obtain ⟨gone, rfl, hgone⟩ := hl.kept
    unfold Ivm.viewOutputSince at ha
    split at ha
    · cases ha
    cases ha
    refine ⟨fun e he => ?_, fun hm => ?_⟩
    · obtain ⟨he, hlt⟩ := mem_since.mp he
      exact ⟨mem_append_right _ he, hlt⟩
    · have hreach : (logOf s.inner v).evictedThrough ≤ after :=
        le_trans (le_max_left _ _) (Nat.le_of_not_lt (of_decide_eq_false hm))
      exact (since_append_of_le fun e he => le_trans (hgone e he) hreach).symm

end Lanes

/-! ## The reader -/

/-- A reader that began after tick `start`: where it is, what it was given, and the ranges of ticks
it was told it has missed. -/
structure Follower where
  start : ℕ
  cursor : ℕ
  received : List (ℕ × DeltaBatch)
  gaps : List (ℕ × ℕ)

namespace Follower

def begin (after : ℕ) : Follower := ⟨after, after, [], []⟩

/-- The tick lies in a range that was reported as missed. -/
def InGap (rd : Follower) (t : ℕ) : Prop := ∃ g ∈ rd.gaps, g.1 < t ∧ t ≤ g.2

/-- One read. -/
def read (f : PartitionedFlow P) (v : String) (rd : Follower) : Follower :=
  match f.viewOutputSince v rd.cursor with
  | .error _ => rd
  | .ok got =>
    if got.missed then
      { rd with cursor := got.resumeAfter, gaps := rd.gaps ++ [(rd.cursor, got.resumeAfter)] }
    else
      { rd with cursor := TickLog.newest rd.cursor got.deltas
                received := rd.received ++ got.deltas }

end Follower

/-- A partitioned flow, what its shards have published for a view, and a reader of the view. -/
structure Followed (P : Type) where
  flow : PartitionedFlow P
  published : List (List (ℕ × DeltaBatch))
  reader : Option Follower

inductive FollowEvent where
  | register (spec : IncrementalViewSpec)
  | retention (deltas bytes : ℕ)
  | feed (source : String) (d : DeltaBatch)
  | feedSnapshot (source : String) (batches : List RecordBatch)
  | step (fails : ℕ → Option IvmError)
  | start (after : ℕ)
  | read

namespace Followed

def new (n : ℕ) (keyColumn : String) : Followed P :=
  ⟨.new n keyColumn, List.replicate (max n 1) [], none⟩

/-- The flow moves on, and what its shards publish is noted. -/
def advance (v : String) (w : Followed P) (f : PartitionedFlow P) : Followed P :=
  { w with flow := f, published := publishedAll v w.flow.shards f.shards w.published }

def step [PlanLogic P] (env : Env P) (h : KeyHash) (v : String) (w : Followed P) : FollowEvent → Followed P
  | .register spec => w.advance v (w.flow.registerView env spec)
  | .retention deltas bytes => w.advance v (w.flow.setOutputRetention deltas bytes)
  | .feed source d => w.advance v (w.flow.feed env h source d).1
  | .feedSnapshot source batches => w.advance v (w.flow.feedSnapshot env h source batches).1
  | .step fails => w.advance v (w.flow.stepDatafusion env fails).1
  | .start after => { w with reader := some (.begin after) }
  | .read => { w with reader := w.reader.map (Follower.read w.flow v) }

/-- A read that moves the cursor finds no shard's clock behind it. -/
def Fine (v : String) (w : Followed P) : FollowEvent → Prop
  | .read => ∀ rd, w.reader = some rd → (rd.read w.flow v).cursor = rd.cursor ∨
      ∀ s ∈ w.flow.shards, (rd.read w.flow v).cursor ≤ s.inner.tick
  | _ => True

inductive FineRun [PlanLogic P] (env : Env P) (h : KeyHash) (v : String) : Followed P → Prop
  | new (n : ℕ) (keyColumn : String) : FineRun env h v (.new n keyColumn)
  | step {w : Followed P} {e : FollowEvent} : FineRun env h v w → w.Fine v e →
      FineRun env h v (w.step env h v e)

/-- Up to its cursor the reader has been served, tick by tick. -/
structure InStep (shards : List (Shard P)) (pubs : List (List (ℕ × DeltaBatch))) (rd : Follower) : Prop where
  clocks : ∀ s ∈ shards, rd.cursor ≤ max rd.start s.inner.tick
  started : rd.start ≤ rd.cursor
  gaps : ∀ g ∈ rd.gaps, g.2 ≤ rd.cursor
  received : ∀ e ∈ rd.received, rd.start < e.1 ∧ e.1 ≤ rd.cursor ∧ ¬rd.InGap e.1
  served : ∀ t, rd.start < t → t ≤ rd.cursor → ¬rd.InGap t →
    TickLog.Served PartitionedFlow.concatParts t (TickLog.partsAt pubs t)
      (rd.received.filter fun e => e.1 = t)

structure Inv (v : String) (w : Followed P) : Prop where
  lanes : Lanes v w.flow.shards w.published
  inStep : ∀ rd, w.reader = some rd → InStep w.flow.shards w.published rd

variable {rd : Follower}

/-! ## Steps of the flow -/

/-- What is published later has a number above the cursor. -/
lemma InStep.advance [PlanLogic P] (hk : ListsKeys env) (h : InStep shards pubs rd)
    (hl : Lanes v shards pubs) (hs : List.Forall₂ (ShardStep env) shards shards') :
    InStep shards' (publishedAll v shards shards' pubs) rd := by
  obtain ⟨-, hgrown, hclocks⟩ := hl.step hk hs
  refine { h with clocks := fun s' hs' => ?_, served := fun t hst hcur hgap => ?_ }
  · obtain ⟨s, hmem, hle⟩ := hclocks s' hs'
    exact le_trans (h.clocks s hmem) (max_le_max le_rfl hle)
  have hreached : ∀ s ∈ shards, t ≤ s.inner.tick := by
    intro s hmem
    have := h.clocks s hmem
    omega
  rw [partsAt_grown (hgrown t hreached)]
  exact h.served t hst hcur hgap

lemma Inv.advance [PlanLogic P] (hk : ListsKeys env) {w : Followed P} (h : Inv v w)
    (hs : w.flow.Stepped env f) : Inv v (w.advance v f) :=
  ⟨(h.lanes.step hk hs).1, fun rd hrd => (h.inStep rd hrd).advance hk h.lanes hs⟩

/-! ## Reads -/

/-- A merged answer: it is put together from the shards' answers, and keeps everything when none of
them reports a gap. -/
lemma viewOutputSince_eq_ok {o : OutputSince} (h : f.viewOutputSince v after = .ok o) :
    ∃ got deltas, f.shards.mapM (fun s => Ivm.viewOutputSince s.inner v after) = .ok got ∧
      TickLog.merge PartitionedFlow.concatParts (got.map OutputSince.deltas) = .ok deltas ∧
      o.missed = got.any OutputSince.missed ∧ after ≤ o.resumeAfter ∧ (o.missed = false → o.deltas = deltas) := by
  obtain ⟨got, hgot, h⟩ := bind_eq_ok_iff.mp h
  obtain ⟨deltas, hdeltas, h⟩ := bind_eq_ok_iff.mp h
  cases h
  refine ⟨got, deltas, hgot, hdeltas, rfl, ?_, fun hm => ?_⟩
  · have hle := le_newest after (got.map fun a => (a.resumeAfter, ()))
    rwa [newest, map_map] at hle
  · dsimp only at hm ⊢
    rw [hm]
    exact filter_eq_self.mpr fun e _ => by simp

/-- Without a gap the answer is the merge of everything published above the cursor. -/
lemma viewOutputSince_complete (hl : Lanes v f.shards pubs) {o : OutputSince}
    (h : f.viewOutputSince v after = .ok o) (hm : o.missed = false) :
    TickLog.merge PartitionedFlow.concatParts (pubs.map (TickLog.since after)) = .ok o.deltas := by
  obtain ⟨got, deltas, hgot, hdeltas, hmissed, -, hall⟩ := viewOutputSince_eq_ok h
  rw [hmissed, any_eq_false] at hm
  have hsince : ∀ {got : List OutputSince} {pubs : List (List (ℕ × DeltaBatch))},
      List.Forall₂ (Lanes.Answers after) got pubs → (∀ a ∈ got, a.missed = false) →
      got.map OutputSince.deltas = pubs.map (since after) := by
    intro got pubs hf hm
    induction hf with
    | nil => rfl
    | cons ha _ ih =>
      rw [map_cons, map_cons, ha.2 (hm _ mem_cons_self), ih fun a hmem => hm a (mem_cons_of_mem _ hmem)]
  have hm' : ∀ a ∈ got, a.missed = false := fun a ha => by simpa using hm a ha
  rw [← hsince (hl.answers hgot) hm', hall (by rw [hmissed]; exact any_eq_false.mpr hm)]
  exact hdeltas

variable {deltas : List (ℕ × DeltaBatch)}

/-- The numbers of a complete answer are those published above the cursor. -/
lemma mem_complete (h : merge concatParts (pubs.map (since after)) = .ok deltas)
    {t : ℕ} : (∃ e ∈ deltas, e.1 = t) ↔ after < t ∧ ∃ pub ∈ pubs, ∃ e ∈ pub, e.1 = t := by
  rw [mem_merge h]
  constructor
  · rintro ⟨e, he, rfl⟩
    obtain ⟨l, hl, hel⟩ := mem_flatten.mp he
    obtain ⟨pub, hpub, rfl⟩ := mem_map.mp hl
    obtain ⟨hmem, hlt⟩ := mem_since.mp hel
    exact ⟨hlt, pub, hpub, e, hmem, rfl⟩
  · rintro ⟨hlt, pub, hpub, e, hmem, rfl⟩
    exact ⟨e, mem_flatten.mpr ⟨_, mem_map_of_mem hpub, mem_since.mpr ⟨hmem, hlt⟩⟩, rfl⟩

/-- A reported gap: the skipped ticks are noted, the others stay as they were. -/
lemma InStep.skip (h : InStep shards pubs rd) {resume : ℕ} (hle : rd.cursor ≤ resume)
    (hclock : ∀ s ∈ shards, resume ≤ max rd.start s.inner.tick) :
    InStep shards pubs { rd with cursor := resume, gaps := rd.gaps ++ [(rd.cursor, resume)] } := by
  have hgap : ∀ t, Follower.InGap { rd with cursor := resume
                                            gaps := rd.gaps ++ [(rd.cursor, resume)] } t ↔
      rd.InGap t ∨ (rd.cursor < t ∧ t ≤ resume) := by
    intro t
    simp [Follower.InGap]
  refine ⟨hclock, le_trans h.started hle, 
    forall_mem_append.mpr ⟨fun g hg => le_trans (h.gaps g hg) hle, forall_mem_singleton.mpr le_rfl⟩, fun e he => ?_,
    fun t hst hcur hng => ?_⟩
  · obtain ⟨hst, hcur, hng⟩ := h.received e he
    refine ⟨hst, le_trans hcur hle, fun hin => ?_⟩
    rcases (hgap e.1).mp hin with hin | hin
    · exact hng hin
    · omega
  · rw [hgap, not_or] at hng
    have hcur : t ≤ resume := hcur
    exact h.served t hst (by omega) hng.1

/-- A complete answer: below the old cursor nothing changes, above it each tick is served by the
merge. -/
lemma InStep.receive (h : InStep shards pubs rd)
    (hm : TickLog.merge PartitionedFlow.concatParts (pubs.map (TickLog.since rd.cursor)) = .ok deltas)
    (hclock : ∀ s ∈ shards, TickLog.newest rd.cursor deltas ≤ max rd.start s.inner.tick) :
    InStep shards pubs { rd with cursor := TickLog.newest rd.cursor deltas
                                 received := rd.received ++ deltas } := by
  have hle := le_newest rd.cursor deltas
  have habove : ∀ e ∈ deltas, rd.cursor < e.1 := fun e he => ((mem_complete hm).mp ⟨e, he, rfl⟩).1
  refine ⟨hclock, le_trans h.started hle, fun g hg => le_trans (h.gaps g hg) hle, fun e he => ?_,
    fun t hst hcur hng => ?_⟩
  · rcases mem_append.mp he with he | he
    · obtain ⟨hst, hcur, hng⟩ := h.received e he
      exact ⟨hst, le_trans hcur hle, hng⟩
    have hlt := habove e he
    refine ⟨lt_of_le_of_lt h.started hlt, mem_le_newest he, ?_⟩
    rintro ⟨g, hg, -, hg2⟩
    have := h.gaps g hg
    omega
  · show TickLog.Served _ t _ ((rd.received ++ deltas).filter fun e => e.1 = t)
    rw [filter_append]
    by_cases hold : t ≤ rd.cursor
    · have hnil : deltas.filter (fun e => e.1 = t) = [] :=
        filter_eq_nil_iff.mpr fun e he hte => by
          have := habove e he
          have := of_decide_eq_true hte
          omega
      rw [hnil, append_nil]
      exact h.served t hst hold hng
    · have hnil : rd.received.filter (fun e => e.1 = t) = [] :=
        filter_eq_nil_iff.mpr fun e he hte => by
          have := (h.received e he).2.1
          have := of_decide_eq_true hte
          omega
      rw [hnil, nil_append, ← partsAt_since (Nat.lt_of_not_le hold) pubs]
      exact merge_served hm t

/-- A read whose new cursor no clock is behind. -/
lemma InStep.read (h : InStep f.shards pubs rd) (hl : Lanes v f.shards pubs)
    (hf : (rd.read f v).cursor = rd.cursor ∨ ∀ s ∈ f.shards, (rd.read f v).cursor ≤ s.inner.tick) :
    InStep f.shards pubs (rd.read f v) := by
  have hclock : ∀ s ∈ f.shards, (rd.read f v).cursor ≤ max rd.start s.inner.tick := by
    intro s hs
    rcases hf with hsame | hle
    · rw [hsame]
      exact h.clocks s hs
    · exact le_trans (hle s hs) (le_max_right _ _)
  unfold Follower.read at hclock ⊢
  cases ho : f.viewOutputSince v rd.cursor with
  | error e => exact h
  | ok o =>
    rw [ho] at hclock
    dsimp only at hclock ⊢
    cases hm : o.missed with
    | true =>
      rw [hm, if_pos rfl] at hclock
      rw [if_pos rfl]
      obtain ⟨-, -, -, -, -, hle, -⟩ := viewOutputSince_eq_ok ho
      exact h.skip hle hclock
    | false =>
      rw [hm, if_neg Bool.false_ne_true] at hclock
      rw [if_neg Bool.false_ne_true]
      exact h.receive (viewOutputSince_complete hl ho hm) hclock

/-! ## Runs -/

lemma Inv.step [PlanLogic P] (hk : ListsKeys env) (kh : KeyHash) {w : Followed P} (h : Inv v w)
    {e : FollowEvent} (hf : w.Fine v e) : Inv v (w.step env kh v e) := by
  cases e with
  | register spec => exact h.advance hk (w.flow.registerView_stepped env spec)
  | retention deltas bytes => exact h.advance hk (w.flow.setOutputRetention_stepped env deltas bytes)
  | feed source d => exact h.advance hk (w.flow.feed_stepped env kh source d)
  | feedSnapshot source batches => exact h.advance hk (w.flow.feedSnapshot_stepped env kh source batches)
  | step fails => exact h.advance hk (w.flow.stepDatafusion_stepped env fails)
  | start after =>
    refine ⟨h.lanes, fun rd hrd => ?_⟩
    cases hrd
    exact ⟨fun s _ => le_max_left _ _, le_rfl, nofun, nofun,
      fun t hst hcur _ => absurd hcur (Nat.not_le_of_lt hst)⟩
  | read =>
    refine ⟨h.lanes, fun rd hrd => ?_⟩
    obtain ⟨rd', hrd', rfl⟩ := Option.map_eq_some_iff.mp (show w.reader.map _ = some rd from hrd)
    exact (h.inStep rd' hrd').read h.lanes (hf rd' hrd')

lemma FineRun.inv [PlanLogic P] (hk : ListsKeys env) {kh : KeyHash} {w : Followed P}
    (hr : FineRun env kh v w) : Inv v w := by
  induction hr with
  | new n keyColumn =>
    refine ⟨forall₂_iff_get.mpr ⟨by simp [Followed.new, PartitionedFlow.new], ?_⟩, fun rd hrd => by cases hrd⟩
    intro i h₁ h₂
    simp only [Followed.new, PartitionedFlow.new, get_eq_getElem, getElem_replicate]
    exact ⟨nofun, nofun, List.Pairwise.nil, nofun, [], rfl, nofun⟩
  | step _ hf ih => exact ih.step hk kh hf

/-- Deltas of one tick have columns of the same types and nullability on all shards. -/
def ColumnsAgree (pubs : List (List (ℕ × DeltaBatch))) : Prop :=
  ∀ pub ∈ pubs, ∀ e ∈ pub, ∀ pub' ∈ pubs, ∀ e' ∈ pub', e.1 = e'.1 → e.2.schema.shape = e'.2.schema.shape

/-- Parts that all have such columns are concatenated. -/
lemma concatParts_total {parts : List DeltaBatch} (hne : parts ≠ [])
    (h : ∀ d ∈ parts, ∀ d' ∈ parts, d.schema.shape = d'.schema.shape) :
    ∃ m, PartitionedFlow.concatParts parts = .ok m := by
  cases parts with
  | nil => exact absurd rfl hne
  | cons d ds =>
    exact ⟨_, mapError_eq_ok_iff.mpr (DeltaBatch.concat_cons fun b hb => h b (mem_cons_of_mem _ hb) d mem_cons_self)⟩

/-- A registered view can be read. -/
lemma viewOutputSince_total (hl : Lanes v f.shards pubs)
    (hreg : ∀ s ∈ f.shards, (s.inner.views.lookup v).isSome = true) (ht : ColumnsAgree pubs)
    (after : ℕ) : ∃ o, f.viewOutputSince v after = .ok o := by
  have hanswer : ∀ s ∈ f.shards, ∃ a, Ivm.viewOutputSince s.inner v after = .ok a := by
    intro s hs
    obtain ⟨view, hview⟩ := Option.isSome_iff_exists.mp (hreg s hs)
    unfold Ivm.viewOutputSince
    rw [hview]
    exact ⟨_, rfl⟩
  obtain ⟨got, hgot⟩ := mapM_total hanswer
  have hfrom : ∀ e ∈ (got.map OutputSince.deltas).flatten, ∃ pub ∈ pubs, e ∈ pub := by
    intro e he
    obtain ⟨l, hmem, hel⟩ := mem_flatten.mp he
    obtain ⟨a, ha, rfl⟩ := mem_map.mp hmem
    obtain ⟨pub, hpub, hans⟩ := (hl.answers hgot).flip.exists_left a ha
    exact ⟨pub, hpub, (hans.1 e hel).1⟩
  obtain ⟨deltas, hdeltas⟩ : ∃ deltas, merge PartitionedFlow.concatParts
      (got.map OutputSince.deltas) = .ok deltas := by
    refine merge_total fun t hnum => concatParts_total ?_ fun d hd d' hd' => ?_
    · exact fun hnil => partsAt_eq_nil.mp hnil hnum
    obtain ⟨e, he, rfl⟩ := mem_map.mp hd
    obtain ⟨e', he', rfl⟩ := mem_map.mp hd'
    rw [mem_filter, decide_eq_true_eq] at he he'
    obtain ⟨pub, hpub, hmem⟩ := hfrom e he.1
    obtain ⟨pub', hpub', hmem'⟩ := hfrom e' he'.1
    exact ht pub hpub e hmem pub' hpub' e' hmem' (he.2.trans he'.2.symm)
  exact ⟨_, bind_eq_ok_iff.mpr ⟨got, hgot, bind_eq_ok_iff.mpr ⟨deltas, hdeltas, rfl⟩⟩⟩

/-- In every fine run: of each tick up to the cursor that was not reported as missed the reader has
one entry, made of the deltas of all shards (a shard has at most one for a tick), and it has no
others. The next read of a view that all shards know under the same columns returns, and reports a gap or
leaves nothing published beyond the cursor. -/
theorem fineRun_exactly_once [PlanLogic P] {env : Env P} (hk : ListsKeys env) {kh : KeyHash}
    {w : Followed P} (hr : FineRun env kh v w) (hrd : w.reader = some rd) :
    (∀ pub ∈ w.published, pub.Pairwise fun e e' => e.1 < e'.1) ∧
    (∀ t, rd.start < t → t ≤ rd.cursor → ¬rd.InGap t →
      TickLog.Served PartitionedFlow.concatParts t (TickLog.partsAt w.published t)
        (rd.received.filter fun e => e.1 = t)) ∧
    (∀ e ∈ rd.received, rd.start < e.1 ∧ e.1 ≤ rd.cursor ∧ ¬rd.InGap e.1) ∧
    ((∀ s ∈ w.flow.shards, (s.inner.views.lookup v).isSome = true) → ColumnsAgree w.published →
      ∃ o, w.flow.viewOutputSince v rd.cursor = .ok o ∧ (o.missed = true ∨
        ∀ pub ∈ w.published, ∀ e ∈ pub, e.1 ≤ (rd.read w.flow v).cursor)) := by
  have hinv := hr.inv hk
  have hin := hinv.inStep rd hrd
  refine ⟨fun pub hpub => ?_, hin.served, hin.received, fun hreg ht => ?_⟩
  · obtain ⟨s, -, hlane⟩ := hinv.lanes.exists_left pub hpub
    exact hlane.increasing
  obtain ⟨o, ho⟩ := viewOutputSince_total hinv.lanes hreg ht rd.cursor
  refine ⟨o, ho, ?_⟩
  cases hm : o.missed with
  | true => exact .inl rfl
  | false =>
    refine .inr fun pub hpub e he => ?_
    unfold Follower.read
    rw [ho]
    dsimp only
    rw [hm, if_neg Bool.false_ne_true]
    -- above the old cursor the delta is in the answer, so the new cursor has reached it
    by_cases hlt : rd.cursor < e.1
    · have hcomplete := viewOutputSince_complete hinv.lanes ho hm
      obtain ⟨x, hx, hxe⟩ := (mem_complete hcomplete).mpr ⟨hlt, pub, hpub, e, he, rfl⟩
      rw [← hxe]
      exact mem_le_newest hx
    · exact le_trans (Nat.le_of_not_lt hlt) (le_newest _ _)

/-! ## Two shards -/

/-- Even keys go to shard `0`, odd keys to shard `1`. -/
def parityHash : KeyHash where
  digest _ key := match key with
    | .int i => i.toNat
    | _ => 0
  nullDigest := 0

/-- A reader of a scan over two shards, and a feed with a row for each. -/
def followedPair : Followed StatelessPlan :=
  (((Followed.new 2 "k").step scanEnv parityHash "v" (.register (scanView "v" "t"))).step
    scanEnv parityHash "v" (.start 0)).step scanEnv parityHash "v"
      (.feed "t" ⟨keySchema, [([.int 2], 1), ([.int 3], 1)]⟩)

/-- Both shards finish the tick, then the reader reads. -/
def readTogether : Followed StatelessPlan :=
  (followedPair.step scanEnv parityHash "v" (.step fun _ => none)).step scanEnv parityHash "v" .read

/-- The reader has both rows, as one delta of tick `1`. -/
theorem readTogether_once :
    (∀ rd, readTogether.reader = some rd → ∀ t, rd.start < t → t ≤ rd.cursor → ¬rd.InGap t →
      TickLog.Served PartitionedFlow.concatParts t (TickLog.partsAt readTogether.published t)
        (rd.received.filter fun e => e.1 = t)) ∧
    (readTogether.reader.map fun rd => (rd.cursor, rd.received)) =
      some (1, [(1, ⟨keySchema, [([.int 2], 1), ([.int 3], 1)]⟩)]) := by
  have hk : ListsKeys scanEnv := fun l => List.Perm.refl l
  -- after the tick both clocks are at the number of the read
  have hclock : ((followedPair.step scanEnv parityHash "v" (.step fun _ => none)).reader.all
      fun rd => (followedPair.step scanEnv parityHash "v" (.step fun _ => none)).flow.shards.all
        fun s => (rd.read (followedPair.step scanEnv parityHash "v" (.step fun _ => none)).flow
          "v").cursor ≤ s.inner.tick) = true := by decide +kernel
  have hrun : FineRun scanEnv parityHash "v" readTogether := by
    refine .step (.step (.step (.step (.step (.new 2 "k") ?_) ?_) ?_) ?_) ?_
    · trivial
    · trivial
    · trivial
    · trivial
    · intro rd hrd
      rw [hrd] at hclock
      exact .inr fun s hs => of_decide_eq_true (all_eq_true.mp hclock s hs)
  exact ⟨fun rd hrd => (fineRun_exactly_once hk hrun hrd).2.1, by decide +kernel⟩

/-- Shard `1` fails the first tick and the reader moves on to tick `1` of shard `0`; then shard `1`
catches up, under number `1` of its own clock, and the reader reads again. -/
def readApart : Followed StatelessPlan :=
  let failed := IvmError.execution "Resources exhausted"
  (((followedPair.step scanEnv parityHash "v" (.step fun k => if k = 1 then some failed else none)).step
    scanEnv parityHash "v" .read).step scanEnv parityHash "v" (.step fun _ => none)).step
      scanEnv parityHash "v" .read

/-- The delta of shard `1` is published under a number the cursor has passed: it is never given to
the reader, and no gap is reported. -/
theorem late_shard_is_skipped : readApart.published = [[(1, keyDelta 2 1)], [(1, keyDelta 3 1)]] ∧
    readApart.reader.map (fun rd => (rd.cursor, rd.received, rd.gaps)) = some (1, [(1, keyDelta 2 1)], []) ∧
    (readApart.flow.viewOutputSince "v" 1).toOption = some ⟨[], false, 1⟩ := by
  refine ⟨by decide +kernel, by decide +kernel, by decide +kernel⟩

end Followed

end Krishiv.Ivm
