import Krishiv.Ivm.FullCheckpoint
import Krishiv.Ivm.ViewOutput
import Krishiv.Lib.TickLog

/-!
# Following a view by its changelog

A reader takes the snapshot of a view and the tick, and from then on asks for the deltas published
after its cursor. When it is told that some are gone it takes the snapshot again.

The invariant (`Watched.InStep`): either the cursor is below what the log still serves, so that the
next read reports the gap, or the reader's Z-set and the deltas it has not read yet add up to the
snapshot. A tick keeps it while the snapshot moves by exactly what is published. A restore empties
the log and the views but sets the floor of the log to the tick, so a reader whose cursor has reached
that tick is not told.
-/

namespace Krishiv.Ivm

open Krishiv.Delta Option TickLog

variable {P : Type}

/-! ## Reading -/

/-- Sort a relation by the columns of the view's order that it has. -/
def sortBatch (env : Env P) (b : RecordBatch) (order : List OrderColumn) : IvmResult RecordBatch :=
  let columns := order.filter fun c => b.schema.any fun f => f.name = c.name
  if b.numRows ≤ 1 || columns.isEmpty then .ok b
  else (env.lexsort columns b).mapError fun e => .execution ("view order sort failed: " ++ e)

/-- `snapshot`: the view's relation, in the order of its `ORDER BY`. -/
def snapshot (env : Env P) (s : Inner P) (name : String) : IvmResult (Option RecordBatch) :=
  match s.views.lookup name with
  | none => .error (deltaErr (.viewNotFound name))
  | some view =>
    match view.snapshot, s.viewOrder.lookup name with
    | some b, some order => some <$> sortBatch env b order
    | b, _ => .ok b

/-- What a view published after a given tick. -/
structure OutputSince where
  deltas : List (ℕ × DeltaBatch)
  missed : Bool
  resumeAfter : ℕ
deriving DecidableEq, Repr

/-- The tick through which deltas of the view are gone: evicted, or from before a restore. -/
def goneThrough (s : Inner P) (name : String) : ℕ :=
  max (logOf s name).evictedThrough s.outputLogFloor

def viewOutputSince (s : Inner P) (name : String) (after : ℕ) : IvmResult OutputSince :=
  match s.views.lookup name with
  | none => .error (deltaErr (.viewNotFound name))
  | some _ => .ok ⟨TickLog.since after (logOf s name).deltas, decide (after < goneThrough s name),
      max (goneThrough s name) after⟩

def setOutputRetention (s : Inner P) (deltas bytes : ℕ) : Inner P :=
  { s with outputRetention := (deltas, bytes) }

/-- Sorting permutes the rows. -/
def SortsRows (env : Env P) : Prop :=
  ∀ order b b', env.lexsort order b = .ok b' → b'.rows.Perm b.rows

variable {s : Inner P} {v : String}

/-- The order of a snapshot aside, it is the view's relation. -/
lemma snapshot_count {env : Env P} (hsort : SortsRows env)
    {b : Option RecordBatch} (h : snapshot env s v = .ok b) (r : Row) : countOf b r = viewCount s v r := by
  unfold snapshot at h
  split at h
  · cases h
  next view hview =>
  have hcount : viewCount s v r = countOf view.snapshot r := by
    rw [viewCount, hview]
    rfl
  rw [hcount]
  split at h
  · next b₀ order hb ho =>
    obtain ⟨b', hb', rfl⟩ := Except.map_eq_ok_iff.mp h
    rw [hb]
    unfold sortBatch at hb'
    dsimp only at hb'
    split at hb'
    · cases hb'
      rfl
    · rw [Except.mapError_eq_ok_iff] at hb'
      exact ZSet.perm_iff_count.mp (hsort _ _ _ hb') r
  · cases h
    rfl

/-! ## What eviction does to a log -/

section

variable (env : Env P)

lemma evict_spec (maxDeltas maxBytes : ℕ) (l : List (ℕ × DeltaBatch)) (bytes evicted : ℕ) :
    ∃ gone, l = gone ++ (evict env maxDeltas maxBytes l bytes evicted).deltas ∧
      evicted ≤ (evict env maxDeltas maxBytes l bytes evicted).evictedThrough ∧
      ∀ e ∈ gone, e.1 ≤ (evict env maxDeltas maxBytes l bytes evicted).evictedThrough := by
  induction l generalizing bytes evicted with
  | nil => exact ⟨[], rfl, le_refl _, by simp⟩
  | cons e l ih =>
    obtain ⟨t, d⟩ := e
    unfold evict
    split
    · obtain ⟨gone, hl, hle, hgone⟩ := ih (bytes - env.memorySize d) (max evicted t)
      refine ⟨(t, d) :: gone, by rw [List.cons_append, ← hl], ?_, List.forall_mem_cons.mpr ⟨?_, hgone⟩⟩
      · exact le_trans (le_max_left _ _) hle
      · exact le_trans (le_max_right _ _) hle
    · exact ⟨[], rfl, le_refl _, by simp⟩

/-- A pushed delta: the log is the old one and the new delta, without what the bound of evicted
ticks now covers. -/
lemma OutputLog.push_spec (retention : ℕ × ℕ) (log : OutputLog) (tick : ℕ) (d : DeltaBatch) :
    ∃ gone, log.deltas ++ [(tick, d)] = gone ++ (log.push env retention tick d).deltas ∧
      log.evictedThrough ≤ (log.push env retention tick d).evictedThrough ∧
      ∀ e ∈ gone, e.1 ≤ (log.push env retention tick d).evictedThrough :=
  evict_spec env retention.1 retention.2 _ _ _

/-! ## What feeding and registering leave alone -/

/-- Nothing that a reader of a log sees has changed. -/
structure SameLogs (s s' : Inner P) : Prop where
  log : s'.outputLog = s.outputLog
  outputTicks : s'.viewOutputTicks = s.viewOutputTicks
  tick : s'.tick = s.tick
  floor : s'.outputLogFloor = s.outputLogFloor

lemma feed_output (s : Inner P) (source : String) (d : DeltaBatch) :
    (feed env s source d).1.views = s.views ∧ SameLogs s (feed env s source d).1 := by
  obtain ⟨seen, trackers, dropped, hstate⟩ := accept_state env s.inputDedupEnabled s source d
  unfold Ivm.feed
  split
  · next s₁ e hs =>
    rw [hs] at hstate
    cases hstate
    exact ⟨rfl, rfl, rfl, rfl, rfl⟩
  · next s₁ hs =>
    rw [hs] at hstate
    cases hstate
    exact ⟨rfl, rfl, rfl, rfl, rfl⟩
  · next s₁ kept hs =>
    rw [hs] at hstate
    cases hstate
    split <;> exact ⟨rfl, rfl, rfl, rfl, rfl⟩

/-- A registration leaves the logs alone and stores the view under its name. -/
lemma registerView_output (s : Inner P) (spec : IncrementalViewSpec) : SameLogs s (registerView env s spec) ∧
      ((registerView env s spec).views = s.views ∨ ∃ view : IncrementalView, view.spec.name = spec.name ∧
        (registerView env s spec).views = s.views.insert spec.name view) := by
  rcases registerView_state env s spec with ⟨-, hs⟩ | ⟨plans, sqls, deps, declared, trackers, -, hs⟩ <;> rw [hs]
  · exact ⟨⟨rfl, rfl, rfl, rfl⟩, .inl rfl⟩
  · exact ⟨⟨rfl, rfl, rfl, rfl⟩, .inr ⟨IncrementalView.new
      { spec with bodySql := env.rewrite spec.bodySql }, rfl, rfl⟩⟩

end

lemma WellNamed.registerView (h : WellNamed s) (env : Env P)
    (spec : IncrementalViewSpec) : WellNamed (registerView env s spec) := by
  intro n view hview
  rcases (registerView_output env s spec).2 with hviews | ⟨new, hname, hviews⟩
  · rw [hviews] at hview
    exact h n view hview
  rw [hviews] at hview
  by_cases hn : n = spec.name
  · subst hn
    rw [AList.lookup_insert] at hview
    cases hview
    exact hname
  · rw [AList.lookup_insert_ne hn] at hview
    exact h n view hview

/-! ## The reader -/

structure Reader where
  zset : Row → ℤ
  cursor : ℕ

/-- The sum of some deltas. -/
def deltasNet (deltas : List (ℕ × DeltaBatch)) (r : Row) : ℤ := (deltas.map fun e => e.2.net r).sum

lemma deltasNet_append (l l' : List (ℕ × DeltaBatch)) (r : Row) :
    deltasNet (l ++ l') r = deltasNet l r + deltasNet l' r := by
  simp [deltasNet]

/-- Start from the snapshot and the tick. -/
def Reader.start (env : Env P) (s : Inner P) (v : String) : IvmResult Reader :=
  (fun b => ⟨fun r => countOf b r, s.tick⟩) <$> snapshot env s v

/-- One read: add the deltas and move the cursor, or start again when some are gone. -/
def Reader.read (env : Env P) (s : Inner P) (v : String) (rd : Reader) : Reader :=
  match viewOutputSince s v rd.cursor with
  | .error _ => rd
  | .ok got =>
    if got.missed then (Reader.start env s v).toOption.getD rd
    else ⟨fun r => rd.zset r + deltasNet got.deltas r, TickLog.newest rd.cursor got.deltas⟩

/-- A flow and a reader of one of its views, once it has started. -/
structure Watched (P : Type) where
  inner : Inner P
  reader : Option Reader

inductive WatchEvent where
  | register (spec : IncrementalViewSpec)
  | feed (source : String) (d : DeltaBatch)
  | step (c : TickCtx)
  | retention (deltas bytes : ℕ)
  | restore (blob : SourceBlob)
  | restoreFull (decoded : IvmResult FullBlob)
  | start
  | read

namespace Watched

def step [PlanLogic P] (env : Env P) (v : String) (w : Watched P) : WatchEvent → Watched P
  | .register spec => { w with inner := registerView env w.inner spec }
  | .feed source d => { w with inner := (Ivm.feed env w.inner source d).1 }
  | .step c => { w with inner := (stepDatafusion env w.inner c).1 }
  | .retention deltas bytes => { w with inner := setOutputRetention w.inner deltas bytes }
  | .restore blob => { w with inner := (Ivm.restore w.inner blob).1 }
  | .restoreFull decoded => { w with inner := (Ivm.restoreFull env w.inner decoded).1 }
  | .start => { w with reader := (Reader.start env w.inner v).toOption }
  | .read => { w with reader := w.reader.map (Reader.read env w.inner v) }

/-- What keeps a reader in step. The view is materialized; while it is read it is not registered
anew; a tick seeds no rows into it, retracts no row that its snapshot does not hold and meets no two rows
with one key in what the view holds and publishes; and a restore comes only while the cursor is behind
the tick the flow has after it. -/
def Fine [PlanLogic P] (env : Env P) (v : String) (w : Watched P) : WatchEvent → Prop
  | .register spec => w.reader.isSome = true →
      (registerView env w.inner spec).views.lookup v = w.inner.views.lookup v
  | .step c => w.reader.isSome = true →
      (∀ r, countOf (seededSnapshot env w.inner c v) r = viewCount w.inner v r) ∧ PublishesApart env w.inner c v ∧
      ∀ d, publishedBy (stepDatafusion env w.inner c).1 v = some d → ∀ r, 0 ≤ viewCount w.inner v r + d.net r
  | .restore blob => ∀ rd, w.reader = some rd → (Ivm.restore w.inner blob).2 = .ok () →
      rd.cursor < (Ivm.restore w.inner blob).1.tick
  | .restoreFull decoded => ∀ rd, w.reader = some rd → (Ivm.restoreFull env w.inner decoded).2 = .ok () →
      rd.cursor < (Ivm.restoreFull env w.inner decoded).1.tick
  | .start => ∀ view, w.inner.views.lookup v = some view → view.spec.isMaterialized = true
  | _ => True

inductive FineRun [PlanLogic P] (env : Env P) (v : String) : Watched P → Prop
  | new : FineRun env v ⟨.new, none⟩
  | step {w : Watched P} {e : WatchEvent} : FineRun env v w → w.Fine env v e → FineRun env v (w.step env v e)

/-- The reader will be told of a gap, or what it holds and has not read yet is the snapshot. -/
structure InStep (v : String) (s : Inner P) (rd : Reader) : Prop where
  registered : ∃ view, s.views.lookup v = some view ∧ view.spec.isMaterialized = true
  agrees : rd.cursor < goneThrough s v ∨ (rd.cursor ≤ s.tick ∧ ∀ r,
    rd.zset r + deltasNet (TickLog.since rd.cursor (logOf s v).deltas) r = viewCount s v r)

/-- Every retained delta has a tick that has been. -/
def LogBounded (s : Inner P) (v : String) : Prop := ∀ e ∈ (logOf s v).deltas, e.1 ≤ s.tick

structure Inv (v : String) (w : Watched P) : Prop where
  named : WellNamed w.inner
  bounded : LogBounded w.inner v
  inStep : ∀ rd, w.reader = some rd → InStep v w.inner rd

variable {s' : Inner P} {rd : Reader}

/-- The invariant reads the view, its log, the tick and the floor. -/
lemma InStep.congr (h : InStep v s rd) (hview : s'.views.lookup v = s.views.lookup v)
    (hlog : s'.outputLog = s.outputLog) (htick : s'.tick = s.tick)
    (hfloor : s'.outputLogFloor = s.outputLogFloor) : InStep v s' rd := by
  have hlogOf : logOf s' v = logOf s v := by
    unfold logOf
    rw [hlog]
  refine ⟨by rw [hview]; exact h.registered, h.agrees.imp (fun hgap => ?_) fun hsum => ?_⟩
  · unfold goneThrough
    rw [hlogOf, hfloor]
    exact hgap
  · unfold viewCount
    rw [hlogOf, htick, hview]
    exact hsum

lemma LogBounded.congr (h : LogBounded s v) (hlog : s'.outputLog = s.outputLog)
    (htick : s'.tick = s.tick) : LogBounded s' v := by
  unfold LogBounded logOf
  rw [hlog, htick]
  exact h

/-! ## Reads -/

variable {env : Env P}

/-- A started reader is in step. -/
lemma inStep_start (hsort : SortsRows env) (hb : LogBounded s v)
    (hm : ∀ view, s.views.lookup v = some view → view.spec.isMaterialized = true)
    (h : Reader.start env s v = .ok rd) : InStep v s rd := by
  obtain ⟨b, hsnap, rfl⟩ := Except.map_eq_ok_iff.mp h
  refine ⟨?_, .inr ⟨le_refl _, fun r => ?_⟩⟩
  · cases hv : s.views.lookup v with
    | none =>
      unfold snapshot at hsnap
      rw [hv] at hsnap
      cases hsnap
    | some view => exact ⟨view, rfl, hm view hv⟩
  · rw [since_eq_nil hb]
    show (countOf b r : ℤ) + 0 = _
    rw [snapshot_count hsort hsnap r, add_zero]

/-- A read leaves the reader in step, and with the snapshot as its Z-set. -/
lemma InStep.read (hsort : SortsRows env) (hb : LogBounded s v) (h : InStep v s rd) : InStep v s (rd.read env s v) ∧
      ∀ b, snapshot env s v = .ok b → ∀ r, (rd.read env s v).zset r = countOf b r := by
  obtain ⟨view, hview, hm⟩ := h.registered
  have hmat : ∀ x, s.views.lookup v = some x → x.spec.isMaterialized = true := by
    intro x hx
    rw [hview] at hx
    cases hx
    exact hm
  unfold Reader.read viewOutputSince
  rw [hview]
  dsimp only
  by_cases hgap : rd.cursor < goneThrough s v
  · -- the gap is reported: the reader starts again
    rw [if_pos (by simpa using hgap)]
    cases hstart : Reader.start env s v with
    | error e =>
      refine ⟨h, fun b hb => ?_⟩
      rw [Reader.start, hb] at hstart
      cases hstart
    | ok rd' =>
      refine ⟨inStep_start hsort hb hmat hstart, fun b hsnap r => ?_⟩
      rw [Reader.start, hsnap] at hstart
      cases hstart
      rfl
  · rw [if_neg (by simpa using hgap)]
    obtain ⟨hcur, hsum⟩ := h.agrees.resolve_left hgap
    refine ⟨⟨⟨view, hview, hm⟩, .inr ⟨?_, fun r => ?_⟩⟩, fun b hsnap r => ?_⟩
    · exact newest_le hcur fun e he => hb e (mem_since.mp he).1
    · rw [since_newest]
      show rd.zset r + _ + 0 = _
      rw [add_zero, hsum r]
    · rw [snapshot_count hsort hsnap r, ← hsum r]

/-! ## Ticks -/

lemma LogBounded.tick [PlanLogic P] (hk : ListsKeys env) (hw : WellNamed s) (hb : LogBounded s v)
    (c : TickCtx) : LogBounded (stepDatafusion env s c).1 v := by
  cases hv : s.views.lookup v with
  | none =>
    obtain ⟨hlog, -, htick⟩ := stepDatafusion_unregistered env c hv
    unfold LogBounded
    rw [hlog]
    exact fun e he => le_trans (hb e he) htick
  | some view =>
    cases stepDatafusion_output hk hw c hv with
    | gaveUp tick output =>
      unfold LogBounded logOf
      rw [output.log, tick]
      exact hb
    | quiet tick log _ _ _ =>
      unfold LogBounded
      rw [log, tick]
      exact fun e he => le_trans (hb e he) (Nat.le_succ _)
    | published d tick _ log _ _ _ =>
      unfold LogBounded
      rw [log, tick]
      obtain ⟨gone, hsplit, -, -⟩ := OutputLog.push_spec env s.outputRetention (logOf s v) (s.tick + 1) d
      intro e he
      have hmem : e ∈ (logOf s v).deltas ++ [(s.tick + 1, d)] := by
        rw [hsplit]
        exact List.mem_append_right _ he
      rcases List.mem_append.mp hmem with hold | hnew
      · exact le_trans (hb e hold) (Nat.le_succ _)
      · rw [List.mem_singleton.mp hnew]

/-- A tick that seeds nothing into the view and clamps nothing keeps its reader in step. -/
lemma InStep.tick [PlanLogic P] (hk : ListsKeys env) (hw : WellNamed s) (h : InStep v s rd)
    (c : TickCtx) (hseed : ∀ r, countOf (seededSnapshot env s c v) r = viewCount s v r)
    (hapart : PublishesApart env s c v)
    (hclamp : ∀ d, publishedBy (stepDatafusion env s c).1 v = some d →
      ∀ r, 0 ≤ viewCount s v r + d.net r) : InStep v (stepDatafusion env s c).1 rd := by
  obtain ⟨view, hview, hm⟩ := h.registered
  obtain ⟨hspecs, hfloor⟩ := stepDatafusion_frame env s c
  have hreg : ∃ view, (stepDatafusion env s c).1.views.lookup v = some view ∧ view.spec.isMaterialized = true := by
    have hspec := hspecs v
    rw [hview, map_some] at hspec
    obtain ⟨view', hv', hs'⟩ := map_eq_some_iff.mp hspec
    exact ⟨view', hv', by rw [hs']; exact hm⟩
  refine ⟨hreg, ?_⟩
  unfold PublishesApart at hapart
  cases stepDatafusion_output hk hw c hview with
  | gaveUp tick output =>
    have hlog : logOf (stepDatafusion env s c).1 v = logOf s v := by
      unfold logOf
      rw [output.log]
    unfold goneThrough viewCount
    rw [hlog, hfloor, tick, output.view]
    exact h.agrees
  | quiet tick log count _ _ =>
    have hcount : ∀ r, viewCount (stepDatafusion env s c).1 v r = viewCount s v r := by
      intro r
      rcases count with hsame | hseeded
      · rw [hsame r, viewCount, hview]
        rfl
      · exact (hseeded (hapart.mono (List.subset_append_left _ _)) r).trans (hseed r)
    refine h.agrees.imp (fun hgap => ?_) fun hsum => ⟨by rw [tick]; omega, fun r => ?_⟩
    · unfold goneThrough
      rw [log, hfloor]
      exact hgap
    · rw [log, hcount r]
      exact hsum.2 r
  | published d tick _ log count _ delta =>
    obtain ⟨gone, hsplit, hmono, hgone⟩ :=
      OutputLog.push_spec env s.outputRetention (logOf s v) (s.tick + 1) d
    -- the bound of what is gone only grows
    have hgrow : goneThrough s v ≤ goneThrough (stepDatafusion env s c).1 v := by
      unfold goneThrough
      rw [log, hfloor]
      exact max_le_max hmono (le_refl _)
    by_cases hgap : rd.cursor < goneThrough (stepDatafusion env s c).1 v
    · exact .inl hgap
    obtain ⟨hcur, hsum⟩ := h.agrees.resolve_left (by omega)
    refine .inr ⟨by rw [tick]; omega, fun r => ?_⟩
    -- nothing above the cursor was evicted
    have hsince : since rd.cursor (logOf (stepDatafusion env s c).1 v).deltas =
        since rd.cursor (logOf s v).deltas ++ [(s.tick + 1, d)] := by
      have hle : ∀ e ∈ gone, e.1 ≤ rd.cursor := by
        intro e he
        have h1 := hgone e he
        have h2 : (logOf (stepDatafusion env s c).1 v).evictedThrough ≤
          goneThrough (stepDatafusion env s c).1 v := le_max_left _ _
        rw [log] at h2
        omega
      rw [log, ← since_append_of_le hle, ← hsplit, since_append]
      congr 1
      exact since_eq_self (by simp; omega)
    have hnet : deltasNet [(s.tick + 1, d)] r = d.net r := by simp [deltasNet]
    have h1 := hsum r
    have h2 := hclamp d delta r
    rw [delta] at hapart
    rw [hsince, deltasNet_append, hnet, count hm hapart r, hseed r]
    omega

/-! ## Restores -/

/-- What a restore does to logs and specifications: the logs are empty, their floor is the tick. -/
structure LogsReset (s s' : Inner P) : Prop where
  specs : ∀ n, (s'.views.lookup n).map IncrementalView.spec = (s.views.lookup n).map IncrementalView.spec
  log : s'.outputLog = ∅
  floor : s'.outputLogFloor = s'.tick

lemma restore_reset (s : Inner P) (blob : SourceBlob) : (restore s blob).1 = s ∨
      ((restore s blob).2 = .ok () ∧ LogsReset s (restore s blob).1) := by
  unfold Ivm.restore
  split
  · exact .inl rfl
  refine .inr ⟨rfl, fun n => ?_, rfl, rfl⟩
  show ((KVMap.map _ s.views).lookup n).map _ = _
  rw [KVMap.lookup_map, map_map]
  rfl

lemma restoreView_spec (env : Env P) (blob : FullBlob) (n : String) (view : IncrementalView) :
    (blob.restoreView env n view).spec = view.spec := by
  unfold FullBlob.restoreView
  split <;> rfl

lemma restoreFull_reset (env : Env P) (s : Inner P) (decoded : IvmResult FullBlob) :
    (restoreFull env s decoded).1 = s ∨ ((restoreFull env s decoded).2 = .ok () ∧
        LogsReset s (restoreFull env s decoded).1) := by
  unfold Ivm.restoreFull
  split
  · exact .inl rfl
  next blob =>
  split
  · exact .inl rfl
  refine .inr ⟨rfl, fun n => ?_, ?_, ?_⟩
  · have hviews : ∀ sources, (replaceState env s blob sources).views = KVMap.map (blob.restoreView env) s.views := by
      intro sources
      unfold replaceState
      cases blob.exactState <;> rfl
    rw [hviews, KVMap.lookup_map, map_map]
    cases s.views.lookup n with
    | none => rfl
    | some view => exact congrArg some (restoreView_spec env blob n view)
  · unfold replaceState
    cases blob.exactState <;> rfl
  · unfold replaceState
    cases blob.exactState <;> rfl

variable {w : Watched P}

lemma Inv.reset (h : Inv v w) (hr : LogsReset w.inner s')
    (hcur : ∀ rd, w.reader = some rd → rd.cursor < s'.tick) : Inv v { w with inner := s' } := by
  have hlog : (logOf s' v) = .new := by
    unfold logOf
    rw [hr.log]
    rfl
  refine ⟨h.named.congr hr.specs, ?_, fun rd hrd => ?_⟩
  · show LogBounded s' v
    unfold LogBounded
    rw [hlog]
    intro e he
    cases he
  · obtain ⟨view, hview, hm⟩ := (h.inStep rd hrd).registered
    have hspec := hr.specs v
    rw [hview, map_some] at hspec
    obtain ⟨view', hv', hs'⟩ := map_eq_some_iff.mp hspec
    refine ⟨⟨view', hv', by rw [hs']; exact hm⟩, .inl ?_⟩
    exact lt_of_lt_of_le (hcur rd hrd) (by rw [← hr.floor]; exact le_max_right _ _)

/-- What only touches other parts of the flow keeps the invariant. -/
lemma Inv.congr (h : Inv v w) (hnamed : WellNamed s')
    (hview : w.reader.isSome = true → s'.views.lookup v = w.inner.views.lookup v)
    (hlog : s'.outputLog = w.inner.outputLog) (htick : s'.tick = w.inner.tick)
    (hfloor : s'.outputLogFloor = w.inner.outputLogFloor) : Inv v { w with inner := s' } :=
  ⟨hnamed, h.bounded.congr hlog htick, fun rd hrd =>
    (h.inStep rd hrd).congr (hview (by rw [show w.reader = some rd from hrd]; rfl)) hlog htick hfloor⟩

lemma Inv.step [PlanLogic P] (hk : ListsKeys env) (hsort : SortsRows env) (h : Inv v w)
    {e : WatchEvent} (hf : w.Fine env v e) : Inv v (w.step env v e) := by
  cases e with
  | register spec =>
    obtain ⟨⟨hlog, -, htick, hfloor⟩, -⟩ := registerView_output env w.inner spec
    exact h.congr (h.named.registerView env spec) hf hlog htick hfloor
  | feed source d =>
    obtain ⟨hviews, hlog, -, htick, hfloor⟩ := feed_output env w.inner source d
    exact h.congr (fun n view hview => h.named n view (by rw [← hviews]; exact hview))
      (fun _ => by rw [hviews]) hlog htick hfloor
  | step c =>
    refine ⟨h.named.congr (stepDatafusion_frame env w.inner c).1, h.bounded.tick hk h.named c,
      fun rd hrd => ?_⟩
    obtain ⟨hseed, hapart, hclamp⟩ := hf (by rw [show w.reader = some rd from hrd]; rfl)
    exact (h.inStep rd hrd).tick hk h.named c hseed hapart hclamp
  | retention deltas bytes => exact h.congr h.named (fun _ => rfl) rfl rfl rfl
  | restore blob =>
    rcases restore_reset w.inner blob with hsame | ⟨hok, hr⟩
    · show Inv v { w with inner := (Ivm.restore w.inner blob).1 }
      rw [hsame]
      exact h
    · exact h.reset hr fun rd hrd => hf rd hrd hok
  | restoreFull decoded =>
    rcases restoreFull_reset env w.inner decoded with hsame | ⟨hok, hr⟩
    · show Inv v { w with inner := (Ivm.restoreFull env w.inner decoded).1 }
      rw [hsame]
      exact h
    · exact h.reset hr fun rd hrd => hf rd hrd hok
  | start =>
    refine ⟨h.named, h.bounded, fun rd hrd => ?_⟩
    have hstart : Reader.start env w.inner v = .ok rd := by
      have hrd : (Reader.start env w.inner v).toOption = some rd := hrd
      cases hs : Reader.start env w.inner v with
      | error e => rw [hs] at hrd; cases hrd
      | ok rd' => rw [hs] at hrd; cases hrd; rfl
    exact inStep_start hsort h.bounded hf hstart
  | read =>
    refine ⟨h.named, h.bounded, fun rd hrd => ?_⟩
    obtain ⟨rd', hrd', rfl⟩ := map_eq_some_iff.mp (show w.reader.map _ = some rd from hrd)
    exact ((h.inStep rd' hrd').read hsort h.bounded).1

lemma FineRun.inv [PlanLogic P] (hk : ListsKeys env) (hsort : SortsRows env) (hr : FineRun env v w) : Inv v w := by
  induction hr with
  | new =>
    refine ⟨fun n view hview => ?_, fun e he => ?_, fun rd hrd => ?_⟩
    · cases hview
    · cases he
    · cases hrd
  | step _ hf ih => exact ih.step hk hsort hf

/-- In every fine run, whenever the reader reads it has the snapshot. -/
theorem fineRun_reader_has_snapshot [PlanLogic P] {env : Env P} (hk : ListsKeys env)
    (hsort : SortsRows env) {w : Watched P} (hr : FineRun env v w) {rd : Reader}
    (hrd : w.reader = some rd) {b : Option RecordBatch} (hsnap : snapshot env w.inner v = .ok b)
    (r : Row) : (rd.read env w.inner v).zset r = countOf b r := by
  have hinv := hr.inv hk hsort
  exact ((hinv.inStep rd hrd).read hsort hinv.bounded).2 b hsnap r

/-! ## A reader of a scan -/

/-- A scan of `t` with the row `1`, and a reader that has just started. -/
def followedScan : Watched StatelessPlan :=
  ((((⟨.new, none⟩ : Watched StatelessPlan).step scanEnv "v" (.register (scanView "v" "t"))).step
    scanEnv "v" (.feed "t" (keyDelta 1 1))).step scanEnv "v" (.step .fresh)).step scanEnv "v" .start

/-- Row `2` is fed. -/
def fedScan : Watched StatelessPlan := followedScan.step scanEnv "v" (.feed "t" (keyDelta 2 1))

/-- Row `2` is published, and read. -/
theorem followedScan_reads : let w := fedScan.step scanEnv "v" (.step .fresh)
    (∀ rd, w.reader = some rd → ∀ b, snapshot scanEnv w.inner "v" = .ok b →
      ∀ r, (rd.read scanEnv w.inner "v").zset r = countOf b r) ∧
    (w.reader.map fun rd => (rd.read scanEnv w.inner "v").zset [.int 2]) = some 1 := by
  have hk : ListsKeys scanEnv := fun l => List.Perm.refl l
  have hsort : SortsRows scanEnv := by
    intro order b b' h
    cases h
    exact List.Perm.refl _
  have hseed : seededSnapshot scanEnv fedScan.inner .fresh "v" =
      (fedScan.inner.views.lookup "v").bind IncrementalView.snapshot := by decide +kernel
  have hkeys : ∀ b ∈ ((seededSnapshot scanEnv fedScan.inner .fresh "v").map DeltaBatch.fromInserts).toList ++
      (publishedBy (stepDatafusion scanEnv fedScan.inner .fresh).1 "v").toList, IsKeyDelta b := by decide +kernel
  have hpub : publishedBy (stepDatafusion scanEnv fedScan.inner .fresh).1 "v" =
      some (keyDelta 2 1) := by decide +kernel
  have hrun : FineRun scanEnv "v" (fedScan.step scanEnv "v" (.step .fresh)) := by
    refine .step (.step (.step (.step (.step (.step .new ?_) ?_) ?_) ?_) ?_) ?_
    · exact fun h => absurd h Bool.false_ne_true
    · trivial
    · exact fun h => absurd h Bool.false_ne_true
    · intro view hview
      have hall : (followedScan.inner.views.lookup "v").all
          (fun view => view.spec.isMaterialized) = true := by decide +kernel
      rw [show followedScan.inner.views.lookup "v" = some view from hview] at hall
      exact hall
    · trivial
    intro _
    refine ⟨fun r => ?_, rowsApart_of_keys hkeys, fun d hd r => ?_⟩
    · show countOf (seededSnapshot scanEnv fedScan.inner .fresh "v") r = viewCount fedScan.inner "v" r
      rw [hseed, viewCount]
      cases fedScan.inner.views.lookup "v" <;> rfl
    have hd : publishedBy (stepDatafusion scanEnv fedScan.inner .fresh).1 "v" = some d := hd
    rw [hpub] at hd
    cases hd
    have hnet : 0 ≤ (keyDelta 2 1).net r := by
      unfold keyDelta DeltaBatch.net ZSet.weight
      simp only [ZSet.weight_nil]
      split <;> omega
    omega
  exact ⟨fun rd hrd b hsnap r => fineRun_reader_has_snapshot hk hsort hrun hrd hsnap r, by decide +kernel⟩

/-- The flow is restored from its own checkpoint and steps. -/
def restoredUnderReader : Watched StatelessPlan :=
  (followedScan.step scanEnv "v" (.restore ((checkpoint followedScan.inner).toOption.getD ∅))).step
    scanEnv "v" (.step .fresh)

/-- The cursor is the tick of the restore, so no gap is reported: the rebuilt relation is added to
what the reader has, and it holds the row twice. -/
theorem restore_is_not_reported : (restoredUnderReader.reader.bind fun rd =>
      (viewOutputSince restoredUnderReader.inner "v" rd.cursor).toOption.map OutputSince.missed) =
        some false ∧
    (restoredUnderReader.reader.map fun rd =>
      (rd.read scanEnv restoredUnderReader.inner "v").zset [.int 1]) = some 2 ∧
    (snapshot scanEnv restoredUnderReader.inner "v").toOption = some (some ⟨keySchema, [[.int 1]]⟩) := by
  refine ⟨by decide +kernel, by decide +kernel, by decide +kernel⟩

end Watched

end Krishiv.Ivm
