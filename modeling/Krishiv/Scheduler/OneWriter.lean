import Krishiv.Lib.Runs
import Krishiv.Scheduler.JobLock

/-!
# One writer for a job

Exclusion rests on one fact: whoever has looked up a lock object has the one the registry still names
(`TaskOk.entry`). Then two requests inside their sections hold the same object. Likewise a request acts on
the flow of the registry because whoever has looked one up has the one that is still there.

Both facts fail as soon as the registry forgets or replaces an object that a waiting request has in hand.
`Fine` excludes just that: the lock is dropped, and the flow dropped or replaced, only when no other
request has it, and a new lock is made only when nobody is in a section of an old one. The flags of
a job are set without the lock, so creations must come without them.
-/

namespace Krishiv.Scheduler.Lock

open World World Function

variable {T : Type} [DecidableEq T] {w : World T} {t : T}

/-! ## The invariant -/

/-- What one request has in hand is what the registry holds. -/
structure TaskOk (job stepLock : Option ℕ) (x : Task) : Prop where
  entry : ∀ l, x.lock = some l → stepLock = some l ∨ x.pc = .dropRest
  dropped : x.pc = .dropRest → stepLock = none
  flow : ∀ f, x.flow = some f → job = some f
  image : ∀ f, x.image = some f → job = some f
  kept : x.request.keepsFlow = true → x.pc = .lock ∨ x.pc = .wait ∨ x.pc = .check → x.flow.isSome = true
  captured : x.pc = .replay ∨ x.pc = .append ∨ x.pc = .apply → x.flow.isSome = true
  imaged : x.pc = .save → x.image.isSome = true
  creating : x.pc = .insert ∨ x.pc = .configure → x.request.keepsFlow = false
  flags : ∀ d f, x.request = .create d f → d = false ∧ f = false

structure Inv (w : World T) : Prop where
  excl : ∀ t t', w.Inside t → w.Inside t' → t = t'
  holds : ∀ t, w.Inside t → ∃ l, (w.tasks t).lock = some l ∧ w.holder l = some t
  tasks : ∀ t, TaskOk w.job w.stepLock (w.tasks t)

omit [DecidableEq T] in
/-- The store and the position in the log are no matter of the lock. -/
lemma Inv.store (hw : Inv w) (walSeq : ℕ) (snapshot : Option (ℕ × ℕ)) (log : List (ℕ × ℕ)) :
    Inv { w with walSeq := walSeq, snapshot := snapshot, log := log } :=
  { hw with }

variable {x : Task} {w' : World T}

lemma inside_update (h : w'.tasks = update w.tasks t x) (j : T) :
    w'.Inside j ↔ j = t ∧ x.pc.inside = true ∨ j ≠ t ∧ w.Inside j := by
  unfold World.Inside
  rw [h]
  by_cases hj : j = t
  · subst hj
    simp
  · simp [hj]

/-- A call of a request that stays inside or outside. -/
lemma Inv.update (hw : Inv w) (hholder : w'.holder = w.holder)
    (htasks : w'.tasks = update w.tasks t x) (hx : TaskOk w'.job w'.stepLock x)
    (hothers : ∀ j ≠ t, TaskOk w'.job w'.stepLock (w.tasks j)) (hin : x.pc.inside = (w.tasks t).pc.inside)
    (hsame : x.pc.inside = true → x.lock = (w.tasks t).lock) : Inv w' := by
  have hinside : ∀ j, w'.Inside j ↔ w.Inside j := by
    intro j
    rw [inside_update htasks, hin]
    by_cases hj : j = t
    · subst hj
      simp [World.Inside]
    · simp [hj]
  refine ⟨fun j j' hj hj' => hw.excl j j' ((hinside j).mp hj) ((hinside j').mp hj'), fun j hj => ?_, ?_⟩
  · have hwj := (hinside j).mp hj
    obtain ⟨l, hl, hheld⟩ := hw.holds j hwj
    refine ⟨l, ?_, by rw [hholder, hheld]⟩
    rw [htasks]
    by_cases hjt : j = t
    · subst hjt
      rw [update_self, hsame (hin.trans hwj), hl]
    · rw [update_of_ne hjt, hl]
  · rw [htasks]
    exact (forall_update_iff _ fun _ y => TaskOk w'.job w'.stepLock y).mpr ⟨hx, hothers⟩

/-- A call that changes nothing the others look at. -/
lemma Inv.local (hw : Inv w) (hjob : w'.job = w.job) (hlock : w'.stepLock = w.stepLock)
    (hholder : w'.holder = w.holder) (htasks : w'.tasks = Function.update w.tasks t x)
    (hx : TaskOk w.job w.stepLock x) (hin : x.pc.inside = (w.tasks t).pc.inside)
    (hsame : x.pc.inside = true → x.lock = (w.tasks t).lock) : Inv w' := by
  refine hw.update hholder htasks ?_ (fun j _ => ?_) hin hsame
  · rw [hjob, hlock]
    exact hx
  · rw [hjob, hlock]
    exact hw.tasks j

/-- A call after which nobody else is inside. -/
lemma Inv.alone (hne : ∀ j ≠ t, ¬ w.Inside j) (htasks : w'.tasks = Function.update w.tasks t x)
    (hheld : x.pc.inside = true → ∃ l, x.lock = some l ∧ w'.holder l = some t)
    (hx : TaskOk w'.job w'.stepLock x) (hothers : ∀ j ≠ t, TaskOk w'.job w'.stepLock (w.tasks j)) : Inv w' := by
  have hinside : ∀ j, w'.Inside j → j = t ∧ x.pc.inside = true := by
    intro j hj
    rcases (inside_update htasks j).mp hj with h | ⟨hjt, h⟩
    · exact h
    · exact absurd h (hne j hjt)
  refine ⟨fun j j' hj hj' => (hinside j hj).1.trans (hinside j' hj').1.symm, fun j hj => ?_, ?_⟩
  · obtain ⟨rfl, hin⟩ := hinside j hj
    rw [htasks, update_self]
    exact hheld hin
  · rw [htasks]
    exact (forall_update_iff _ fun _ y => TaskOk w'.job w'.stepLock y).mpr ⟨hx, hothers⟩

/-- A request leaves its section. -/
lemma Inv.left (hw : Inv w) (hin : w.Inside t) (hjob : w'.job = w.job)
    (hlock : w'.stepLock = w.stepLock) (htasks : w'.tasks = Function.update w.tasks t x)
    (hx : TaskOk w.job w.stepLock x) (hout : x.pc.inside = false) : Inv w' := by
  refine .alone (fun j hjt h => hjt (hw.excl j t h hin)) htasks (by rw [hout]; nofun) ?_ fun j _ => ?_
  · rw [hjob, hlock]
    exact hx
  · rw [hjob, hlock]
    exact hw.tasks j

/-- What a request has in hand before a call. -/
def Task.Needs (x : Task) : Pc → Prop
  | .lock | .wait | .check => x.request.keepsFlow = true → x.flow.isSome = true
  | .replay | .append | .apply => x.flow.isSome = true
  | .save => x.image.isSome = true
  | .insert | .configure => x.request.keepsFlow = false
  | _ => True

variable {stepLock job : Option ℕ}

lemma TaskOk.of_needs (hpc : x.pc ≠ .dropRest) (hneeds : x.Needs x.pc)
    (hentry : ∀ l, x.lock = some l → stepLock = some l)
    (hflow : ∀ f, x.flow = some f → job = some f) (himage : ∀ f, x.image = some f → job = some f)
    (hflags : ∀ d f, x.request = .create d f → d = false ∧ f = false) : TaskOk job stepLock x := by
  refine ⟨fun l hl => .inl (hentry l hl), fun h => absurd h hpc, hflow, himage, fun hk h => ?_, fun h => ?_,
    fun h => ?_, fun h => ?_, hflags⟩
  · rcases h with h | h | h <;> rw [h] at hneeds <;> exact hneeds hk
  · rcases h with h | h | h <;> rw [h] at hneeds <;> exact hneeds
  · rw [h] at hneeds
    exact hneeds
  · rcases h with h | h <;> rw [h] at hneeds <;> exact hneeds

variable {pc old : Pc}

lemma Inv.leave (hw : Inv w) (hpc : (w.tasks t).pc = old) (hin : old.inside = true := by rfl)
    (hout : pc.inside = false := by rfl) (hneeds : ∀ x, Task.Needs x pc := by exact fun _ => trivial) :
    Inv (w.leave t pc) := by
  have hpc' : pc ≠ .dropRest := by
    rintro rfl
    cases hout
  refine hw.left ?_ rfl rfl rfl (.of_needs hpc' (hneeds _) nofun nofun nofun (hw.tasks t).flags) hout
  rw [World.Inside, hpc, hin]

/-- Another flow may take the place of one that the request does not have. -/
lemma TaskOk.replace {job' : Option ℕ} (hx : TaskOk job stepLock x)
    (hflow : x.flow = none) (himage : x.image = none) : TaskOk job' stepLock x :=
  { hx with flow := by rw [hflow]; nofun, image := by rw [himage]; nofun }

/-- While the registry holds no flow, nobody has one. -/
lemma TaskOk.bare (hx : TaskOk none stepLock x) : x.flow = none ∧ x.image = none :=
  ⟨Option.eq_none_iff_forall_ne_some.mpr fun f hf => (nomatch hx.flow f hf),
    Option.eq_none_iff_forall_ne_some.mpr fun f hf => (nomatch hx.image f hf)⟩

/-! ## The calls -/

/-- No other request has a flow in hand. -/
def Unshared (w : World T) (t : T) : Prop :=
  ∀ t' ≠ t, (w.tasks t').flow = none ∧ (w.tasks t').image = none

lemma TaskOk.lock_eq (hx : TaskOk job stepLock x) (hpc : x.pc = old)
    (hold : old ≠ .dropRest) (l : ℕ) (hl : x.lock = some l) : stepLock = some l :=
  (hx.entry l hl).resolve_right (hpc ▸ hold)

section

variable (hw : Inv w)

include hw

/-- A request goes on with what the registry has. -/
lemma Inv.hold (hpc : (w.tasks t).pc = old) {flow image : Option ℕ} {covered : ℕ}
    (hflow : ∀ f, flow = some f → w.job = some f) (himage : ∀ f, image = some f → w.job = some f)
    (hneeds : Task.Needs { w.tasks t with flow := flow, image := image } pc := by rfl)
    (hold : old ≠ .dropRest := by nofun) (hnew : pc ≠ .dropRest := by nofun)
    (hin : pc.inside = old.inside := by rfl) :
    Inv (w.setTask t { w.tasks t with pc := pc, flow := flow, image := image, covered := covered }) := by
  have hx := hw.tasks t
  exact hw.local rfl rfl rfl rfl (.of_needs hnew hneeds (hx.lock_eq hpc hold) hflow himage hx.flags)
    (hpc ▸ hin) fun _ => rfl

lemma Inv.goto (hpc : (w.tasks t).pc = old) (hneeds : (w.tasks t).Needs pc := by trivial)
    (hold : old ≠ .dropRest := by nofun) (hnew : pc ≠ .dropRest := by nofun)
    (hin : pc.inside = old.inside := by rfl) : Inv (w.goto t pc) :=
  hw.hold hpc (hw.tasks t).flow (hw.tasks t).image hneeds hold hnew hin

lemma Inv.loaded {f : ℕ} (hjob : w.job = some f) (hpc : (w.tasks t).pc = old)
    (hold : old = .lookup ∨ old = .relook) : Inv (w.loaded t f) := by
  have hout : old.inside = false := by rcases hold with rfl | rfl <;> rfl
  have hne : old ≠ .dropRest := by rcases hold with rfl | rfl <;> nofun
  have hx := hw.tasks t
  unfold World.loaded
  dsimp only
  split
  · next hr => exact hw.goto hpc (by rw [Task.Needs, hr]; rfl) hne nofun hout.symm
  · exact hw.goto hpc trivial hne nofun hout.symm
  refine hw.hold hpc (fun f' hf => ?_) (hw.tasks t).image (fun hkeeps => ?_) hne nofun hout.symm
  · split at hf
    · rw [hjob, hf]
    · cases hf
  · dsimp only at hkeeps ⊢
    rw [if_pos hkeeps]
    rfl

lemma Inv.lookLock (hout : (w.tasks t).pc.inside = false) (hin : pc.inside = false)
    (hneeds : (w.tasks t).Needs pc) (hfine : w.stepLock = none → ∀ t', ¬ w.Inside t') : Inv (w.lookLock t pc) := by
  have hx := hw.tasks t
  have hpc : pc ≠ .dropRest := by
    rintro rfl
    cases hin
  have hnew : ∀ l, TaskOk w.job (some l) { w.tasks t with pc := pc, lock := some l } := fun l =>
    .of_needs hpc hneeds (fun _ hl => hl) hx.flow hx.image hx.flags
  unfold World.lookLock
  cases hlock : w.stepLock with
  | some l => exact hw.local rfl rfl rfl rfl (hlock ▸ hnew l) (hin.trans hout.symm) (by rw [hin]; nofun)
  | none =>
    have hnone := hfine hlock
    refine .alone (fun j _ => hnone j) rfl (by rw [hin]; nofun) (hnew w.nextLock) fun j _ => ?_
    have hj := hw.tasks j
    rw [hlock] at hj
    have hpcj : (w.tasks j).pc ≠ .dropRest := fun h => hnone j (by rw [World.Inside, h]; rfl)
    exact { hj with
      entry := fun l hl => (nomatch (hj.entry l hl).resolve_right hpcj)
      dropped := fun h => absurd h hpcj }

lemma Inv.acquire (hpc : (w.tasks t).pc = old) (hold : old ≠ .dropRest)
    (hx : TaskOk w.job w.stepLock { w.tasks t with pc := pc }) : Inv (w.acquire t pc) := by
  unfold World.acquire
  cases hlock : (w.tasks t).lock with
  | none => exact hw
  | some l =>
    dsimp only
    cases hholder : w.holder l with
    | some t' => exact hw
    | none =>
      have hentry := (hw.tasks t).lock_eq hpc hold l hlock
      -- whoever is inside holds the lock that the registry names
      have hnone : ∀ j, ¬ w.Inside j := by
        intro j hj
        obtain ⟨l', hl', hheld⟩ := hw.holds j hj
        rcases (hw.tasks j).entry l' hl' with h | h
        · rw [hentry] at h
          cases h
          rw [hholder] at hheld
          cases hheld
        · rw [(hw.tasks j).dropped h] at hentry
          cases hentry
      exact .alone (fun j _ => hnone j) rfl (fun _ => ⟨l, hlock, update_self ..⟩) hx fun j _ => hw.tasks j

/-- The registry gets another flow, or none, while nobody else has the old one. -/
lemma Inv.rejob (hshare : w.job.isSome = true → Unshared w t)
    (hlock : w'.stepLock = w.stepLock) (hholder : w'.holder = w.holder)
    (htasks : w'.tasks = Function.update w.tasks t x) (hx : TaskOk w'.job w.stepLock x)
    (hin : x.pc.inside = (w.tasks t).pc.inside) (hsame : x.lock = (w.tasks t).lock) : Inv w' := by
  have hbare : Unshared w t := by
    cases hjob : w.job with
    | some f => exact hshare (by rw [hjob]; rfl)
    | none =>
      intro j _
      have hj := hw.tasks j
      rw [hjob] at hj
      exact hj.bare
  refine hw.update hholder htasks (hlock ▸ hx) (fun j hj => ?_) hin fun _ => hsame
  rw [hlock]
  exact (hw.tasks j).replace (hbare j hj).1 (hbare j hj).2

/-- The registry gets another flow, or none, from a request that has none in hand. -/
lemma Inv.reset (hshare : w.job.isSome = true → Unshared w t) (hpc : (w.tasks t).pc = old) (htasks : w'.tasks =
      Function.update w.tasks t { w.tasks t with pc := pc, flow := none, image := none })
    (hneeds : ∀ x, Task.Needs x pc := by exact fun _ => trivial) (hold : old ≠ .dropRest := by nofun)
    (hnew : pc ≠ .dropRest := by nofun) (hin : pc.inside = old.inside := by rfl)
    (hlock : w'.stepLock = w.stepLock := by rfl) (hholder : w'.holder = w.holder := by rfl) :
    Inv w' := by
  have hx := hw.tasks t
  exact hw.rejob hshare hlock hholder htasks
    (.of_needs hnew (hneeds _) (hx.lock_eq hpc hold) nofun nofun hx.flags) (hpc ▸ hin) rfl

lemma Inv.dropLock (hpc : (w.tasks t).pc = .dropLock) (hfine : ∀ t' ≠ t, (w.tasks t').lock = none) :
    Inv ({ w with stepLock := none }.goto t .dropRest) := by
  have hin : w.Inside t := by rw [World.Inside, hpc]; rfl
  have hx := hw.tasks t
  refine .alone (fun j hj h => hj (hw.excl j t h hin)) rfl (fun _ => hw.holds t hin) ?_ fun j hj => ?_
  · exact ⟨fun _ _ => .inr rfl, fun _ => rfl, hx.flow, hx.image, by simp, by simp, nofun, by simp, hx.flags⟩
  · have hnot : (w.tasks j).pc ≠ .dropRest := fun h => hj (hw.excl j t (by rw [World.Inside, h]; rfl) hin)
    exact { hw.tasks j with entry := by rw [hfine j hj]; nofun, dropped := fun h => absurd h hnot }

lemma Inv.settle (hpc : (w.tasks t).pc = old) (hold : old ≠ .dropRest) (hin : old.inside = true)
    (due : Bool) : Inv (w.settle t due) := by
  unfold World.settle
  split
  · exact hw.goto hpc trivial hold nofun hin.symm
  · exact hw.leave hpc hin

/-! ## Runs -/

/-- The condition on an event, in the world it meets. -/
def Fine (w : World T) : Event T → Prop
  | .arrive _ r => ∀ d f, r = .create d f → d = false ∧ f = false
  | .run t o =>
    match (w.tasks t).pc with
    | .coldLock | .lock => w.stepLock = none → ∀ t', ¬ w.Inside t'
    | .coldRestore | .dropJob => w.job.isSome = true → Unshared w t
    | .register => o.more = true → Unshared w t
    | .dropLock => ∀ t' ≠ t, (w.tasks t').lock = none
    | _ => True

lemma Inv.run {o : Outcome} (hfine : Fine w (.run t o)) : Inv (w.run t o) := by
  have hx := hw.tasks t
  unfold Fine at hfine
  dsimp only at hfine
  unfold World.run
  dsimp only
  cases hpc : (w.tasks t).pc with
  | idle => exact hw
  | lookup =>
    cases hjob : w.job with
    | some f => exact hw.loaded hjob hpc (.inl rfl)
    | none => exact hw.goto hpc
  | coldLock =>
    rw [hpc] at hfine
    exact hw.lookLock (by rw [hpc]; rfl) rfl trivial hfine
  | coldWait =>
    exact hw.acquire hpc nofun (.of_needs nofun trivial (hx.lock_eq hpc nofun) hx.flow hx.image hx.flags)
  | coldCheck =>
    dsimp only
    split
    · exact hw.leave hpc
    · exact hw.goto hpc
  | coldLoad =>
    dsimp only
    split
    · exact hw.goto hpc
    · next hr =>
      refine hw.left (by rw [World.Inside, hpc]; rfl) rfl rfl rfl ?_ rfl
      exact .of_needs nofun (by rw [Task.Needs, hr]; rfl) nofun nofun nofun hx.flags
    · exact hw.leave hpc
  | coldRestore =>
    dsimp only
    rw [hpc] at hfine
    split
    · exact hw.reset hfine hpc rfl
    · exact hw.leave hpc
  | replayGet =>
    cases hjob : w.job with
    | some f =>
      exact hw.hold hpc (fun f' hf => hjob.trans hf) hx.image
    | none => exact hw.goto hpc
  | replay =>
    dsimp only
    split
    · split
      · exact hw
      · exact (hw.store ((w.log.map Prod.fst).foldl max w.walSeq) w.snapshot w.log).leave hpc
    · exact hw.goto hpc
  | relook =>
    dsimp only
    split
    · next hr => exact hw.goto hpc (by rw [Task.Needs, hr]; rfl)
    · next hjob _ => exact hw.loaded hjob hpc (.inr rfl)
    · exact hw.goto hpc
  | insert =>
    have hcreate := hx.creating (.inl hpc)
    cases hjob : w.job with
    | some f => exact hw.goto hpc hcreate
    | none =>
      -- nobody has a flow yet
      rw [hjob] at hx
      have hbare := hx.bare
      refine hw.rejob (by rw [hjob]; nofun) rfl rfl rfl ?_ (by rw [hpc]; rfl) rfl
      refine .of_needs nofun hcreate (hx.lock_eq hpc nofun) ?_ ?_ hx.flags
      · dsimp only
        rw [hbare.1]
        nofun
      · dsimp only
        rw [hbare.2]
        nofun
  | configure =>
    dsimp only
    split
    · exact hw.goto hpc (fun hk => absurd hk (by simp [hx.creating (.inr hpc)]))
    · exact hw.goto hpc
  | lock =>
    rw [hpc] at hfine
    exact hw.lookLock (by rw [hpc]; rfl) rfl (fun hk => hx.kept hk (.inl hpc)) hfine
  | wait =>
    have hkept := fun hk => hx.kept hk (.inr (.inl hpc))
    refine hw.acquire hpc nofun (.of_needs ?_ ?_ (hx.lock_eq hpc nofun) hx.flow hx.image hx.flags) <;>
      cases hr : (w.tasks t).request <;> simp_all [enter, Request.keepsFlow, Task.Needs]
  | check =>
    cases hjob : w.job with
    | none => exact hw.leave hpc
    | some f =>
      dsimp only
      split
      · next hr =>
        exact hw.goto hpc (hx.kept (by rw [hr]; rfl) (.inr (.inr hpc)))
      split
      · exact hw.hold hpc (fun f' hf => hjob.trans hf) hx.image
      · exact hw.leave hpc
  | append =>
    have hflow := hx.captured (.inr (.inl hpc))
    dsimp only
    split
    · next f _ _ =>
      have hlog : Inv (w.logEntry f) := hw.store _ _ _
      split
      · exact hlog.settle hpc nofun rfl o.more
      · exact hlog.goto hpc hflow
    · exact (hw.store (w.walSeq + 1) w.snapshot w.log).leave hpc
  | apply =>
    have hflow := hx.captured (.inr (.inr hpc))
    dsimp only
    split
    · split
      · exact hw.settle hpc nofun rfl o.more
      · exact hw.goto hpc hflow
      · exact hw.goto hpc
    · exact hw.leave hpc
  | register =>
    dsimp only
    rw [hpc] at hfine
    split
    · split
      · next hmore =>
        exact hw.reset (fun _ => hfine hmore) hpc rfl
      · exact hw.goto hpc
    · exact hw.leave hpc
  | image =>
    cases hjob : w.job with
    | some f =>
      exact hw.hold hpc hx.flow fun f' hf => hjob.trans hf
    | none => exact hw.leave hpc
  | save =>
    dsimp only
    split
    · next f _ _ =>
      exact (hw.store w.walSeq (some ((w.tasks t).covered, f)) w.log).goto hpc
    · exact hw.leave hpc
  | truncate =>
    dsimp only
    split
    · exact (hw.store w.walSeq w.snapshot (w.log.filter ((w.tasks t).covered < ·.1))).leave hpc
    · exact hw.leave hpc
  | removeSnapshot =>
    dsimp only
    split
    · exact (hw.store w.walSeq none []).goto hpc
    · exact hw.leave hpc
  | dropJob =>
    rw [hpc] at hfine
    exact hw.reset hfine hpc rfl
  | dropLock =>
    rw [hpc] at hfine
    exact hw.dropLock hpc hfine
  | dropRest => exact (hw.store 0 w.snapshot w.log).leave hpc

end

/-- The worlds reached from a cold process, over any store, by events that are all fine. -/
def FineRun (w : World T) : Prop := ∃ snapshot log, Runs.Reached World.act Fine (cold snapshot log) w

omit [DecidableEq T] in
lemma Inv.cold (snapshot : Option (ℕ × ℕ)) (log : List (ℕ × ℕ)) : Inv (cold snapshot log : World T) :=
  ⟨nofun, nofun, fun _ => .of_needs nofun trivial nofun nofun nofun nofun⟩

lemma Inv.act (hw : Inv w) {ev : Event T} (hfine : Fine w ev) : Inv (w.act ev) := by
  cases ev with
  | arrive t r =>
    unfold World.act
    dsimp only
    split
    · next hidle =>
      refine hw.local rfl rfl rfl rfl ?_ ?_ ?_
      · by_cases hr : r = .delete
        · subst hr
          exact .of_needs nofun nofun nofun nofun nofun nofun
        · simp only [if_neg hr]
          exact .of_needs nofun trivial nofun nofun nofun hfine
      · rw [hidle]
        split <;> rfl
      · dsimp only
        split <;> nofun
    · exact hw
  | run t o => exact hw.run hfine

lemma FineRun.inv (h : FineRun w) : Inv w := by
  obtain ⟨snapshot, log, hreached⟩ := h
  exact hreached.invariant (fun _ _ hfine hw => hw.act hfine) (.cold snapshot log)

def World.runAll (w : World T) (events : List (Event T)) : World T := Runs.run World.act w events

/-- At most one request is in a section; a call that changes a flow, the log or the snapshot is made from
inside one, and acts on, or writes for, the flow that the registry holds. -/
theorem one_writer (hrun : FineRun w) : (∀ t t', w.Inside t → w.Inside t' → t = t') ∧
    ∀ t c, w.changes t = some c → w.Inside t ∧
    (c = .flow w.job ∨ c = .log w.job ∨ c = .snapshot w.job) := by
  have hw := hrun.inv
  refine ⟨hw.excl, fun t c hc => ?_⟩
  have hx := hw.tasks t
  -- what is in hand is what the registry holds
  have hhand : ∀ {o : Option ℕ}, (∀ f, o = some f → w.job = some f) → o.isSome = true → o = w.job := by
    intro o h ho
    obtain ⟨f, rfl⟩ := Option.isSome_iff_exists.mp ho
    exact (h f rfl).symm
  unfold changes at hc
  dsimp only at hc
  unfold World.Inside
  split at hc
  · next d f _ hr =>
    obtain ⟨rfl, rfl⟩ := hx.flags d f hr
    cases hc
  · next hpc =>
    cases hc
    rw [hhand hx.flow (hx.captured (.inl hpc)), hpc]
    exact ⟨rfl, .inl rfl⟩
  · next hpc =>
    cases hc
    rw [hhand hx.flow (hx.captured (.inr (.inl hpc))), hpc]
    exact ⟨rfl, .inr (.inl rfl)⟩
  · next hpc =>
    cases hc
    rw [hhand hx.flow (hx.captured (.inr (.inr hpc))), hpc]
    exact ⟨rfl, .inl rfl⟩
  · next hpc =>
    cases hc
    rw [hpc]
    exact ⟨rfl, .inl rfl⟩
  · next hpc =>
    cases hc
    rw [hhand hx.image (hx.imaged hpc), hpc]
    exact ⟨rfl, .inr (.inr rfl)⟩
  · cases hc

/-! ## Two runs -/

/-- A number of calls of one request, each with the plain outcome. -/
def calls (t : ℕ) (n : ℕ) : List (Event ℕ) := List.replicate n (.run t ⟨true, false⟩)

/-- A job is created, a tick runs up to its log entry, and a delete waits. -/
def queuedRun : List (Event ℕ) :=
  .arrive 0 (.create false false) :: calls 0 12 ++ .arrive 1 .step :: calls 1 5 ++
    .arrive 2 .delete :: calls 2 2

/-- A tick waits for the lock while the job is deleted and created again. -/
def recreatedRun : List (Event ℕ) :=
  .arrive 0 (.create false false) :: calls 0 12 ++ .arrive 1 .step :: calls 1 2 ++
    .arrive 2 .delete :: calls 2 6 ++ .arrive 3 (.create false false) :: calls 3 10 ++ calls 1 2

lemma queuedRun_fine : FineRun ((cold none []).runAll queuedRun) := by
  refine ⟨none, [], queuedRun, ⟨?_, trivial, ?_, ?_⟩, rfl⟩
  · rintro d f ⟨⟩
    exact ⟨rfl, rfl⟩
  · -- the first lock object, while nobody is inside
    intro _ t
    by_cases ht : t = 0
    · subst ht
      nofun
    · simp [World.Inside, act, run, goto, setTask, cold, ht, Pc.inside]
  · exact ⟨trivial, trivial, trivial, trivial, trivial, nofun, trivial, trivial, trivial, trivial, nofun,
      trivial, nofun, trivial, trivial, trivial, nofun, nofun, trivial, trivial⟩

/-- The tick is alone, and its entry is for the flow of the registry. -/
theorem queuedRun_one_writer :
    ((World.cold none []).runAll queuedRun).changes 1 = some (.log (some 0)) ∧
    ((World.cold none []).runAll queuedRun).Inside 1 ∧
    ∀ t, ((World.cold none []).runAll queuedRun).Inside t → t = 1 := by
  have h := one_writer queuedRun_fine
  exact ⟨rfl, (h.2 1 (.log (some 0)) rfl).1, fun t ht => h.1 t 1 ht rfl⟩

/-- The tick that waited and the new creation are both inside, each with its own lock object; the tick
is about to run on the deleted flow, and two calls later an entry for that flow is in the log of the new
one. -/
theorem recreatedRun_two_writers : ((World.cold none []).runAll recreatedRun).Inside 1 ∧
    ((World.cold none []).runAll recreatedRun).Inside 3 ∧
    ((World.cold none []).runAll recreatedRun).changes 1 = some (.flow (some 0)) ∧
    ((World.cold none []).runAll recreatedRun).job = some 1 ∧
    ((World.cold none []).runAll (recreatedRun ++ calls 1 2)).log = [(1, 0)] ∧
    ((World.cold none []).runAll (recreatedRun ++ calls 1 2)).job = some 1 := by
  refine ⟨?_, ?_, ?_, ?_, ?_, ?_⟩ <;> rfl

end Krishiv.Scheduler.Lock
