import Krishiv.Lib.KVMap
import Krishiv.Lib.Runs
import Mathlib.Data.Finset.Sort
import Mathlib.Data.Prod.Lex

/-!
# Event-time timers

`InMemoryTimerService` keeps its timers in an ordered set, by deadline first, and beside it the deadline of
every identity. The two stay inverse to each other in every run (`Inverse`). A drain splits the set before
the least timer of the next millisecond; the largest watermark has no next millisecond, so the timers of
the last one stay.
-/

namespace Krishiv.State.Timers

open Finset

-- an identity is a namespace and a record key, ordered by the fields; the one of empty fields is the least
variable {I : Type} [LinearOrder I]

def i64Max : ℤ := 2 ^ 63 - 1

/-- A deadline and an identity, in the derived order. -/
abbrev TimerKey (I : Type) := ℤ ×ₗ I

structure InMemoryTimerService (I : Type) [LinearOrder I] where
  timers : Finset (TimerKey I)
  identityIndex : KVMap I ℤ

namespace InMemoryTimerService

def new : InMemoryTimerService I := ⟨∅, ∅⟩

variable (s : InMemoryTimerService I)

def registerEventTimeTimer (deadlineMs : ℤ) (id : I) : InMemoryTimerService I :=
  let timers := match s.identityIndex.lookup id with
    | some oldDeadline => s.timers.erase (toLex (oldDeadline, id))
    | none => s.timers
  ⟨insert (toLex (deadlineMs, id)) timers, s.identityIndex.insert id deadlineMs⟩

def cancelTimer (id : I) : InMemoryTimerService I :=
  match s.identityIndex.lookup id with
  | some deadlineMs => ⟨s.timers.erase (toLex (deadlineMs, id)), s.identityIndex.erase id⟩
  | none => s

/-- The service afterwards, and the fired timers. -/
def drainFiredTimers [OrderBot I] (watermarkMs : ℤ) : InMemoryTimerService I × List (TimerKey I) :=
  let sentinel := toLex (min (watermarkMs + 1) i64Max, ⊥)
  let fired := (s.timers.filter (· < sentinel)).sort
  (⟨s.timers.filter (sentinel ≤ ·), fired.foldl (fun index t => index.erase (ofLex t).2) s.identityIndex⟩, fired)

end InMemoryTimerService

open InMemoryTimerService

/-! ## The two indexes -/

/-- A timer is in the set if the index has its deadline. -/
def Inverse (s : InMemoryTimerService I) : Prop :=
  ∀ d id, toLex (d, id) ∈ s.timers ↔ s.identityIndex.lookup id = some d

omit [LinearOrder I] in
lemma key_inj {d d' : ℤ} {id id' : I} :
    (toLex (d, id) : TimerKey I) = toLex (d', id') ↔ d = d' ∧ id = id' := Prod.ext_iff

lemma lookup_foldl_erase (fired : List (TimerKey I)) (index : KVMap I ℤ) (d : ℤ) (id : I) :
    (fired.foldl (fun index t => index.erase (ofLex t).2) index).lookup id = some d ↔
      index.lookup id = some d ∧ ∀ d', toLex (d', id) ∉ fired := by
  induction fired generalizing index with
  | nil => simp
  | cons t fired ih =>
    have ht : t = toLex ((ofLex t).1, (ofLex t).2) := rfl
    rw [List.foldl_cons, ih, KVMap.lookup_erase_ite]
    grind [key_inj]

variable {s : InMemoryTimerService I}

lemma lookup_cancel (id id' : I) : (s.cancelTimer id).identityIndex.lookup id' =
    if id' = id then none else s.identityIndex.lookup id' := by
  unfold cancelTimer
  cases hlook : s.identityIndex.lookup id with
  | none => grind
  | some d => exact KVMap.lookup_erase_ite s.identityIndex id id'

variable [OrderBot I]

/-- The fired timers are those before the next millisecond, if there is one. -/
lemma mem_fired {w d : ℤ} {id : I} : toLex (d, id) ∈ (s.drainFiredTimers w).2 ↔
    toLex (d, id) ∈ s.timers ∧ d < min (w + 1) i64Max := by
  simp [drainFiredTimers, Prod.Lex.toLex_lt_toLex]

inductive Call (I : Type)
  | register (deadlineMs : ℤ) (id : I)
  | cancel (id : I)
  | drain (watermarkMs : ℤ)

def act (s : InMemoryTimerService I) : Call I → InMemoryTimerService I
  | .register deadlineMs id => s.registerEventTimeTimer deadlineMs id
  | .cancel id => s.cancelTimer id
  | .drain watermarkMs => (s.drainFiredTimers watermarkMs).1

section

variable (h : Inverse s)

include h

lemma lookup_drain {w d : ℤ} {id : I} : (s.drainFiredTimers w).1.identityIndex.lookup id = some d ↔
    s.identityIndex.lookup id = some d ∧ min (w + 1) i64Max ≤ d := by
  refine (lookup_foldl_erase (s.drainFiredTimers w).2 s.identityIndex d id).trans ?_
  simp only [mem_fired, h _ _]
  grind

lemma Inverse.act (call : Call I) : Inverse (act s call) := by
  intro d id
  have hold := h d id
  cases call with
  | register d' id' =>
    simp only [Timers.act, registerEventTimeTimer, mem_insert, KVMap.lookup_insert_ite]
    cases hlook : s.identityIndex.lookup id' <;> grind [key_inj]
  | cancel id' =>
    simp only [Timers.act, lookup_cancel]
    unfold cancelTimer
    cases hlook : s.identityIndex.lookup id' <;> grind [key_inj]
  | drain w =>
    rw [Timers.act, lookup_drain h, ← h]
    simp only [drainFiredTimers, mem_filter, ← not_lt, Prod.Lex.toLex_lt_toLex, not_lt_bot, and_false,
      or_false]

end

/-! ## Drains -/

/-- A drain returns the pending timers that are due, each once and in the order of their deadlines, and leaves
the others. -/
structure Exact (s : InMemoryTimerService I) (w : ℤ) : Prop where
  fired : ∀ d id, toLex (d, id) ∈ (s.drainFiredTimers w).2 ↔ s.identityIndex.lookup id = some d ∧ d ≤ w
  ordered : (s.drainFiredTimers w).2.Pairwise fun t t' => (ofLex t).1 ≤ (ofLex t').1
  once : (s.drainFiredTimers w).2.Nodup
  left : ∀ d id, (s.drainFiredTimers w).1.identityIndex.lookup id = some d ↔
    s.identityIndex.lookup id = some d ∧ w < d

/-- Whatever calls were made: the indexes are inverse to each other, a timer that is registered replaces the
one of its identity, a cancelled one is gone, and a drain is exact unless it is at the largest watermark
while a timer of the last millisecond is pending. -/
theorem timers_refine_deadlines (calls : List (Call I)) :
    let s := Runs.run act new calls
    Inverse s ∧
    (∀ d id id', (s.registerEventTimeTimer d id).identityIndex.lookup id' =
      if id' = id then some d else s.identityIndex.lookup id') ∧
    (∀ id id', (s.cancelTimer id).identityIndex.lookup id' =
      if id' = id then none else s.identityIndex.lookup id') ∧
    ∀ w ≤ i64Max, Exact s w ↔ w < i64Max ∨ ∀ id, s.identityIndex.lookup id ≠ some i64Max := by
  intro s
  have hinv : Inverse s := List.foldlRecOn calls act (by simp [Inverse, new]) fun s h call _ => h.act call
  refine ⟨hinv, fun d id id' => KVMap.lookup_insert_ite s.identityIndex id id' d, lookup_cancel, fun w hw => ?_⟩
  constructor
  · intro hexact
    by_contra hlast
    obtain ⟨hmax, id, hid⟩ : w = i64Max ∧ ∃ id, s.identityIndex.lookup id = some i64Max := by grind
    -- the timer is due, but it is not before the sentinel
    have hlt := (mem_fired.mp ((hexact.fired i64Max id).mpr ⟨hid, hmax.ge⟩)).2
    omega
  · intro hfine
    refine ⟨fun d id => ?_, ?_, sort_nodup _ _, fun d id => ?_⟩
    · rw [mem_fired, hinv]
      grind
    · exact (pairwise_sort _ _).imp (Prod.Lex.monotone_fst _ _)
    · rw [lookup_drain hinv]
      grind

/-- The timer of the last millisecond is due at the largest watermark, and stays. -/
theorem last_millisecond_stays :
    ((Runs.run act new [.register i64Max 7]).drainFiredTimers i64Max).2 = ([] : List (TimerKey ℕ)) ∧
    ((Runs.run act new [.register i64Max 7]).drainFiredTimers i64Max).1.identityIndex.lookup (7 : ℕ) =
      some i64Max := by
  decide +kernel

end Krishiv.State.Timers
