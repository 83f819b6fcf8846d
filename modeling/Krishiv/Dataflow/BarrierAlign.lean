import Mathlib

/-!
# Alignment of checkpoint barriers

An operator with several inputs takes its snapshot of an epoch when the barrier of the epoch has arrived on
every input. `BarrierAligner` blocks the inputs that have delivered it until then. What it does is a matter of
the barriers delivered so far alone: it aligns the latest epoch of which some inputs have delivered the barrier
and some have not.
-/

namespace Krishiv.Dataflow

open List

inductive BarrierEvent
  | blocked
  | aligned
  | ignored
deriving DecidableEq

structure BarrierAligner where
  numInputs : ℕ
  /-- The epoch being aligned, and whether each input has delivered its barrier. -/
  current : Option (ℕ × List Bool)
  lastAligned : Option ℕ

namespace BarrierAligner

def new (numInputs : ℕ) : BarrierAligner := ⟨max numInputs 1, none, none⟩

def aligningEpoch (a : BarrierAligner) : Option ℕ := a.current.map Prod.fst

def isBlocked (a : BarrierAligner) (input : ℕ) : Bool :=
  match a.current with
  | some (_, seen) => seen[input]?.getD false
  | none => false

def finishIfAligned (a : BarrierAligner) (epoch : ℕ) : BarrierAligner × BarrierEvent :=
  if a.current.any fun c => c.2.all id then
    ({ a with current := none, lastAligned := some epoch }, .aligned)
  else (a, .blocked)

def recordBarrier (a : BarrierAligner) (epoch input : ℕ) : BarrierAligner × BarrierEvent :=
  if a.numInputs ≤ input then (a, .ignored)
  else if a.lastAligned.any (epoch ≤ ·) then (a, .ignored)
  else
    let first := { a with current := some (epoch, (List.replicate a.numInputs false).set input true) }
    match a.current with
    | some (curEpoch, seen) =>
      if epoch < curEpoch then (a, .ignored)
      else if curEpoch < epoch then first.finishIfAligned epoch
      else
        match seen[input]? with
        | some false => { a with current := some (curEpoch, seen.set input true) }.finishIfAligned epoch
        | _ => (a, .ignored)
    | none => first.finishIfAligned epoch

/-- An aligner that has been given some barriers (epoch and input), and the epochs it has reported as aligned. -/
def run (numInputs : ℕ) (barriers : List (ℕ × ℕ)) : BarrierAligner × List ℕ :=
  barriers.foldl (fun w b =>
    match w.1.recordBarrier b.1 b.2 with
    | (a, .aligned) => (a, w.2 ++ [b.1])
    | (a, _) => (a, w.2)) (new numInputs, [])

/-! ## Barriers delivered so far -/

variable (n : ℕ) (barriers : List (ℕ × ℕ)) (epoch input : ℕ)

/-- No input has delivered the barrier of a later epoch. -/
def Newest : Prop := ∀ b ∈ barriers, b.2 < n → b.1 ≤ epoch

/-- The epoch is the latest one, and some inputs have delivered its barrier, but not all. -/
def Aligning : Prop :=
  Newest n barriers epoch ∧ (∃ i < n, (epoch, i) ∈ barriers) ∧ ∃ i < n, (epoch, i) ∉ barriers

/-- The input is the last one whose barrier of the latest epoch is missing. -/
def LastMissing : Prop :=
  input < n ∧ Newest n barriers epoch ∧ (epoch, input) ∉ barriers ∧ ∀ j < n, j ≠ input → (epoch, j) ∈ barriers

/-- Which inputs have delivered the barrier of an epoch. -/
def delivered : List Bool := (List.range n).map fun i => decide ((epoch, i) ∈ barriers)

/-- The aligner after some barriers: it is idle if all inputs have delivered the latest epoch, or nothing has
come yet. -/
structure Inv (a : BarrierAligner) : Prop where
  inputs : a.numInputs = n
  aligning : ∀ c, a.current = some c → c.2 = delivered n barriers c.1 ∧ Aligning n barriers c.1 ∧
    ∀ e, a.lastAligned = some e → e < c.1
  idle : a.current = none → ∀ b ∈ barriers, b.2 < n → ∃ e, a.lastAligned = some e ∧ b.1 ≤ e
  last : ∀ e, a.lastAligned = some e → ∀ i < n, (e, i) ∈ barriers

/-- What a call brings about: the aligner it leaves, and whether it reports the epoch. -/
def Recorded (r : BarrierAligner × BarrierEvent) : Prop :=
  Inv n (barriers ++ [(epoch, input)]) r.1 ∧ (r.2 = .aligned ↔ LastMissing n barriers epoch input)

variable {n barriers epoch input} {a : BarrierAligner}

lemma getElem?_delivered (i : ℕ) : (delivered n barriers epoch)[i]? =
    if i < n then some (decide ((epoch, i) ∈ barriers)) else none := by
  grind [delivered]

lemma set_delivered : (delivered n barriers epoch).set input true =
    delivered n (barriers ++ [(epoch, input)]) epoch := by
  refine ext_getElem? fun j => ?_
  grind [delivered]

section

variable (hinv : Inv n barriers a)

include hinv

/-- A barrier of an earlier epoch, or one that has been delivered before, changes nothing. -/
lemma Inv.ignore (h : input < n → ¬ Newest n barriers epoch ∨ (epoch, input) ∈ barriers) :
    Recorded n barriers epoch input (a, .ignored) := by
  -- an input has delivered this epoch or a later one
  have hbefore : input < n → ∃ b ∈ barriers, b.2 < n ∧ epoch ≤ b.1 := by
    grind [Newest]
  obtain ⟨hinputs, haligning, hidle, hlast⟩ := hinv
  refine ⟨⟨hinputs, fun c hc => ?_, by grind, by grind⟩, by grind [LastMissing]⟩
  obtain ⟨hseen, hal, hlater⟩ := haligning c hc
  refine ⟨hseen.trans (map_congr_left fun i hi => ?_), ?_, hlater⟩ <;> grind [Aligning, Newest]

/-- The input is marked, and the epoch is aligned if it was the last one. -/
lemma Inv.mark (hi : input < n) (hnew : Newest n barriers epoch) (hmiss : (epoch, input) ∉ barriers)
    (hlater : ∀ e, a.lastAligned = some e → e < epoch) : Recorded n barriers epoch input ({ a with
      current := some (epoch, (delivered n barriers epoch).set input true) }.finishIfAligned epoch) := by
  have hlast := hinv.last
  have hall : (delivered n (barriers ++ [(epoch, input)]) epoch).all id = true ↔
      ∀ j < n, (epoch, j) ∈ barriers ++ [(epoch, input)] := by
    simp [delivered]
  simp only [finishIfAligned, set_delivered, Option.any_some, hall]
  split
  · refine ⟨⟨hinv.inputs, nofun, fun _ b hb hlt => ⟨epoch, rfl, ?_⟩, ?_⟩, ?_⟩ <;> grind [LastMissing, Newest]
  · refine ⟨⟨hinv.inputs, ?_, nofun, ?_⟩, ?_⟩ <;> grind [LastMissing, Newest, Aligning]

lemma Inv.record (epoch input : ℕ) : Recorded n barriers epoch input (a.recordBarrier epoch input) := by
  have hlast := hinv.last
  simp only [recordBarrier, Option.any_eq_true, decide_eq_true_eq]
  split
  · next hout => exact hinv.ignore fun hi => absurd hi (not_lt.mpr (hinv.inputs ▸ hout))
  next hi =>
  rw [hinv.inputs, not_le] at hi
  split
  · -- the epoch, or a later one, is aligned already
    exact hinv.ignore (by grind [Newest])
  next hold =>
  have hfirst : (∀ b ∈ barriers, b.2 < n → b.1 < epoch) → Recorded n barriers epoch input ({ a with
      current := some (epoch, (List.replicate a.numInputs false).set input true) }.finishIfAligned epoch) := by
    intro hlt
    have hnone : delivered n barriers epoch = List.replicate a.numInputs false := by
      refine ext_getElem? fun j => ?_
      grind [delivered, hinv.inputs]
    rw [← hnone]
    exact hinv.mark hi (fun b hb hbn => (hlt b hb hbn).le) (fun hmem => (hlt _ hmem hi).false) (by grind)
  cases hcur : a.current with
  | none =>
    have hidle := hinv.idle hcur
    exact hfirst (by grind)
  | some c =>
    obtain ⟨hseen, ⟨hnew, hin, -⟩, -⟩ := hinv.aligning c hcur
    obtain ⟨cur, seen⟩ := c
    dsimp only at hseen hnew hin ⊢
    split
    · exact hinv.ignore (by grind [Newest])
    split
    · next hlt => exact hfirst fun b hb hbn => (hnew b hb hbn).trans_lt hlt
    obtain rfl : cur = epoch := by omega
    rw [hseen, getElem?_delivered, if_pos hi]
    by_cases hmem : (cur, input) ∈ barriers
    · rw [decide_eq_true hmem]
      exact hinv.ignore fun _ => .inr hmem
    · rw [decide_eq_false hmem]
      exact hinv.mark hi hnew hmem (by grind)

lemma Inv.aligningEpoch_iff (e : ℕ) : a.aligningEpoch = some e ↔ Aligning n barriers e := by
  have hlast := hinv.last
  unfold aligningEpoch
  cases hcur : a.current with
  | none =>
    have hidle := hinv.idle hcur
    grind [Aligning, Newest]
  | some c =>
    have hal := (hinv.aligning c hcur).2.1
    grind [Aligning, Newest]

lemma Inv.isBlocked_iff (i : ℕ) :
    a.isBlocked i = true ↔ i < n ∧ ∃ e, a.aligningEpoch = some e ∧ (e, i) ∈ barriers := by
  unfold isBlocked aligningEpoch
  cases hcur : a.current with
  | none => simp
  | some c =>
    dsimp only
    rw [(hinv.aligning c hcur).1, getElem?_delivered]
    by_cases hi : i < n <;> simp [hi]

end

/-- What the aligner holds after some barriers; the epochs it has reported have grown, and all inputs have
delivered them. -/
lemma inv_run (n : ℕ) (barriers : List (ℕ × ℕ)) : Inv (max n 1) barriers (run n barriers).1 ∧
    (run n barriers).2.Pairwise (· < ·) ∧ ∀ e ∈ (run n barriers).2, ∀ i < max n 1, (e, i) ∈ barriers := by
  induction barriers using List.reverseRecOn with
  | nil => exact ⟨⟨rfl, nofun, nofun, nofun⟩, .nil, nofun⟩
  | append_singleton barriers b ih =>
    obtain ⟨hinv, hsorted, hall⟩ := ih
    obtain ⟨hnext, hevent⟩ := hinv.record b.1 b.2
    unfold run at hsorted hall hnext hevent ⊢
    rw [foldl_append, foldl_cons, foldl_nil]
    generalize barriers.foldl _ _ = w at hsorted hall hnext hevent
    generalize w.1.recordBarrier b.1 b.2 = r at hnext hevent ⊢
    obtain ⟨a, ev⟩ := r
    cases ev with
    | aligned =>
      have hlast := hevent.mp rfl
      refine ⟨hnext, pairwise_append.mpr ⟨hsorted, pairwise_singleton _ _, ?_⟩, ?_⟩ <;>
        grind [LastMissing, Newest]
    | blocked | ignored => exact ⟨hnext, hsorted, by grind⟩

/-- Whatever barriers have been delivered, in whatever order: the epochs reported grow; the epoch being aligned
is the latest one of which the barrier is missing on some inputs only; the next barrier is reported as
aligned exactly if it is the last one missing of the latest epoch; and the inputs that are blocked are
those that have delivered the epoch being aligned. -/
theorem barriers_align (n : ℕ) (barriers : List (ℕ × ℕ)) : (run n barriers).2.Pairwise (· < ·) ∧
    (∀ e, (run n barriers).1.aligningEpoch = some e ↔ Aligning (max n 1) barriers e) ∧
    (∀ e i, ((run n barriers).1.recordBarrier e i).2 = .aligned ↔
      LastMissing (max n 1) barriers e i) ∧
    ∀ i, (run n barriers).1.isBlocked i = true ↔
      i < max n 1 ∧ ∃ e, (run n barriers).1.aligningEpoch = some e ∧ (e, i) ∈ barriers := by
  obtain ⟨hinv, hsorted, -⟩ := inv_run n barriers
  exact ⟨hsorted, hinv.aligningEpoch_iff, fun e i => (hinv.record e i).2, hinv.isBlocked_iff⟩

end BarrierAligner

end Krishiv.Dataflow
