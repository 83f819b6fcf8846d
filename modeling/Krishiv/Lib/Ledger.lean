import Mathlib.Algebra.Ring.Nat
import Mathlib.Data.List.Perm.Basic
import Mathlib.Data.List.Nodup

/-!
# Ledgers: where every accepted item is

Items arrive under a key and are numbered in the order in which they are accepted. A holder takes
everything that is queued; later it settles what it holds or puts it back, in front of the queue or
behind it. `Ledger.Exact` says that every accepted item is in exactly one place, once; all
operations keep it.
-/

variable {K : Type} [DecidableEq K]

/-- What one holder took, per key, and how many items had been accepted by then. -/
structure Holder (K : Type) where
  items : K → List ℕ
  since : ℕ

structure Ledger (K : Type) where
  accepted : List K
  queued : K → List ℕ
  held : List (Holder K)
  settled : K → List ℕ

namespace Ledger

open List

def empty : Ledger K := ⟨[], fun _ => [], [], fun _ => []⟩

/-- The numbers of the items accepted under a key. -/
def numbers (l : Ledger K) (k : K) : List ℕ :=
  (List.range l.accepted.length).filter fun n => l.accepted[n]? = some k

def accept (l : Ledger K) (k : K) : Ledger K :=
  { l with accepted := l.accepted ++ [k]
           queued := fun x => l.queued x ++ if x = k then [l.accepted.length] else [] }

/-- A new holder takes all queues. -/
def take (l : Ledger K) : Ledger K :=
  { l with queued := fun _ => [], held := l.held ++ [⟨l.queued, l.accepted.length⟩] }

/-- What the `i`-th holder has under a key. -/
def itemsAt (l : Ledger K) (i : ℕ) (k : K) : List ℕ := ((l.held[i]?).map (Holder.items · k)).getD []

/-- How many items had been accepted when the `i`-th holder took its items. -/
def sinceAt (l : Ledger K) (i : ℕ) : ℕ := ((l.held[i]?).map Holder.since).getD 0

def putFront (l : Ledger K) (i : ℕ) : Ledger K :=
  { l with queued := fun k => l.itemsAt i k ++ l.queued k, held := l.held.eraseIdx i }

def putBack (l : Ledger K) (i : ℕ) : Ledger K :=
  { l with queued := fun k => l.queued k ++ l.itemsAt i k, held := l.held.eraseIdx i }

def settle (l : Ledger K) (i : ℕ) : Ledger K :=
  { l with settled := fun k => l.settled k ++ l.itemsAt i k, held := l.held.eraseIdx i }

/-- All items under a key, over all places. -/
def everywhere (l : Ledger K) (k : K) : List ℕ :=
  l.queued k ++ (l.held.map (Holder.items · k)).flatten ++ l.settled k

/-- Every item is in one place, and a holder has only items from before it took them. -/
structure Exact (l : Ledger K) : Prop where
  placed : ∀ k, (l.everywhere k).Perm (l.numbers k)
  earlier : ∀ i k, ∀ n ∈ l.itemsAt i k, n < l.sinceAt i

lemma exact_empty : (empty : Ledger K).Exact where
  placed _ := List.Perm.refl []
  earlier := by simp [empty, itemsAt]

lemma nodup_numbers (l : Ledger K) (k : K) : (l.numbers k).Nodup := nodup_range.filter _

variable {l : Ledger K}

lemma Exact.lt_length (h : l.Exact) {k : K} {n : ℕ} (hn : n ∈ l.everywhere k) : n < l.accepted.length := by
  have hmem := (h.placed k).mem_iff.mp hn
  rw [numbers, mem_filter, mem_range] at hmem
  exact hmem.1

/-- An accepted item occurs once, over all places. -/
lemma Exact.count_eq_one (h : l.Exact) {k : K} {n : ℕ} (hn : n ∈ l.numbers k) :
    (l.queued k).count n + ((l.held.map (Holder.items · k)).map (List.count n)).sum + (l.settled k).count n = 1 := by
  have hone : (l.everywhere k).count n = 1 := by
    rw [(h.placed k).count_eq]
    exact count_eq_one_of_mem (nodup_numbers l k) hn
  rw [everywhere, count_append, count_append, count_flatten] at hone
  exact hone

/-! ## The operations keep every item in its one place -/

lemma numbers_accept (l : Ledger K) (k x : K) :
    (l.accept k).numbers x = l.numbers x ++ if x = k then [l.accepted.length] else [] := by
  have hlen : (l.accept k).accepted.length = l.accepted.length + 1 := by simp [accept]
  unfold numbers
  rw [hlen, range_succ, filter_append]
  congr 1
  · apply filter_congr
    intro n hn
    rw [mem_range] at hn
    have hat : (l.accept k).accepted[n]? = l.accepted[n]? := getElem?_append_left hn
    simp [hat]
  · by_cases hx : x = k
    · subst hx; simp [accept]
    · have hne : k ≠ x := Ne.symm hx
      simp [accept, hx, hne]

lemma Exact.accept (h : l.Exact) (k : K) : (l.accept k).Exact where
  placed x := by
    rw [numbers_accept]
    -- the new item goes to the end of the queue; the rest of the places follow it
    have hqueue : ((l.accept k).everywhere x).Perm
        (l.everywhere x ++ if x = k then [l.accepted.length] else []) := by
      unfold everywhere Ledger.accept
      simp only [append_assoc]
      apply Perm.append_left
      exact perm_append_comm.trans (by rw [append_assoc])
    exact hqueue.trans ((h.placed x).append_right _)
  earlier := h.earlier

lemma Exact.take (h : l.Exact) : l.take.Exact where
  placed k := by
    have hmove : (l.take.everywhere k).Perm (l.everywhere k) := by
      unfold everywhere Ledger.take
      simp only [nil_append, map_append, map_cons, map_nil, flatten_append,
        flatten_cons, flatten_nil, append_nil]
      exact Perm.append_right _ perm_append_comm
    exact hmove.trans (h.placed k)
  earlier i k n hn := by
    by_cases hi : i < l.held.length
    · have hat : l.take.held[i]? = l.held[i]? := getElem?_append_left hi
      rw [itemsAt, hat] at hn
      rw [sinceAt, hat]
      exact h.earlier i k n hn
    by_cases hi' : i = l.held.length
    · subst hi'
      have hat : l.take.held[l.held.length]? = some ⟨l.queued, l.accepted.length⟩ := by
        simp [Ledger.take]
      rw [itemsAt, hat] at hn
      rw [sinceAt, hat]
      exact h.lt_length (mem_append_left _ (mem_append_left _ hn))
    · have hat : l.take.held[i]? = none := by
        rw [List.getElem?_eq_none_iff]
        simp only [Ledger.take, length_append, length_cons, length_nil]
        omega
      rw [itemsAt, hat] at hn
      cases hn

omit [DecidableEq K] in
/-- What the holders have, with the `i`-th one's items up front. -/
lemma held_perm (l : Ledger K) (i : ℕ) (k : K) : (l.held.map (Holder.items · k)).flatten.Perm
      (l.itemsAt i k ++ ((l.held.eraseIdx i).map (Holder.items · k)).flatten) := by
  by_cases hi : i < l.held.length
  · have hperm := (getElem_cons_eraseIdx_perm hi).symm.map (Holder.items · k)
    have hat : l.itemsAt i k = (l.held[i]).items k := by
      simp [itemsAt, getElem?_eq_getElem hi]
    rw [hat]
    exact hperm.flatten
  · have hle : l.held.length ≤ i := Nat.le_of_not_lt hi
    have hat : l.itemsAt i k = [] := by
      simp [itemsAt, List.getElem?_eq_none_iff.mpr hle]
    rw [hat, eraseIdx_of_length_le hle]
    exact List.Perm.refl _

/-- Removing a holder keeps the others' items older than their time of taking. -/
lemma Exact.earlier_eraseIdx {l l' : Ledger K} (h : l.Exact) {i : ℕ}
    (hheld : l'.held = l.held.eraseIdx i) (j : ℕ) (k : K) (n : ℕ) (hn : n ∈ l'.itemsAt j k) : n < l'.sinceAt j := by
  have hat : l'.held[j]? = l.held[if j < i then j else j + 1]? := by
    rw [hheld, getElem?_eraseIdx]
    split <;> rfl
  rw [itemsAt, hat] at hn
  rw [sinceAt, hat]
  exact h.earlier _ k n hn

lemma Exact.putFront (h : l.Exact) (i : ℕ) : (l.putFront i).Exact where
  placed k := by
    refine List.Perm.trans ?_ (h.placed k)
    apply Perm.append_right
    show (l.itemsAt i k ++ l.queued k ++ _).Perm _
    have hswap : (l.itemsAt i k ++ l.queued k).Perm (l.queued k ++ l.itemsAt i k) := perm_append_comm
    refine (hswap.append_right _).trans ?_
    rw [append_assoc]
    exact (l.held_perm i k).symm.append_left _
  earlier := h.earlier_eraseIdx rfl

lemma Exact.putBack (h : l.Exact) (i : ℕ) : (l.putBack i).Exact where
  placed k := by
    refine List.Perm.trans ?_ (h.placed k)
    apply Perm.append_right
    show (l.queued k ++ l.itemsAt i k ++ _).Perm _
    rw [append_assoc]
    exact (l.held_perm i k).symm.append_left _
  earlier := h.earlier_eraseIdx rfl

lemma Exact.settle (h : l.Exact) (i : ℕ) : (l.settle i).Exact where
  placed k := by
    refine List.Perm.trans ?_ (h.placed k)
    show (l.queued k ++ ((l.held.eraseIdx i).map (Holder.items · k)).flatten ++
      (l.settled k ++ l.itemsAt i k)).Perm _
    unfold everywhere
    rw [append_assoc, append_assoc]
    apply Perm.append_left
    have hout : (((l.held.eraseIdx i).map (Holder.items · k)).flatten ++ (l.settled k ++ l.itemsAt i k)).Perm
        (l.itemsAt i k ++ ((l.held.eraseIdx i).map (Holder.items · k)).flatten ++ l.settled k) := by
      rw [← append_assoc, append_assoc (l.itemsAt i k)]
      exact perm_append_comm
    exact hout.trans ((l.held_perm i k).symm.append_right _)
  earlier := h.earlier_eraseIdx rfl

end Ledger
