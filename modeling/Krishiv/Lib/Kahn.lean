import Mathlib.Data.List.Count
import Mathlib.Data.List.Nodup
import Mathlib.Logic.Function.Basic
import Mathlib.Logic.Function.Iterate

/-!
# Kahn's topological sort

The queue algorithm: start from the nodes without predecessors, and whenever a node is taken from
the queue decrement the in-degree of its dependents, queueing those that reach zero. `preds b`
lists the predecessors of `b` (a predecessor may occur several times), `dependents a` the nodes
that list `a`.

Every node of the result has all its predecessors before it and no node occurs twice
(`loop_initial_sorted`).
-/

namespace Kahn

open List

variable {α : Type} [DecidableEq α]

/-- Decrement the in-degrees of the listed nodes; a node that reaches zero joins the queue. -/
def relax : List α → List α × (α → ℕ) → List α × (α → ℕ)
  | [], st => st
  | d :: ds, (q, deg) =>
    let k := deg d - 1
    relax ds (if k = 0 then q ++ [d] else q, Function.update deg d k)

/-- The queue loop; each round takes one node. -/
def loop (dependents : α → List α) : ℕ → List α → (α → ℕ) → List α
  | 0, _, _ => []
  | _ + 1, [], _ => []
  | fuel + 1, n :: q, deg =>
    let st := relax (dependents n) (q, deg)
    n :: loop dependents fuel st.1 st.2

/-! ## One round -/

/-- A round in which no in-degree underflows: degrees drop by the number of decrements, and the
queue gains exactly the nodes that reach zero. -/
lemma relax_spec (ds q : List α) (deg : α → ℕ) (h : ∀ d ∈ ds, ds.count d ≤ deg d) :
    (∀ x, (relax ds (q, deg)).2 x = deg x - ds.count x) ∧
      ∃ new, (relax ds (q, deg)).1 = q ++ new ∧ new.Nodup ∧ ∀ x, x ∈ new ↔ x ∈ ds ∧ deg x = ds.count x := by
  induction ds generalizing q deg with
  | nil => exact ⟨by simp [relax], [], by simp [relax]⟩
  | cons d ds ih =>
    have hupdate : ∀ x, Function.update deg d (deg d - 1) x = deg x - if x = d then 1 else 0 := by
      intro x
      by_cases hx : x = d <;> simp [hx]
    have hcount : ∀ x, (d :: ds).count x = ds.count x + if x = d then 1 else 0 := by
      intro x
      by_cases hx : x = d
      · rw [hx, count_cons_self, if_pos rfl]
      · rw [count_cons_of_ne (Ne.symm hx), if_neg hx]
        rfl
    have hd := h d (by simp)
    rw [hcount, if_pos rfl] at hd
    obtain ⟨hdeg, new, hq, hnd, hmem⟩ :=
      ih (if deg d - 1 = 0 then q ++ [d] else q) (Function.update deg d (deg d - 1)) fun x hx => by
        have := h x (by simp [hx])
        rw [hcount] at this
        rw [hupdate]
        omega
    refine ⟨fun x => ?_, ?_⟩
    · rw [relax, hdeg x, hupdate, hcount]
      omega
    by_cases hz : deg d - 1 = 0
    · -- the last decrement of `d`: it does not occur again in the list
      have hzero : ds.count d = 0 := by omega
      refine ⟨d :: new, ?_, ?_, fun x => ?_⟩
      · rw [relax, hq, if_pos hz]; simp
      · exact nodup_cons.mpr ⟨fun hd' => count_eq_zero.mp hzero ((hmem d).mp hd').1, hnd⟩
      rw [mem_cons, mem_cons, hmem x, hupdate, hcount]
      by_cases hx : x = d
      · simp [hx]
        omega
      · simp [hx]
    · refine ⟨new, ?_, hnd, fun x => ?_⟩
      · rw [relax, hq, if_neg hz]
      rw [mem_cons, hmem x, hupdate, hcount, ← count_pos_iff]
      by_cases hx : x = d
      · simp only [hx, if_true, true_or, true_and]
        omega
      · simp [hx]

/-! ## The loop invariant -/

/-- The state between rounds: `done` are the nodes taken so far, in order. -/
structure Inv (nodes : List α) (preds : α → List α) (done q : List α) (deg : α → ℕ) : Prop where
  nodup : (done ++ q).Nodup
  sub : ∀ x ∈ done ++ q, x ∈ nodes
  deg_eq : ∀ b ∈ nodes, deg b = (preds b).countP (· ∉ done)
  queued : ∀ b ∈ nodes, deg b = 0 → b ∈ done ++ q
  closed : ∀ l b l', done = l ++ b :: l' → ∀ a ∈ preds b, a ∈ l
  ready : ∀ b ∈ q, ∀ a ∈ preds b, a ∈ done

variable {nodes : List α} {preds dependents : α → List α}

private lemma countP_cons_done (l done : List α) (n : α) (hn : n ∉ done) :
    l.countP (· ∉ done ++ [n]) + l.count n = l.countP (· ∉ done) := by
  induction l with
  | nil => rfl
  | cons x l ih =>
    by_cases hx : x = n
    · subst hx
      simp only [countP_cons, count_cons_self]
      simp [hn] at ih ⊢
      omega
    · simp only [countP_cons, count_cons_of_ne hx]
      simp [hx] at ih ⊢
      omega

variable {deg : α → ℕ}

/-- A queued or finished node has in-degree zero, so it is not queued again. -/
lemma Inv.deg_zero {done q : List α} (h : Inv nodes preds done q deg) {b : α} (hb : b ∈ done ++ q) : deg b = 0 := by
  rw [h.deg_eq b (h.sub b hb), countP_eq_zero]
  intro a ha
  have hin : a ∈ done := by
    rcases mem_append.mp hb with hd | hqq
    · obtain ⟨l, l', rfl⟩ := append_of_mem hd
      have := h.closed l b l' rfl a ha
      simp [this]
    · exact h.ready b hqq a ha
  simp [hin]

/-- One round keeps the invariant and moves the head of the queue to the finished nodes. -/
lemma Inv.step {done q : List α} {n : α}
    (hdep : ∀ a ∈ nodes, ∀ b, (dependents a).count b = if b ∈ nodes then (preds b).count a else 0)
    (h : Inv nodes preds done (n :: q) deg) :
    Inv nodes preds (done ++ [n]) (relax (dependents n) (q, deg)).1 (relax (dependents n) (q, deg)).2 := by
  have hnn : n ∈ nodes := h.sub n (by simp)
  have hnd := h.nodup
  have hn : n ∉ done := by
    intro hmem
    have := nodup_append.mp hnd
    exact this.2.2 n hmem n (by simp) rfl
  have hmemb : ∀ b, b ∈ dependents n → b ∈ nodes := by
    intro b hb
    by_contra hbn
    have := hdep n hnn b
    rw [if_neg hbn] at this
    exact absurd hb (count_eq_zero.mp this)
  have hround : ∀ b ∈ nodes, (preds b).countP (· ∉ done ++ [n]) + (dependents n).count b = deg b := by
    intro b hb
    rw [hdep n hnn b, if_pos hb, h.deg_eq b hb]
    exact countP_cons_done (preds b) done n hn
  have hle : ∀ b ∈ dependents n, (dependents n).count b ≤ deg b := by
    intro b hb
    have := hround b (hmemb b hb)
    omega
  obtain ⟨hdeg, new, hq, hnew, hmem⟩ := relax_spec (dependents n) q deg hle
  have hpos : ∀ b ∈ dependents n, 0 < deg b := by
    intro b hb
    have := hle b hb
    have := count_pos_iff.mpr hb
    omega
  have hfresh : ∀ b ∈ new, b ∉ done ++ n :: q := by
    intro b hb hold
    have hb' := (hmem b).mp hb
    have h1 := hpos b hb'.1
    have h2 := h.deg_zero hold
    omega
  rw [hq]
  refine ⟨?_, ?_, ?_, ?_, ?_, ?_⟩
  · have hperm : done ++ [n] ++ (q ++ new) = (done ++ n :: q) ++ new := by simp
    rw [hperm]
    refine nodup_append.mpr ⟨hnd, hnew, ?_⟩
    intro a ha b hb hab
    subst hab
    exact hfresh a hb ha
  · intro x hx
    have hx' : x ∈ (done ++ n :: q) ++ new := by simpa [or_assoc, or_comm, or_left_comm] using hx
    exact forall_mem_append.mpr ⟨h.sub, fun y hy => hmemb y ((hmem y).mp hy).1⟩ x hx'
  · intro b hb
    rw [hdeg b]
    have := hround b hb
    omega
  · intro b hb hz
    rw [hdeg b] at hz
    by_cases hb0 : deg b = 0
    · have := h.queued b hb hb0
      simp only [mem_append, mem_cons, not_mem_nil, or_false] at this ⊢
      tauto
    have hbd : b ∈ dependents n := by
      by_contra hnot
      rw [count_eq_zero.mpr hnot] at hz
      omega
    have hbnew : b ∈ new := (hmem b).mpr ⟨hbd, by have := hle b hbd; omega⟩
    simp [hbnew]
  · intro l b l' heq a ha
    rcases eq_nil_or_concat l' with rfl | ⟨l'', z, rfl⟩
    · obtain ⟨h1, h2⟩ := append_inj' heq rfl
      have hbn : n = b := by simpa using h2
      subst hbn
      rw [← h1]
      exact h.ready n (by simp) a ha
    · have heq' : done ++ [n] = (l ++ b :: l'') ++ [z] := by simpa using heq
      obtain ⟨h1, -⟩ := append_inj' heq' rfl
      exact h.closed l b l'' h1 a ha
  · intro b hb a ha
    rcases mem_append.mp hb with hbq | hbnew
    · simp [h.ready b (by simp [hbq]) a ha]
    -- the in-degree of a node just queued is zero: all its predecessors are finished
    have hb' := (hmem b).mp hbnew
    have hz : (preds b).countP (· ∉ done ++ [n]) = 0 := by
      have := hround b (hmemb b hb'.1)
      omega
    by_contra hcon
    exact countP_eq_zero.mp hz a ha (by simpa using hcon)

/-! ## The whole run -/

/-- What the finished run satisfies. -/
structure Sorted (nodes : List α) (preds : α → List α) (order : List α) : Prop where
  nodup : order.Nodup
  sub : ∀ x ∈ order, x ∈ nodes
  before : ∀ l b l', order = l ++ b :: l' → ∀ a ∈ preds b, a ∈ l
  stuck : ∀ b ∈ nodes, (∀ a ∈ preds b, a ∈ order) → b ∈ order

/-- With an empty queue the finished nodes are the result. -/
private lemma Inv.sorted {done : List α} (h : Inv nodes preds done [] deg) : Sorted nodes preds done := by
  refine ⟨by simpa using h.nodup, by simpa using h.sub, h.closed, fun b hb hall => ?_⟩
  have hz : deg b = 0 := by
    rw [h.deg_eq b hb, countP_eq_zero]
    intro a ha
    simp [hall a ha]
  simpa using h.queued b hb hz

private lemma loop_sorted
    (hdep : ∀ a ∈ nodes, ∀ b, (dependents a).count b = if b ∈ nodes then (preds b).count a else 0)
    (fuel : ℕ) (done q : List α) (deg : α → ℕ) (h : Inv nodes preds done q deg)
    (hfuel : nodes.length ≤ fuel + done.length) : Sorted nodes preds (done ++ loop dependents fuel q deg) := by
  induction fuel generalizing done q deg with
  | zero =>
    -- every node is finished already
    have hlen : (done ++ q).length ≤ nodes.length := (subperm_of_subset h.nodup h.sub).length_le
    have hq : q = [] := by
      rw [length_append] at hlen
      exact eq_nil_of_length_eq_zero (by omega)
    subst hq
    simpa [loop] using h.sorted
  | succ fuel ih =>
    cases q with
    | nil => simpa [loop] using h.sorted
    | cons n q =>
      have := ih (done ++ [n]) _ _ (h.step hdep) (by simp; omega)
      simpa [loop] using this

/-- The run from the nodes of in-degree zero, in any order of the initial queue. -/
lemma loop_initial_sorted (hn : nodes.Nodup)
    (hdep : ∀ a ∈ nodes, ∀ b, (dependents a).count b = if b ∈ nodes then (preds b).count a else 0)
    {q : List α} (hq : q.Perm (nodes.filter fun b => (preds b).length = 0))
    (hdeg : ∀ b ∈ nodes, deg b = (preds b).length) : Sorted nodes preds (loop dependents nodes.length q deg) := by
  have hmem : ∀ b, b ∈ q ↔ b ∈ nodes ∧ (preds b).length = 0 := by
    intro b
    rw [hq.mem_iff]
    simp
  have hinv : Inv nodes preds [] q deg := by
    refine ⟨?_, ?_, ?_, ?_, ?_, ?_⟩
    · simpa using hq.nodup_iff.mpr (hn.filter _)
    · intro x hx
      exact ((hmem x).mp (by simpa using hx)).1
    · intro b hb
      rw [hdeg b hb]
      simp
    · intro b hb hz
      rw [hdeg b hb] at hz
      simpa using (hmem b).mpr ⟨hb, hz⟩
    · intro l b l' heq
      simp at heq
    · intro b hb a ha
      have := ((hmem b).mp hb).2
      rw [eq_nil_of_length_eq_zero this] at ha
      simp at ha
  simpa using loop_sorted hdep nodes.length [] q deg hinv (by simp)

/-- Without cycles every node is listed. -/
lemma Sorted.complete {order : List α} (h : Sorted nodes preds order) {r : α → α → Prop}
    (hwf : WellFounded r) (hr : ∀ b ∈ nodes, ∀ a ∈ preds b, a ∈ nodes ∧ r a b) : ∀ b ∈ nodes, b ∈ order := by
  intro b
  induction b using hwf.induction with
  | _ b ih =>
    intro hb
    exact h.stuck b hb fun a ha => ih a (hr b hb a ha).2 (hr b hb a ha).1

end Kahn
