import Mathlib.Data.List.Lex
import Mathlib.Order.Lattice

/-!
# Maps kept in key order

`SortedMap K V` is a finite map whose entries stand in strictly increasing key order, so that a map is
determined by the list of its entries and walking it always meets the keys in the same order.
Inserting the entries of a map one after another into the empty map gives the map back
(`ofList_entries`).
-/

structure SortedMap (K V : Type) [LinearOrder K] where
  entries : List (K × V)
  sorted : (entries.map Prod.fst).Pairwise (· < ·)

namespace SortedMap

open List

variable {K V : Type} [LinearOrder K]

def empty : SortedMap K V := ⟨[], List.Pairwise.nil⟩

/-! ## Insertion -/

def insertEntry (k : K) (v : V) : List (K × V) → List (K × V)
  | [] => [(k, v)]
  | (k', v') :: l =>
    if k < k' then (k, v) :: (k', v') :: l
    else if k = k' then (k, v) :: l
    else (k', v') :: insertEntry k v l

variable {l : List (K × V)} {k : K} {v : V}

lemma mem_insertEntry {e : K × V} (h : e ∈ insertEntry k v l) : e = (k, v) ∨ e ∈ l := by
  induction l with
  | nil => simpa [insertEntry] using h
  | cons x l ih =>
    obtain ⟨k', v'⟩ := x
    rw [insertEntry] at h
    split_ifs at h with hlt heq
    · simpa using h
    · rcases mem_cons.mp h with h | h
      · exact .inl h
      · exact .inr (by simp [h])
    · rcases mem_cons.mp h with h | h
      · exact .inr (by simp [h])
      · exact (ih h).imp id fun h => by simp [h]

lemma sorted_insertEntry (k : K) (v : V) (h : (l.map Prod.fst).Pairwise (· < ·)) :
    ((insertEntry k v l).map Prod.fst).Pairwise (· < ·) := by
  induction l with
  | nil => simp [insertEntry]
  | cons x l ih =>
    obtain ⟨k', v'⟩ := x
    simp only [map_cons, pairwise_cons, mem_map, forall_exists_index, and_imp, forall_apply_eq_imp_iff₂] at h
    rw [insertEntry]
    split_ifs with hlt heq
    · simp only [map_cons, pairwise_cons, mem_cons, mem_map]
      refine ⟨?_, ?_, h.2⟩
      · rintro a (rfl | ⟨e, he, rfl⟩)
        · exact hlt
        · exact hlt.trans (h.1 e he)
      · rintro a ⟨e, he, rfl⟩
        exact h.1 e he
    · subst heq
      simp only [map_cons, pairwise_cons, mem_map]
      exact ⟨by rintro a ⟨e, he, rfl⟩; exact h.1 e he, h.2⟩
    · have hgt : k' < k := lt_of_le_of_ne (not_lt.mp hlt) (Ne.symm heq)
      simp only [map_cons, pairwise_cons, mem_map]
      refine ⟨?_, ih h.2⟩
      rintro a ⟨e, he, rfl⟩
      rcases mem_insertEntry he with rfl | he
      · exact hgt
      · exact h.1 e he

/-- The map with `v` at `k`, in place of what was there. -/
def insert (m : SortedMap K V) (k : K) (v : V) : SortedMap K V :=
  ⟨insertEntry k v m.entries, sorted_insertEntry k v m.sorted⟩

/-! ## Lookup -/

def lookup (m : SortedMap K V) (k : K) : Option V := m.entries.lookup k

def contains (m : SortedMap K V) (k : K) : Bool := (m.lookup k).isSome

lemma lookup_insertEntry_self (k : K) (v : V) (l : List (K × V)) : (insertEntry k v l).lookup k = some v := by
  induction l with
  | nil => simp [insertEntry]
  | cons x l ih =>
    obtain ⟨a, b⟩ := x
    rw [insertEntry]
    split_ifs with hlt heq
    · simp
    · simp
    · have hne : (k == a) = false := by simpa using heq
      rw [lookup_cons, hne]
      exact ih

lemma lookup_insertEntry_of_ne (v : V) (l : List (K × V)) {k' : K} (h : k' ≠ k) :
    (insertEntry k v l).lookup k' = l.lookup k' := by
  have hne : (k' == k) = false := by simpa using h
  induction l with
  | nil => rw [insertEntry, lookup_cons, hne]
  | cons x l ih =>
    obtain ⟨a, b⟩ := x
    rw [insertEntry]
    split_ifs with hlt heq
    · rw [lookup_cons, hne]
    · subst heq
      rw [lookup_cons, lookup_cons, hne]
    · rw [lookup_cons, lookup_cons, ih]

lemma lookup_insert (m : SortedMap K V) (k : K) (v : V) (k' : K) :
    (m.insert k v).lookup k' = if k' = k then some v else m.lookup k' := by
  split_ifs with h
  · subst h; exact lookup_insertEntry_self k' v m.entries
  · exact lookup_insertEntry_of_ne v m.entries h

lemma mem_of_lookup (h : l.lookup k = some v) : (k, v) ∈ l := by
  obtain ⟨before, after, rfl, -⟩ := lookup_eq_some_iff.mp h
  exact mem_append_right _ mem_cons_self

lemma lookup_of_mem (h : (l.map Prod.fst).Pairwise (· < ·)) (hmem : (k, v) ∈ l) : l.lookup k = some v := by
  obtain ⟨before, after, rfl⟩ := append_of_mem hmem
  refine lookup_eq_some_iff.mpr ⟨before, after, rfl, fun x hx => ?_⟩
  -- an earlier entry has a smaller key
  rw [map_append, pairwise_append] at h
  have hlt : x.1 < k := h.2.2 x.1 (mem_map_of_mem hx) k mem_cons_self
  simpa using hlt.ne'

variable {m : SortedMap K V}

lemma mem_entries_iff : (k, v) ∈ m.entries ↔ m.lookup k = some v := ⟨lookup_of_mem m.sorted, mem_of_lookup⟩

/-! ## Rebuilding a map from its entries -/

def ofList (l : List (K × V)) : SortedMap K V := l.foldl (fun m e => m.insert e.1 e.2) empty

/-- Inserting a key above all others puts the entry at the end. -/
lemma insertEntry_of_above (h : ∀ e ∈ l, e.1 < k) : insertEntry k v l = l ++ [(k, v)] := by
  induction l with
  | nil => rfl
  | cons x l ih =>
    obtain ⟨a, b⟩ := x
    have ha : a < k := h (a, b) (by simp)
    rw [insertEntry, if_neg ha.not_gt, if_neg ha.ne', ih fun e he => h e (by simp [he])]
    rfl

lemma entries_foldl_insert (h : ((m.entries ++ l).map Prod.fst).Pairwise (· < ·)) :
    (l.foldl (fun m e => m.insert e.1 e.2) m).entries = m.entries ++ l := by
  induction l generalizing m with
  | nil => simp
  | cons e l ih =>
    have habove : ∀ x ∈ m.entries, x.1 < e.1 := by
      intro x hx
      rw [map_append, pairwise_append] at h
      exact h.2.2 x.1 (mem_map.mpr ⟨x, hx, rfl⟩) e.1 (by simp)
    have hins : (m.insert e.1 e.2).entries = m.entries ++ [e] := insertEntry_of_above habove
    have happ : (m.insert e.1 e.2).entries ++ l = m.entries ++ e :: l := by rw [hins]; simp
    rw [foldl_cons, ih (by rw [happ]; exact h), happ]

lemma ext_entries {m' : SortedMap K V} (h : m.entries = m'.entries) : m = m' := by
  obtain ⟨l, hl⟩ := m
  obtain ⟨l', hl'⟩ := m'
  cases h
  rfl

/-- A map is the map of its entries. -/
lemma ofList_entries (m : SortedMap K V) : ofList m.entries = m := by
  apply ext_entries
  have h := entries_foldl_insert (m := (empty : SortedMap K V)) (l := m.entries)
    (by simpa [empty] using m.sorted)
  exact h

end SortedMap
