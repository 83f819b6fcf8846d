import Krishiv.Lib.KVMap
import Mathlib.Data.List.Dedup
import Mathlib.Data.List.Sort
import Mathlib.Order.Lattice

/-!
# Reading a log behind a cursor

A log is a list of entries numbered by ticks, of which a bounded part is kept. A reader remembers a
cursor and asks for what is numbered above it (`since`); having read, it moves the cursor to the
newest number it was given (`newest`).

Dropping entries at or below the cursor is not seen by the reader (`since_append_of_le`), and after a
read there is nothing left above the new cursor (`since_newest`).

Several logs are read as one by combining the entries of each number (`merge`). A merge has one entry
for each number in use, made of all the entries with that number (`merge_served`).
-/

namespace TickLog

open List Prod

variable {α : Type}

/-- The entries numbered above the cursor. -/
def since (cursor : ℕ) (log : List (ℕ × α)) : List (ℕ × α) := log.filter fun e => cursor < e.1

/-- The largest number among the entries, or the cursor. -/
def newest (cursor : ℕ) (log : List (ℕ × α)) : ℕ := (log.map Prod.fst).foldl max cursor

variable {log : List (ℕ × α)} {cursor : ℕ}

lemma mem_since {e : ℕ × α} : e ∈ since cursor log ↔ e ∈ log ∧ cursor < e.1 := by
  simp [since]

@[simp] lemma since_append (cursor : ℕ) (l l' : List (ℕ × α)) :
    since cursor (l ++ l') = since cursor l ++ since cursor l' := filter_append _ _

lemma since_eq_nil (h : ∀ e ∈ log, e.1 ≤ cursor) : since cursor log = [] := by
  refine filter_eq_nil_iff.mpr fun e he => ?_
  have := h e he
  simp only [decide_eq_true_eq]
  omega

lemma since_eq_self (h : ∀ e ∈ log, cursor < e.1) : since cursor log = log := by
  refine filter_eq_self.mpr fun e he => ?_
  simpa using h e he

/-- What is dropped at or below the cursor is not missed. -/
lemma since_append_of_le {gone kept : List (ℕ × α)} (h : ∀ e ∈ gone, e.1 ≤ cursor) :
    since cursor (gone ++ kept) = since cursor kept := by
  rw [since_append, since_eq_nil h, nil_append]

lemma newest_cons (cursor : ℕ) (e : ℕ × α) (log : List (ℕ × α)) :
    newest cursor (e :: log) = newest (max cursor e.1) log := rfl

lemma le_newest (cursor : ℕ) (log : List (ℕ × α)) : cursor ≤ newest cursor log := by
  induction log generalizing cursor with
  | nil => exact le_refl cursor
  | cons e log ih =>
    rw [newest_cons]
    exact le_trans (le_max_left _ _) (ih (max cursor e.1))

lemma mem_le_newest {e : ℕ × α} (he : e ∈ log) : e.1 ≤ newest cursor log := by
  induction log generalizing cursor with
  | nil => cases he
  | cons x log ih =>
    rw [newest_cons]
    rcases mem_cons.mp he with rfl | he
    · exact le_trans (le_max_right _ _) (le_newest _ log)
    · exact ih he

lemma newest_le {bound : ℕ} (hc : cursor ≤ bound) (h : ∀ e ∈ log, e.1 ≤ bound) : newest cursor log ≤ bound := by
  induction log generalizing cursor with
  | nil => exact hc
  | cons x log ih =>
    rw [newest_cons]
    exact ih (max_le hc (h x mem_cons_self)) fun e he => h e (mem_cons_of_mem x he)

/-- A reader that has moved to the newest number has nothing left to read. -/
lemma since_newest (cursor : ℕ) (log : List (ℕ × α)) : since (newest cursor (since cursor log)) log = [] := by
  refine since_eq_nil fun e he => ?_
  by_cases h : cursor < e.1
  · exact mem_le_newest (mem_since.mpr ⟨he, h⟩)
  · have := le_newest cursor (since cursor log)
    omega

/-! ## Several logs -/

/-- The entries of one number, log after log. -/
def partsAt (logs : List (List (ℕ × α))) (t : ℕ) : List α :=
  (logs.flatten.filter fun e => e.1 = t).map Prod.snd

/-- The numbers in use, in order. -/
def numbers (logs : List (List (ℕ × α))) : List ℕ :=
  (logs.flatten.map Prod.fst).dedup.insertionSort (· ≤ ·)

/-- One combined entry for each number. -/
def merge {ε β : Type} (combine : List α → Except ε β) (logs : List (List (ℕ × α))) : Except ε (List (ℕ × β)) :=
  (numbers logs).mapM fun t => (fun b => (t, b)) <$> combine (partsAt logs t)

/-- Of one number: nothing was there and nothing is served, or one entry made of all parts. -/
def Served {ε β : Type} (combine : List α → Except ε β) (t : ℕ) (parts : List α) (entries : List (ℕ × β)) : Prop :=
  parts = [] ∧ entries = [] ∨ ∃ b, combine parts = .ok b ∧ entries = [(t, b)]

variable {ε β : Type} {combine : List α → Except ε β} {logs logs' : List (List (ℕ × α))} {t : ℕ}

lemma mem_numbers : t ∈ numbers logs ↔ ∃ e ∈ logs.flatten, e.1 = t := by
  rw [numbers, mem_insertionSort, mem_dedup, mem_map]

lemma nodup_numbers (logs : List (List (ℕ × α))) : (numbers logs).Nodup :=
  ((perm_insertionSort _ _).nodup_iff).mpr (nodup_dedup _)

lemma partsAt_eq_nil : partsAt logs t = [] ↔ t ∉ numbers logs := by
  rw [partsAt, map_eq_nil_iff, filter_eq_nil_iff, mem_numbers]
  constructor
  · rintro h ⟨e, he, het⟩
    exact h e he (decide_eq_true het)
  · intro h e he het
    exact h ⟨e, he, of_decide_eq_true het⟩

variable {es : List (ℕ × β)}

/-- A pass that keeps the number beside its result. -/
lemma mapM_numbered {f : ℕ → Except ε β} {ts : List ℕ} (h : (ts.mapM fun t => (fun b => (t, b)) <$> f t) = .ok es) :
    es.map fst = ts ∧ ∀ e ∈ es, f e.1 = .ok e.2 := by
  have hall := Except.forall₂_of_mapM h
  clear h
  induction hall with
  | nil => exact ⟨rfl, nofun⟩
  | cons he _ ih =>
    obtain ⟨b, hb, rfl⟩ := Except.map_eq_ok_iff.mp he
    exact ⟨by rw [map_cons, ih.1], forall_mem_cons.mpr ⟨hb, ih.2⟩⟩

/-- The entries of a number that occurs once. -/
lemma filter_eq_singleton {e : ℕ × β} (hn : (es.map fst).Nodup) (he : e ∈ es) :
    es.filter (fun x => x.1 = e.1) = [e] := by
  induction es with
  | nil => cases he
  | cons x es ih =>
    rw [map_cons, nodup_cons] at hn
    rcases mem_cons.mp he with rfl | he'
    · rw [filter_cons_of_pos (by simp)]
      refine congrArg (e :: ·) (filter_eq_nil_iff.mpr fun y hy => ?_)
      intro hye
      exact hn.1 (mem_map.mpr ⟨y, hy, of_decide_eq_true hye⟩)
    · have hne : x.1 ≠ e.1 := fun hxe => hn.1 (mem_map.mpr ⟨e, he', hxe.symm⟩)
      rw [filter_cons_of_neg (by simpa using hne)]
      exact ih hn.2 he'

/-- A merge serves each number once, with all its parts. -/
lemma merge_served (h : merge combine logs = .ok es) (t : ℕ) :
    Served combine t (partsAt logs t) (es.filter fun e => e.1 = t) := by
  obtain ⟨hfst, hall⟩ := mapM_numbered h
  by_cases ht : t ∈ numbers logs
  · right
    obtain ⟨e, he, rfl⟩ := mem_map.mp (hfst ▸ ht)
    exact ⟨e.2, hall e he, filter_eq_singleton (hfst ▸ nodup_numbers logs) he⟩
  · refine .inl ⟨partsAt_eq_nil.mpr ht, filter_eq_nil_iff.mpr fun e he hte => ht ?_⟩
    rw [← hfst, ← of_decide_eq_true hte]
    exact mem_map_of_mem he

/-- The numbers of a merge are those of its logs. -/
lemma mem_merge (h : merge combine logs = .ok es) : (∃ e ∈ es, e.1 = t) ↔ ∃ e ∈ logs.flatten, e.1 = t := by
  rw [← mem_numbers, ← (mapM_numbered h).1, mem_map]

/-- A merge succeeds when the parts of every number combine. -/
lemma merge_total (h : ∀ t ∈ numbers logs, ∃ b, combine (partsAt logs t) = .ok b) :
    ∃ es, merge combine logs = .ok es := by
  refine Except.mapM_total fun t ht => ?_
  obtain ⟨b, hb⟩ := h t ht
  exact ⟨(t, b), by rw [hb]; rfl⟩

lemma partsAt_cons (l : List (ℕ × α)) (logs : List (List (ℕ × α))) (t : ℕ) :
    partsAt (l :: logs) t = (l.filter fun e => e.1 = t).map snd ++ partsAt logs t := by
  simp [partsAt]

/-- Above the cursor nothing is left out. -/
lemma partsAt_since (h : cursor < t) (logs : List (List (ℕ × α))) :
    partsAt (logs.map (since cursor)) t = partsAt logs t := by
  induction logs with
  | nil => rfl
  | cons l logs ih =>
    rw [map_cons, partsAt_cons, partsAt_cons, ih, since, filter_filter]
    congr 2
    refine filter_congr fun e _ => ?_
    by_cases het : e.1 = t
    · simp [het, h]
    · simp [het]

/-- Logs that grow by other numbers have the same entries of this one. -/
lemma partsAt_grown (h : List.Forall₂
    (fun l l' : List (ℕ × α) => ∃ new, l' = l ++ new ∧ ∀ e ∈ new, e.1 ≠ t) logs logs') :
    partsAt logs' t = partsAt logs t := by
  induction h with
  | nil => rfl
  | cons hl _ ih =>
    obtain ⟨new, rfl, hnew⟩ := hl
    have hnil : new.filter (fun e => e.1 = t) = [] :=
      filter_eq_nil_iff.mpr fun e he => by simpa using hnew e he
    rw [partsAt_cons, partsAt_cons, ih, filter_append, hnil, append_nil]

end TickLog
