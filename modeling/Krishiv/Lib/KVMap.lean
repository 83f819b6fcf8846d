import Mathlib.Algebra.Ring.Int.Defs
import Mathlib.Algebra.BigOperators.Group.List.Basic
import Mathlib.Data.List.AList

/-!
# Key-value maps and fallible passes over them

`KVMap K V` is Mathlib's association list with one value type. The passes a program makes over
such a map are `map` and `mapM` (every value, without and with failures), `merge` (walk one map and
combine it into another key by key) and `updateM` (the same with steps that can fail); `groupBy` and
`sumInto` collect a list by key. Each comes with the equation for `lookup`,
which is all a caller needs: no proof outside this file looks at the entries.
-/

/-- Something that one element of the list brings about, and that stays. -/
lemma List.foldl_of_mem {σ α : Type*} {f : σ → α → σ} {p : σ → Prop} (hstay : ∀ s a, p s → p (f s a))
    {l : List α} {a : α} (ha : a ∈ l) (hone : ∀ s, p (f s a)) (s : σ) : p (l.foldl f s) := by
  obtain ⟨before, after, rfl⟩ := List.append_of_mem ha
  rw [List.foldl_append, List.foldl_cons]
  exact List.foldlRecOn after f (hone _) fun s hs a _ => hstay s a hs

lemma List.Forall₂.exists_left {α β : Type} {R : α → β → Prop} {l : List α} {l' : List β}
    (h : List.Forall₂ R l l') : ∀ b ∈ l', ∃ a ∈ l, R a b := by
  induction h with
  | nil => nofun
  | cons hab _ ih => exact List.forall_mem_cons.mpr ⟨⟨_, List.mem_cons_self, hab⟩,
      fun b hb => (ih b hb).imp fun _ h => ⟨List.mem_cons_of_mem _ h.1, h.2⟩⟩

namespace Except

variable {ε α β : Type} {f : α → Except ε β} {x : Except ε α}

/-- A computation that returns went through its first step. -/
lemma bind_eq_ok_iff {b : β} : (x >>= f) = .ok b ↔ ∃ a, x = .ok a ∧ f a = .ok b := by
  cases x with
  | error e | ok a => simp [bind, Except.bind]

lemma bind_eq_error_iff {e : ε} : (x >>= f) = .error e ↔ x = .error e ∨ ∃ a, x = .ok a ∧ f a = .error e := by
  cases x with
  | error e | ok a => simp [bind, Except.bind]

lemma map_eq_ok_iff {f : α → β} {b : β} : (f <$> x) = .ok b ↔ ∃ a, x = .ok a ∧ f a = b := by
  cases x with
  | error e | ok a => simp

lemma mapError_eq_ok_iff {ε' : Type} {f : ε → ε'} {a : α} : x.mapError f = .ok a ↔ x = .ok a := by
  cases x <;> simp [Except.mapError]

variable {l : List α}

/-- A pass over a list succeeds when every step does. -/
lemma mapM_total (h : ∀ a ∈ l, ∃ b, f a = .ok b) : ∃ bs, l.mapM f = .ok bs := by
  induction l with
  | nil => exact ⟨[], rfl⟩
  | cons a l ih =>
    obtain ⟨b, hb⟩ := h a (by simp)
    obtain ⟨bs, hbs⟩ := ih fun x hx => h x (by simp [hx])
    refine ⟨b :: bs, ?_⟩
    rw [List.mapM_cons, hb, hbs]
    rfl

/-- A pass whose steps all return is a plain map. -/
lemma mapM_eq_map {g : α → β} (h : ∀ a ∈ l, f a = .ok (g a)) : l.mapM f = .ok (l.map g) := by
  induction l with
  | nil => rfl
  | cons a l ih =>
    rw [List.mapM_cons, h a (by simp), ih fun x hx => h x (by simp [hx])]
    rfl

lemma ok_of_isSome (h : x.toOption.isSome = true) : ∃ a, x = .ok a := by
  cases x with
  | error e => cases h
  | ok a => exact ⟨a, rfl⟩

variable {bs : List β}

/-- The results of a pass, one for each step. -/
lemma forall₂_of_mapM (h : l.mapM f = .ok bs) : List.Forall₂ (fun a b => f a = .ok b) l bs := by
  induction l generalizing bs with
  | nil =>
    cases h
    exact .nil
  | cons a l ih =>
    rw [List.mapM_cons, bind_eq_ok_iff] at h
    obtain ⟨b, hb, h⟩ := h
    obtain ⟨bs', hbs', h⟩ := bind_eq_ok_iff.mp h
    cases h
    exact .cons hb (ih hbs')

lemma mem_mapM_iff {b : β} (h : l.mapM f = .ok bs) : b ∈ bs ↔ ∃ a ∈ l, f a = .ok b := by
  have hall := forall₂_of_mapM h
  clear h
  induction hall with
  | nil => simp
  | cons hab _ ih => simp [ih, hab, eq_comm]

lemma exists_of_mapM (h : l.mapM f = .ok bs) : ∀ a ∈ l, ∃ b, f a = .ok b :=
  fun a ha => ((forall₂_of_mapM h).flip.exists_left a ha).imp fun _ hb => hb.2

/-- What a pass returns, if a step that returns has only one result. -/
lemma map_of_mapM {g : α → β} (hf : ∀ a b, f a = .ok b → b = g a) (h : l.mapM f = .ok bs) : bs = l.map g := by
  have hall := forall₂_of_mapM h
  clear h
  induction hall with
  | nil => rfl
  | cons hab _ ih => rw [List.map_cons, hf _ _ hab, ih]

/-- A computation that fails with errors of one kind only. -/
def FailsOnly (E : ε → Prop) (x : Except ε α) : Prop := ∀ e, x = .error e → E e

variable {E : ε → Prop}

lemma failsOnly_ok (a : α) : FailsOnly E (.ok a) := nofun

lemma FailsOnly.bind (hx : FailsOnly E x) (hf : ∀ a, x = .ok a → FailsOnly E (f a)) : FailsOnly E (x >>= f) := by
  cases x with
  | error e => exact fun e' he => hx e' (congrArg error (Except.error.inj he))
  | ok a => exact hf a rfl

lemma failsOnly_mapM (h : ∀ a ∈ l, FailsOnly E (f a)) : FailsOnly E (l.mapM f) := by
  induction l with
  | nil => exact failsOnly_ok []
  | cons a l ih =>
    rw [List.mapM_cons]
    refine (h a List.mem_cons_self).bind fun b _ => ?_
    exact (ih fun x hx => h x (List.mem_cons_of_mem a hx)).bind fun bs _ => failsOnly_ok (b :: bs)

lemma failsOnly_foldlM {g : β → α → Except ε β} (h : ∀ b, ∀ a ∈ l, FailsOnly E (g b a)) (b : β) :
    FailsOnly E (l.foldlM g b) := by
  induction l generalizing b with
  | nil => exact failsOnly_ok b
  | cons a l ih =>
    rw [List.foldlM_cons]
    exact (h b a List.mem_cons_self).bind fun b' _ => ih (fun b x hx => h b x (List.mem_cons_of_mem a hx)) b'

end Except

/-- A finite map with values of one type. -/
abbrev KVMap (K V : Type) := AList fun _ : K => V

namespace KVMap

open List AList

variable {K V W ε : Type} [DecidableEq K]

lemma lookup_insert_ite (m : KVMap K V) (k k' : K) (v : V) :
    (m.insert k v).lookup k' = if k' = k then some v else m.lookup k' := by
  split
  · next hk => exact hk ▸ lookup_insert m
  · next hk => exact lookup_insert_ne hk

lemma lookup_erase_ite (m : KVMap K V) (k k' : K) : (m.erase k).lookup k' = if k' = k then none else m.lookup k' := by
  split
  · next hk => exact hk ▸ lookup_erase k' m
  · next hk => exact lookup_erase_ne hk

/-! ## Changing every value -/

/-- Apply `f` to every value. -/
def map (f : K → V → W) (m : KVMap K V) : KVMap K W where
  entries := m.entries.map fun e => ⟨e.1, f e.1 e.2⟩
  nodupKeys := by
    have h := m.nodupKeys
    simp only [List.NodupKeys, List.keys, map_map] at h ⊢
    exact h

/-! ## Keeping some of the values -/

/-- The entries whose value has a result. -/
def filterMapEntries (f : K → V → Option W) (l : List (Sigma fun _ : K => V)) : List (Sigma fun _ : K => W) :=
  l.filterMap fun e => (f e.1 e.2).map fun w => ⟨e.1, w⟩

omit [DecidableEq K] in
private lemma keys_filterMapEntries (f : K → V → Option W) (l : List (Sigma fun _ : K => V)) :
    (filterMapEntries f l).keys.Sublist l.keys := by
  unfold filterMapEntries
  induction l with
  | nil => exact List.Sublist.slnil
  | cons e l ih =>
    cases he : f e.1 e.2 with
    | none =>
      rw [filterMap_cons_none (by rw [he]; rfl)]
      exact ih.cons _
    | some w =>
      rw [filterMap_cons_some (by rw [he]; rfl)]
      exact ih.cons_cons _

/-- Replace every value by a function of key and value, dropping those without a result. -/
def filterMap (f : K → V → Option W) (m : KVMap K V) : KVMap K W where
  entries := filterMapEntries f m.entries
  nodupKeys := (keys_filterMapEntries f m.entries).nodup m.nodupKeys

@[simp] lemma lookup_filterMap (f : K → V → Option W) (m : KVMap K V) (k : K) :
    (filterMap f m).lookup k = (m.lookup k).bind (f k) := by
  obtain ⟨l, hl⟩ := m
  change List.dlookup k (filterMapEntries f l) = (List.dlookup k l).bind (f k)
  induction l with
  | nil => rfl
  | cons e l ih =>
    obtain ⟨k', v⟩ := e
    rw [nodupKeys_cons] at hl
    -- a dropped key does not come again
    have hout : k' ∉ (filterMapEntries f l).keys := fun hmem => hl.1 ((keys_filterMapEntries f l).subset hmem)
    have hcons : filterMapEntries f (⟨k', v⟩ :: l) =
        ((f k' v).map fun w => (⟨k', w⟩ : Sigma fun _ : K => W)).toList ++ filterMapEntries f l := by
      unfold filterMapEntries
      cases hf : f k' v with
      | none => rw [filterMap_cons_none (by rw [hf]; rfl)]; rfl
      | some w => rw [filterMap_cons_some (by rw [hf]; rfl)]; rfl
    rw [hcons]
    by_cases hk : k = k'
    · subst hk
      rw [dlookup_cons_eq, Option.bind_some]
      cases f k v with
      | none => exact dlookup_eq_none.mpr hout
      | some w => exact dlookup_cons_eq _ _ _
    · rw [dlookup_cons_ne _ _ hk, ← ih hl.2]
      cases f k' v with
      | none => rfl
      | some w => exact dlookup_cons_ne _ _ hk

@[simp] lemma lookup_map (f : K → V → W) (m : KVMap K V) (k : K) : (map f m).lookup k = (m.lookup k).map (f k) := by
  have hkept : map f m = filterMap (fun k v => some (f k v)) m :=
    ext (congrFun filterMap_eq_map m.entries).symm
  rw [hkept, lookup_filterMap]
  cases m.lookup k <;> rfl

variable {m : KVMap K V}

/-- Looking up in a map whose entries are known. -/
lemma lookup_of_pairs {l : List (K × V)} (h : m.entries.map (fun e => (e.1, e.2)) = l) (k : K) :
    m.lookup k = l.lookup k := by
  subst h
  show List.dlookup k m.entries = _
  generalize m.entries = entries
  induction entries with
  | nil => rfl
  | cons e entries ih =>
    rw [map_cons, lookup_cons]
    by_cases hk : k = e.1
    · subst hk
      rw [beq_self_eq_true]
      exact dlookup_cons_eq entries e.1 e.2
    · rw [beq_false_of_ne hk, ← ih]
      exact dlookup_cons_ne entries e hk

/-! ## Merging one map into another -/

/-- For every entry `(k, v)` of the list, the value at `k` becomes `f v` of the current one. -/
def mergeEntries (f : V → Option W → W) : List (Sigma fun _ : K => V) → KVMap K W → KVMap K W
  | [], b => b
  | ⟨k, v⟩ :: l, b => mergeEntries f l (b.insert k (f v (b.lookup k)))

/-- Merge `m` into `b`, key by key. -/
def merge (f : V → Option W → W) (m : KVMap K V) (b : KVMap K W) : KVMap K W :=
  mergeEntries f m.entries b

variable {l : List (Sigma fun _ : K => V)}

private lemma lookup_mergeEntries (f : V → Option W → W) (hl : l.NodupKeys) (b : KVMap K W) (k : K) :
    (mergeEntries f l b).lookup k = ((l.dlookup k).map fun v => f v (b.lookup k)).or (b.lookup k) := by
  induction l generalizing b with
  | nil => rfl
  | cons e l ih =>
    obtain ⟨k', v⟩ := e
    rw [nodupKeys_cons] at hl
    rw [mergeEntries, ih hl.2]
    by_cases hk : k = k'
    · subst hk
      rw [dlookup_eq_none.mpr hl.1, dlookup_cons_eq, lookup_insert]
      rfl
    · rw [dlookup_cons_ne _ _ hk, lookup_insert_ne hk]

@[simp] lemma lookup_merge (f : V → Option W → W) (m : KVMap K V) (b : KVMap K W) (k : K) :
    (merge f m b).lookup k = ((m.lookup k).map fun v => f v (b.lookup k)).or (b.lookup k) :=
  lookup_mergeEntries f m.nodupKeys b k

/-! ## Updating one map along another -/

/-- For every entry `(k, v)` of the list: `f k v` sees the current value at `k` and returns the
new one, or nothing to leave the map as it is. -/
def updateEntries (f : K → V → Option W → Except ε (Option W)) :
    List (Sigma fun _ : K => V) → KVMap K W → Except ε (KVMap K W)
  | [], b => .ok b
  | ⟨k, v⟩ :: l, b => do
    match ← f k v (b.lookup k) with
    | some w => updateEntries f l (b.insert k w)
    | none => updateEntries f l b

/-- Walk `m` and update `b`, stopping at the first failure. -/
def updateM (f : K → V → Option W → Except ε (Option W)) (m : KVMap K V) (b : KVMap K W) : Except ε (KVMap K W) :=
  updateEntries f m.entries b

/-- What one key of the result of `updateM` holds. -/
def UpdatedAt (f : K → V → Option W → Except ε (Option W)) (v : Option V) (k : K) (old new : Option W) : Prop :=
  match v with
  | none => new = old
  | some v => ∃ o, f k v old = .ok o ∧ new = o.or old

variable {f : K → V → Option W → Except ε (Option W)} {b r : KVMap K W}

private lemma updateEntries_spec (hl : l.NodupKeys) (h : updateEntries f l b = .ok r) (k : K) :
    UpdatedAt f (l.dlookup k) k (b.lookup k) (r.lookup k) := by
  induction l generalizing b with
  | nil => cases h; rfl
  | cons e l ih =>
    obtain ⟨k', v⟩ := e
    rw [nodupKeys_cons] at hl
    simp only [updateEntries, Except.bind_eq_ok_iff] at h
    obtain ⟨o, ho, hrest⟩ := h
    by_cases hk : k = k'
    · subst hk
      -- the rest of the list never meets this key again
      have hnone : l.dlookup k = none := dlookup_eq_none.mpr hl.1
      rw [dlookup_cons_eq]
      cases o with
      | none =>
        have hlast := ih hl.2 hrest
        rw [hnone] at hlast
        exact ⟨none, ho, hlast⟩
      | some w =>
        have hlast := ih hl.2 hrest
        rw [hnone] at hlast
        refine ⟨some w, ho, ?_⟩
        rw [show r.lookup k = _ from hlast, lookup_insert]
        rfl
    · rw [dlookup_cons_ne _ _ hk]
      cases o with
      | none => exact ih hl.2 hrest
      | some w =>
        have hlast := ih hl.2 hrest
        rwa [lookup_insert_ne hk] at hlast

lemma updateM_spec (h : updateM f m b = .ok r) (k : K) : UpdatedAt f (m.lookup k) k (b.lookup k) (r.lookup k) :=
  updateEntries_spec m.nodupKeys h k

private lemma updateEntries_error (hl : l.NodupKeys) {e : ε} (h : updateEntries f l b = .error e) :
    ∃ k v, l.dlookup k = some v ∧ f k v (b.lookup k) = .error e := by
  induction l generalizing b with
  | nil => cases h
  | cons entry l ih =>
    obtain ⟨k', v⟩ := entry
    rw [nodupKeys_cons] at hl
    have hne : ∀ k w, l.dlookup k = some w → k ≠ k' := by
      rintro k w hw rfl
      rw [dlookup_eq_none.mpr hl.1] at hw
      cases hw
    -- a failure further on is a failure of the whole list at another key
    have hlater : ∀ k w, l.dlookup k = some w → (⟨k', v⟩ :: l : List (Sigma fun _ : K => V)).dlookup k = some w := by
      intro k w hw
      rw [dlookup_cons_ne _ _ (hne k w hw), hw]
    cases ho : f k' v (b.lookup k') with
    | error e' =>
      simp only [updateEntries, ho] at h
      cases h
      exact ⟨k', v, dlookup_cons_eq _ _ _, ho⟩
    | ok o =>
      simp only [updateEntries, ho] at h
      cases o with
      | none =>
        obtain ⟨k, w, hw, hf⟩ := ih hl.2 h
        exact ⟨k, w, hlater k w hw, hf⟩
      | some x =>
        obtain ⟨k, w, hw, hf⟩ := ih hl.2 h
        rw [lookup_insert_ne (hne k w hw)] at hf
        exact ⟨k, w, hlater k w hw, hf⟩

/-- The pass fails where a single update does. -/
lemma updateM_error {e : ε} (h : updateM f m b = .error e) :
    ∃ k v, m.lookup k = some v ∧ f k v (b.lookup k) = .error e :=
  updateEntries_error m.nodupKeys h

/-- The pass succeeds when every single update does. -/
lemma updateM_total (h : ∀ k v, m.lookup k = some v → ∃ o, f k v (b.lookup k) = .ok o) :
    ∃ r, updateM f m b = .ok r := by
  cases hr : updateM f m b with
  | ok r => exact ⟨r, rfl⟩
  | error e =>
    obtain ⟨k, v, hv, hf⟩ := updateM_error hr
    obtain ⟨o, ho⟩ := h k v hv
    rw [ho] at hf
    cases hf

/-! ## Changing every value, fallibly -/

/-- Apply `f` to every value, stopping at the first failure. -/
def mapM (f : K → V → Except ε W) (m : KVMap K V) : Except ε (KVMap K W) :=
  updateM (fun k v _ => (f k v).map some) m ∅

variable {f : K → V → Except ε W}

lemma mapM_spec (h : mapM f m = .ok r) (k : K) : (m.lookup k = none ∧ r.lookup k = none) ∨
      ∃ v w, m.lookup k = some v ∧ f k v = .ok w ∧ r.lookup k = some w := by
  have hat := updateM_spec h k
  cases hm : m.lookup k with
  | none =>
    rw [hm] at hat
    exact .inl ⟨rfl, hat⟩
  | some v =>
    rw [hm] at hat
    obtain ⟨o, ho, hnew⟩ := hat
    obtain ⟨w, hf, rfl⟩ := Except.map_eq_ok_iff.mp ho
    exact .inr ⟨v, w, rfl, hf, hnew⟩

lemma mapM_error {e : ε} (h : mapM f m = .error e) : ∃ k v, m.lookup k = some v ∧ f k v = .error e := by
  obtain ⟨k, v, hv, hf⟩ := updateM_error h
  refine ⟨k, v, hv, ?_⟩
  cases hfv : f k v with
  | error e' =>
    rw [hfv] at hf
    cases hf
    rfl
  | ok w =>
    rw [hfv] at hf
    cases hf

lemma mapM_total (h : ∀ k v, m.lookup k = some v → ∃ w, f k v = .ok w) : ∃ r, mapM f m = .ok r := by
  refine updateM_total fun k v hv => ?_
  obtain ⟨w, hw⟩ := h k v hv
  exact ⟨some w, by rw [hw]; rfl⟩

/-- If every value has an image with some property, all images have it. -/
lemma mapM_rel {Q : K → V → W → Prop} (h : ∀ k v, m.lookup k = some v → ∃ w, f k v = .ok w ∧ Q k v w) :
    ∃ r, mapM f m = .ok r ∧ ∀ k, Option.Rel (Q k) (m.lookup k) (r.lookup k) := by
  obtain ⟨r, hr⟩ := mapM_total fun k v hv => (h k v hv).imp fun _ hw => hw.1
  refine ⟨r, hr, fun k => ?_⟩
  rcases mapM_spec hr k with ⟨hm, hnone⟩ | ⟨v, w, hm, hf, hw⟩
  · rw [hm, hnone]
    exact .none
  obtain ⟨w', hw', hq⟩ := h k v hm
  cases hf.symm.trans hw'
  rw [hm, hw]
  exact .some hq

/-! ## Collecting values by key -/

/-- The values given for every key, in order. -/
def groupBy (es : List (K × V)) : KVMap K (List V) :=
  es.foldl (fun m e => m.insert e.1 ((m.lookup e.1).getD [] ++ [e.2])) ∅

section

variable (es : List (K × V))

private lemma foldl_groupBy (m : KVMap K (List V)) (k : K) :
    (es.foldl (fun m e => m.insert e.1 ((m.lookup e.1).getD [] ++ [e.2])) m).lookup k =
      if (∃ e ∈ es, e.1 = k) then some ((m.lookup k).getD [] ++ (es.filter fun e => e.1 = k).map Prod.snd)
      else m.lookup k := by
  induction es generalizing m with
  | nil => simp
  | cons e es ih =>
    rw [foldl_cons, ih]
    by_cases he : e.1 = k
    · subst he
      rw [lookup_insert, if_pos (⟨e, mem_cons_self, rfl⟩ : ∃ e' ∈ e :: es, e'.1 = e.1)]
      by_cases hmore : ∃ e' ∈ es, e'.1 = e.1
      · rw [if_pos hmore]
        simp
      have hnone : (es.filter fun e' => e'.1 = e.1) = [] :=
        filter_eq_nil_iff.mpr fun e' he' heq => hmore ⟨e', he', by simpa using heq⟩
      rw [if_neg hmore]
      simp [hnone]
    · have hiff : (∃ e' ∈ e :: es, e'.1 = k) ↔ ∃ e' ∈ es, e'.1 = k := by
        simp [he]
      rw [lookup_insert_ne (Ne.symm he), filter_cons_of_neg (by simpa using he)]
      simp only [hiff]

lemma lookup_groupBy (k : K) : (groupBy es).lookup k =
      if (∃ e ∈ es, e.1 = k) then some ((es.filter fun e => e.1 = k).map Prod.snd) else none := by
  rw [groupBy, foldl_groupBy]
  simp

/-- The values of a key, whether there are any or not. -/
lemma getD_lookup_groupBy (k : K) : ((groupBy es).lookup k).getD [] = (es.filter fun e => e.1 = k).map Prod.snd := by
  rw [lookup_groupBy]
  split_ifs with h
  · rfl
  · have hnone : (es.filter fun e => e.1 = k) = [] :=
      filter_eq_nil_iff.mpr fun e he heq => h ⟨e, he, by simpa using heq⟩
    simp [hnone]

end

/-- Add to the value of a key. -/
def addTo (m : KVMap K ℤ) (k : K) (w : ℤ) : KVMap K ℤ := m.insert k ((m.lookup k).getD 0 + w)

lemma lookup_addTo_self (m : KVMap K ℤ) (k : K) (w : ℤ) :
    (addTo m k w).lookup k = some ((m.lookup k).getD 0 + w) := lookup_insert m

lemma lookup_addTo_ne (m : KVMap K ℤ) {k k' : K} (w : ℤ) (h : k' ≠ k) :
    (addTo m k w).lookup k' = m.lookup k' := lookup_insert_ne h

/-- Add up the numbers given for every key. -/
def sumInto (m : KVMap K ℤ) (es : List (K × ℤ)) : KVMap K ℤ :=
  es.foldl (fun m e => addTo m e.1 e.2) m

lemma sumInto_cons (m : KVMap K ℤ) (e : K × ℤ) (es : List (K × ℤ)) :
    sumInto m (e :: es) = sumInto (addTo m e.1 e.2) es := rfl

lemma getD_lookup_sumInto (m : KVMap K ℤ) (es : List (K × ℤ)) (k : K) : ((sumInto m es).lookup k).getD 0 =
      (m.lookup k).getD 0 + ((es.filter fun e => e.1 = k).map Prod.snd).sum := by
  induction es generalizing m with
  | nil => simp [sumInto]
  | cons e es ih =>
    rw [sumInto_cons, ih]
    by_cases he : e.1 = k
    · subst he
      rw [lookup_addTo_self, filter_cons_of_pos (by simp), map_cons, sum_cons, Option.getD_some, add_assoc]
    · rw [lookup_addTo_ne _ _ (Ne.symm he), filter_cons_of_neg (by simpa using he)]

/-- Keys come from the start or from the list. -/
lemma lookup_sumInto_eq_none {m : KVMap K ℤ} {es : List (K × ℤ)} {k : K} :
    (sumInto m es).lookup k = none ↔ m.lookup k = none ∧ ∀ e ∈ es, e.1 ≠ k := by
  induction es generalizing m with
  | nil => simp [sumInto]
  | cons e es ih =>
    rw [sumInto_cons, ih]
    by_cases he : e.1 = k
    · subst he
      simp [lookup_addTo_self]
    · rw [lookup_addTo_ne _ _ (Ne.symm he)]
      simp [he]

/-- Add a change key by key; a key whose number becomes zero is removed. -/
def addNonzero (m change : KVMap K ℤ) : KVMap K ℤ :=
  change.entries.foldl (fun m e =>
    let w := (m.lookup e.1).getD 0 + e.2
    if w = 0 then m.erase e.1 else m.insert e.1 w) m

/-- The number of a key after a change. -/
private def nonzeroSum (old change : Option ℤ) : Option ℤ :=
  match change with
  | none => old
  | some w => if old.getD 0 + w = 0 then none else some (old.getD 0 + w)

private lemma lookup_addNonzero (m change : KVMap K ℤ) (k : K) :
    (addNonzero m change).lookup k = nonzeroSum (m.lookup k) (change.lookup k) := by
  obtain ⟨l, hl⟩ := change
  change (l.foldl _ m).lookup k = nonzeroSum (m.lookup k) (l.dlookup k)
  induction l generalizing m with
  | nil => rfl
  | cons e l ih =>
    obtain ⟨k', w⟩ := e
    rw [nodupKeys_cons] at hl
    rw [foldl_cons, ih _ hl.2]
    by_cases hk : k' = k
    · subst hk
      -- the key does not come again
      rw [dlookup_eq_none.mpr hl.1, dlookup_cons_eq]
      dsimp only [nonzeroSum]
      split_ifs
      · exact lookup_erase k' m
      · exact lookup_insert m
    · rw [dlookup_cons_ne l (⟨k', w⟩ : Sigma fun _ : K => ℤ) (Ne.symm hk)]
      congr 1
      dsimp only
      split_ifs
      · exact lookup_erase_ne (Ne.symm hk)
      · exact lookup_insert_ne (Ne.symm hk)

lemma getD_lookup_addNonzero (m change : KVMap K ℤ) (k : K) :
    ((addNonzero m change).lookup k).getD 0 = (m.lookup k).getD 0 + (change.lookup k).getD 0 := by
  rw [lookup_addNonzero]
  cases change.lookup k with
  | none => simp [nonzeroSum]
  | some w =>
    dsimp only [nonzeroSum]
    split_ifs with hzero
    · simpa using hzero.symm
    · rfl

lemma lookup_addNonzero_ne_zero {m : KVMap K ℤ} (change : KVMap K ℤ) (h : ∀ k, m.lookup k ≠ some 0) (k : K) :
    (addNonzero m change).lookup k ≠ some 0 := by
  rw [lookup_addNonzero]
  cases change.lookup k with
  | none => exact h k
  | some w =>
    dsimp only [nonzeroSum]
    split_ifs with hzero
    · intro heq
      cases heq
    · intro heq
      exact hzero (Option.some.inj heq)

/-! ## Maps as lists -/

/-- The entries in some order. -/
def toList (m : KVMap K V) : List (K × V) := m.entries.map fun e => (e.1, e.2)

/-- Insert one entry after the other. -/
def insertAll (m : KVMap K V) (es : List (K × V)) : KVMap K V := es.foldl (fun m e => m.insert e.1 e.2) m

private lemma lookup_insertAll {es : List (K × V)} (hes : (es.map Prod.fst).Nodup) (m : KVMap K V) (k : K) :
    (insertAll m es).lookup k = (es.lookup k).or (m.lookup k) := by
  induction es generalizing m with
  | nil => rfl
  | cons e es ih =>
    obtain ⟨hnot, hes⟩ := nodup_cons.mp hes
    have hcons : insertAll m (e :: es) = insertAll (m.insert e.1 e.2) es := rfl
    rw [hcons, ih hes, lookup_cons]
    by_cases hk : k = e.1
    · subst hk
      have hnone : es.lookup e.1 = none := by
        rw [lookup_eq_none_iff]
        intro p hp
        refine bne_iff_ne.mpr fun heq => hnot ?_
        rw [heq]
        exact mem_map_of_mem hp
      rw [hnone, beq_self_eq_true, lookup_insert]
      rfl
    · rw [beq_false_of_ne hk, lookup_insert_ne hk]

/-- The entries of a map make it up again. -/
lemma lookup_insertAll_toList (m : KVMap K V) (k : K) : (insertAll ∅ m.toList).lookup k = m.lookup k := by
  have hnodup : (m.toList.map Prod.fst).Nodup := by
    rw [toList, map_map]
    exact m.nodupKeys
  have hlookup : m.lookup k = m.toList.lookup k := lookup_of_pairs rfl k
  rw [lookup_insertAll hnodup, hlookup]
  exact Option.or_none

end KVMap
