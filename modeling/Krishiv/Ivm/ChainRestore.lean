import Krishiv.Delta.Distinct
import Krishiv.Ivm.Scan

/-!
# Restoring a chain

A chain checkpoints one slot for each of its hops, those of the side branches before those of the
spine. Restoring takes the whole frame apart first, so a malformed one changes nothing; then it
puts the slots back hop by hop and stops at the first hop that refuses its bytes. Whenever the
restore fails or returns `false`, the flow seeds the plan from the snapshots, on top of whatever
the restore left behind.
-/

namespace Krishiv.Ivm

open Krishiv.Delta LittleEndian Except List

variable {Op J : Type} [Operator Op] [JoinOperator J]

/-! ## The frame -/

/-- `CHN1`. -/
def chainStateMagic : Bytes := [67, 72, 78, 49]

/-- `CHN2`. -/
def chainSidesMagic : Bytes := [67, 72, 78, 50]

def chainError (m : String) : DeltaError := .operator ("chain state: " ++ m)

def orChainError {α : Type} (m : String) : Option α → DeltaResult α
  | none => .error (chainError m)
  | some a => .ok a

/-- A flag, and behind the flag 1 the length and the bytes of a hop's state. -/
def readSlot : Bytes → DeltaResult (Option Bytes × Bytes)
  | [] => .error (chainError "truncated flag")
  | flag :: rest =>
    if flag = 1 then do
      let (len, rest) ← orChainError "truncated len" (readLe 4 rest)
      if rest.length < len then .error (chainError "truncated hop")
      else .ok (some (rest.take len), rest.drop len)
    else .ok (none, rest)

def unframeHops (hopCount : ℕ) (bytes : Bytes) : DeltaResult (List (Option Bytes) × Bytes) := do
  let (count, rest) ← orChainError "truncated count" (readLe 4 bytes)
  if count ≠ hopCount then
    .error (chainError ("hop count changed: state has " ++ toString count ++ ", plan has " ++
      toString hopCount))
  else readMany readSlot hopCount rest

def unframeSides : List (ChainSide Op J) → Bytes → DeltaResult (List (List (Option Bytes)) × Bytes)
  | [], bytes => .ok ([], bytes)
  | side :: sides, bytes => do
    let (slots, rest) ← unframeHops side.hops.length bytes
    let (more, rest) ← unframeSides sides rest
    .ok (slots :: more, rest)

variable (source : String) (hops : List (Stage Op J)) (sides : List (ChainSide Op J)) (bytes : Bytes)

/-- The slots of the sides and of the spine. Bytes behind the last slot are not looked at. -/
def unframe : DeltaResult (List (List (Option Bytes)) × List (Option Bytes)) :=
  if sides.isEmpty then
    if chainStateMagic <+: bytes then do
      let (slots, _) ← unframeHops hops.length (bytes.drop chainStateMagic.length)
      .ok ([], slots)
    else .error (chainError "bad magic")
  else if chainSidesMagic <+: bytes then do
    let (count, rest) ← orChainError "truncated side count" (readLe 4 (bytes.drop chainSidesMagic.length))
    if count ≠ sides.length then
      .error (chainError ("side count changed: state has " ++ toString count ++ ", plan has " ++
        toString sides.length))
    else do
      let (sideSlots, rest) ← unframeSides sides rest
      let (slots, _) ← unframeHops hops.length rest
      .ok (sideSlots, slots)
  else .error (chainError "bad magic (side-bearing chain wants CHN2)")

/-- `restore_state_bytes` of a chain. -/
def restoreChain : ViewPlan Op J × DeltaResult Bool :=
  match unframe hops sides bytes with
  | .error e => (.chain source hops sides, .error e)
  | .ok (sideSlots, slots) => ViewPlan.restoreStateBytes (.chain source hops sides) (.chain sideSlots slots)

/-- The plan the flow installs: restored, or seeded when the restore fails or returns `false`. -/
def restoreOrSeed (lookup : String → Option RecordBatch) : ViewPlan Op J :=
  match restoreChain source hops sides bytes with
  | (p, .ok true) => p
  | (p, _) => (p.seedFromSnapshots lookup).1

/-! ## Hops and their slots -/

/-- Put a slot back into its hop; an absent slot leaves the hop as it is. -/
def attempt (x : Stage Op J × Option Bytes) : Stage Op J × DeltaResult Bool :=
  match x.2 with
  | some bytes => x.1.restoreStateBytes bytes
  | none => (x.1, .ok true)

/-- Every hop with its slot, in the order of the restore. -/
def hopSlots (sideSlots : List (List (Option Bytes))) (slots : List (Option Bytes)) :
    List (Stage Op J × Option Bytes) :=
  ((sides.zip sideSlots).map fun x => x.1.hops.zip x.2).flatten ++ hops.zip slots

/-- The hops with their slots put back. -/
def filled (slots : List (Option Bytes)) : List (Stage Op J) :=
  (hops.zip slots).map fun x => (attempt x).1

def filledSides (sideSlots : List (List (Option Bytes))) : List (ChainSide Op J) :=
  (sides.zip sideSlots).map fun x => { x.1 with hops := filled x.1.hops x.2 }

def completeChain (sideSlots : List (List (Option Bytes))) (slots : List (Option Bytes)) : Bool :=
  completeSlots hops slots && (sides.zip sideSlots).all fun x => completeSlots x.1.hops x.2

/-- The plan is the one a complete checkpoint describes, or the one that seeding the fresh plan
gives. -/
def Settled (lookup : String → Option RecordBatch) : Prop :=
  (∃ sideSlots slots, unframe hops sides bytes = .ok (sideSlots, slots) ∧
      completeChain hops sides sideSlots slots ∧
      (∀ x ∈ hopSlots hops sides sideSlots slots, (attempt x).2 = .ok true) ∧
      restoreOrSeed source hops sides bytes lookup =
        .chain source (filled hops slots) (filledSides sides sideSlots)) ∨
    restoreOrSeed source hops sides bytes lookup =
      (ViewPlan.seedFromSnapshots (.chain source hops sides) lookup).1

/-- No slot up to the first refused one changes its hop. -/
def Undisturbed : List (Stage Op J × Option Bytes) → Prop
  | [] => True
  | x :: l => (attempt x).1 = x.1 ∧ ((attempt x).2.isOk → Undisturbed l)

/-- The condition under which a checkpoint may be tried: if it is complete, every hop takes its
slot, or no slot up to the first refused one changes its hop. -/
def SafeToTry : Prop :=
  ∀ sideSlots slots, unframe hops sides bytes = .ok (sideSlots, slots) →
    completeChain hops sides sideSlots slots →
    (∀ x ∈ hopSlots hops sides sideSlots slots, (attempt x).2 = .ok true) ∨
      Undisturbed (hopSlots hops sides sideSlots slots)

/-! ## What the restore returns and what it leaves behind -/

variable {source hops sides bytes} {slots : List (Option Bytes)} {sideSlots : List (List (Option Bytes))}

/-- The first error, or whether every slot was taken. -/
def verdict : List (Stage Op J × Option Bytes) → DeltaResult Bool
  | [] => .ok true
  | x :: l => (attempt x).2 >>= fun done => (verdict l).map (done && ·)

lemma verdict_append (l₁ l₂ : List (Stage Op J × Option Bytes)) :
    verdict (l₁ ++ l₂) = verdict l₁ >>= fun done => (verdict l₂).map (done && ·) := by
  induction l₁ with
  | nil => rcases h : verdict l₂ <;> simp [verdict, h, bind, Except.bind, Except.map]
  | cons x l ih =>
    rcases h : (attempt x).2 with e | done <;> rcases h₁ : verdict l <;> rcases h₂ : verdict l₂ <;>
      simp [verdict, ih, h, h₁, h₂, bind, Except.bind, Except.map, Bool.and_assoc]

lemma verdict_eq_true {l : List (Stage Op J × Option Bytes)} :
    verdict l = .ok true ↔ ∀ x ∈ l, (attempt x).2 = .ok true := by
  induction l with
  | nil => simp [verdict]
  | cons x l ih =>
    rw [forall_mem_cons, ← ih]
    rcases h : (attempt x).2 with e | done <;> rcases h₁ : verdict l with e | rest <;>
      simp [verdict, h, h₁, bind, Except.bind, Except.map]

lemma undisturbed_append (l₁ l₂ : List (Stage Op J × Option Bytes)) :
    Undisturbed (l₁ ++ l₂) ↔ Undisturbed l₁ ∧ ((verdict l₁).isOk → Undisturbed l₂) := by
  induction l₁ with
  | nil => simp [Undisturbed, verdict, Except.toBool]
  | cons x l ih =>
    rcases h : (attempt x).2 with e | done <;> rcases h₁ : verdict l with e | rest <;>
      simp [Undisturbed, verdict, ih, h, h₁, bind, Except.bind, Except.map, Except.toBool, and_assoc]

/-- One step of the restore, with the absent slot as an attempt that changes nothing. -/
lemma restoreHops_cons (hop : Stage Op J) (hops : List (Stage Op J)) (slot : Option Bytes)
    (slots : List (Option Bytes)) : restoreHops (hop :: hops) (slot :: slots) = match attempt (hop, slot) with
      | (hop, .error e) => (hop :: hops, .error e)
      | (hop, .ok done) =>
        (hop :: (restoreHops hops slots).1, (restoreHops hops slots).2.map (done && ·)) := by
  cases slot with
  | some bytes =>
    simp only [restoreHops, attempt, Option.map_some]
    rcases hop.restoreStateBytes bytes with ⟨hop', e | done⟩ <;> rfl
  | none =>
    simp only [restoreHops, attempt, Option.map_none]
    rcases (restoreHops hops slots).2 <;> rfl

lemma restoreHops_spec (hlen : hops.length = slots.length) : (restoreHops hops slots).2 = verdict (hops.zip slots) ∧
      ((restoreHops hops slots).1 = hops ↔ Undisturbed (hops.zip slots)) ∧
      ((verdict (hops.zip slots)).isOk → (restoreHops hops slots).1 = filled hops slots) := by
  induction hops generalizing slots with
  | nil => simp [restoreHops, verdict, Undisturbed, filled]
  | cons hop hops ih =>
    obtain ⟨slot, slots, rfl⟩ := exists_cons_of_length_eq_add_one hlen.symm
    obtain ⟨hsnd, hfst, hfilled⟩ := ih (by simpa using hlen)
    rw [restoreHops_cons]
    rcases h : attempt (hop, slot) with ⟨hop', e | done⟩
    · simp [verdict, Undisturbed, h, bind, Except.bind, Except.toBool]
    · rcases hv : verdict (hops.zip slots) with e | rest <;> rw [hv] at hsnd hfilled <;>
        simp_all [verdict, Undisturbed, filled, bind, Except.bind, Except.map, Except.toBool]

lemma restoreSides_spec (hlen : List.Forall₂ (fun side slots => side.hops.length = slots.length) sides sideSlots) :
    let l := ((sides.zip sideSlots).map fun x => x.1.hops.zip x.2).flatten
    (restoreSides sides sideSlots).2 = verdict l ∧
      ((restoreSides sides sideSlots).1 = sides ↔ Undisturbed l) ∧
      ((verdict l).isOk → (restoreSides sides sideSlots).1 = filledSides sides sideSlots) := by
  induction hlen with
  | nil => simp [restoreSides, verdict, Undisturbed, filledSides]
  | @cons side slots sides sideSlots hside _ ih =>
    obtain ⟨hsnd, hfst, hfilled⟩ := ih
    obtain ⟨hsnd₁, hfst₁, hfilled₁⟩ := restoreHops_spec hside
    have hside' : ({ side with hops := (restoreHops side.hops slots).1 } : ChainSide Op J) = side ↔
        (restoreHops side.hops slots).1 = side.hops := by
      cases side
      simp
    intro l
    have hl : l = side.hops.zip slots ++ ((sides.zip sideSlots).map fun x => x.1.hops.zip x.2).flatten := rfl
    rw [hl, verdict_append, undisturbed_append]
    rcases h : restoreHops side.hops slots with ⟨hops, e | done⟩ <;> rw [h, eq_comm] at hsnd₁
    · simp_all [restoreSides, bind, Except.bind, Except.toBool]
    · rcases hv : verdict ((sides.zip sideSlots).map fun x => x.1.hops.zip x.2).flatten with e | rest <;>
        simp_all [restoreSides, filledSides, bind, Except.bind, Except.map, Except.toBool]

/-! ## A frame that is read has the shape of the plan -/

lemma length_unframeHops {n : ℕ} {rest : Bytes} (h : unframeHops n bytes = .ok (slots, rest)) : n = slots.length := by
  obtain ⟨⟨count, tail⟩, -, h⟩ := bind_eq_ok_iff.mp h
  dsimp only at h
  split_ifs at h
  exact (length_readMany h).symm

omit [Operator Op] [JoinOperator J] in
lemma unframeSides_shape {rest : Bytes} (h : unframeSides sides bytes = .ok (sideSlots, rest)) :
    List.Forall₂ (fun side slots => side.hops.length = slots.length) sides sideSlots := by
  induction sides generalizing bytes sideSlots rest with
  | nil => cases h; exact .nil
  | cons side sides ih =>
    obtain ⟨⟨slots, tail⟩, hside, h⟩ := bind_eq_ok_iff.mp h
    obtain ⟨⟨more, tail⟩, hsides, h⟩ := bind_eq_ok_iff.mp h
    cases h
    exact .cons (length_unframeHops hside) (ih hsides)

section

variable (h : unframe hops sides bytes = .ok (sideSlots, slots))

include h

omit [Operator Op] [JoinOperator J] in
lemma unframe_shape : List.Forall₂ (fun side slots => side.hops.length = slots.length) sides sideSlots ∧
      hops.length = slots.length := by
  unfold unframe at h
  split_ifs at h with hempty
  · obtain ⟨⟨slots', rest⟩, hslots, h⟩ := bind_eq_ok_iff.mp h
    cases h
    rw [isEmpty_iff.mp hempty]
    exact ⟨.nil, length_unframeHops hslots⟩
  · obtain ⟨⟨count, rest⟩, -, h⟩ := bind_eq_ok_iff.mp h
    dsimp only at h
    split_ifs at h
    obtain ⟨⟨sideSlots', rest'⟩, hsides, h⟩ := bind_eq_ok_iff.mp h
    obtain ⟨⟨slots', rest''⟩, hslots, h⟩ := bind_eq_ok_iff.mp h
    cases h
    exact ⟨unframeSides_shape hsides, length_unframeHops hslots⟩

/-- The checks of the shape pass, so only the completeness of the frame is left to decide. -/
lemma restoreChain_of_unframe : restoreChain source hops sides bytes =
      if completeChain hops sides sideSlots slots then match restoreSides sides sideSlots with
        | (sides, .error e) => (.chain source hops sides, .error e)
        | (sides, .ok done) => (.chain source (restoreHops hops slots).1 sides,
            (restoreHops hops slots).2.map (done && ·)) else (.chain source hops sides, .ok false) := by
  obtain ⟨hsides, hslots⟩ := unframe_shape h
  have hlen : sides.length = sideSlots.length := hsides.length_eq
  have hempty : sideSlots.isEmpty = sides.isEmpty := by
    rw [Bool.eq_iff_iff, isEmpty_iff_length_eq_zero, isEmpty_iff_length_eq_zero, hlen]
  have hshape : ((sides.zip sideSlots).any fun x => x.1.hops.length ≠ x.2.length) = false := by
    rw [any_eq_false]
    rintro ⟨side, slots⟩ hx
    simpa using forall₂_zip hsides hx
  simp only [restoreChain, h, ViewPlan.restoreStateBytes]
  rw [if_neg (not_not.mpr hempty), if_neg (not_not.mpr hlen.symm), hshape, if_neg (by simp [hslots])]
  cases hc : completeChain hops sides sideSlots slots <;> rw [completeChain] at hc <;> rw [hc] <;> rfl

end

lemma restoreChain_spec (source : String) (h : unframe hops sides bytes = .ok (sideSlots, slots))
    (hcomplete : completeChain hops sides sideSlots slots) :
    let l := hopSlots hops sides sideSlots slots
    (restoreChain source hops sides bytes).2 = verdict l ∧
      ((restoreChain source hops sides bytes).1 = .chain source hops sides ↔ Undisturbed l) ∧
      ((verdict l).isOk → (restoreChain source hops sides bytes).1 =
        .chain source (filled hops slots) (filledSides sides sideSlots)) := by
  obtain ⟨hsides, hslots⟩ := unframe_shape h
  obtain ⟨hsnd, hfst, hfilled⟩ := restoreHops_spec hslots
  obtain ⟨hsnd₁, hfst₁, hfilled₁⟩ := restoreSides_spec hsides
  intro l
  simp only [l, hopSlots]
  rw [restoreChain_of_unframe h, if_pos hcomplete, verdict_append, undisturbed_append]
  rcases hr : restoreSides sides sideSlots with ⟨sides', e | done⟩ <;> rw [hr] at hsnd₁ hfst₁ hfilled₁ <;>
    rw [← hsnd₁] at hfilled₁ ⊢
  · simp [hfst₁, bind, Except.bind, Except.toBool]
  · rcases hv : verdict (hops.zip slots) with e | rest <;> rw [hv] at hsnd hfilled <;>
      simp_all [bind, Except.bind, Except.map, Except.isOk, Except.toBool, and_comm]

/-! ## Seeding -/

lemma runHops_nothing (source : String) (hops : List (Stage Op J)) :
    runHops ⟨fun _ => none, fun _ => none, false⟩ source (fun _ => none) hops = (hops, .ok none) := by
  cases hops with
  | nil => rfl
  | cons first rest => cases first <;> rfl

lemma runSides_nothing (sides : List (ChainSide Op J)) :
    runSides ⟨fun _ => none, fun _ => none, false⟩ sides (fun _ => none) = (sides, .ok fun _ => none) := by
  induction sides with
  | nil => rfl
  | cons side sides ih => simp [runSides, runHops_nothing, ih]

/-- Without snapshots there is nothing to seed. -/
lemma seed_nothing (p : ViewPlan Op J) : (p.seedFromSnapshots fun _ => none).1 = p := by
  cases p with
  | stage s =>
    cases s with
    | join l r op lf rf residual post => cases lf <;> cases rf <;> rfl
    | _ => rfl
  | chain source hops sides =>
    have hnone : ViewPlan.seedDelta (fun _ => none) = fun _ => none := rfl
    simp [ViewPlan.seedFromSnapshots, hnone, runChain, runSides_nothing, runHops_nothing]
  | diffBased => rfl

section

variable (lookup : String → Option RecordBatch)

lemma restoreOrSeed_of_true (h : (restoreChain source hops sides bytes).2 = .ok true) :
    restoreOrSeed source hops sides bytes lookup = (restoreChain source hops sides bytes).1 := by
  rcases hr : restoreChain source hops sides bytes with ⟨p, r⟩
  obtain rfl : r = .ok true := by simpa [hr] using h
  rw [restoreOrSeed, hr]

lemma restoreOrSeed_of_ne_true (h : (restoreChain source hops sides bytes).2 ≠ .ok true) :
    restoreOrSeed source hops sides bytes lookup =
      ((restoreChain source hops sides bytes).1.seedFromSnapshots lookup).1 := by
  rw [restoreOrSeed]
  split
  · rename_i hr
    exact absurd (congrArg Prod.snd hr) h
  · rename_i hr
    rw [hr]

end

/-- A chain is restored from its checkpoint or seeded as a fresh plan, whatever the snapshots, exactly when
the checkpoint is safe to try. -/
theorem restores_or_seeds (source : String) (hops : List (Stage Op J))
    (sides : List (ChainSide Op J))
    (bytes : Bytes) : (∀ lookup, Settled source hops sides bytes lookup) ↔
    SafeToTry hops sides bytes := by
  constructor
  · intro h sideSlots slots hun hcomplete
    obtain ⟨hsnd, hfst, -⟩ := restoreChain_spec source hun hcomplete
    by_cases hall : verdict (hopSlots hops sides sideSlots slots) = .ok true
    · exact .inl (verdict_eq_true.mp hall)
    -- without snapshots seeding changes nothing, so the plan is what the restore left behind
    have hleft := restoreOrSeed_of_ne_true (fun _ => none) (hsnd ▸ hall)
    rw [seed_nothing] at hleft
    rcases h fun _ => none with ⟨sideSlots', slots', hun', -, htaken, -⟩ | hfresh
    · rw [hun] at hun'
      cases hun'
      exact .inl htaken
    · rw [hleft, seed_nothing] at hfresh
      exact .inr (hfst.mp hfresh)
  · intro h lookup
    rcases hun : unframe hops sides bytes with e | ⟨sideSlots, slots⟩
    · have hr : restoreChain source hops sides bytes = (.chain source hops sides, .error e) := by
        rw [restoreChain, hun]
      refine .inr ?_
      rw [restoreOrSeed_of_ne_true lookup (by rw [hr]; simp), hr]
    by_cases hcomplete : completeChain hops sides sideSlots slots
    · obtain ⟨hsnd, hfst, hfilled⟩ := restoreChain_spec source hun hcomplete
      by_cases hall : verdict (hopSlots hops sides sideSlots slots) = .ok true
      · refine .inl ⟨sideSlots, slots, hun, hcomplete, verdict_eq_true.mp hall, ?_⟩
        rw [restoreOrSeed_of_true lookup (hsnd.trans hall), hfilled (by rw [hall]; rfl)]
      · have hun' := (h _ _ hun hcomplete).resolve_left fun htaken => hall (verdict_eq_true.mpr htaken)
        refine .inr ?_
        rw [restoreOrSeed_of_ne_true lookup (hsnd ▸ hall), hfst.mpr hun']
    · have hr : restoreChain source hops sides bytes = (.chain source hops sides, .ok false) := by
        rw [restoreChain_of_unframe hun, if_neg hcomplete]
      refine .inr ?_
      rw [restoreOrSeed_of_ne_true lookup (by rw [hr]; simp), hr]

/-! ## Two hops, and a checkpoint whose second slot is not readable -/

instance : Operator IncrementalDistinctOp where
  apply op d := (op.apply .plain d).swap
  stateBytes := IncrementalDistinctOp.stateBytes
  restoreStateBytes op bytes := (op.restoreStateBytes (fun _ => "") bytes).swap
  gcWatermark op _ := (op, .ok 0)

/-- How often the first hop of a chain has counted its rows. -/
def firstCounts : ViewPlan IncrementalDistinctOp Empty → List ℤ
  | .chain _ (.distinct _ op _ :: _) _ => op.counts.toList.map Prod.snd
  | _ => []

/-- The first hop takes its slot and the second refuses its one: seeding then counts the row of the first
hop a second time. -/
theorem restored_hop_is_seeded :
    let hops : List (Stage IncrementalDistinctOp Empty) := [.distinct "t" {} none, .distinct "t" {} none]
    let snap : RecordBatch := ⟨keySchema, [[.int 7]]⟩
    let lookup : String → Option RecordBatch := fun _ => some snap
    let seeded := (ViewPlan.seedFromSnapshots (.chain "t" hops []) lookup).1
    let state := (IncrementalDistinctOp.apply .plain {} (.fromInserts snap)).2.stateBytes
    let bytes := chainStateMagic ++ leBytes 4 2 ++ ([1] ++ leBytes 4 state.length ++ state) ++ ([1] ++ leBytes 4 0)
    firstCounts seeded = [1] ∧ firstCounts (restoreOrSeed "t" hops [] bytes lookup) = [2] ∧
      ¬Settled "t" hops [] bytes lookup := by
  intro hops snap lookup seeded state bytes
  have hseeded : firstCounts seeded = [1] := by decide
  have hcounts : firstCounts (restoreOrSeed "t" hops [] bytes lookup) = [2] := by decide
  refine ⟨hseeded, hcounts, ?_⟩
  rintro (⟨sideSlots, slots, hun, -, htaken, -⟩ | hfresh)
  · have hread : unframe hops [] bytes = .ok ([], [some state, some []]) := by decide
    rw [hread] at hun
    cases hun
    exact absurd (htaken (.distinct "t" {} none, some []) (by simp [hopSlots, hops])) (by decide)
  · rw [hfresh] at hcounts
    exact absurd (hseeded.symm.trans hcounts) (by decide)

end Krishiv.Ivm
