import Krishiv.State.Rescaling

/-!
# Keyed window state under rescaling

Window operators write their open windows under state keys that carry the group key, and the row router
hashes the same group key. Rescaling should therefore bring each entry to the task that will get the rows
of its key.

The table of layouts does not have the top-N entries of the tumbling operator, so these count as broadcast
state and go to every new task.
-/

namespace Krishiv.Dataflow

open Krishiv.Ivm Krishiv.State LittleEndian List

/-! ## What the operators write -/

def leI64 (w : Int64) : Bytes := leBytes 8 w.toUInt64.toNat

/-- The prefix of top-N entries. -/
def tn : Bytes := [0x74, 0x6e, 0x3a]

/-- One open window, top-N buffer or session. -/
inductive KeyedState where
  | tumbling (key : Bytes) (winStart : Int64)
  | topN (key : Bytes) (winStart : Int64)
  | sliding (key : Bytes) (winStart : Int64)
  | session (key : Bytes) (sessionStart lastEvent : Int64)
  deriving DecidableEq

/-- Length-prefixed group key between a prefix and numbers. The length is cut to four bytes. -/
def windowStateKey (start key : Bytes) (trailing : List Int64) : Bytes :=
  start ++ (leBytes 4 key.length ++ (key ++ trailing.flatMap leI64))

namespace KeyedState

def key : KeyedState → Bytes
  | tumbling key _ | topN key _ | sliding key _ | session key _ _ => key

def stateKey : KeyedState → Bytes
  | tumbling key winStart => windowStateKey tw key [winStart]
  | topN key winStart => windowStateKey tn key [winStart]
  | sliding key winStart => windowStateKey sw key [winStart]
  | session key sessionStart lastEvent => windowStateKey ses key [sessionStart, lastEvent]

/-- The layout is in the table and the key has a length of four bytes. -/
def Routable : KeyedState → Prop
  | topN _ _ => False
  | s => s.key.length < 2 ^ 32

instance : DecidablePred Routable
  | topN _ _ => .isFalse id
  | tumbling key _ | sliding key _ | session key _ _ => inferInstanceAs (Decidable (key.length < 2 ^ 32))

end KeyedState

open KeyedState

/-- The state of one task. -/
structure WindowTask where
  keyed : List (KeyedState × Bytes)
  watermark : Int64

/-- All tasks of an operator write under the same name. -/
def entryOf (opId stateName : String) (x : KeyedState × Bytes) : SnapshotEntry :=
  ⟨opId, stateName, x.1.stateKey, x.2⟩

def watermarkEntry (opId stateName : String) (w : Int64) : SnapshotEntry := ⟨opId, stateName, wm, leI64 w⟩

def WindowTask.entries (opId stateName : String) (t : WindowTask) : List SnapshotEntry :=
  t.keyed.map (entryOf opId stateName) ++ [watermarkEntry opId stateName t.watermark]

/-! ## Numbers -/

@[simp] lemma length_leI64 (w : Int64) : (leI64 w).length = 8 := length_leBytes 8 _

lemma leNat_leI64 (w : Int64) : leNat (leI64 w) = w.toUInt64.toNat := by
  apply leNat_leBytes_of_lt
  have h := w.toUInt64.toNat_lt
  omega

lemma leInt64_leI64 (w : Int64) : leInt64 (leI64 w) = w.toInt := by
  have hcond : w.toInt = if 2 * w.toBitVec.toNat < 2 ^ 64 then (w.toBitVec.toNat : ℤ)
      else (w.toBitVec.toNat : ℤ) - (2 ^ 64 : ℕ) := BitVec.toInt_eq_toNat_cond w.toBitVec
  have hnat : w.toUInt64.toNat = w.toBitVec.toNat := rfl
  unfold leInt64
  dsimp only
  rw [leNat_leI64, hnat, hcond]
  split_ifs <;> omega

lemma leI64_injective : Function.Injective leI64 := by
  intro a b h
  have hint : a.toInt = b.toInt := by rw [← leInt64_leI64, ← leInt64_leI64, h]
  exact Int64.toInt_inj.mp hint

/-! ## Group keys of state keys -/

section

variable (start key : Bytes) (trailing : List Int64)

lemma length_windowStateKey :
    (windowStateKey start key trailing).length = start.length + 4 + key.length + 8 * trailing.length := by
  have hflat : (trailing.flatMap leI64).length = 8 * trailing.length := by
    induction trailing with
    | nil => rfl
    | cons w trailing ih => rw [flatMap_cons, length_append, length_leI64, length_cons]; omega
  simp only [windowStateKey, length_append, length_leBytes, hflat]
  omega

/-- The layout of a state key gives its group key back if the length was not cut. -/
lemma groupKeyIn_layout (layouts : List (Bytes × ℕ)) (n : ℕ) (hn : n = 8 * trailing.length) :
    groupKeyIn (windowStateKey start key trailing) ((start, n) :: layouts) = if key.length < 2 ^ 32 then some key
      else groupKeyIn (windowStateKey start key trailing) layouts := by
  have hstart : start.isPrefixOf (windowStateKey start key trailing) = true := by
    rw [List.isPrefixOf_iff_prefix]
    exact prefix_append _ _
  have hlen := length_windowStateKey start key trailing
  have hdrop : (windowStateKey start key trailing).drop start.length =
      leBytes 4 key.length ++ (key ++ trailing.flatMap leI64) := drop_left
  have hrest : (leBytes 4 key.length ++ (key ++ trailing.flatMap leI64)).length =
      4 + key.length + 8 * trailing.length := by
    rw [← hdrop, length_drop, hlen]
    omega
  have hnat : leNat (leBytes 4 key.length) = key.length % 2 ^ 32 := leNat_leBytes 4 _
  have hmatch : ¬ (start.isPrefixOf (windowStateKey start key trailing) = false ∨
      (windowStateKey start key trailing).length < start.length + 4 + 8 * trailing.length) := by
    rw [hstart, hlen]
    simp
  subst hn
  rw [groupKeyIn, if_neg hmatch]
  dsimp only
  rw [hdrop, hrest, take_leBytes, hnat, drop_leBytes]
  by_cases hkey : key.length < 2 ^ 32
  · rw [Nat.mod_eq_of_lt hkey, if_pos rfl, if_pos hkey, take_left]
  · have hcut : key.length % 2 ^ 32 < 2 ^ 32 := Nat.mod_lt _ (by decide)
    rw [if_neg (by omega), if_neg hkey]

end

variable {start : Bytes}

/-- A layout with another prefix is passed over. -/
lemma groupKeyIn_skip {stateKey : Bytes} {trailing : ℕ} {layouts : List (Bytes × ℕ)}
    (h : start.isPrefixOf stateKey = false) :
    groupKeyIn stateKey ((start, trailing) :: layouts) = groupKeyIn stateKey layouts := by
  rw [groupKeyIn, if_pos (.inl h)]

lemma windowGroupKey_stateKey (s : KeyedState) :
    windowGroupKey s.stateKey = if s.Routable then some s.key else none := by
  unfold windowGroupKey windowStateKeyLayouts
  cases s with
  | tumbling key winStart =>
    rw [stateKey, groupKeyIn_layout tw key [winStart] _ 8 rfl, groupKeyIn_skip rfl, groupKeyIn_skip rfl]
    rfl
  | topN key winStart =>
    rw [stateKey, groupKeyIn_skip rfl, groupKeyIn_skip rfl, groupKeyIn_skip rfl]
    rfl
  | sliding key winStart =>
    rw [stateKey, groupKeyIn_skip rfl, groupKeyIn_layout sw key [winStart] _ 8 rfl, groupKeyIn_skip rfl]
    rfl
  | session key sessionStart lastEvent =>
    rw [stateKey, groupKeyIn_skip rfl, groupKeyIn_skip rfl,
      groupKeyIn_layout ses key [sessionStart, lastEvent] _ 16 rfl]
    rfl

/-! ## Different state, different name -/

/-- Under one prefix, and with as many numbers behind it, the key and the numbers can be read off. -/
lemma windowStateKey_inj {key key' : Bytes} {trailing trailing' : List Int64}
    (hlen : trailing.length = trailing'.length)
    (h : windowStateKey start key trailing = windowStateKey start key' trailing') :
    key = key' ∧ trailing.flatMap leI64 = trailing'.flatMap leI64 := by
  have hkeylen : key.length = key'.length := by
    have htotal := congrArg List.length h
    rw [length_windowStateKey, length_windowStateKey] at htotal
    omega
  have htail := append_cancel_left h
  have hbody := (append_inj htail (by rw [length_leBytes, length_leBytes])).2
  exact append_inj hbody hkeylen

lemma windowStateKey_start_inj {key key' : Bytes} {w w' : Int64}
    (h : windowStateKey start key [w] = windowStateKey start key' [w']) : key = key' ∧ w = w' := by
  obtain ⟨hkey, hw⟩ := windowStateKey_inj (by rfl) h
  have hbytes : leI64 w = leI64 w' := by simpa using hw
  exact ⟨hkey, leI64_injective hbytes⟩

lemma stateKey_injective : Function.Injective stateKey := by
  intro a b h
  -- different kinds differ in the first two bytes
  cases a <;> cases b <;>
    first
      | (exfalso; simp [stateKey, windowStateKey, tw, tn, sw, ses] at h; done)
      | skip
  case tumbling.tumbling key w key' w' =>
    obtain ⟨rfl, rfl⟩ := windowStateKey_start_inj h
    rfl
  case topN.topN key w key' w' =>
    obtain ⟨rfl, rfl⟩ := windowStateKey_start_inj h
    rfl
  case sliding.sliding key w key' w' =>
    obtain ⟨rfl, rfl⟩ := windowStateKey_start_inj h
    rfl
  case session.session key w v key' w' v' =>
    obtain ⟨rfl, hw⟩ := windowStateKey_inj (by rfl) h
    have happ : leI64 w ++ leI64 v = leI64 w' ++ leI64 v' := by simpa using hw
    obtain ⟨hw₁, hw₂⟩ := append_inj happ (by rw [length_leI64, length_leI64])
    rw [leI64_injective hw₁, leI64_injective hw₂]

/-- A state key is longer than the name of the watermark. -/
lemma stateKey_ne_wm (s : KeyedState) : s.stateKey ≠ wm := by
  intro h
  have hlen := congrArg List.length h
  cases s <;>
    simp [stateKey, length_windowStateKey, wm] at hlen

lemma entryOf_injective (opId stateName : String) : Function.Injective (entryOf opId stateName) := by
  rintro ⟨a, v⟩ ⟨b, v'⟩ h
  simp only [entryOf, SnapshotEntry.mk.injEq, true_and] at h
  rw [stateKey_injective h.1, h.2]

end Krishiv.Dataflow
