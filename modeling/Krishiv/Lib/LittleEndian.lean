import Mathlib.Data.List.Forall2
import Mathlib.Data.Nat.ModEq

/-!
# Little-endian numbers

`leBytes w n` is the number `n` in `w` bytes, lowest first; it is what remains modulo `256 ^ w` that
`leNat` reads back. `ofSigned` and `toSigned` put a signed number into such a number in two's complement
and take it out again. A reader returns a value and the bytes behind it; `readMany` reads one value after
the other, and reads back what was written one after the other (`readMany_flatten`).
-/

namespace LittleEndian

open List

def leBytes : ℕ → ℕ → List UInt8
  | 0, _ => []
  | w + 1, n => UInt8.ofNat (n % 256) :: leBytes w (n / 256)

def leNat : List UInt8 → ℕ
  | [] => 0
  | b :: bytes => b.toNat + 256 * leNat bytes

@[simp] lemma length_leBytes (w n : ℕ) : (leBytes w n).length = w := by
  induction w generalizing n with
  | zero => rfl
  | succ w ih => rw [leBytes, length_cons, ih]

lemma leNat_leBytes (w n : ℕ) : leNat (leBytes w n) = n % 256 ^ w := by
  induction w generalizing n with
  | zero => rw [pow_zero, Nat.mod_one]; rfl
  | succ w ih =>
    have hlow : (UInt8.ofNat (n % 256)).toNat = n % 256 := by
      rw [UInt8.toNat_ofNat']
      omega
    calc leNat (leBytes (w + 1) n) = n % 256 + 256 * (n / 256 % 256 ^ w) := by
          rw [leBytes, leNat, hlow, ih]
      _ = n % (256 * 256 ^ w) := (Nat.mod_mul).symm
      _ = n % 256 ^ (w + 1) := by rw [pow_succ, Nat.mul_comm]

/-- A number that fits is read back. -/
lemma leNat_leBytes_of_lt {w n : ℕ} (h : n < 256 ^ w) : leNat (leBytes w n) = n := by
  rw [leNat_leBytes, Nat.mod_eq_of_lt h]

/-- Bytes that are read are written again. -/
lemma leBytes_leNat (l : List UInt8) : leBytes l.length (leNat l) = l := by
  induction l with
  | nil => rfl
  | cons b l ih =>
    have hb := b.toNat_lt
    have hlow : (b.toNat + 256 * leNat l) % 256 = b.toNat := by omega
    have hhigh : (b.toNat + 256 * leNat l) / 256 = leNat l := by omega
    rw [length_cons, leBytes, leNat, hlow, hhigh, ih, UInt8.ofNat_toNat]

/-! ## Signed numbers -/

/-- A signed number in `w` bytes, as a number. -/
def ofSigned (w : ℕ) (i : ℤ) : ℕ := (i % (256 ^ w : ℕ)).toNat

def toSigned (w n : ℕ) : ℤ := if 2 * n < 256 ^ w then n else (n : ℤ) - (256 ^ w : ℕ)

lemma ofSigned_lt (w : ℕ) (i : ℤ) : ofSigned w i < 256 ^ w := by
  have hpos : (0 : ℤ) < (256 ^ w : ℕ) := by exact_mod_cast Nat.pow_pos (by omega)
  have h0 := Int.emod_nonneg i hpos.ne'
  have h1 := Int.emod_lt_of_pos i hpos
  unfold ofSigned
  omega

lemma toSigned_ofSigned {w : ℕ} {i : ℤ} (hlow : -(256 ^ w : ℕ) ≤ 2 * i) (hhigh : 2 * i < (256 ^ w : ℕ)) :
    toSigned w (ofSigned w i) = i := by
  unfold toSigned ofSigned
  generalize 256 ^ w = b at hlow hhigh ⊢
  rcases le_or_gt 0 i with hi | hi
  · rw [Int.emod_eq_of_lt hi (by omega)]
    split_ifs <;> omega
  have hmod : i % (b : ℤ) = i + b := by
    rw [← Int.add_emod_right, Int.emod_eq_of_lt (by omega) (by omega)]
  rw [hmod]
  split_ifs <;> omega

/-! ## Readers -/

/-- The number in the first `w` bytes, and the bytes behind it. -/
def readLe (w : ℕ) (bytes : List UInt8) : Option (ℕ × List UInt8) :=
  if bytes.length < w then none else some (leNat (bytes.take w), bytes.drop w)

section

variable (w n : ℕ) (tail : List UInt8)

lemma take_leBytes : (leBytes w n ++ tail).take w = leBytes w n := take_left' (length_leBytes w n)

lemma drop_leBytes : (leBytes w n ++ tail).drop w = tail := drop_left' (length_leBytes w n)

lemma not_length_lt : ¬(leBytes w n ++ tail).length < w := by
  rw [length_append, length_leBytes]
  omega

end

lemma readLe_leBytes {w n : ℕ} (h : n < 256 ^ w) (tail : List UInt8) :
    readLe w (leBytes w n ++ tail) = some (n, tail) := by
  rw [readLe, if_neg (not_length_lt w n tail), take_leBytes, drop_leBytes, leNat_leBytes_of_lt h]

/-- One value after the other. -/
def readMany {ε α : Type} (read : List UInt8 → Except ε (α × List UInt8)) :
    ℕ → List UInt8 → Except ε (List α × List UInt8)
  | 0, bytes => .ok ([], bytes)
  | n + 1, bytes => do
    let (a, rest) ← read bytes
    let (as, rest) ← readMany read n rest
    .ok (a :: as, rest)

/-- Values that are read back one by one are read back one after the other. -/
lemma readMany_flatten {ε α : Type} {read : List UInt8 → Except ε (α × List UInt8)} {as : List α}
    {ws : List (List UInt8)} (h : List.Forall₂ (fun a w => ∀ tail, read (w ++ tail) = .ok (a, tail)) as ws)
    (tail : List UInt8) : readMany read as.length (ws.flatten ++ tail) = .ok (as, tail) := by
  induction h with
  | nil => rfl
  | cons ha _ ih =>
    rw [length_cons, flatten_cons, append_assoc]
    simp [readMany, ha, ih, bind, Except.bind]

lemma readMany_flatMap {ε α : Type} {read : List UInt8 → Except ε (α × List UInt8)} {as : List α}
    {write : α → List UInt8} (h : ∀ a ∈ as, ∀ tail, read (write a ++ tail) = .ok (a, tail))
    (tail : List UInt8) : readMany read as.length (as.flatMap write ++ tail) = .ok (as, tail) := by
  refine readMany_flatten ?_ tail
  exact forall₂_map_right_iff.mpr (forall₂_same.mpr h)

lemma length_readMany {ε α : Type} {read : List UInt8 → Except ε (α × List UInt8)} {n : ℕ}
    {bytes rest : List UInt8} {as : List α} (h : readMany read n bytes = .ok (as, rest)) : as.length = n := by
  induction n generalizing bytes as rest with
  | zero => cases h; rfl
  | succ n ih =>
    simp only [readMany, bind, Except.bind] at h
    split at h
    · cases h
    split at h
    · cases h
    · rename_i hread _ _ hmany
      cases h
      rw [length_cons, ih hmany]

end LittleEndian
