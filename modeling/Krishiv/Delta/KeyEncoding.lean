import Krishiv.Delta.Batch
import Krishiv.Lib.Text

/-!
# Keys of cells and rows

Rows are grouped and matched by texts of their cells. There are two such texts: `scalarToKey` writes a
float as its bit pattern and is used for pairing the rows of a join; `scalarToGroupKey` writes it as a
decimal, where all NaNs look alike, and is used for consolidating rows and for looking them up in a trace.

A nested cell has the text that Arrow displays for it, in which `[]` and `[NULL]` look alike. On cells of
one column type that is not nested the first text determines the cell (`keyPart_inj`); the second one does
so up to NaNs and nested cells (`groupPart_inj`).
-/

namespace Krishiv.Delta

open Value Nat

/-! ## Texts of values -/

/-- The bit patterns of an `f64` that are no numbers. -/
def isNaN (bits : ℕ) : Prop := bits / 2 ^ 52 % 2 ^ 11 = 2047 ∧ bits % 2 ^ 52 ≠ 0

instance : DecidablePred isNaN := fun bits =>
  inferInstanceAs (Decidable (bits / 2 ^ 52 % 2 ^ 11 = 2047 ∧ bits % 2 ^ 52 ≠ 0))

/-- How the standard library writes an `f64`: the shortest decimal that reads back as the same number,
and one text for all NaNs. -/
structure FloatFormat where
  display : ℕ → Text
  display_inj : ∀ a b, display a = display b → a = b ∨ isNaN a ∧ isNaN b
  display_nan : ∀ a b, isNaN a → isNaN b → display a = display b

def intText : ℤ → Text
  | .ofNat n => Nat.toDigits 10 n
  | .negSucc n => '-' :: Nat.toDigits 10 (n + 1)

/-- The number of a text of digits. -/
def parseDigits (t : Text) : Option ℕ :=
  if t ≠ [] ∧ t.all Char.isDigit = true then some (Nat.ofDigitChars 10 t 0) else none

/-- `str::parse` for signed integers, before the range check. -/
def parseInt : Text → Option ℤ
  | '-' :: t => (parseDigits t).map fun n => -(n : ℤ)
  | '+' :: t => (parseDigits t).map fun n => (n : ℤ)
  | t => (parseDigits t).map fun n => (n : ℤ)

lemma parseDigits_toDigits (n : ℕ) : parseDigits (toDigits 10 n) = some n := by
  rw [parseDigits, if_pos, ofDigitChars_ten_toDigits]
  exact ⟨toDigits_ne_nil,
    List.all_eq_true.mpr fun c hc => isDigit_of_mem_toDigits (by omega) (by omega) hc⟩

/-- A written integer is read back. -/
lemma parseInt_intText (i : ℤ) : parseInt (intText i) = some i := by
  cases i with
  | negSucc n =>
    change (parseDigits (toDigits 10 (n + 1))).map (fun n => -(n : ℤ)) = _
    rw [parseDigits_toDigits]
    rfl
  | ofNat n =>
    have hdigits := parseDigits_toDigits n
    change parseInt (toDigits 10 n) = _
    -- the first character is a digit and no sign
    have hdigit : ∀ c ∈ toDigits 10 n, c.isDigit = true := fun c hc =>
      isDigit_of_mem_toDigits (by omega) (by omega) hc
    unfold parseInt
    split
    · next t heq =>
      have hminus := hdigit '-' (by rw [heq]; exact List.mem_cons_self)
      exact absurd hminus (by decide)
    · next t heq =>
      have hplus := hdigit '+' (by rw [heq]; exact List.mem_cons_self)
      exact absurd hplus (by decide)
    · rw [hdigits]
      rfl

lemma intText_inj {i j : ℤ} (h : intText i = intText j) : i = j := by
  have hparse := congrArg parseInt h
  rw [parseInt_intText, parseInt_intText] at hparse
  exact Option.some.inj hparse

lemma toDigits_inj {m n : ℕ} (h : toDigits 10 m = toDigits 10 n) : m = n := by
  have hparse := congrArg parseDigits h
  rw [parseDigits_toDigits, parseDigits_toDigits] at hparse
  exact Option.some.inj hparse

/-- A format for runs on fixed inputs: bit patterns in place of decimals. -/
def FloatFormat.plain : FloatFormat where
  display bits := if isNaN bits then ['N', 'a', 'N'] else Nat.toDigits 10 bits
  display_inj := by
    have hdigits : ∀ n, ['N', 'a', 'N'] ≠ Nat.toDigits 10 n := by
      intro n heq
      have hmem : 'N' ∈ Nat.toDigits 10 n := heq ▸ List.mem_cons_self
      exact absurd (Nat.isDigit_of_mem_toDigits (by omega) (by omega) hmem) (by decide)
    intro a b h
    split_ifs at h with ha hb hb
    · exact .inr ⟨ha, hb⟩
    · exact absurd h (hdigits b)
    · exact absurd h.symm (hdigits a)
    · exact .inl (toDigits_inj h)
  display_nan := by
    intro a b ha hb
    rw [if_pos ha, if_pos hb]

inductive FloatEncoding where
  | bits
  | decimal
  deriving DecidableEq, Repr

variable (F : FloatFormat)

/-- The text of a cell that is not null. -/
def encodeValue (floats : FloatEncoding) : Value → Text
  | .null => []
  | .bool b => if b then ['1'] else ['0']
  | .int i => intText i
  | .float bits =>
    match floats with
    | .bits => Nat.toDigits 10 bits
    | .decimal => F.display bits
  | .str s => s.toList
  | .other text | .nested text _ => text.toList

/-! ## Keys of cells -/

abbrev Key := List (Option Text)

/-- The part of a cell in a key. -/
def keyPart (v : Value) : Option Text := if v = .null then none else some (encodeValue F .bits v)

/-- The part of a cell in a group key. -/
def groupPart (v : Value) : Text := if v = .null then ['n'] else 'v' :: encodeValue F .decimal v

def scalarToKey (t : DataType) (v : Value) : DeltaResult (Option Text) :=
  if v = .null ∨ t.renderable then .ok (keyPart F v) else .error (noKeyEncoding t)

def scalarToGroupKey (t : DataType) (v : Value) : DeltaResult Text :=
  if v = .null ∨ t.renderable then .ok (groupPart F v) else .error (noKeyEncoding t)

/-! ## Cells of a column -/

def inInt32 (i : ℤ) : Bool := -2 ^ 31 ≤ i && i < 2 ^ 31

def inInt64 (i : ℤ) : Bool := -2 ^ 63 ≤ i && i < 2 ^ 63

/-- Whether a column of the type can hold the cell. -/
def Value.fits : Value → DataType → Bool
  | .null, _ => true
  | .bool _, .boolean => true
  | .int i, .int32 | .int i, .date32 => inInt32 i
  | .int i, .int64 | .int i, .date64 | .int i, .timestampSecond | .int i, .timestampMillisecond
  | .int i, .timestampMicrosecond | .int i, .timestampNanosecond => inInt64 i
  | .float bits, .float64 => bits < 2 ^ 64
  | .str _, .utf8 | .str _, .largeUtf8 | .str _, .utf8View => true
  | .other _, .other _ | .nested _ _, .nested _ _ _ => true
  | _, _ => false

/-- A cell of a field: of its type, and not null if the field forbids it. -/
def Field.holds (f : Field) (v : Value) : Bool := v.fits f.dataType && (f.nullable || v ≠ .null)

/-- A row of a schema: what the columns of a record batch guarantee. -/
def Schema.holds (s : Schema) (r : Row) : Prop := List.Forall₂ (fun f v => f.holds v = true) s r

instance (s : Schema) (r : Row) : Decidable (s.holds r) := inferInstanceAs (Decidable (List.Forall₂ _ s r))

def DataType.isNested : DataType → Bool
  | .nested _ _ _ => true
  | _ => false

/-- Two cells that are both NaN. -/
def BothNaN (v w : Value) : Prop := ∃ a b, v = .float a ∧ w = .float b ∧ isNaN a ∧ isNaN b

/-- Two nested cells that are displayed alike. -/
def SameDisplay (v w : Value) : Prop := ∃ text m n, v = .nested text m ∧ w = .nested text n

/-- Cells of one column that can share a group key without being equal. -/
def Alike (v w : Value) : Prop := BothNaN v w ∨ SameDisplay v w

variable {F} {v w : Value} {t : DataType}

section

variable (hv : v.fits t = true) (hw : w.fits t = true)

include hv hw

/-- Cells of one type are of one kind. -/
private lemma encodeValue_inj {floats : FloatEncoding}
    (hv0 : v ≠ .null) (hw0 : w ≠ .null) (h : encodeValue F floats v = encodeValue F floats w) :
    v = w ∨ floats = .decimal ∧ BothNaN v w ∨ t.isNested = true ∧ SameDisplay v w := by
  cases v with
  | null => exact absurd rfl hv0
  | bool b =>
    cases t <;> simp [fits] at hv
    cases w <;> simp [fits] at hw hw0
    next b' => cases b <;> cases b' <;> simp [encodeValue] at h ⊢
  | int i =>
    cases w with
    | int j => exact .inl (congrArg int (intText_inj h))
    | null => exact absurd rfl hw0
    | bool | float | str | other | nested => cases t <;> simp [fits] at hv hw
  | float a =>
    cases t <;> simp [fits] at hv
    cases w <;> simp [fits] at hw hw0
    next b =>
      cases floats with
      | bits => exact .inl (congrArg float (toDigits_inj h))
      | decimal =>
        rcases F.display_inj a b h with rfl | hnan
        · exact .inl rfl
        · exact .inr (.inl ⟨rfl, a, b, rfl, rfl, hnan⟩)
  | str s =>
    cases w with
    | str s' => exact .inl (congrArg str (String.toList_inj.mp h))
    | null => exact absurd rfl hw0
    | bool | int | float | other | nested => cases t <;> simp [fits] at hv hw
  | other s =>
    cases w with
    | other s' => exact .inl (congrArg other (String.toList_inj.mp h))
    | null => exact absurd rfl hw0
    | bool | int | float | str | nested => cases t <;> simp [fits] at hv hw
  | nested s m =>
    cases t <;> simp [fits] at hv
    cases w <;> simp [fits] at hw hw0
    next s' n =>
      obtain rfl : s = s' := String.toList_inj.mp h
      exact .inr (.inr ⟨rfl, s, m, n, rfl, rfl⟩)

/-- In a column that is not nested, equal keys mean equal cells. -/
lemma keyPart_inj (ht : t.isNested = false) (h : keyPart F v = keyPart F w) : v = w := by
  unfold keyPart at h
  split_ifs at h with hv0 hw0 hw0
  · rw [hv0, hw0]
  · rcases encodeValue_inj hv hw hv0 hw0 (Option.some.inj h) with heq | ⟨hdec, -⟩ | ⟨hnested, -⟩
    · exact heq
    · cases hdec
    · rw [ht] at hnested
      cases hnested

/-- In a column, equal group keys mean equal cells, two NaNs or two nested cells. -/
lemma groupPart_inj (h : groupPart F v = groupPart F w) : v = w ∨ Alike v w := by
  unfold groupPart at h
  split_ifs at h with hv0 hw0 hw0
  · exact .inl (by rw [hv0, hw0])
  · simp at h
  · simp at h
  · rcases encodeValue_inj hv hw hv0 hw0 (List.cons.inj h).2 with heq | ⟨-, hnan⟩ | ⟨-, hnested⟩
    · exact .inl heq
    · exact .inr (.inl hnan)
    · exact .inr (.inr hnested)

end

end Krishiv.Delta
