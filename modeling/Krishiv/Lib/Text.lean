import Mathlib.Data.List.DropRight

/-!
# Text as a list of characters

The string functions that line formats and file names are read with: trimming, splitting into lines,
splitting at the first or last occurrence of a separator and removing a prefix or a suffix. Each comes
with one lemma, about a text put together from pieces that do not contain the separator.
-/

abbrev Text := List Char

namespace Text

open List

/-- Unicode's `White_Space` property. -/
def isWhitespace (c : Char) : Bool :=
  let n := c.toNat
  (9 ≤ n && n ≤ 13) || n = 32 || n = 0x85 || n = 0xA0 || n = 0x1680 || (0x2000 ≤ n && n ≤ 0x200A) ||
    n = 0x2028 || n = 0x2029 || n = 0x202F || n = 0x205F || n = 0x3000

/-- Unicode's general category `Cc`. -/
def isControl (c : Char) : Bool :=
  let n := c.toNat
  n ≤ 0x1F || (0x7F ≤ n && n ≤ 0x9F)

def trim (t : Text) : Text := (t.dropWhile isWhitespace).rdropWhile isWhitespace

/-- One line without the carriage return before its line feed. -/
def chomp (t : Text) : Text := if t.getLast? = some '\r' then t.dropLast else t

/-- The lines of a text, where `line` is what was read of the current one. -/
def linesFrom (line : Text) : Text → List Text
  | [] => if line.isEmpty then [] else [line]
  | c :: t => if c = '\n' then chomp line :: linesFrom [] t else linesFrom (line ++ [c]) t

def lines (t : Text) : List Text := linesFrom [] t

def stripPrefix (pre t : Text) : Option Text :=
  if pre <+: t then some (t.drop pre.length) else none

/-- The text before and after the first occurrence of `sep`. -/
def splitOnce (sep : Text) : Text → Option (Text × Text)
  | [] => none
  | c :: t =>
    if sep <+: c :: t then some ([], (c :: t).drop sep.length)
    else (splitOnce sep t).map fun r => (c :: r.1, r.2)

/-! ## Texts put together from pieces -/

variable {t : Text}

/-- A text without blanks at its ends is not changed by trimming. -/
lemma trim_eq_self (hhead : ∀ c ∈ t.head?, isWhitespace c = false)
    (hlast : ∀ c ∈ t.getLast?, isWhitespace c = false) : trim t = t := by
  have hdrop : t.dropWhile isWhitespace = t := by
    cases t with
    | nil => rfl
    | cons c t => rw [dropWhile_cons_of_neg]; simpa using hhead c rfl
  rw [trim, hdrop, rdropWhile_eq_self_iff]
  intro hne
  simpa using hlast _ (getLast?_eq_some_getLast hne)

lemma head_trim (t : Text) : ∀ c ∈ (trim t).head?, isWhitespace c = false := by
  intro c hc
  have hpre : trim t <+: t.dropWhile isWhitespace := rdropWhile_prefix _ _
  obtain ⟨rest, hrest⟩ := hpre
  have hhead : (t.dropWhile isWhitespace).head? = some c := by
    rw [← hrest, head?_append, Option.mem_def.mp hc]
    rfl
  have hnot := head?_dropWhile_not isWhitespace t
  rw [hhead] at hnot
  simpa using hnot

lemma last_trim (t : Text) : ∀ c ∈ (trim t).getLast?, isWhitespace c = false := by
  intro c hc
  have hne : trim t ≠ [] := by
    rintro h
    rw [h] at hc
    cases hc
  have hlast := rdropWhile_last_not isWhitespace (t.dropWhile isWhitespace) hne
  rw [Option.mem_def, getLast?_eq_some_getLast hne, Option.some.injEq] at hc
  rw [← hc]
  exact Bool.eq_false_iff.mpr hlast

lemma trim_trim (t : Text) : trim (trim t) = trim t := trim_eq_self (head_trim t) (last_trim t)

lemma linesFrom_append {line p : Text} (hp : '\n' ∉ p) :
    linesFrom line (p ++ '\n' :: t) = chomp (line ++ p) :: lines t := by
  induction p generalizing line with
  | nil => simp [linesFrom, lines]
  | cons c p ih =>
    have hc : c ≠ '\n' := fun h => hp (by simp [h])
    have hp' : '\n' ∉ p := fun h => hp (by simp [h])
    rw [cons_append, linesFrom, if_neg hc, ih hp']
    simp

/-- The first line of a text. -/
lemma lines_append {p : Text} (hp : '\n' ∉ p) (hcr : p.getLast? ≠ some '\r') :
    lines (p ++ '\n' :: t) = p :: lines t := by
  rw [lines, linesFrom_append hp, nil_append, chomp, if_neg hcr]

lemma lines_flatMap {α : Type} {f : α → Text} {l : List α} (h : ∀ a ∈ l, '\n' ∉ f a ∧ (f a).getLast? ≠ some '\r') :
    lines (l.flatMap fun a => f a ++ ['\n']) = l.map f := by
  induction l with
  | nil => rfl
  | cons a l ih =>
    obtain ⟨hnl, hcr⟩ := h a (by simp)
    rw [flatMap_cons, append_assoc, singleton_append, lines_append hnl hcr,
      ih fun b hb => h b (by simp [hb]), map_cons]

@[simp] lemma stripPrefix_append (pre t : Text) : stripPrefix pre (pre ++ t) = some t := by
  simp [stripPrefix]

/-- Splitting at a separator whose first character does not occur before it. -/
lemma splitOnce_append {s : Char} {sep p : Text} (hp : s ∉ p) :
    splitOnce (s :: sep) (p ++ (s :: sep ++ t)) = some (p, t) := by
  induction p with
  | nil => simp [splitOnce]
  | cons c p ih =>
    have hc : ¬ s = c := fun h => hp (by simp [h])
    have hpre : ¬ (s :: sep) <+: c :: (p ++ (s :: sep ++ t)) := by
      rw [cons_prefix_cons]
      exact fun h => hc h.1
    rw [cons_append, splitOnce, if_neg hpre, ih fun h => hp (by simp [h])]
    rfl

end Text
