import Krishiv.Scheduler.WalEntry

/-!
# Portable snapshots of operator state

A snapshot is a version, the number of its entries and the entries, each four fields with their lengths
in front. What is encoded is decoded again (`decodeSnapshotEntries_encode`), for fields whose lengths fit
into the eight bytes that hold them. Nothing else is accepted.
-/

namespace Krishiv.State

open Krishiv.Ivm Krishiv.Scheduler LittleEndian List

inductive StateError where
  | snapshotCorrupt (message : String)
  deriving DecidableEq, Repr

structure SnapshotEntry where
  opId : String
  stateName : String
  key : Bytes
  value : Bytes
  deriving DecidableEq

/-- A field and what follows it. -/
def readLpBytes (buf : Bytes) : Option (Bytes × Bytes) :=
  if buf.length < 8 then none
  else
    let len := leNat (buf.take 8)
    let rest := buf.drop 8
    if rest.length < len then none else some (rest.take len, rest.drop len)

def readField (buf : Bytes) (message : String) : Except StateError (Bytes × Bytes) :=
  match readLpBytes buf with
  | some r => .ok r
  | none => .error (.snapshotCorrupt message)

def readText (bytes : Bytes) (message : String) : Except StateError String :=
  match fromUtf8 bytes with
  | some t => .ok t
  | none => .error (.snapshotCorrupt message)

def decodeEntry (buf : Bytes) : Except StateError (SnapshotEntry × Bytes) := do
  let (opIdBytes, buf) ← readField buf "truncated op_id"
  let opId ← readText opIdBytes "op_id not utf8"
  let (nameBytes, buf) ← readField buf "truncated state_name"
  let stateName ← readText nameBytes "state_name not utf8"
  let (key, buf) ← readField buf "truncated key"
  let (value, buf) ← readField buf "truncated value"
  .ok (⟨opId, stateName, key, value⟩, buf)

/-- `count` entries and what follows them. -/
def decodeEntries : ℕ → Bytes → Except StateError (List SnapshotEntry × Bytes)
  | 0, buf => .ok ([], buf)
  | count + 1, buf => do
    let (entry, buf) ← decodeEntry buf
    let (entries, buf) ← decodeEntries count buf
    .ok (entry :: entries, buf)

def decodeSnapshotEntries (bytes : Bytes) : Except StateError (List SnapshotEntry) :=
  if bytes.length < 12 then .error (.snapshotCorrupt "too short")
  else
    let version := leNat (bytes.take 4)
    if version ≠ 1 then .error (.snapshotCorrupt s!"unsupported snapshot version {version}")
    else
      let count := leNat ((bytes.drop 4).take 8)
      let maxPossible := (bytes.length - 12) / 32
      if maxPossible < count then
        .error (.snapshotCorrupt (s!"entry count {count} exceeds what {bytes.length - 12} payload bytes " ++
          s!"could hold ({maxPossible})"))
      else
        match decodeEntries count (bytes.drop 12) with
        | .error e => .error e
        | .ok (entries, rest) =>
          if rest.length = 0 then .ok entries
          else .error (.snapshotCorrupt s!"trailing garbage after {count} entries: {rest.length} extra bytes")

/-- A field with its length in front. -/
def lpBytes (field : Bytes) : Bytes := leBytes 8 field.length ++ field

def encodeEntry (e : SnapshotEntry) : Bytes :=
  lpBytes (utf8Bytes e.opId) ++ lpBytes (utf8Bytes e.stateName) ++ lpBytes e.key ++ lpBytes e.value

def encodeSnapshotEntries (entries : List SnapshotEntry) : Bytes :=
  leBytes 4 1 ++ leBytes 8 entries.length ++ entries.flatMap encodeEntry

/-- The lengths of the fields are lengths of vectors. -/
@[mk_iff] structure SnapshotEntry.Fits (e : SnapshotEntry) : Prop where
  opId : (utf8Bytes e.opId).length < 2 ^ 64
  stateName : (utf8Bytes e.stateName).length < 2 ^ 64
  key : e.key.length < 2 ^ 64
  value : e.value.length < 2 ^ 64

instance (e : SnapshotEntry) : Decidable e.Fits := decidable_of_iff _ (SnapshotEntry.fits_iff e).symm

/-! ## Reading back -/

lemma readLpBytes_lpBytes {field : Bytes} (h : field.length < 2 ^ 64) (tail : Bytes) :
    readLpBytes (lpBytes field ++ tail) = some (field, tail) := by
  have hlen : leNat (leBytes 8 field.length) = field.length := leNat_leBytes_of_lt (by omega)
  rw [lpBytes, append_assoc, readLpBytes, if_neg (not_length_lt 8 _ _)]
  rw [take_leBytes, drop_leBytes, hlen, if_neg (by rw [length_append]; omega), take_left, drop_left]

lemma readField_lpBytes {field : Bytes} (h : field.length < 2 ^ 64) (tail : Bytes) (message : String) :
    readField (lpBytes field ++ tail) message = .ok (field, tail) := by
  rw [readField, readLpBytes_lpBytes h]

lemma readText_utf8Bytes (s message : String) : readText (utf8Bytes s) message = .ok s := by
  rw [readText, fromUtf8_utf8Bytes]

lemma decodeEntry_encodeEntry {e : SnapshotEntry} (h : e.Fits) (tail : Bytes) :
    decodeEntry (encodeEntry e ++ tail) = .ok (e, tail) := by
  simp only [decodeEntry, encodeEntry, append_assoc, readField_lpBytes h.opId,
    readField_lpBytes h.stateName, readField_lpBytes h.key, readField_lpBytes h.value,
    readText_utf8Bytes, bind, Except.bind]

variable {entries : List SnapshotEntry}

lemma decodeEntries_encode (h : ∀ e ∈ entries, e.Fits) (tail : Bytes) :
    decodeEntries entries.length (entries.flatMap encodeEntry ++ tail) = .ok (entries, tail) := by
  induction entries with
  | nil => rfl
  | cons e entries ih =>
    have hrest := ih fun x hx => h x (mem_cons_of_mem _ hx)
    simp only [length_cons, decodeEntries, flatMap_cons, append_assoc,
      decodeEntry_encodeEntry (h e mem_cons_self), hrest, bind, Except.bind]

/-- Every entry takes four lengths at least. -/
lemma length_encodeEntry (e : SnapshotEntry) : 32 ≤ (encodeEntry e).length := by
  simp only [encodeEntry, lpBytes, length_append, length_leBytes]
  omega

lemma length_flatMap_encodeEntry (entries : List SnapshotEntry) :
    32 * entries.length ≤ (entries.flatMap encodeEntry).length := by
  induction entries with
  | nil => simp
  | cons e entries ih =>
    have hone := length_encodeEntry e
    rw [flatMap_cons, length_append, length_cons]
    omega

/-- What is encoded is decoded again. -/
lemma decodeSnapshotEntries_encode (hcount : entries.length < 2 ^ 64) (h : ∀ e ∈ entries, e.Fits) :
    decodeSnapshotEntries (encodeSnapshotEntries entries) = .ok entries := by
  have hlen : (encodeSnapshotEntries entries).length = 12 + (entries.flatMap encodeEntry).length := by
    simp only [encodeSnapshotEntries, length_append, length_leBytes]
  have hversion : (encodeSnapshotEntries entries).take 4 = leBytes 4 1 := by
    rw [encodeSnapshotEntries, append_assoc]
    exact take_leBytes 4 _ _
  have hcountBytes : ((encodeSnapshotEntries entries).drop 4).take 8 = leBytes 8 entries.length := by
    rw [encodeSnapshotEntries, append_assoc, drop_leBytes, take_leBytes]
  have hpayload : (encodeSnapshotEntries entries).drop 12 = entries.flatMap encodeEntry := by
    rw [encodeSnapshotEntries]
    apply drop_left'
    rw [length_append, length_leBytes, length_leBytes]
  have hone : leNat (leBytes 4 1) = 1 := leNat_leBytes_of_lt (by omega)
  have hn : leNat (leBytes 8 entries.length) = entries.length := leNat_leBytes_of_lt (by omega)
  have hroom := length_flatMap_encodeEntry entries
  have hbody := decodeEntries_encode h []
  rw [append_nil] at hbody
  unfold decodeSnapshotEntries
  rw [if_neg (by omega)]
  rw [hversion, hone, if_neg (by simp), hcountBytes, hn, if_neg (by omega), hpayload, hbody]
  rfl

/-! ## What is accepted -/

variable {buf tail : Bytes} {message : String}

lemma readField_ok {field : Bytes} (h : readField buf message = .ok (field, tail)) :
    buf = lpBytes field ++ tail ∧ field.length < 2 ^ 64 := by
  unfold readField readLpBytes at h
  split at h <;> cases h
  next hread =>
  dsimp only at hread
  split_ifs at hread with h8 hlen
  cases hread
  have hlen8 : (buf.take 8).length = 8 := by rw [length_take]; omega
  have hnum := leBytes_leNat (buf.take 8)
  rw [hlen8] at hnum
  have hfield : ((buf.drop 8).take (leNat (buf.take 8))).length = leNat (buf.take 8) := by
    rw [length_take]; omega
  rw [lpBytes, hfield, hnum, append_assoc, take_append_drop, take_append_drop, ← hnum, leNat_leBytes]
  exact ⟨rfl, Nat.mod_lt _ (by decide)⟩

lemma readText_ok {bytes : Bytes} {t : String} (h : readText bytes message = .ok t) :
    bytes = utf8Bytes t := by
  unfold readText at h
  split at h <;> cases h
  next ht =>
  unfold fromUtf8 String.fromUTF8? at ht
  split at ht <;> cases ht
  rfl

lemma decodeEntry_ok {e : SnapshotEntry} (h : decodeEntry buf = .ok (e, tail)) :
    buf = encodeEntry e ++ tail ∧ e.Fits := by
  simp only [decodeEntry, Except.bind_eq_ok_iff, Prod.exists] at h
  obtain ⟨o, b₁, h₁, t, ht, n, b₂, h₂, s, hs, k, b₃, h₃, v, b₄, h₄, h⟩ := h
  cases h
  obtain ⟨rfl, ho⟩ := readField_ok h₁
  obtain ⟨rfl, hn⟩ := readField_ok h₂
  obtain ⟨rfl, hk⟩ := readField_ok h₃
  obtain ⟨rfl, hv⟩ := readField_ok h₄
  rw [readText_ok ht, readText_ok hs, encodeEntry] at *
  exact ⟨by simp only [append_assoc], ho, hn, hk, hv⟩

lemma decodeEntries_ok {n : ℕ} (h : decodeEntries n buf = .ok (entries, tail)) :
    buf = entries.flatMap encodeEntry ++ tail ∧ entries.length = n ∧ ∀ e ∈ entries, e.Fits := by
  induction n generalizing buf entries with
  | zero => cases h; simp
  | succ n ih =>
    simp only [decodeEntries, Except.bind_eq_ok_iff, Prod.exists] at h
    obtain ⟨e, rest, he, es, b, hes, h⟩ := h
    cases h
    obtain ⟨rfl, hfits⟩ := decodeEntry_ok he
    obtain ⟨rfl, rfl, hall⟩ := ih hes
    exact ⟨by simp, rfl, forall_mem_cons.mpr ⟨hfits, hall⟩⟩

/-- Exactly what is encoded is decoded. -/
theorem decodeSnapshotEntries_ok_iff {bytes : Bytes} : decodeSnapshotEntries bytes = .ok entries ↔
    bytes = encodeSnapshotEntries entries ∧ entries.length < 2 ^ 64 ∧ ∀ e ∈ entries, e.Fits := by
  refine ⟨fun h => ?_, fun ⟨hbytes, hcount, h⟩ => hbytes ▸ decodeSnapshotEntries_encode hcount h⟩
  unfold decodeSnapshotEntries at h
  dsimp only at h
  split_ifs at h with h12 hversion hroom
  rcases hd : decodeEntries (leNat ((bytes.drop 4).take 8)) (bytes.drop 12) with e | ⟨es, rest⟩ <;>
    rw [hd] at h
  · cases h
  dsimp only at h
  split_ifs at h with hrest
  cases h
  obtain ⟨hbody, hlen, hfits⟩ := decodeEntries_ok hd
  rw [length_eq_zero_iff.mp hrest, append_nil] at hbody
  have h4 := leBytes_leNat (bytes.take 4)
  have h8 := leBytes_leNat ((bytes.drop 4).take 8)
  rw [show (bytes.take 4).length = 4 by rw [length_take]; omega, not_not.mp hversion] at h4
  rw [show ((bytes.drop 4).take 8).length = 8 by rw [length_take, length_drop]; omega] at h8
  refine ⟨?_, ?_, hfits⟩
  · rw [encodeSnapshotEntries, h4, hlen, h8, ← hbody, append_assoc, ← drop_drop (j := 4) (i := 8),
      take_append_drop, take_append_drop]
  · rw [hlen, ← h8, leNat_leBytes]
    exact Nat.mod_lt _ (by decide)

end Krishiv.State
