import Krishiv.Ivm.Plan
import Krishiv.Lib.LittleEndian

/-!
# Entries of the write-ahead log

An entry is a kind, the name of the source, the caller's key if there is one, and the bytes that were
fed; every field but the kind and the flag of the key has its length in front, as eight bytes. A step
is its kind alone.

Lengths are below `2 ^ 64`, as those of all vectors are (`WalEntry.Fits`); of the text of an invalid
source name the part that the UTF-8 check adds is left out.
-/

namespace Krishiv.Scheduler

open Krishiv.Ivm LittleEndian

inductive WalEntry where
  | feed (source : String) (idempotencyKey : Option Bytes) (deltaIpc : Bytes)
  | snapshot (source : String) (idempotencyKey : Option Bytes) (snapshotIpc : Bytes)
  | step
deriving DecidableEq

def kindFeed : UInt8 := 1
def kindSnapshot : UInt8 := 2
def kindStep : UInt8 := 3

def putBytes (out bytes : Bytes) : Bytes := out ++ leBytes 8 bytes.length ++ bytes

/-- Read a field and what follows it. -/
def takeBytes (rest : Bytes) : Except String (Bytes × Bytes) :=
  if rest.length < 8 then .error "IVM log entry truncated in a length prefix"
  else
    let len := leNat (rest.take 8)
    let tail := rest.drop 8
    if tail.length < len then .error "IVM log entry truncated in a field"
    else .ok (tail.take len, tail.drop len)

def utf8Bytes (s : String) : Bytes := s.toUTF8.data.toList

def fromUtf8 (b : Bytes) : Option String := String.fromUTF8? ⟨b.toArray⟩

namespace WalEntry

/-- The fields behind the kind. -/
def encodeFields (kind : UInt8) (source : String) (key : Option Bytes) (payload : Bytes) : Bytes :=
  let out := putBytes [kind] (utf8Bytes source)
  let out := match key with
    | some key => putBytes (out ++ [1]) key
    | none => out ++ [0]
  putBytes out payload

def encode : WalEntry → Bytes
  | feed source key ipc => encodeFields kindFeed source key ipc
  | snapshot source key ipc => encodeFields kindSnapshot source key ipc
  | step => [kindStep]

def decode : Bytes → Except String WalEntry
  | [] => .error "empty IVM log entry"
  | kind :: rest =>
    if kind = kindStep then .ok .step
    else do
      let (sourceBytes, rest) ← takeBytes rest
      let source ← match fromUtf8 sourceBytes with
        | some source => .ok source
        | none => .error "IVM log entry source name: invalid utf-8"
      let (key, rest) ← match rest with
        | [] => .error "IVM log entry truncated before the key flag"
        | flag :: tail =>
          if flag = 0 then .ok (none, tail)
          else if flag = 1 then do
            let (key, rest) ← takeBytes tail
            .ok (some key, rest)
          else .error ("IVM log entry has key flag " ++ toString flag)
      let (payload, _) ← takeBytes rest
      if kind = kindFeed then .ok (.feed source key payload)
      else if kind = kindSnapshot then .ok (.snapshot source key payload)
      else .error ("IVM log entry has unknown kind " ++ toString kind)

/-- Every field has a length. -/
def Fits : WalEntry → Prop
  | feed source key ipc | snapshot source key ipc =>
    (utf8Bytes source).length < 2 ^ 64 ∧ (∀ k ∈ key, k.length < 2 ^ 64) ∧ ipc.length < 2 ^ 64
  | step => True

end WalEntry

/-! ## Reading back -/

lemma takeBytes_field {field : Bytes} (h : field.length < 2 ^ 64) (tail : Bytes) :
    takeBytes (leBytes 8 field.length ++ field ++ tail) = .ok (field, tail) := by
  have hlen : leNat (leBytes 8 field.length) = field.length := leNat_leBytes_of_lt (by omega)
  rw [List.append_assoc, takeBytes, if_neg (not_length_lt 8 _ _)]
  rw [take_leBytes, drop_leBytes, hlen, if_neg (by rw [List.length_append]; omega), List.take_left,
    List.drop_left]

lemma fromUtf8_utf8Bytes (s : String) : fromUtf8 (utf8Bytes s) = some s := by
  unfold fromUtf8 utf8Bytes
  rw [Array.toArray_toList]
  exact dif_pos s.isValidUTF8

namespace WalEntry

/-- What is written is read back. -/
lemma decode_encode {e : WalEntry} (h : e.Fits) : decode e.encode = .ok e := by
  -- the common part of the two kinds with fields
  have hfields : ∀ kind source key payload, kind ≠ kindStep →
      (utf8Bytes source).length < 2 ^ 64 → (∀ k ∈ key, k.length < 2 ^ 64) → payload.length < 2 ^ 64 →
      decode (encodeFields kind source key payload) =
        if kind = kindFeed then .ok (.feed source key payload)
        else if kind = kindSnapshot then .ok (.snapshot source key payload)
        else .error ("IVM log entry has unknown kind " ++ toString kind) := by
    intro kind source key payload hkind hsource hkey hpayload
    have hlast := takeBytes_field hpayload []
    rw [List.append_nil] at hlast
    cases key with
    | none =>
      have hcode : encodeFields kind source none payload =
          kind :: (leBytes 8 (utf8Bytes source).length ++ utf8Bytes source ++
            (0 :: (leBytes 8 payload.length ++ payload))) := by
        simp [encodeFields, putBytes]
      rw [hcode, decode, if_neg hkind, takeBytes_field hsource]
      simp [bind, Except.bind, fromUtf8_utf8Bytes, hlast]
    | some k =>
      have hcode : encodeFields kind source (some k) payload =
          kind :: (leBytes 8 (utf8Bytes source).length ++ utf8Bytes source ++
            (1 :: (leBytes 8 k.length ++ k ++ (leBytes 8 payload.length ++ payload)))) := by
        simp [encodeFields, putBytes]
      rw [hcode, decode, if_neg hkind, takeBytes_field hsource]
      simp only [bind, Except.bind, fromUtf8_utf8Bytes, takeBytes_field (hkey k rfl), hlast]
      rfl
  cases e with
  | step => rfl
  | feed source key ipc => exact hfields kindFeed source key ipc (by decide) h.1 h.2.1 h.2.2
  | snapshot source key ipc => exact hfields kindSnapshot source key ipc (by decide) h.1 h.2.1 h.2.2

end WalEntry

end Krishiv.Scheduler
