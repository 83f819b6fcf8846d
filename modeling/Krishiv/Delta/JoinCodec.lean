import Krishiv.Delta.Join
import Krishiv.State.Snapshot

/-!
# The saved state of a join

`stateBytes` writes a version, the two traces and the weights by key; `restoreStateBytes` reads them into
an operator. Everything is decoded before anything is replaced, so that bytes that cannot be read leave
the operator as it was (`restoreStateBytes_of_error`). What was written is read again
(`decodeJoinState_stateBytes`), for keys and weights that fit into the fields that hold them: the lengths
of a key and of its texts are cut to 32 bits without a check.
-/

namespace Krishiv.Delta

open Krishiv.Ivm Krishiv.Scheduler Krishiv.State LittleEndian List Except

/-! ## Batches and traces -/

/-- The stream format of batches, and what the standard library reports for bytes that are no text. -/
structure StateCodec where
  ipc : DeltaBatch → DeltaResult Bytes
  readIpc : Bytes → DeltaResult DeltaBatch
  utf8Error : Bytes → String

/-- The stream format is read as it was written; a stream is a vector. -/
structure StateCodec.Lawful (codec : StateCodec) : Prop where
  readIpc : ∀ d bytes, codec.ipc d = .ok bytes → codec.readIpc bytes = .ok d
  length : ∀ d bytes, codec.ipc d = .ok bytes → bytes.length + 4 < 2 ^ 64

/-- `DLT1`. -/
def deltaBatchMagic : Bytes := [68, 76, 84, 49]

variable (codec : StateCodec)

def serializeDeltaBatch (batch : DeltaBatch) : DeltaResult Bytes := (codec.ipc batch).map (deltaBatchMagic ++ ·)

/-- Streams from before the magic was introduced are read as they are. -/
def deserializeDeltaBatch (bytes : Bytes) : DeltaResult DeltaBatch :=
  codec.readIpc (if deltaBatchMagic <+: bytes then bytes.drop deltaBatchMagic.length else bytes)

def Trace.stateBytes (t : Trace) : DeltaResult Bytes :=
  if 2 ^ 32 ≤ t.batches.length then .error (.serialization "trace batch count overflows u32")
  else do
    let payloads ← t.batches.mapM (serializeDeltaBatch codec)
    .ok (leBytes 4 t.batches.length ++ (payloads.map lpBytes).flatten)

/-- The rest of the bytes is missing. -/
def orTruncated {α : Type} (what : String) : Option α → DeltaResult α
  | none => .error (.serialization s!"{what} state truncated")
  | some a => .ok a

def readBatch (bytes : Bytes) : DeltaResult (DeltaBatch × Bytes) := do
  let (payload, rest) ← orTruncated "trace" (readLpBytes bytes)
  let batch ← deserializeDeltaBatch codec payload
  .ok (batch, rest)

def Trace.decodeState (bytes : Bytes) : DeltaResult (List DeltaBatch) := do
  let (n, rest) ← orTruncated "trace" (readLe 4 bytes)
  let (batches, _) ← readMany (readBatch codec) n rest
  .ok batches

/-! ## Weights by key -/

def readByte : Bytes → Option (UInt8 × Bytes)
  | [] => none
  | b :: rest => some (b, rest)

def partBytes : Option Text → Bytes
  | some t =>
    let bytes := utf8Bytes (String.ofList t)
    1 :: (leBytes 4 bytes.length ++ bytes)
  | none => [0]

def groupBytes (e : Key × ℤ) : Bytes :=
  leBytes 4 e.1.length ++ e.1.flatMap partBytes ++ leBytes 8 (ofSigned 8 e.2)

def readPart (bytes : Bytes) : DeltaResult (Option Text × Bytes) := do
  let (present, rest) ← orTruncated "join" (readByte bytes)
  if present = 1 then do
    let (len, rest) ← orTruncated "join" (readLe 4 rest)
    if rest.length < len then orTruncated "join" none
    else
      match fromUtf8 (rest.take len) with
      | none => .error (.serialization (codec.utf8Error (rest.take len)))
      | some s => .ok (some s.toList, rest.drop len)
  else .ok (none, rest)

def readGroup (bytes : Bytes) : DeltaResult ((Key × ℤ) × Bytes) := do
  let (nParts, rest) ← orTruncated "join" (readLe 4 bytes)
  let (key, rest) ← readMany (readPart codec) nParts rest
  let (weight, rest) ← orTruncated "join" (readLe 8 rest)
  .ok ((key, toSigned 8 weight), rest)

/-! ## The operator -/

variable {op : IncrementalJoinOp}

namespace IncrementalJoinOp

def stateBytes (op : IncrementalJoinOp) : DeltaResult Bytes := do
  let left ← op.leftTrace.stateBytes codec
  let right ← op.rightTrace.stateBytes codec
  let groups := op.rightKeyGroupWeights.toList
  if 2 ^ 32 ≤ groups.length then .error (.serialization "join group count overflows u32")
  else .ok (1 :: (lpBytes left ++ (lpBytes right ++ (leBytes 4 groups.length ++ groups.flatMap groupBytes))))

/-- The batches of the two traces and the weights. -/
def decodeJoinState (bytes : Bytes) : DeltaResult (List DeltaBatch × List DeltaBatch × KVMap Key ℤ) := do
  let (version, rest) ← orTruncated "join" (readByte bytes)
  if version ≠ 1 then .error (.serialization s!"unsupported join state version {version}")
  else do
    let (leftSection, rest) ← orTruncated "join" (readLpBytes rest)
    let (rightSection, rest) ← orTruncated "join" (readLpBytes rest)
    let (nGroups, rest) ← orTruncated "join" (readLe 4 rest)
    let (groups, _) ← readMany (readGroup codec) nGroups rest
    let leftBatches ← Trace.decodeState codec leftSection
    let rightBatches ← Trace.decodeState codec rightSection
    .ok (leftBatches, rightBatches, KVMap.insertAll ∅ groups)

variable (F : FloatFormat)

def restoreStateBytes (op : IncrementalJoinOp) (bytes : Bytes) : DeltaResult Unit × IncrementalJoinOp :=
  match decodeJoinState codec bytes with
  | .error e => (.error e, op)
  | .ok (leftBatches, rightBatches, groups) =>
    (.ok (), { op with
      leftTrace := op.leftTrace.replaceBatches F leftBatches
      rightTrace := op.rightTrace.replaceBatches F rightBatches
      rightKeyGroupWeights := groups })

/-- Bytes that cannot be read change nothing. -/
lemma restoreStateBytes_of_error {bytes : Bytes} {e : DeltaError}
    (h : (op.restoreStateBytes codec F bytes).1 = .error e) : (op.restoreStateBytes codec F bytes).2 = op := by
  unfold restoreStateBytes at h ⊢
  cases hdecode : decodeJoinState codec bytes with
  | error e' => rfl
  | ok state =>
    rw [hdecode] at h
    cases h

end IncrementalJoinOp

/-! ## Reading back -/

section RoundTrip

variable {codec} {bytes : Bytes}

lemma deserializeDeltaBatch_serialize (hcodec : codec.Lawful) {d : DeltaBatch}
    (h : serializeDeltaBatch codec d = .ok bytes) : deserializeDeltaBatch codec bytes = .ok d := by
  obtain ⟨stream, hstream, rfl⟩ := map_eq_ok_iff.mp h
  unfold deserializeDeltaBatch
  rw [if_pos (prefix_append _ _), drop_left]
  exact hcodec.readIpc d stream hstream

lemma length_serialize (hcodec : codec.Lawful) {d : DeltaBatch}
    (h : serializeDeltaBatch codec d = .ok bytes) : bytes.length < 2 ^ 64 := by
  obtain ⟨stream, hstream, rfl⟩ := map_eq_ok_iff.mp h
  have hlen := hcodec.length d stream hstream
  rw [length_append]
  exact (Nat.add_comm _ _).trans_lt hlen

/-- A trace is read as the list of its batches. -/
lemma decodeState_stateBytes (hcodec : codec.Lawful) {t : Trace}
    (h : t.stateBytes codec = .ok bytes) : Trace.decodeState codec bytes = .ok t.batches := by
  unfold Trace.stateBytes at h
  split_ifs at h with hmany
  obtain ⟨payloads, hpayloads, hbytes⟩ := bind_eq_ok_iff.mp h
  cases hbytes
  have hread : List.Forall₂ (fun d w => ∀ tail, readBatch codec (w ++ tail) = .ok (d, tail)) t.batches
      (payloads.map lpBytes) := by
    refine forall₂_map_right_iff.mpr ((forall₂_of_mapM hpayloads).imp fun d payload hd tail => ?_)
    unfold readBatch
    rw [readLpBytes_lpBytes (length_serialize hcodec hd)]
    simp [orTruncated, bind, Except.bind, deserializeDeltaBatch_serialize hcodec hd]
  have hcount : t.batches.length < 256 ^ 4 := by omega
  have hall := readMany_flatten hread []
  rw [append_nil] at hall
  unfold Trace.decodeState
  rw [readLe_leBytes hcount]
  simp [orTruncated, bind, Except.bind, hall]

/-- A key and its weight fit into their fields. -/
@[mk_iff] structure GroupFits (e : Key × ℤ) : Prop where
  parts : e.1.length < 2 ^ 32
  texts : ∀ part ∈ e.1, ∀ t ∈ part, (utf8Bytes (String.ofList t)).length < 2 ^ 32
  low : -(2 ^ 63) ≤ e.2
  high : e.2 < 2 ^ 63

instance (e : Key × ℤ) : Decidable (GroupFits e) := decidable_of_iff _ (groupFits_iff e).symm

lemma readPart_partBytes {part : Option Text}
    (h : ∀ t ∈ part, (utf8Bytes (String.ofList t)).length < 2 ^ 32) (tail : Bytes) :
    readPart codec (partBytes part ++ tail) = .ok (part, tail) := by
  cases part with
  | none => rfl
  | some t =>
    have hlen : (utf8Bytes (String.ofList t)).length < 256 ^ 4 := h t rfl
    unfold readPart partBytes
    simp only [cons_append, append_assoc, readByte, orTruncated, bind, Except.bind, if_true,
      readLe_leBytes hlen, take_left, drop_left, fromUtf8_utf8Bytes]
    rw [if_neg (by rw [length_append]; omega), String.toList_ofList]

lemma readGroup_groupBytes {e : Key × ℤ} (h : GroupFits e) (tail : Bytes) :
    readGroup codec (groupBytes e ++ tail) = .ok (e, tail) := by
  have hparts : e.1.length < 256 ^ 4 := h.parts
  have hread : ∀ tail, readMany (readPart codec) e.1.length (e.1.flatMap partBytes ++ tail) = .ok (e.1, tail) :=
    readMany_flatMap fun part hpart => readPart_partBytes (h.texts part hpart)
  have hweight : toSigned 8 (ofSigned 8 e.2) = e.2 := by
    have hlow := h.low
    have hhigh := h.high
    exact toSigned_ofSigned (by norm_num; omega) (by norm_num; omega)
  unfold readGroup groupBytes
  simp only [append_assoc, readLe_leBytes hparts, orTruncated, bind, Except.bind, hread,
    readLe_leBytes (ofSigned_lt 8 e.2), hweight]

/-- The keys and weights fit into their fields, and the traces are vectors. -/
structure StateFits (codec : StateCodec) (op : IncrementalJoinOp) : Prop where
  groups : ∀ e ∈ op.rightKeyGroupWeights.toList, GroupFits e
  left : ∀ bytes, op.leftTrace.stateBytes codec = .ok bytes → bytes.length < 2 ^ 64
  right : ∀ bytes, op.rightTrace.stateBytes codec = .ok bytes → bytes.length < 2 ^ 64

/-- What was written is read again. -/
lemma decodeJoinState_stateBytes (hcodec : codec.Lawful)
    (hfits : StateFits codec op) (h : op.stateBytes codec = .ok bytes) :
    ∃ groups, IncrementalJoinOp.decodeJoinState codec bytes =
        .ok (op.leftTrace.batches, op.rightTrace.batches, groups) ∧
      ∀ k, groups.lookup k = op.rightKeyGroupWeights.lookup k := by
  obtain ⟨left, hleft, h⟩ := bind_eq_ok_iff.mp h
  obtain ⟨right, hright, h⟩ := bind_eq_ok_iff.mp h
  dsimp only at h
  split_ifs at h with hmany
  cases h
  refine ⟨KVMap.insertAll ∅ op.rightKeyGroupWeights.toList, ?_, KVMap.lookup_insertAll_toList _⟩
  have hcount : op.rightKeyGroupWeights.toList.length < 256 ^ 4 := by omega
  have hgroups : readMany (readGroup codec) op.rightKeyGroupWeights.toList.length
      (op.rightKeyGroupWeights.toList.flatMap groupBytes ++ []) = .ok (op.rightKeyGroupWeights.toList, []) :=
    readMany_flatMap (fun e he => readGroup_groupBytes (hfits.groups e he)) []
  rw [append_nil] at hgroups
  unfold IncrementalJoinOp.decodeJoinState
  simp only [readByte, orTruncated, bind, Except.bind, readLpBytes_lpBytes (hfits.left left hleft),
    readLpBytes_lpBytes (hfits.right right hright), readLe_leBytes hcount, hgroups,
    decodeState_stateBytes hcodec hleft, decodeState_stateBytes hcodec hright]
  rfl

end RoundTrip

end Krishiv.Delta
