import Krishiv.Delta.Trace

/-!
# The incremental join operator

`IncrementalJoinOp` keeps a trace of each side and answers a tick (a delta of each side, either of which
may be missing) with the change of the join. There are four kinds. The inner join is the sum of three
products of deltas and traces. The left outer join adds null-padded rows, and the semi and anti joins
emit left rows alone; these three follow the total weight of the right rows of every key in
`rightKeyGroupWeights` and react where that weight leaves or reaches zero. A semi or anti join with a
membership predicate weighs the right rows that pass it instead.

A tick that fails keeps what was changed before the error: `apply` returns the operator in any case.
The order in which a hash map is walked decides the order of the emitted rows only; here it is the order
of insertion.
-/

namespace Krishiv.Delta

inductive IncrJoinType where
  | inner
  | leftOuter
  | leftSemi
  | leftAnti
deriving DecidableEq, Repr

/-- Evaluates a membership predicate on a batch of pairs, left columns before right columns. A null
does not pass. -/
abbrev MembershipResidual := RecordBatch → DeltaResult (List (Option Bool))

/-- A predicate that is evaluated row by row. -/
def MembershipResidual.ofPredicate (p : Row → Option Bool) : MembershipResidual := fun batch =>
  .ok (batch.rows.map p)

structure IncrementalJoinOp where
  leftTrace : Trace
  rightTrace : Trace
  leftKeyCols : List String
  rightKeyCols : List String
  leftSchema : Schema
  outputSchema : Schema
  joinType : IncrJoinType
  leftFieldCount : ℕ
  rightKeyGroupWeights : KVMap Key ℤ
  rightSchema : Schema
  membershipResidual : Option MembershipResidual

/-! ## Batches -/

/-- What Arrow checks when columns of the given types become a batch. -/
def checkBatch (schema : Schema) (types : List DataType) (rows : List Row) : DeltaResult Unit :=
  if types.length ≠ schema.length then
    .error (.arrow "number of columns must match number of fields in schema")
  else if rows.any fun r => (schema.zip r).any fun c => !c.1.nullable && c.2 = .null then
    .error (.arrow "column is declared as non-nullable but contains null values")
  else if types ≠ schema.types then
    .error (.arrow "column types must match schema types")
  else .ok ()

/-- A delta that was given and has rows. -/
def present (d : Option DeltaBatch) : Option DeltaBatch := d.filter fun b => !b.isEmpty

/-- The output of a step that only runs if there is a delta. -/
def whenPresent (d : Option DeltaBatch) (f : DeltaBatch → DeltaResult (List DeltaBatch)) :
    DeltaResult (List DeltaBatch) :=
  match present d with
  | none => .ok []
  | some b => f b

/-- An output part, unless it is empty. -/
def part (d : DeltaBatch) : List DeltaBatch := if d.isEmpty then [] else [d]

def combineParts (outputSchema : Schema) : List DeltaBatch → DeltaResult DeltaBatch
  | [] => .ok (.empty outputSchema)
  | [d] => .ok d
  | ds => DeltaBatch.concat ds

/-- The fields of some columns. -/
def fieldsAt (s : Schema) (cols : List ℕ) : Schema := cols.filterMap fun i => s[i]?

def projectColumns (b : RecordBatch) (names : List String) : DeltaResult RecordBatch := do
  let cols ← colIndices b.schema names
  .ok ⟨fieldsAt b.schema cols, b.rows.map fun r => cols.map (cell r)⟩

def DeltaBatch.scale (c : ℤ) (d : DeltaBatch) : DeltaBatch :=
  ⟨d.schema, d.rows.map fun p => (p.1, c * p.2)⟩

/-! ## Keys -/

variable (F : FloatFormat)

def extractKey (s : Schema) (cols : List ℕ) (r : Row) : DeltaResult Key :=
  cols.mapM fun i => scalarToKey F (s.typeAt i) (cell r i)

/-- The same for columns that can be rendered. -/
def keyOf (cols : List ℕ) (r : Row) : Key := cols.map fun i => keyPart F (cell r i)

/-- Weighted rows with their keys. -/
def keyedBy (s : Schema) (cols : List ℕ) (rows : List (Row × ℤ)) : DeltaResult (List (Key × Row × ℤ)) :=
  rows.mapM fun p => (extractKey F s cols p.1).map fun key => (key, p)

/-- The total weight per key. -/
def weightByKey (names : List String) (d : DeltaBatch) : DeltaResult (KVMap Key ℤ) := do
  let cols ← colIndices d.schema names
  let keyed ← keyedBy F d.schema cols d.rows
  .ok (KVMap.sumInto ∅ (keyed.map fun e => (e.1, e.2.2)))

/-- The same for a delta that may be missing. -/
def weightDelta (names : List String) (d : Option DeltaBatch) : DeltaResult (KVMap Key ℤ) :=
  match present d with
  | none => .ok ∅
  | some b => weightByKey F names b

/-- Partition the rows by key. -/
def groupMatchesByKey (names : List String) (d : DeltaBatch) : DeltaResult (KVMap Key DeltaBatch) := do
  let cols ← colIndices d.schema names
  let keyed ← keyedBy F d.schema cols d.rows
  .ok ((KVMap.groupBy keyed).map fun _ rows => ⟨d.schema, rows⟩)

/-- A cell of a probe batch: integers are read back from the text, everything else becomes a string. -/
def probeCell : DataType → Option Text → Value
  | .int64, part => (((part.bind parseInt).filter inInt64).map Value.int).getD .null
  | .int32, part => (((part.bind parseInt).filter inInt32).map Value.int).getD .null
  | _, part => (part.map fun t => Value.str (String.ofList t)).getD .null

/-- The type of the array that is built for a column. -/
def probeType : DataType → DataType
  | .int64 => .int64
  | .int32 => .int32
  | _ => .utf8

/-- The keys as a batch of the named columns. -/
def keysToProbeBatch (keys : List Key) (names : List String) (schema : Schema) : DeltaResult RecordBatch := do
  let cols ← colIndices schema names
  let fields := fieldsAt schema cols
  let rows := keys.map fun key => fields.zipIdx.map fun f => probeCell f.1.dataType (key[f.2]?).join
  if fields.isEmpty then
    .error (.arrow "must either specify a row count or at least one column")
  else do
    checkBatch fields (fields.map fun f => probeType f.dataType) rows
    .ok ⟨fields, rows⟩

/-- The rows of a trace whose key is one of `keys`. -/
def rowsOfKeys (hash : List Text → ℕ) (trace : Trace) (names : List String) (schema : Schema)
    (keys : List Key) : DeltaResult DeltaBatch := do
  let probe ← keysToProbeBatch keys names schema
  trace.probeByKeys F hash probe

/-! ## Pairing -/

/-- Every left row with the right rows of its key, left-major, and the product of the weights. -/
def pairRowsByKey (left right : DeltaBatch) (leftCols rightCols : List ℕ) :
    DeltaResult (List ((Row × Row) × ℤ)) := do
  let rightKeyed ← keyedBy F right.schema rightCols right.rows
  let index := KVMap.groupBy rightKeyed
  let leftKeyed ← keyedBy F left.schema leftCols left.rows
  .ok (leftKeyed.flatMap fun l =>
    ((index.lookup l.1).getD []).map fun r => ((l.2.1, r.1), l.2.2 * r.2))

/-- The cells of a right row outside the key columns. -/
def nonKeyCells (schema : Schema) (keyCols : List String) (r : Row) : Row :=
  ((schema.zip r).filter fun c => c.1.name ∉ keyCols).map Prod.snd

def buildJoinBatch (leftSchema rightSchema : Schema) (rightKeyCols : List String) (outputSchema : Schema)
    (paired : List ((Row × Row) × ℤ)) : DeltaResult DeltaBatch := do
  let rows := paired.map fun p => (p.1.1 ++ nonKeyCells rightSchema rightKeyCols p.1.2, p.2)
  checkBatch outputSchema
    (leftSchema.types ++ Schema.types (rightSchema.filter fun f => f.name ∉ rightKeyCols))
    (rows.map Prod.fst)
  .ok ⟨outputSchema, rows⟩

/-- Left rows followed by nulls. -/
def buildNullPaddedBatch (left : DeltaBatch) (outputSchema : Schema) (leftFieldCount : ℕ) :
    DeltaResult DeltaBatch := do
  let rows := left.rows.map fun p =>
    (p.1 ++ List.replicate (outputSchema.length - leftFieldCount) Value.null, p.2)
  checkBatch outputSchema (left.schema.types ++ Schema.types (outputSchema.drop leftFieldCount))
    (rows.map Prod.fst)
  .ok ⟨outputSchema, rows⟩

/-! ## Membership by weight -/

/-- Whether a left row belongs to the relation if its right rows weigh `w`. -/
def isMember (semi : Bool) (w : ℤ) : Bool := if semi then 0 < w else w = 0

def crossedUp (old new : ℤ) : Bool := old = 0 && 0 < new

def crossedDown (old new : ℤ) : Bool := 0 < old && new = 0

def gained (semi : Bool) (old new : ℤ) : Bool := if semi then crossedUp old new else crossedDown old new

def lost (semi : Bool) (old new : ℤ) : Bool := if semi then crossedDown old new else crossedUp old new

/-- The keys of a change for which the weights before and after it are as described. -/
def changedKeys (weights change : KVMap Key ℤ) (p : ℤ → ℤ → Bool) : List Key :=
  (change.entries.filter fun e =>
    p ((weights.lookup e.1).getD 0) ((weights.lookup e.1).getD 0 + e.2)).map Sigma.fst

/-- How a left row changes if its passing right rows weighed `pre` and now weigh `post`. -/
def flipSign (semi : Bool) (pre post : ℤ) : Option ℤ :=
  match isMember semi pre, isMember semi post with
  | false, true => some 1
  | true, false => some (-1)
  | _, _ => none

namespace IncrementalJoinOp

variable (hash : List Text → ℕ)

/-! ## Construction -/

/-- All left columns and, unless the right side is a membership test, the right columns outside the key. -/
def joinSchema (leftSchema rightSchema : Schema) (rightKeyCols : List String) : IncrJoinType → Schema
  | .inner => leftSchema ++ rightSchema.filter fun f => f.name ∉ rightKeyCols
  | .leftOuter =>
    leftSchema ++ (rightSchema.filter fun f => f.name ∉ rightKeyCols).map fun f => { f with nullable := true }
  | .leftSemi | .leftAnti => leftSchema

def newWithLateness (leftSchema rightSchema : Schema) (leftKeyCols rightKeyCols : List String)
    (joinType : IncrJoinType) (latenessCol : Option String) : DeltaResult IncrementalJoinOp := do
  let left ← Trace.new leftSchema leftKeyCols
  let right ← Trace.new rightSchema rightKeyCols
  let (left, right) ← match latenessCol with
    | none => Except.ok (left, right)
    | some col => do
      let left ← left.withLatenessColumn col
      let right ← right.withLatenessColumn col
      .ok (left, right)
  .ok {
    leftTrace := left
    rightTrace := right
    leftKeyCols, rightKeyCols, leftSchema
    outputSchema := joinSchema leftSchema rightSchema rightKeyCols joinType
    joinType
    leftFieldCount := leftSchema.length
    rightKeyGroupWeights := ∅
    rightSchema
    membershipResidual := none }

def new (leftSchema rightSchema : Schema) (leftKeyCols rightKeyCols : List String)
    (joinType : IncrJoinType) : DeltaResult IncrementalJoinOp :=
  newWithLateness leftSchema rightSchema leftKeyCols rightKeyCols joinType none

def setMembershipResidual (op : IncrementalJoinOp) (residual : MembershipResidual) : IncrementalJoinOp :=
  { op with membershipResidual := some residual }

/-- Drop late rows from both traces, and count them. -/
def gcTraces (op : IncrementalJoinOp) (watermarkMs : ℤ) : IncrementalJoinOp × ℕ :=
  let (left, removedLeft) := op.leftTrace.gcBelowWatermark watermarkMs
  let (right, removedRight) := op.rightTrace.gcBelowWatermark watermarkMs
  ({ op with leftTrace := left, rightTrace := right }, removedLeft + removedRight)

/-! ## Probing -/

variable (op : IncrementalJoinOp)

/-- Pair two batches. The cross term of a tick and the output of both probes are this. -/
def joinDeltas (left right : DeltaBatch) : DeltaResult DeltaBatch := do
  let leftCols ← colIndices left.schema op.leftKeyCols
  let rightCols ← colIndices right.schema op.rightKeyCols
  let paired ← pairRowsByKey F left right leftCols rightCols
  if paired.isEmpty then .ok (.empty op.outputSchema)
  else buildJoinBatch left.schema right.schema op.rightKeyCols op.outputSchema paired

def probeLeftAgainstRightTrace (left : DeltaBatch) : DeltaResult DeltaBatch := do
  let keys ← projectColumns left.dataBatch op.leftKeyCols
  let rightMatches ← op.rightTrace.probeByKeys F hash keys
  if rightMatches.isEmpty then .ok (.empty op.outputSchema)
  else op.joinDeltas F left rightMatches

def probeRightAgainstLeftTrace (right : DeltaBatch) : DeltaResult DeltaBatch := do
  let keys ← projectColumns right.dataBatch op.rightKeyCols
  let leftMatches ← op.leftTrace.probeByKeys F hash keys
  if leftMatches.isEmpty then .ok (.empty op.outputSchema)
  else op.joinDeltas F leftMatches right

/-- The left rows of some keys of the right side. -/
def leftRowsOf (keys : List Key) : DeltaResult DeltaBatch :=
  rowsOfKeys F hash op.leftTrace op.leftKeyCols op.leftSchema keys

/-- The right rows of some keys of the left side. -/
def rightRowsOf (keys : List Key) : DeltaResult DeltaBatch :=
  rowsOfKeys F hash op.rightTrace op.rightKeyCols op.rightSchema keys

/-- The traces are updated after all probes. -/
def insertDeltas (left right : Option DeltaBatch) : IncrementalJoinOp :=
  { op with
    leftTrace := left.elim op.leftTrace (op.leftTrace.insert F)
    rightTrace := right.elim op.rightTrace (op.rightTrace.insert F) }

/-- The weight of a key together with this tick's change. -/
def effectiveWeight (change : KVMap Key ℤ) (key : Key) : ℤ :=
  (op.rightKeyGroupWeights.lookup key).getD 0 + (change.lookup key).getD 0

/-- Add the change of a tick to the weights; zeros are removed. -/
def updateWeights (change : KVMap Key ℤ) : IncrementalJoinOp :=
  { op with rightKeyGroupWeights := KVMap.addNonzero op.rightKeyGroupWeights change }

/-! ## Inner join -/

def innerParts (left right : Option DeltaBatch) : DeltaResult (List DeltaBatch) := do
  let probed ← whenPresent left fun l => (op.probeLeftAgainstRightTrace F hash l).map part
  let probing ← whenPresent right fun r => (op.probeRightAgainstLeftTrace F hash r).map part
  let cross ← whenPresent left fun l => whenPresent right fun r => (op.joinDeltas F l r).map part
  .ok (probed ++ probing ++ cross)

def applyInner (left right : Option DeltaBatch) : DeltaResult DeltaBatch × IncrementalJoinOp :=
  match op.innerParts F hash left right with
  | .error e => (.error e, op)
  | .ok parts => (combineParts op.outputSchema parts, op.insertDeltas F left right)

/-! ## Semi and anti join by key -/

/-- The left rows of the tick that belong to the relation. -/
def keptRows (semi : Bool) (change : KVMap Key ℤ) (left : DeltaBatch) : DeltaResult (List DeltaBatch) := do
  let cols ← colIndices left.schema op.leftKeyCols
  let keyed ← keyedBy F left.schema cols left.rows
  let kept := keyed.filter fun e => isMember semi (op.effectiveWeight change e.1)
  .ok (part ⟨left.schema, kept.map Prod.snd⟩)

/-- The left rows of keys that crossed zero, with a sign. -/
def flippedRows (sign : ℤ) (keys : List Key) : DeltaResult (List DeltaBatch) :=
  if keys.isEmpty then .ok []
  else do
    let leftMatches ← op.leftRowsOf F hash keys
    .ok (part (leftMatches.scale sign))

def applyLeftSemiAnti (left right : Option DeltaBatch) : DeltaResult DeltaBatch × IncrementalJoinOp :=
  let semi : Bool := op.joinType = .leftSemi
  match (do
      let change ← weightDelta F op.rightKeyCols right
      let kept ← whenPresent left (op.keptRows F semi change)
      pure (change, kept) : DeltaResult (KVMap Key ℤ × List DeltaBatch)) with
  | .error e => (.error e, op)
  | .ok (change, kept) =>
    -- the weights are updated before the crossing keys are probed
    let updated := op.updateWeights change
    match (do
        let gains ← op.flippedRows F hash 1 (changedKeys op.rightKeyGroupWeights change (gained semi))
        let losses ← op.flippedRows F hash (-1) (changedKeys op.rightKeyGroupWeights change (lost semi))
        pure (kept ++ gains ++ losses) : DeltaResult (List DeltaBatch)) with
    | .error e => (.error e, updated)
    | .ok parts => (combineParts op.outputSchema parts, updated.insertDeltas F left right)

/-! ## Semi and anti join with a membership predicate -/

/-- The weight of the right rows that pass the predicate with a left row. -/
def residualPassWeight (leftSchema : Schema) (l : Row) (rights : DeltaBatch) : DeltaResult ℤ :=
  if rights.isEmpty then .ok 0
  else
    match op.membershipResidual with
    | none => .error (.operator "membership residual evaluated without one installed")
    | some residual => do
      let mask ← residual ⟨leftSchema ++ rights.schema, rights.rows.map fun p => l ++ p.1⟩
      .ok (((mask.zip rights.rows).filter fun e => e.1 = some true).map fun e => e.2.2).sum

/-- The weight of the passing right rows of this tick. -/
def deltaPassWeight (rightByKey : KVMap Key DeltaBatch) (leftSchema : Schema) (key : Key) (l : Row) : DeltaResult ℤ :=
  match rightByKey.lookup key with
  | none => .ok 0
  | some rights => op.residualPassWeight leftSchema l rights

/-- The weight of the passing right rows before and after the tick; `rights` are those of the key before. -/
def passWeights (rightByKey : KVMap Key DeltaBatch) (leftSchema : Schema) (rights : DeltaBatch) (key : Key)
    (l : Row) : DeltaResult (ℤ × ℤ) := do
  let pre ← op.residualPassWeight leftSchema l rights
  let change ← op.deltaPassWeight rightByKey leftSchema key l
  .ok (pre, pre + change)

/-- The left rows of the tick that belong to the relation after it. -/
def residualKept (semi : Bool) (changeByKey : KVMap Key DeltaBatch) (left : DeltaBatch) :
    DeltaResult (List DeltaBatch) := do
  let cols ← colIndices left.schema op.leftKeyCols
  let keyed ← keyedBy F left.schema cols left.rows
  let rightMatches ← op.rightRowsOf F hash (keyed.map Prod.fst).dedup
  let matchesByKey ← groupMatchesByKey F op.rightKeyCols rightMatches
  let weighed ← keyed.mapM fun e =>
    (op.passWeights changeByKey left.schema ((matchesByKey.lookup e.1).getD (.empty op.rightSchema)) e.1
      e.2.1).map fun w => (w.2, e.2)
  .ok (part ⟨left.schema, (weighed.filter fun e => isMember semi e.1).map Prod.snd⟩)

/-- The left rows of one key whose membership changes. -/
def residualFlipsOf (semi : Bool) (changeByKey : KVMap Key DeltaBatch) (rights : DeltaBatch) (key : Key)
    (leftMatches : DeltaBatch) : DeltaResult (List DeltaBatch) := do
  let flips ← leftMatches.rows.mapM fun p =>
    (op.passWeights changeByKey leftMatches.schema rights key p.1).map fun w =>
      (flipSign semi w.1 w.2).map fun sign => (p.1, sign * p.2)
  .ok (part ⟨leftMatches.schema, flips.filterMap id⟩)

/-- The right rows before the tick of the keys that have left rows. -/
def liveRights (live : List Key) : DeltaResult (KVMap Key DeltaBatch) :=
  if live.isEmpty then .ok ∅
  else do
    let allRight ← op.rightRowsOf F hash live
    groupMatchesByKey F op.rightKeyCols allRight

/-- The left rows of a key whose membership changes, if it has left rows. -/
def residualFlipsAt (semi : Bool) (changeByKey leftByKey rightByKey : KVMap Key DeltaBatch) (key : Key) :
    DeltaResult (List DeltaBatch) :=
  match leftByKey.lookup key with
  | none => .ok []
  | some leftMatches =>
    op.residualFlipsOf semi changeByKey ((rightByKey.lookup key).getD (.empty op.rightSchema)) key leftMatches

/-- The left rows before the tick whose membership changes. -/
def residualFlips (semi : Bool) (changeByKey : KVMap Key DeltaBatch) : DeltaResult (List DeltaBatch) :=
  let affected := changeByKey.keys
  if affected.isEmpty then .ok []
  else do
    let allLeft ← op.leftRowsOf F hash affected
    let leftByKey ← groupMatchesByKey F op.leftKeyCols allLeft
    -- only a key with left rows can flip
    let live := affected.filter fun key => (leftByKey.lookup key).isSome
    let rightByKey ← op.liveRights F hash live
    let parts ← affected.mapM (op.residualFlipsAt semi changeByKey leftByKey rightByKey)
    .ok parts.flatten

/-- The right rows of the tick by key. -/
def changeByKey (right : Option DeltaBatch) : DeltaResult (KVMap Key DeltaBatch) :=
  match present right with
  | none => .ok ∅
  | some r => groupMatchesByKey F op.rightKeyCols r

/-- The weights after a tick, kept row by row; zeros are removed at the end. -/
def residualWeights (right : Option DeltaBatch) : DeltaResult (KVMap Key ℤ) :=
  match present right with
  | none => .ok op.rightKeyGroupWeights
  | some r => do
    let cols ← colIndices r.schema op.rightKeyCols
    let keyed ← keyedBy F r.schema cols r.rows
    let weights := KVMap.sumInto op.rightKeyGroupWeights (keyed.map fun e => (e.1, e.2.2))
    .ok (weights.filterMap fun _ w => if w = 0 then none else some w)

def applyLeftSemiAntiResidual (left right : Option DeltaBatch) : DeltaResult DeltaBatch × IncrementalJoinOp :=
  let semi : Bool := op.joinType = .leftSemi
  match (do
      let changes ← op.changeByKey F right
      let kept ← whenPresent left (op.residualKept F hash semi changes)
      let flips ← op.residualFlips F hash semi changes
      let weights ← op.residualWeights F right
      pure (kept ++ flips, weights) : DeltaResult (List DeltaBatch × KVMap Key ℤ)) with
  | .error e => (.error e, op)
  | .ok (parts, weights) =>
    (combineParts op.outputSchema parts,
      { op with rightKeyGroupWeights := weights }.insertDeltas F left right)

/-! ## Left outer join -/

/-- Left rows followed by nulls, if there are any. -/
def paddedRows (left : DeltaBatch) : DeltaResult (List DeltaBatch) :=
  if left.isEmpty then .ok []
  else (buildNullPaddedBatch left op.outputSchema op.leftFieldCount).map part

/-- Left rows of the tick whose key has no weight on the right are padded, the others joined. -/
def probeLeftOuterAgainstRightTrace (change : KVMap Key ℤ) (left : DeltaBatch) : DeltaResult DeltaBatch := do
  let cols ← colIndices left.schema op.leftKeyCols
  let keyed ← keyedBy F left.schema cols left.rows
  let unmatched := keyed.filter fun e => op.effectiveWeight change e.1 = 0
  let matched := keyed.filter fun e => op.effectiveWeight change e.1 ≠ 0
  let padded ← op.paddedRows ⟨left.schema, unmatched.map Prod.snd⟩
  let joined ← whenPresent (some ⟨left.schema, matched.map Prod.snd⟩) fun l =>
    (op.probeLeftAgainstRightTrace F hash l).map part
  combineParts op.outputSchema (padded ++ joined)

/-- The padded left rows of keys that crossed zero, with a sign. A probe that fails emits nothing. -/
def nullRows (sign : ℤ) (keys : List Key) : DeltaResult (List DeltaBatch) :=
  if keys.isEmpty then .ok []
  else
    match op.leftRowsOf F hash keys with
    | .error _ => .ok []
    | .ok leftMatches => op.paddedRows (leftMatches.scale sign)

/-- The right rows of the tick against the left trace, and the padded rows of keys that crossed zero
from the weights `weights`. -/
def probeRightOuterAgainstLeftTrace (weights change : KVMap Key ℤ) (right : DeltaBatch) :
    DeltaResult (List DeltaBatch) := do
  let joined ← op.probeRightAgainstLeftTrace F hash right
  let retracted ← op.nullRows F hash (-1) (changedKeys weights change crossedUp)
  let emitted ← op.nullRows F hash 1 (changedKeys weights change crossedDown)
  .ok (part joined ++ retracted ++ emitted)

def applyLeftOuter (left right : Option DeltaBatch) : DeltaResult DeltaBatch × IncrementalJoinOp :=
  match (do
      let change ← weightDelta F op.rightKeyCols right
      let probed ← whenPresent left fun l =>
        (op.probeLeftOuterAgainstRightTrace F hash change l).map part
      pure (change, probed) : DeltaResult (KVMap Key ℤ × List DeltaBatch)) with
  | .error e => (.error e, op)
  | .ok (change, probed) =>
    -- the weights are updated by the probe of the right rows
    let updated := op.updateWeights change
    match (do
        let probing ← whenPresent right
          (updated.probeRightOuterAgainstLeftTrace F hash op.rightKeyGroupWeights change)
        let cross ← whenPresent left fun l => whenPresent right fun r =>
          (updated.joinDeltas F l r).map part
        pure (probed ++ probing ++ cross) : DeltaResult (List DeltaBatch)) with
    | .error e => (.error e, updated)
    | .ok parts => (combineParts op.outputSchema parts, updated.insertDeltas F left right)

/-! ## Ticks -/

/-- One tick. -/
def apply (left right : Option DeltaBatch) : DeltaResult DeltaBatch × IncrementalJoinOp :=
  match op.joinType with
  | .leftOuter => op.applyLeftOuter F hash left right
  | .leftSemi | .leftAnti =>
    if op.membershipResidual.isSome then op.applyLeftSemiAntiResidual F hash left right
    else op.applyLeftSemiAnti F hash left right
  | .inner => op.applyInner F hash left right

end IncrementalJoinOp

/-- The deltas of one tick. -/
structure Tick where
  left : Option DeltaBatch
  right : Option DeltaBatch

namespace IncrementalJoinOp

/-- Tick after tick: what each one returned, and the operator at the end. -/
def run (hash : List Text → ℕ) (op : IncrementalJoinOp) :
    List Tick → List (DeltaResult DeltaBatch) × IncrementalJoinOp
  | [] => ([], op)
  | t :: ts =>
    let (out, op) := op.apply F hash t.left t.right
    let (outs, op) := op.run hash ts
    (out :: outs, op)

end IncrementalJoinOp

end Krishiv.Delta
