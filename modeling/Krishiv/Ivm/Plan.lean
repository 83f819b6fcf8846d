import Krishiv.Delta.View

/-!
# View plans

A registered view is maintained by a *plan*: an incremental operator, a join, a chain of
operators, or the full recompute `diffBased`. The flow uses a plan through six operations
(`PlanLogic`): its kind, one tick's application, seeding from snapshots, watermark garbage
collection, and writing and reading its operator state. Everything the flow does is stated for
any type of plans with these operations; `ViewPlan` is the type of the code.

Expressions are DataFusion's, so a filter and a projection are functions on batches. The
stateful operators are types of their own behind `Operator` and `JoinOperator`.
-/

namespace Krishiv.Ivm

open Krishiv.Delta

abbrev Bytes := List UInt8

/-- `i64::MIN`: the watermark of a source that has observed nothing. -/
def i64Min : ℤ := -(2 ^ 63)

inductive ViewPlanKind where
  | incremental
  | diffBased
deriving DecidableEq, Repr

/-- What one tick offers a plan: the deltas of the source relations, the deltas of sources (as
fed) and of views already run, and the known schemas. -/
structure TickDeltas where
  relation : String → Option DeltaBatch
  available : String → Option DeltaBatch
  schemas : String → Option Schema

/-- What applying a plan leads to: the view is left alone this tick, its operator failed, or it
has an output delta. -/
inductive Outcome where
  | skip
  | failed (e : DeltaError)
  | delta (d : DeltaBatch)
deriving DecidableEq, Repr

/-- The serialized state of a plan: one operator's bytes, or for a chain the slots of the hops of
every side and of the spine (a hop without state has an empty slot). -/
inductive PlanState where
  | op (bytes : Bytes)
  | chain (sides : List (List (Option Bytes))) (hops : List (Option Bytes))
deriving DecidableEq, Repr

/-- The operations through which a flow uses a plan. An operation that can fail returns the plan
as it is left behind. -/
class PlanLogic (P : Type) where
  kind : P → ViewPlanKind
  apply : P → TickDeltas → P × Outcome
  seedFromSnapshots : P → (String → Option RecordBatch) → P × DeltaResult (Option DeltaBatch)
  gcWatermark : P → (String → Option ℤ) → P × DeltaResult ℕ
  checkpointState : P → Option PlanState
  restoreStateBytes : P → PlanState → P × DeltaResult Bool

/-! ## Expressions: filters and projections -/

abbrev Predicate := RecordBatch → DeltaResult (List (Option Bool))

/-- Keep the rows whose mask is true; a null is not true. -/
def filterBatch (d : DeltaBatch) (pred : Predicate) : DeltaResult DeltaBatch := do
  let mask ← pred d.dataBatch
  if mask.length ≠ d.numRows then
    .error (.operator ("filter predicate returned mask length " ++ toString mask.length ++
      " but batch has " ++ toString d.numRows ++ " rows"))
  else
    .ok ⟨d.schema, ((d.rows.zip mask).filter fun p => p.2 = some true).map Prod.fst⟩

/-- Replace the data columns row by row; the weights stay. -/
def mapBatch (d : DeltaBatch) (f : RecordBatch → DeltaResult RecordBatch) :
    DeltaResult DeltaBatch := do
  let mapped ← f d.dataBatch
  if mapped.numRows ≠ d.numRows then
    .error (.operator ("map produced " ++ toString mapped.numRows ++ " rows from " ++
      toString d.numRows ++ " input rows; a map must be row-preserving or the weights it " ++
      "carries no longer line up"))
  else
    .ok ⟨mapped.schema, mapped.rows.zip (d.rows.map Prod.snd)⟩

structure SourceFilter where
  predicate : Predicate

def SourceFilter.apply (f : SourceFilter) (d : DeltaBatch) : DeltaResult DeltaBatch :=
  filterBatch d f.predicate

structure MapOp where
  exprs : RecordBatch → DeltaResult RecordBatch
  predicate : Option Predicate

def MapOp.apply (m : MapOp) (d : DeltaBatch) : DeltaResult DeltaBatch := do
  let d ← match m.predicate with
    | some pred => filterBatch d pred
    | none => .ok d
  mapBatch d m.exprs

def applySideFilter (filter : Option SourceFilter) (d : Option DeltaBatch) : DeltaResult (Option DeltaBatch) :=
  match filter, d with
  | some f, some d => do .ok (some (← f.apply d))
  | _, d => .ok d

def applyPost (post : Option MapOp) (d : DeltaBatch) : DeltaResult DeltaBatch :=
  match post with
  | some m => m.apply d
  | none => .ok d

def applyFlatmap (ops : List MapOp) (d : DeltaBatch) : DeltaResult DeltaBatch := do
  let outs ← ops.mapM fun op => op.apply d
  DeltaBatch.concat outs

/-! ## Operators, stages, plans -/

/-- A stateful operator with one input. -/
class Operator (Op : Type) where
  apply : Op → DeltaBatch → Op × DeltaResult DeltaBatch
  stateBytes : Op → Bytes
  restoreStateBytes : Op → Bytes → Op × DeltaResult Unit
  gcWatermark : Op → ℤ → Op × DeltaResult ℕ

/-- The two-input join operator. -/
class JoinOperator (J : Type) where
  apply : J → Option DeltaBatch → Option DeltaBatch → J × DeltaResult DeltaBatch
  stateBytes : J → DeltaResult Bytes
  restoreStateBytes : J → Bytes → J × DeltaResult Unit
  gcTraces : J → ℤ → J × DeltaResult ℕ

/-- The operators a plan is made of: each is a plan of its own or a hop of a chain. -/
inductive Stage (Op J : Type) where
  | aggregate (source : String) (op : Op) (filter : Option SourceFilter)
  | join (leftSource rightSource : String) (op : J)
      (leftFilter rightFilter residual : Option SourceFilter) (post : Option MapOp)
  | distinct (source : String) (op : Op) (filter : Option SourceFilter)
  | map (source : String) (op : MapOp)
  | flatMap (source : String) (ops : List MapOp)
  | keyedTopN (source : String) (pre : Option MapOp) (op : Op) (post : Option MapOp)
  | sessionize (source : String) (op : Op)
  | topN (source : String) (op : Op)

structure ChainSide (Op J : Type) where
  name : String
  source : String
  hops : List (Stage Op J)

inductive ViewPlan (Op J : Type) where
  | stage (s : Stage Op J)
  | chain (source : String) (hops : List (Stage Op J)) (sides : List (ChainSide Op J))
  | diffBased

variable {Op J : Type} [Operator Op] [JoinOperator J]

namespace Stage

/-- The source a one-input stage reads; a join names two instead. -/
def source : Stage Op J → String
  | .aggregate s _ _ | .distinct s _ _ | .map s _ | .flatMap s _ | .keyedTopN s _ _ _
  | .sessionize s _ | .topN s _ => s
  | .join l _ _ _ _ _ _ => l

def joinRight : Stage Op J → Option String
  | .join _ r _ _ _ _ _ => some r
  | _ => none

end Stage

/-- A filtered input through an operator with state. -/
def applyFiltered (op : Op) (filter : Option SourceFilter) (d : DeltaBatch) : Op × DeltaResult DeltaBatch :=
  match applySideFilter filter (some d) with
  | .error e => (op, .error e)
  | .ok none => (op, .error (.operator "side filter dropped a present delta"))
  | .ok (some d) => Operator.apply op d

/-- `pre`, the operator, `post`. -/
def applyKeyedTopn (pre : Option MapOp) (op : Op) (post : Option MapOp) (d : DeltaBatch) :
    Op × DeltaResult DeltaBatch :=
  match applyPost pre d with
  | .error e => (op, .error e)
  | .ok d =>
    let (op, out) := Operator.apply op d
    (op, out >>= applyPost post)

/-- One input through one stage. -/
def applyChainHop (hop : Stage Op J) (d : DeltaBatch) : Stage Op J × DeltaResult DeltaBatch :=
  match hop with
  | .aggregate s op filter =>
    let (op, out) := applyFiltered op filter d
    (.aggregate s op filter, out)
  | .distinct s op filter =>
    let (op, out) := applyFiltered op filter d
    (.distinct s op filter, out)
  | .map s op => (.map s op, op.apply d)
  | .flatMap s ops => (.flatMap s ops, applyFlatmap ops d)
  | .sessionize s op =>
    let (op, out) := Operator.apply op d
    (.sessionize s op, out)
  | .topN s op =>
    let (op, out) := Operator.apply op d
    (.topN s op, out)
  | .keyedTopN s pre op post =>
    let (op, out) := applyKeyedTopn pre op post d
    (.keyedTopN s pre op post, out)
  | .join l r op lf rf res post =>
    (.join l r op lf rf res post,
      .error (.operator "a chain hop must be a single-input incremental operator"))

/-- Two inputs through a join stage: filter the sides, join, then residual and projection. -/
def applyChainJoinHop (hop : Stage Op J) (left right : Option DeltaBatch) : Stage Op J × DeltaResult DeltaBatch :=
  match hop with
  | .join l r op lf rf residual post =>
    match applySideFilter lf left, applySideFilter rf right with
    | .ok left, .ok right =>
      let (op, out) := JoinOperator.apply op left right
      (.join l r op lf rf residual post, do
        let d ← out
        let d ← match residual with
          | some f => f.apply d
          | none => .ok d
        applyPost post d)
    | .error e, _ => (.join l r op lf rf residual post, .error e)
    | _, .error e => (.join l r op lf rf residual post, .error e)
  | other => (other, .error (.operator "chain leaf is not a join hop"))

/-! ## Folding the hops of a chain

The live tick and the seeding pass fold the same hops over different inputs, so the fold takes
the inputs as a parameter. -/

/-- Where a chain reads: the input of a one-input leaf, the input of a join by table name, and
whether a join leaf runs without any input (it does in a tick, it does not when seeding). -/
structure HopInputs where
  leaf : String → Option DeltaBatch
  table : String → Option DeltaBatch
  runsEmpty : Bool

/-- The hops after the first, each on the output of the one before. -/
def foldHops (rights : String → Option DeltaBatch) :
    List (Stage Op J) → DeltaBatch → List (Stage Op J) × DeltaResult DeltaBatch
  | [], d => ([], .ok d)
  | hop :: rest, d =>
    let (hop, out) := match hop.joinRight with
      | some r => applyChainJoinHop hop (some d) (rights r)
      | none => applyChainHop hop d
    match out with
    | .error e => (hop :: rest, .error e)
    | .ok d =>
      let (rest, out) := foldHops rights rest d
      (hop :: rest, out)

/-- A whole run of hops from its leaf; nothing when the leaf has no input to run on. -/
def runHops (inputs : HopInputs) (source : String) (rights : String → Option DeltaBatch) :
    List (Stage Op J) → List (Stage Op J) × DeltaResult (Option DeltaBatch)
  | [] => ([], .ok none)
  | first :: rest =>
    let started : Option (Stage Op J × DeltaResult DeltaBatch) := match first.joinRight with
      | some r =>
        let left := inputs.table first.source
        let right := rights r
        if inputs.runsEmpty || left.isSome || right.isSome then
          some (applyChainJoinHop first left right)
        else none
      | none => (inputs.leaf source).map (applyChainHop first)
    match started with
    | none => (first :: rest, .ok none)
    | some (first, .error e) => (first :: rest, .error e)
    | some (first, .ok d) =>
      let (rest, out) := foldHops rights rest d
      (first :: rest, out.map some)

/-- The sides in order; a later side may read an earlier one's output. -/
def runSides (inputs : HopInputs) : List (ChainSide Op J) → (String → Option DeltaBatch) →
      List (ChainSide Op J) × DeltaResult (String → Option DeltaBatch)
  | [], out => ([], .ok out)
  | side :: sides, out =>
    let rights := fun name => (out name).or (inputs.table name)
    let (hops, produced) := runHops inputs side.source rights side.hops
    let side := { side with hops := hops }
    match produced with
    | .error e => (side :: sides, .error e)
    | .ok none =>
      let (sides, final) := runSides inputs sides out
      (side :: sides, final)
    | .ok (some d) =>
      let (sides, final) := runSides inputs sides (Function.update out side.name (some d))
      (side :: sides, final)

def runChain (inputs : HopInputs) (source : String) (hops : List (Stage Op J))
    (sides : List (ChainSide Op J)) : ViewPlan Op J × DeltaResult (Option DeltaBatch) :=
  let (sides, sideOut) := runSides inputs sides fun _ => none
  match sideOut with
  | .error e => (.chain source hops sides, if hops.isEmpty then .ok none else .error e)
  | .ok out =>
    let rights := fun name => (out name).or (inputs.table name)
    let (hops, produced) := runHops inputs source rights hops
    (.chain source hops sides, produced)

/-! ## The operations of a `ViewPlan` -/

namespace ViewPlan

def kind : ViewPlan Op J → ViewPlanKind
  | .diffBased => .diffBased
  | _ => .incremental

end ViewPlan

def TickDeltas.empty (t : TickDeltas) (name : String) : Option DeltaBatch :=
  (t.schemas name).map DeltaBatch.empty

/-- The raw delta of a name, or an empty one of its schema. -/
def TickDeltas.raw (t : TickDeltas) (name : String) : Option DeltaBatch :=
  (t.available name).or (t.empty name)

/-- The delta of the relation, else the raw delta, else an empty one. -/
def TickDeltas.ofRelation (t : TickDeltas) (name : String) : Option DeltaBatch :=
  (t.relation name).or (t.raw name)

/-- What a stand-alone stage reads: aggregates and `DISTINCT` the raw delta, the stateless maps
and the ordered indexes the delta of the relation. -/
def Stage.tickInput (s : Stage Op J) (t : TickDeltas) : Option DeltaBatch :=
  match s with
  | .aggregate src _ _ | .distinct src _ _ => t.raw src
  | .map src _ | .flatMap src _ | .keyedTopN src _ _ _ | .sessionize src _ | .topN src _ => t.ofRelation src
  | .join _ _ _ _ _ _ _ => none

def Outcome.ofResult : DeltaResult (Option DeltaBatch) → Outcome
  | .ok (some d) => .delta d
  | .ok none => .skip
  | .error e => .failed e

namespace ViewPlan

/-- One tick's application. -/
def apply (p : ViewPlan Op J) (t : TickDeltas) : ViewPlan Op J × Outcome :=
  match p with
  | .stage s =>
    match s.joinRight with
    | some r =>
      let (s, out) := applyChainJoinHop s (t.available s.source) (t.available r)
      (.stage s, .ofResult (out.map some))
    | none =>
      match s.tickInput t with
      | none => (.stage s, .skip)
      | some d =>
        let (s, out) := applyChainHop s d
        (.stage s, .ofResult (out.map some))
  | .chain source hops sides =>
    let (p, out) := runChain ⟨t.ofRelation, t.available, true⟩ source hops sides
    (p, .ofResult out)
  | .diffBased => (.diffBased, .skip)

/-- A snapshot as insertions; an empty or absent one seeds nothing. -/
def seedDelta (lookup : String → Option RecordBatch) (name : String) : Option DeltaBatch :=
  match lookup name with
  | some snap => if snap.rows.isEmpty then none else some (DeltaBatch.fromInserts snap)
  | none => none

/-- Replay the snapshots of the sources through a fresh plan. -/
def seedFromSnapshots (p : ViewPlan Op J) (lookup : String → Option RecordBatch) :
    ViewPlan Op J × DeltaResult (Option DeltaBatch) :=
  match p with
  | .stage (.join l r op lf rf residual post) =>
    -- the residual and the projection shape the emitted delta only, so seeding ignores them
    match applySideFilter lf (seedDelta lookup l), applySideFilter rf (seedDelta lookup r) with
    | .ok left, .ok right =>
      if left.isSome || right.isSome then
        let (op, out) := JoinOperator.apply op left right
        (.stage (.join l r op lf rf residual post), out.map some)
      else (p, .ok none)
    | .error e, _ => (p, .error e)
    | _, .error e => (p, .error e)
  | .stage s =>
    match seedDelta lookup s.source with
    | none => (p, .ok none)
    | some d =>
      let (s, out) := applyChainHop s d
      (.stage s, out.map some)
  | .chain source hops sides => runChain ⟨seedDelta lookup, seedDelta lookup, false⟩ source hops sides
  | .diffBased => (.diffBased, .ok none)

end ViewPlan

/-! ## Watermark garbage collection -/

def Stage.gcAt (s : Stage Op J) (wm : ℤ) : Stage Op J × DeltaResult ℕ :=
  match s with
  | .aggregate src op f =>
    let (op, n) := Operator.gcWatermark op wm
    (.aggregate src op f, n)
  | .distinct src op f =>
    let (op, n) := Operator.gcWatermark op wm
    (.distinct src op f, n)
  | .join l r op lf rf res post =>
    let (op, n) := JoinOperator.gcTraces op wm
    (.join l r op lf rf res post, n)
  | other => (other, .ok 0)

def gcHops (wm : ℤ) : List (Stage Op J) → List (Stage Op J) × DeltaResult ℕ
  | [] => ([], .ok 0)
  | hop :: rest =>
    match hop.gcAt wm with
    | (hop, .error e) => (hop :: rest, .error e)
    | (hop, .ok n) =>
      let (rest, m) := gcHops wm rest
      (hop :: rest, m.map (n + ·))

def gcSides (wm : ℤ) : List (ChainSide Op J) → List (ChainSide Op J) × DeltaResult ℕ
  | [] => ([], .ok 0)
  | side :: sides =>
    let (hops, n) := gcHops wm side.hops
    let side := { side with hops := hops }
    match n with
    | .error e => (side :: sides, .error e)
    | .ok n =>
      let (sides, m) := gcSides wm sides
      (side :: sides, m.map (n + ·))

/-- The names whose watermarks bound a run of hops: both sides of a join leaf and the right side
of every later join. -/
def joinNames (hops : List (Stage Op J)) : List String :=
  (match hops with
    | first :: _ => if first.joinRight.isSome then [first.source] else []
    | [] => []) ++ hops.filterMap Stage.joinRight

namespace ViewPlan

def gcWatermark (p : ViewPlan Op J) (watermarks : String → Option ℤ) : ViewPlan Op J × DeltaResult ℕ :=
  let wmOf := fun name => (watermarks name).getD i64Min
  match p with
  | .stage s =>
    let wm := match s.joinRight with
      | some r => min (wmOf s.source) (wmOf r)
      | none => wmOf s.source
    if i64Min < wm then
      let (s, n) := s.gcAt wm
      (.stage s, n)
    else (p, .ok 0)
  | .chain source hops sides =>
    let real := fun name => ((sides.find? fun s => s.name = name).map ChainSide.source).getD name
    let names := joinNames hops ++ (sides.map fun s => joinNames s.hops).flatten
    let wm := match names.map (wmOf ∘ real) with
      | [] => wmOf source
      | w :: ws => ws.foldl min w
    if wm = i64Min then (p, .ok 0)
    else
      match gcSides wm sides with
      | (sides, .error e) => (.chain source hops sides, .error e)
      | (sides, .ok n) =>
        let (hops, m) := gcHops wm hops
        (.chain source hops sides, m.map (n + ·))
  | .diffBased => (.diffBased, .ok 0)

end ViewPlan

/-! ## Operator state -/

/-- The bytes a stage checkpoints. The ordered indexes and the maps checkpoint nothing; a join
trace that fails to serialize is left out. -/
def Stage.checkpointState (s : Stage Op J) : Option Bytes :=
  match s with
  | .aggregate _ op _ | .distinct _ op _ => some (Operator.stateBytes op)
  | .join _ _ op _ _ _ _ => (JoinOperator.stateBytes op).toOption
  | _ => none

def Stage.carriesNoState : Stage Op J → Bool
  | .map _ _ | .flatMap _ _ => true
  | _ => false

def Stage.restoreStateBytes (s : Stage Op J) (bytes : Bytes) : Stage Op J × DeltaResult Bool :=
  match s with
  | .aggregate src op f =>
    let (op, r) := Operator.restoreStateBytes op bytes
    (.aggregate src op f, r.map fun _ => true)
  | .distinct src op f =>
    let (op, r) := Operator.restoreStateBytes op bytes
    (.distinct src op f, r.map fun _ => true)
  | .join l rt op lf rf res post =>
    let (op, r) := JoinOperator.restoreStateBytes op bytes
    (.join l rt op lf rf res post, r.map fun _ => true)
  | other => (other, .ok false)

/-- Put every slot back into its hop. -/
def restoreHops : List (Stage Op J) → List (Option Bytes) → List (Stage Op J) × DeltaResult Bool
  | hop :: hops, slot :: slots =>
    match slot.map hop.restoreStateBytes with
    | some (hop, .error e) => (hop :: hops, .error e)
    | some (hop, .ok done) =>
      let (hops, rest) := restoreHops hops slots
      (hop :: hops, rest.map (done && ·))
    | none =>
      let (hops, rest) := restoreHops hops slots
      (hop :: hops, rest)
  | hops, _ => (hops, .ok true)

def restoreSides : List (ChainSide Op J) → List (List (Option Bytes)) → List (ChainSide Op J) × DeltaResult Bool
  | side :: sides, slots :: rest =>
    let (hops, done) := restoreHops side.hops slots
    let side := { side with hops := hops }
    match done with
    | .error e => (side :: sides, .error e)
    | .ok done =>
      let (sides, more) := restoreSides sides rest
      (side :: sides, more.map (done && ·))
  | sides, _ => (sides, .ok true)

/-- Every hop without a slot carries no state. -/
def completeSlots (hops : List (Stage Op J)) (slots : List (Option Bytes)) : Bool :=
  (hops.zip slots).all fun p => p.2.isSome || p.1.carriesNoState

namespace ViewPlan

def checkpointState (p : ViewPlan Op J) : Option PlanState :=
  match p with
  | .stage s => s.checkpointState.map .op
  | .chain _ hops sides =>
    some (.chain (sides.map fun s => s.hops.map Stage.checkpointState) (hops.map Stage.checkpointState))
  | .diffBased => none

def restoreStateBytes (p : ViewPlan Op J) (state : PlanState) : ViewPlan Op J × DeltaResult Bool :=
  match p, state with
  | .stage s, .op bytes =>
    let (s, r) := s.restoreStateBytes bytes
    (.stage s, r)
  | .stage s, .chain _ _ =>
    match s with
    | .aggregate _ _ _ | .distinct _ _ _ | .join _ _ _ _ _ _ _ =>
      (.stage s, .error (.operator "operator state: bad magic"))
    | _ => (.stage s, .ok false)
  | .chain src hops sides, .chain sideSlots slots =>
    if sideSlots.isEmpty ≠ sides.isEmpty then
      (p, .error (.operator "chain state: bad magic"))
    else if sideSlots.length ≠ sides.length then
      (p, .error (.operator "chain state: side count changed"))
    else if (sides.zip sideSlots).any (fun x => x.1.hops.length ≠ x.2.length)
        || hops.length ≠ slots.length then
      (p, .error (.operator "chain state: hop count changed"))
    else if !(completeSlots hops slots && (sides.zip sideSlots).all fun x => completeSlots x.1.hops x.2) then
      -- a hop that is not in the checkpoint can only be rebuilt by seeding the whole chain
      (p, .ok false)
    else
      match restoreSides sides sideSlots with
      | (sides, .error e) => (.chain src hops sides, .error e)
      | (sides, .ok done) =>
        let (hops, more) := restoreHops hops slots
        (.chain src hops sides, more.map (done && ·))
  | .chain src hops sides, .op _ => (.chain src hops sides, .error (.operator "chain state: bad magic"))
  | .diffBased, _ => (.diffBased, .ok false)

end ViewPlan

instance : PlanLogic (ViewPlan Op J) where
  kind := ViewPlan.kind
  apply := ViewPlan.apply
  seedFromSnapshots := ViewPlan.seedFromSnapshots
  gcWatermark := ViewPlan.gcWatermark
  checkpointState := ViewPlan.checkpointState
  restoreStateBytes := ViewPlan.restoreStateBytes

end Krishiv.Ivm
