import TxnPath.Estimate
import TxnPath.Graph.Basic
import TxnPath.Router.Basic

/-!
# Walks

A walk predicts the path of a transaction. From a vertex it takes, again and again, the most probable
edge among those that agree with the transaction's arguments, until COMMIT, ABORT or a vertex without
such an edge. Its confidence is the product of the shares that the edges taken had among the edges
they were taken from. The first time that the walk touches a partition fixes what is predicted there;
when it ends, everything else is filled in from START.

No vertex is visited twice, so a walk visits at most as many vertices as there are.
-/

set_option autoImplicit false

namespace TxnPath

/-- All that a walk reads. -/
structure Journey (R : Type) where
  /-- The graph walked on. -/
  graph : Graph R
  /-- The procedure that is called. -/
  procedure : Procedure
  /-- How its arguments feed its statements. -/
  mappings : MappingTable R
  /-- Where statements belong. -/
  router : Router
  /-- The arguments of the call. -/
  args : List Value
  /-- How to choose among several mappings. -/
  policy : MappingPolicy
  /-- Whether to go anywhere when no edge agrees with the arguments. -/
  force : Bool
  /-- How often the graph must have been started before its abort probabilities count. -/
  minHitsForAbort : Nat

namespace Journey

variable {R : Type} [Scalar R]

/-- The value that a mapping gives, if the argument and its element exist. -/
def resolve? (j : Journey R) (m : Mapping R) : Option Value :=
  (j.args[m.argument]?).bind fun v =>
    match m.element with
    | none => some v
    | some i => v.list?.bind fun items => items[i]?

/-- The value of one parameter of a statement: that of the first mapping that gives one. -/
def feed? (j : Journey R) (s : Statement) (occurrence slot : Nat) : Option Value :=
  (j.policy.ordered (j.mappings.candidates j.procedure.id s.id occurrence slot)).findSome? j.resolve?

/-- The parameters of a statement as far as they can be told, no value for the others; none if not
even one can be told. -/
def params? (j : Journey R) (s : Statement) (occurrence : Nat) : Option (List Value) :=
  let fed := (List.range s.params.length).map (j.feed? s occurrence)
  if fed.any Option.isSome then some (fed.map fun v => v.getD .null) else none

/-- The partitions that a call of a statement is expected to touch, if that can be told. -/
def expected? (j : Journey R) (statement : StatementId) (occurrence : Nat) : Option PartitionSet :=
  (j.procedure.statement? statement).bind fun s =>
    (j.params? s occurrence).bind fun params =>
      match j.router.route j.procedure s params j.graph.base with
      | .ok touched => some touched
      | .error _ => none

/-- What the vertex stands for that a numbered edge leads to. -/
def ahead? (j : Journey R) (e : Edge R × Nat) : Option VertexKind :=
  j.graph.vertices[e.1.target]?.map Vertex.kind

/-- The numbered edges that lead from a vertex to one that has not been visited. Going nowhere twice
keeps walks finite where the graph has cycles. -/
def onwardEdges (j : Journey R) (visited : List Nat) (v : Nat) : List (Edge R × Nat) :=
  (j.graph.outgoing v).filter fun e => !visited.contains e.1.target

/-- What a first look at the edges that lead on brings. -/
structure Survey (R : Type) where
  /-- The edges that lead to COMMIT and to ABORT. -/
  ends : List (Edge R × Nat)
  /-- The statements that edges lead to calls of, each with its occurrence, no pair twice. -/
  pairs : List (StatementId × Nat)

/-- Looks at one edge more. -/
def Survey.look (j : Journey R) (found : Survey R) (e : Edge R × Nat) : Survey R :=
  match j.ahead? e with
  | some .commit | some .abort => { found with ends := found.ends ++ [e] }
  | some (.query c) =>
    if found.pairs.contains (c.statement, c.occurrence) then found
    else { found with pairs := found.pairs ++ [(c.statement, c.occurrence)] }
  | some .start | none => found

/-- Looks at several edges, one after the other. -/
def survey (j : Journey R) (onward : List (Edge R × Nat)) : Survey R :=
  onward.foldl (Survey.look j) ⟨[], []⟩

/-- Whether an edge leads to a call of a statement and occurrence that touches the partitions
given and no others. -/
def leadsTo (j : Journey R) (pair : StatementId × Nat) (touched : PartitionSet) (e : Edge R × Nat) :
    Bool :=
  match j.ahead? e with
  | some (.query c) => c.statement == pair.1 && c.occurrence == pair.2 && c.partitions == touched
  | _ => false

/-- Appends the edges to calls of a statement and occurrence that touch what is expected. It is
expected once per pair, however many edges lead to calls of it. -/
def collectPair (j : Journey R) (onward found : List (Edge R × Nat)) (pair : StatementId × Nat) :
    List (Edge R × Nat) :=
  match j.expected? pair.1 pair.2 with
  | some touched => found ++ onward.filter (j.leadsTo pair touched)
  | none => found

/-- The edges that agree with the arguments: those to COMMIT and ABORT, then pair by pair those to
calls that touch what is expected. -/
def collect (j : Journey R) (onward : List (Edge R × Nat)) : List (Edge R × Nat) :=
  let found := j.survey onward
  found.pairs.foldl (j.collectPair onward) found.ends

/-- Edges in order of creation, no edge twice. -/
def inOrder (es : List (Edge R × Nat)) : List (Edge R × Nat) :=
  (stableSort (fun a b => decide (a.2 ≤ b.2)) es).eraseRepsBy fun a b => a.2 == b.2

/-- The edges to take from a vertex, most probable first and in order of creation among equally
probable ones, given the vertices visited; and whether they are taken for want of better. -/
def candidates (j : Journey R) (visited : List Nat) (v : Nat) : List (Edge R) × Bool :=
  let onward := j.onwardEdges visited v
  let agreeing := j.collect onward
  let forced := agreeing.isEmpty && j.force
  let sorted := Scalar.sortDescending (fun e : Edge R × Nat => e.1.probability)
    (inOrder (if forced then onward else agreeing))
  (sorted.map Prod.fst, forced && !onward.isEmpty)

/-- The share of one edge among several; an equal share if all of them have no probability. -/
def share (chosen : Edge R) (among : List (Edge R)) : R :=
  let total := Scalar.sum (among.map Edge.probability)
  if 0 < total then chosen.probability / total else Scalar.ratio 1 among.length

end Journey

/-- A walker: the state of a walk, reused from one walk to the next. -/
structure Walker (R : Type) where
  /-- Whether it has been sent out since it was last finished. -/
  isInitialized : Bool
  /-- The confidence so far. -/
  confidence : R
  /-- The greatest abort probability met so far. -/
  greatestAbort : Option R
  /-- The partitions touched so far. -/
  touched : PartitionSet
  /-- The partitions read so far. -/
  read : PartitionSet
  /-- The partitions written so far. -/
  written : PartitionSet
  /-- The vertices visited, in order. -/
  visited : List Nat
  /-- The vertices that were reached for want of better. -/
  forced : List Nat
  /-- The estimate under way. -/
  estimate : Estimate R
  deriving DecidableEq

namespace Walker

variable {R : Type} [Scalar R]

/-- A walker that was never sent out. -/
def new : Walker R := ⟨false, 0, none, ∅, ∅, ∅, [], [], .new⟩

/-- The walker as it is put away. -/
def finish (w : Walker R) : Walker R :=
  ⟨false, 1, none, ∅, ∅, ∅, [], [], w.estimate.finish⟩

instance : Poolable (Walker R) where
  isInitialized := Walker.isInitialized
  finish := finish

/-- Changes the estimated probabilities. -/
def mapProbs (w : Walker R) (f : ProbabilityTable R → ProbabilityTable R) : Walker R :=
  { w with estimate := { w.estimate with probs := f w.estimate.probs } }

/-- Notes that a call reads a partition. -/
def noteRead (w : Walker R) (p : Nat) : Walker R :=
  if p ∈ w.read then w
  else
    { w.mapProbs fun t =>
        let t := t.set .readOnly p w.confidence
        if p ∈ w.touched then t else t.set .done p (1 - w.confidence)
      with read := w.read.insert p }

/-- Notes that a call writes a partition. -/
def noteWrite (w : Walker R) (p : Nat) : Walker R :=
  if p ∈ w.written then w
  else
    { w.mapProbs fun t =>
        let t := (t.set .readOnly p 0).set .write p w.confidence
        if p ∈ w.touched then t else t.set .done p (1 - w.confidence)
      with written := w.written.insert p }

/-- Notes that a call touches a partition of the graph. -/
def noteTouch (w : Walker R) (p : Nat) : Except Fault (Walker R) :=
  (w.estimate.touch? p).map fun estimate => { w with touched := w.touched.insert p, estimate := estimate }

/-- Notes what a call touches, and how likely an abort is there. -/
def noteCall (w : Walker R) (c : Call) (abort : Option R) : Except Fault (Walker R) := do
  -- Reads and writes are noted first: they look at what was touched before this call.
  let w := c.partitions.toList.foldl (if c.queryType.isReadOnly then noteRead else noteWrite) w
  let w ← c.partitions.toList.foldlM noteTouch w
  let w :=
    if 1 < w.touched.size ∧ w.estimate.probs.single.isNone then
      w.mapProbs fun t => { t with single := some (1 - w.confidence) }
    else w
  pure <|
    match abort with
    | none => w
    | some a =>
      { w with greatestAbort := some ((w.greatestAbort.map fun g => Scalar.larger g a).getD a) }

/-- Visits a vertex. -/
def visit (w : Walker R) (g : Graph R) (v : Nat) : Except Fault (Walker R) :=
  let w := { w with visited := w.visited ++ [v] }
  match g.vertices[v]? with
  | none => .error .outOfBounds
  | some x =>
    match x.kind with
    | .query c => w.noteCall c x.probs.abort
    | _ => .ok w

/-- Goes on from a vertex for at most `fuel` steps. -/
def follow (j : Journey R) : Nat → Walker R → Nat → Except Fault (Walker R)
  | 0, w, _ => .ok w
  | fuel + 1, w, v =>
    if j.graph.isTerminal v then .ok w
    else
      match j.candidates w.visited v with
      | ([], _) => .ok w
      | (chosen :: others, forced) =>
        -- An edge without rivals has the whole share and leaves the confidence as it is.
        let w := { w with
          confidence := w.confidence * Journey.share chosen (chosen :: others)
          forced := if forced then w.forced ++ [chosen.target] else w.forced }
        match w.visit j.graph chosen.target with
        | .error e => .error e
        | .ok w => follow j fuel w chosen.target

/-- Fills in one partition at the end of a walk: from START if it was not touched, else with what
touching it without writing or reading means. -/
def settlePartition (w : Walker R) (start : ProbabilityTable R) (t : ProbabilityTable R) (p : Nat) :
    ProbabilityTable R :=
  if p ∈ w.touched then
    let t := if (t.get? .write p).isNone then t.set .write p (1 - w.confidence) else t
    if (t.get? .readOnly p).isNone then t.set .readOnly p 0 else t
  else
    ((t.set .done p ((start.get? .done p).getD 0)).set .readOnly p ((start.get? .readOnly p).getD 0)).set
      .write p ((start.get? .write p).getD 0)

/-- The least probability, over the partitions not touched, that START is done there. -/
def leastUntouchedDone (w : Walker R) (start : ProbabilityTable R) (n : Nat) : R :=
  ((List.range n).filter fun p => !decide (p ∈ w.touched)).foldl
    (fun least p => Scalar.smaller least ((start.get? .done p).getD 0)) 1

/-- Completes the estimate at the end of a walk. -/
def settle (w : Walker R) (g : Graph R) (start : Vertex R) (minHitsForAbort : Nat) : Walker R :=
  let t := (List.range g.partitions).foldl (w.settlePartition start.probs) w.estimate.probs
  let single :=
    if w.touched.size = 1 then some (w.leastUntouchedDone start.probs g.partitions)
    else some (t.single.getD 0)
  let abort := if minHitsForAbort ≤ start.totalHits then w.greatestAbort.getD 0 else 1
  { w with
    estimate := { w.estimate with
      probs := { t with single := single, abort := some abort }
      confidence := some w.confidence } }

/-- Walks from a vertex to the end and completes the estimate. -/
def traverse (w : Walker R) (j : Journey R) (origin : Nat) : Except Fault (Walker R) := do
  if w.isInitialized then throw .walkerReused
  let w := { w with
    isInitialized := true
    confidence := 1
    estimate := w.estimate.init origin .initial j.graph.partitions }
  let w ← w.visit j.graph origin
  let w ← follow j j.graph.vertices.size w origin
  let s ← j.graph.requireSentinels
  match j.graph.vertices[s.start]? with
  | none => throw .outOfBounds
  | some start => pure (w.settle j.graph start j.minHitsForAbort)

end Walker

end TxnPath
