import TxnPath.Graph.Basic
import TxnPath.Router.Basic

/-!
# Replaying transactions

An executed query is resolved to the call it stands for (`Query.resolve`), which may fail and changes
nothing, and the call is then recorded behind the vertex reached before (`Graph.advance`). A query
that aborted its transaction also leads on to ABORT. `Graph.replay` records a whole trace; when a
query cannot be resolved, what was recorded before it stays.
-/

set_option autoImplicit false

namespace TxnPath

/-- The call that a query stands for, given the statements that its transaction called before. -/
def Query.resolve (q : Query) (p : Procedure) (r : Router) (base : Nat) (called : List StatementId) :
    Except Error Call :=
  match p.statement? q.statement with
  | none => .error (.catalog (.statementId p.name q.statement))
  | some s =>
    match r.route p s q.params base with
    | .error e => .error e
    | .ok touched =>
      if touched.isEmpty then .error (.routing (.nowhere p.name s.name))
      else .ok ⟨s.id, called.count s.id, touched, s.queryType⟩

/-- Where one query led. -/
structure Step where
  /-- The vertex of the query's call. -/
  vertex : Nat
  /-- ABORT, if the query aborted the transaction. -/
  abort : Option Nat
  deriving DecidableEq

/-- Where the path stands after the query. -/
def Step.last (s : Step) : Nat := s.abort.getD s.vertex

/-- The vertices that the query adds to the path. -/
def Step.path (s : Step) : List Nat := s.vertex :: s.abort.toList

namespace Graph

variable {R : Type} [Zero R]

/-- Records a call behind a vertex. -/
def advance (g : Graph R) (before : Nat) (c : Call) (q : Query) : Except Fault (Graph R × Step) := do
  let (g, v) := g.ensureCall c
  let g := match q.elapsed with
    | some nanos => g.addTime v nanos
    | none => g
  let (g, _) ← g.link? before v
  if q.aborted then
    let s ← g.requireSentinels
    pure ((g.link v s.abort).1, ⟨v, some s.abort⟩)
  else
    pure (g, ⟨v, none⟩)

/-- Records a query behind a vertex, given the statements called before. -/
def observe (g : Graph R) (before : Nat) (q : Query) (p : Procedure) (r : Router)
    (called : List StatementId) : Except Fault (Except Error (Graph R × Step × List StatementId)) :=
  match q.resolve p r g.base called with
  | .error e => .ok (.error e)
  | .ok c =>
    match g.advance before c q with
    | .error f => .error f
    | .ok (g, step) => .ok (.ok (g, step, called ++ [c.statement]))

/-- Records queries behind a vertex up to the first that aborts or cannot be resolved. Gives the
vertices visited, and whether one aborted. -/
def replayQueries (p : Procedure) (r : Router) (g : Graph R) (before : Nat) (called : List StatementId) :
    List Query → Except Fault (Graph R × List Nat × Except Error Bool)
  | [] => .ok (g, [], .ok false)
  | q :: rest =>
    match g.observe before q p r called with
    | .error f => .error f
    | .ok (.error e) => .ok (g, [], .error e)
    | .ok (.ok (g, step, called)) =>
      if step.abort.isSome then .ok (g, step.path, .ok true)
      else
        match replayQueries p r g step.vertex called rest with
        | .error f => .error f
        | .ok (g, visited, result) => .ok (g, step.vertex :: visited, result)

/-- Records a trace. Gives the path, from START to COMMIT or ABORT. -/
def replay (g : Graph R) (t : Trace) (p : Procedure) (r : Router) :
    Except Fault (Graph R × Except Error (List Nat)) := do
  let s ← g.requireSentinels
  let (g, visited, result) ← replayQueries p r g s.start [] t.queries
  match result with
  | .error e => pure (g, .error e)
  | .ok true => pure (g.recordTxn, .ok (s.start :: visited))
  | .ok false =>
    let last := (s.start :: visited).getLast (List.cons_ne_nil _ _)
    let terminal := if t.aborted then s.abort else s.commit
    pure ((g.link last terminal).1.recordTxn, .ok (s.start :: visited ++ [terminal]))

end Graph

end TxnPath
