import TxnPath.Error

/-!
# Errors of a design
-/

set_option autoImplicit false

namespace TxnPath

/-- Why there is no design, or why it cannot be applied. -/
inductive DesignError where
  /-- A query is for a statement that its procedure does not have. -/
  | unknownStatement (procedure : String) (id : StatementId)
  /-- A statement uses a table that there are no statistics for. -/
  | tableOfStatement (statement table : String)
  /-- The plan is for a table that the catalog does not have. -/
  | plannedTable (name : String)
  /-- The plan is for a procedure that the catalog does not have. -/
  | plannedProcedure (name : String)
  /-- There are no statistics for a table of the catalog. -/
  | missingStatistics (table : String)
  /-- An error of another component. -/
  | core (cause : Error)
  deriving DecidableEq

/-- The kind of an error of a design. -/
def DesignError.kind : DesignError → String
  | .missingStatistics _ => "Design.Stats"
  | .core cause => cause.kind
  | _ => "Design.Catalog"

/-- The wording of an error of a design. -/
def DesignError.message : DesignError → String
  | .unknownStatement procedure id => s!"catalog: procedure '{procedure}' has no statement {id.text}"
  | .tableOfStatement statement table => s!"catalog: statement '{statement}' uses unknown table '{table}'"
  | .plannedTable name => s!"catalog: plan names unknown table '{name}'"
  | .plannedProcedure name => s!"catalog: plan names unknown procedure '{name}'"
  | .missingStatistics table =>
    s!"missing or invalid statistics: no statistics for table '{table}'"
  | .core cause => cause.message

end TxnPath
