import TxnPath.Ident

/-!
# Errors

What can be wrong with a configuration, a catalog, a request for routing, or a document of graphs.
Each cause is a constructor with what it is about; `Error.message` words it. An error is an answer:
the operation that gives it leaves a usable state behind. What must never happen is a `Fault`.
-/

set_option autoImplicit false

namespace TxnPath

/-- What can be wrong with a configuration. -/
inductive ConfigError where
  /-- A cut-off is no probability. -/
  | threshold (name value : String)
  /-- The share of stale vertices is no positive probability. -/
  | proportion (value : String)
  /-- The tolerated drift is below zero. -/
  | tolerance
  deriving DecidableEq

/-- The wording of a configuration error. -/
def ConfigError.message : ConfigError → String
  | .threshold name value => s!"threshold {name}={value} outside [0, 1]"
  | .proportion value => s!"recompute_vertex_proportion={value} outside (0, 1]"
  | .tolerance => "recompute_tolerance must be non-negative"

/-- What can be wrong with a catalog, or with a reference into it. -/
inductive CatalogError where
  /-- There is nothing to partition over. -/
  | zeroPartitions
  /-- Two procedures have one number. -/
  | duplicateProcedure (id : ProcedureId)
  /-- A procedure is to be routed by a parameter that it does not have. -/
  | routingParameter (procedure : String) (index : Nat)
  /-- Two statements of a procedure have one number. -/
  | duplicateStatement (procedure : String) (id : StatementId)
  /-- A statement uses a table that the catalog does not have. -/
  | tableOfStatement (procedure statement table : String)
  /-- There is no procedure of this number. -/
  | procedureId (id : ProcedureId)
  /-- There is no procedure of this name. -/
  | procedureName (name : String)
  /-- There is no statement of this number in the procedure. -/
  | statementId (procedure : String) (id : StatementId)
  /-- There is no table of this name. -/
  | tableName (name : String)
  deriving DecidableEq

/-- The wording of a catalog error. -/
def CatalogError.message : CatalogError → String
  | .zeroPartitions => "catalog has zero partitions"
  | .duplicateProcedure id => s!"duplicate procedure id {id.text}"
  | .routingParameter procedure index =>
    s!"procedure '{procedure}' partition parameter {index} out of range"
  | .duplicateStatement procedure id => s!"procedure '{procedure}' has duplicate statement id {id.text}"
  | .tableOfStatement procedure statement table =>
    s!"statement '{procedure}.{statement}' references unknown table '{table}'"
  | .procedureId id => s!"unknown procedure {id.text}"
  | .procedureName name => s!"unknown procedure '{name}'"
  | .statementId procedure id => s!"procedure '{procedure}' has no statement {id.text}"
  | .tableName name => s!"unknown table '{name}'"

/-- Why a transaction or a statement cannot be routed. -/
inductive RoutingError where
  /-- The routing parameter is not among the arguments. -/
  | missingParameter (procedure : String) (index given : Nat)
  /-- The routing argument has no home. -/
  | homeless (procedure : String)
  /-- A statement is routed nowhere. -/
  | nowhere (procedure statement : String)
  /-- The transaction's path has ended already. -/
  | pathEnded (txn : TxnId)
  deriving DecidableEq

/-- The wording of a routing error. -/
def RoutingError.message : RoutingError → String
  | .missingParameter procedure index given =>
    s!"procedure '{procedure}' expects partitioning parameter {index}, got {given} parameters"
  | .homeless procedure => s!"procedure '{procedure}' partitioning parameter is not hashable"
  | .nowhere procedure statement => s!"statement '{procedure}.{statement}' touches no partitions"
  | .pathEnded txn => s!"transaction {txn.text} already ended its path"

/-- What can be wrong with a document of graphs. -/
inductive DocumentError where
  /-- The text is no such document. -/
  | unreadable
  /-- The document has a version that is not known. -/
  | unknownVersion (version : Nat)
  /-- A graph is for another number of partitions than the catalog's. -/
  | partitionCount (procedure : String) (graph catalog : Nat)
  /-- A vertex is for a statement that its procedure does not have. -/
  | unknownStatement (position : Nat) (statement : StatementId) (procedure : String)
  /-- Two vertices have one identity. -/
  | duplicateVertex (position : Nat) (label : String)
  /-- There are two vertices of one sentinel kind. -/
  | duplicateSentinel (procedure label : String)
  /-- There is no vertex of some sentinel kind. -/
  | missingSentinel (procedure : String) (base : Nat)
  /-- An edge ends outside the list of vertices. -/
  | danglingEdge (source target : Nat)
  /-- Two edges join one pair of vertices. -/
  | duplicateEdge (source target : Nat)
  deriving DecidableEq

/-- The wording of a document error. -/
def DocumentError.message : DocumentError → String
  | .unreadable => "not a graphs document"
  | .unknownVersion version => s!"unsupported graphs document version {version}"
  | .partitionCount procedure graph catalog =>
    s!"graph for '{procedure}' has {graph} partitions, catalog has {catalog}"
  | .unknownStatement position statement procedure =>
    s!"vertex {position} references unknown statement {statement.text} of '{procedure}'"
  | .duplicateVertex position label => s!"vertex {position} duplicates {label}"
  | .duplicateSentinel procedure label => s!"graph for '{procedure}' has more than one {label} vertex"
  | .missingSentinel procedure base =>
    s!"graph for '{procedure}' at partition {partitionText base} is missing a sentinel vertex"
  | .danglingEdge source target => s!"edge {source} -> {target} out of range"
  | .duplicateEdge source target => s!"duplicate edge {vertexText source} -> {vertexText target}"

/-- An error of the catalog, the configuration, the routing or the stored graphs. -/
inductive Error where
  /-- The configuration is refused. -/
  | config (cause : ConfigError)
  /-- The catalog is refused, or lacks what is asked for. -/
  | catalog (cause : CatalogError)
  /-- There is no route. -/
  | routing (cause : RoutingError)
  /-- A document of graphs is refused. -/
  | document (cause : DocumentError)
  /-- A file cannot be read or written. -/
  | file (reason : String)
  /-- A promise within a component was found broken and reported. -/
  | invariant (reason : String)
  /-- The digest in a document is not that of its graphs. -/
  | checksum (expected found : String)
  deriving DecidableEq

/-- The kind of an error. -/
def Error.kind : Error → String
  | .config _ => "Config"
  | .catalog _ => "Catalog"
  | .routing _ => "Estimation"
  | .document _ => "Persist"
  | .file _ => "IoLike"
  | .invariant _ => "Invariant"
  | .checksum .. => "ChecksumMismatch"

/-- The wording of an error. -/
def Error.message : Error → String
  | .config cause => s!"Invalid configuration: {cause.message}"
  | .catalog cause => s!"Catalog error: {cause.message}"
  | .routing cause => s!"Partition estimation error: {cause.message}"
  | .document cause => s!"Persistence error: {cause.message}"
  | .file reason => s!"I/O-like error (mapped into core): {reason}"
  | .invariant reason => s!"Internal invariant failed: {reason}"
  | .checksum expected found => s!"checksum mismatch: expected {expected}, found {found}"

end TxnPath
