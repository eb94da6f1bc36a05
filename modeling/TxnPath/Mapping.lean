import Std.Data.ExtTreeMap
import TxnPath.Ident
import TxnPath.Scalar

/-!
# Parameter correlations

A mapping says that a procedure argument, or one element of a list argument, feeds a parameter of a
statement at its given occurrence within a transaction. A `MappingTable` files recorded mappings by
statement and occurrence, and there by parameter; mappings of one parameter stay in recorded order,
which is the order in which they are tried unless the policy prefers high coefficients.
-/

set_option autoImplicit false

namespace TxnPath

open Std (ExtTreeMap TransCmp LawfulEqCmp)

/-- One recorded correlation. -/
structure Mapping (R : Type) where
  /-- The procedure. -/
  procedure : ProcedureId
  /-- The statement within the procedure. -/
  statement : StatementId
  /-- Which occurrence of the statement within a transaction, from zero. -/
  occurrence : Nat
  /-- The statement parameter that is fed. -/
  slot : Nat
  /-- The procedure argument that feeds it. -/
  argument : Nat
  /-- The element of that argument, where it is a list. -/
  element : Option Nat
  /-- How strongly the two are correlated. -/
  coefficient : R
  deriving DecidableEq

/-- How to choose among several mappings of one parameter. -/
inductive MappingPolicy where
  /-- Recorded order. -/
  | firstFound
  /-- Descending coefficient, recorded order among equal ones. -/
  | highestCoefficient
  deriving DecidableEq

/-- Mappings in the order in which they are tried. -/
def MappingPolicy.ordered {R : Type} [Scalar R] (p : MappingPolicy) (ms : List (Mapping R)) :
    List (Mapping R) :=
  match p with
  | .firstFound => ms
  | .highestCoefficient => Scalar.sortDescending Mapping.coefficient ms

/-- What mappings are filed under: an occurrence of a statement. -/
structure MappingKey where
  /-- The procedure. -/
  procedure : ProcedureId
  /-- The statement within the procedure. -/
  statement : StatementId
  /-- Which occurrence of the statement within a transaction, from zero. -/
  occurrence : Nat
  deriving DecidableEq

/-- Keys are ordered by procedure, then by statement, then by occurrence. -/
def MappingKey.order : MappingKey → MappingKey → Ordering :=
  compareLex (compareOn MappingKey.procedure)
    (compareLex (compareOn MappingKey.statement) (compareOn MappingKey.occurrence))

instance : TransCmp MappingKey.order := inferInstanceAs (TransCmp (compareLex _ _))

instance : LawfulEqCmp MappingKey.order where
  compare_self {a} := by simp [MappingKey.order, compareLex, compareOn]
  eq_of_compare {a b} h := by
    cases a; cases b
    simp only [MappingKey.order, compareLex, compareOn, Ordering.then_eq_eq, Nat.compare_eq_eq] at h
    simp [h.1, h.2.1, h.2.2]

/-- The mappings of one occurrence of a statement by parameter, in recorded order. -/
abbrev MappingSlots (R : Type) := ExtTreeMap Nat (List (Mapping R)) compare

/-- Mappings by key and parameter. -/
abbrev MappingFile (R : Type) := ExtTreeMap MappingKey (MappingSlots R) MappingKey.order

namespace Mapping

variable {R : Type}

/-- What a mapping is filed under. -/
def key (m : Mapping R) : MappingKey := ⟨m.procedure, m.statement, m.occurrence⟩

/-- Adds a mapping behind those of its parameter. -/
def fileSlot (slots : MappingSlots R) (m : Mapping R) : MappingSlots R :=
  slots.alter m.slot fun ms => some (ms.getD [] ++ [m])

/-- Adds a mapping under its key. -/
def file (f : MappingFile R) (m : Mapping R) : MappingFile R :=
  f.alter m.key fun slots => some (fileSlot (slots.getD ∅) m)

end Mapping

/-- Recorded mappings. -/
structure MappingTable (R : Type) where
  /-- The mappings, as they are looked up. -/
  byStatement : MappingFile R
  /-- The number of mappings. -/
  size : Nat
  /-- The table was filled one mapping at a time. -/
  filed : ∃ ms : List (Mapping R), byStatement = ms.foldl Mapping.file ∅ ∧ size = ms.length

namespace MappingTable

variable {R : Type}

/-- The table without mappings. -/
def empty : MappingTable R := ⟨∅, 0, [], rfl, rfl⟩

instance : EmptyCollection (MappingTable R) := ⟨empty⟩

instance : Inhabited (MappingTable R) := ⟨empty⟩

/-- Adds a mapping. -/
def add (t : MappingTable R) (m : Mapping R) : MappingTable R where
  byStatement := m.file t.byStatement
  size := t.size + 1
  filed := by
    obtain ⟨ms, hfile, hsize⟩ := t.filed
    refine ⟨ms ++ [m], ?_, ?_⟩
    · rw [List.foldl_append, hfile]
      rfl
    · rw [List.length_append, hsize]
      rfl

/-- The table of a list of mappings. -/
def ofList (ms : List (Mapping R)) : MappingTable R := ms.foldl add ∅

/-- The mappings by key and parameter, both ascending. -/
def toList (t : MappingTable R) : List (Mapping R) :=
  t.byStatement.toList.flatMap fun e => e.2.toList.flatMap Prod.snd

/-- The mappings for one occurrence of a statement, by parameter. -/
def statementMappings? (t : MappingTable R) (procedure : ProcedureId) (statement : StatementId)
    (occurrence : Nat) : Option (MappingSlots R) :=
  t.byStatement[(⟨procedure, statement, occurrence⟩ : MappingKey)]?

/-- The mappings for one occurrence of a statement, parameters ascending. -/
def ofStatement (t : MappingTable R) (procedure : ProcedureId) (statement : StatementId)
    (occurrence : Nat) : List (Mapping R) :=
  ((t.statementMappings? procedure statement occurrence).map
    fun slots => slots.toList.flatMap Prod.snd).getD []

/-- The mappings for one parameter of one occurrence of a statement, in recorded order. -/
def candidates (t : MappingTable R) (procedure : ProcedureId) (statement : StatementId)
    (occurrence slot : Nat) : List (Mapping R) :=
  ((t.statementMappings? procedure statement occurrence).bind (·[slot]?)).getD []

end MappingTable

end TxnPath
