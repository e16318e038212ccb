import PetriQuery.Document.Building
import PetriQuery.Grammar.Fault

/-!
# Failures

What a run over a document fails with: a cause, and the contexts in which it arose, the outermost
one first. The message of a failure names the contexts and then the cause.
-/

set_option autoImplicit false

namespace PetriQuery

/-- What was being done when a failure arose. -/
inductive Context where
  | opening (path : String)
  | file (path : String)
  | document
  | property (index : Nat)
  | settings (id : String)
  | formula (id : String)
  | observables (id : String)
deriving DecidableEq, Repr

/-- The wording of a context. -/
def Context.message : Context → String
  | .opening path => s!"failed to create reader from file '{path}'"
  | .file path => s!"failed to parse queries in '{path}'"
  | .document => "failed to read query document"
  | .property index => s!"failed to parse property at index {index}"
  | .settings id => s!"failed to parse SMC settings of property '{id}'"
  | .formula id => s!"failed to parse formula of property '{id}'"
  | .observables id => s!"failed to parse observables of property '{id}'"

/-- Why a run fails. -/
inductive Cause where
  /-- The file cannot be opened. -/
  | file (fault : FileFault)
  /-- The document has no tree. -/
  | tree (fault : Document.TreeFault)
  /-- The tree is no set of queries. -/
  | grammar (fault : Grammar.Fault)
deriving DecidableEq, Repr

/-- The wording of a cause, with its own causes. -/
def Cause.chain : Cause → List String
  | .file fault => ["I/O error: " ++ fault.message, fault.message]
  | .tree fault => fault.chain
  | .grammar fault => [fault.message]

/-- A cause in its contexts. -/
structure Failure where
  contexts : List Context
  cause : Cause
deriving DecidableEq, Repr

namespace Failure

/-- A failure without context. -/
def ofCause (cause : Cause) : Failure := ⟨[], cause⟩

/-- A failure in one more context. -/
def within (context : Context) (failure : Failure) : Failure :=
  ⟨context :: failure.contexts, failure.cause⟩

/-- The message of a failure. -/
def message (failure : Failure) : String :=
  String.intercalate ": " (failure.contexts.map Context.message ++ failure.cause.chain)

end Failure

end PetriQuery
