import PetriQuery.Command.Arguments
import PetriQuery.Report
import PetriQuery.Session

/-!
# Running the command

What the command prints: the report of the items of one document.
-/

set_option autoImplicit false

namespace PetriQuery.Command

/-- The options with which the document is read. -/
def Arguments.options (arguments : Arguments) : Grammar.Options :=
  ⟨arguments.selected, arguments.maxDepth⟩

/-- The report that the arguments ask for. The file at their path has been opened, or cannot be. -/
def run (arguments : Arguments) (opened : Except FileFault Source) : Traced Failure String := do
  let items ← load arguments.options arguments.path opened
  return Report.report arguments.json items

end PetriQuery.Command
