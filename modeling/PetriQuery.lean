import PetriQuery.Main
import PetriQuery.Proofs.Semantics.Translation
import PetriQuery.Proofs.Document.Building
import PetriQuery.Proofs.Selection
import PetriQuery.Proofs.Truthfulness
import PetriQuery.Proofs.Records
import PetriQuery.Proofs.Document.Depth
import PetriQuery.Proofs.Height
import PetriQuery.Proofs.Report.Lines
import PetriQuery.Proofs.Numeral.Shortest
import PetriQuery.Proofs.Numeral.Text
import PetriQuery.Proofs.Json
import PetriQuery.Proofs.Query.Serial
import PetriQuery.Proofs.Report.Json
import PetriQuery.Proofs.Logging.Calls
import PetriQuery.Proofs.Query.Text
import PetriQuery.Proofs.Content.Edits
import PetriQuery.Proofs.Document.Writing
import PetriQuery.Proofs.Grammar.Places
import PetriQuery.Proofs.Limit.Raising
import PetriQuery.Proofs.Semantics.Locality
import PetriQuery.Proofs.Grammar.Arrangement
import PetriQuery.Proofs.Grammar.Settings
import PetriQuery.Proofs.Grammar.Observables
import PetriQuery.Proofs.Size
import PetriQuery.Proofs.Grammar.Integers
import PetriQuery.Proofs.DeadBranches
import PetriQuery.Proofs.Limit.Depths
import PetriQuery.Proofs.Command.Meaning
import PetriQuery.Proofs.Document.Names
