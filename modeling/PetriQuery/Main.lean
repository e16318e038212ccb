import PetriQuery.Command.Run

/-!
# The command line

Reads a document of queries and prints the report of its properties.
-/

set_option autoImplicit false

namespace PetriQuery

/-- How the command is used. -/
def usage : String :=
  String.intercalate "\n"
    ["Reads XML query documents as conditions on Petri nets",
      "",
      "Usage: petri-query [OPTIONS] <QUERIES>",
      "",
      "Arguments:",
      "  <QUERIES>  Path of the query document",
      "",
      "Options:",
      "  -s, --select <LIST>      Indices of the properties to read, from zero (default: all)",
      "      --json               Print the queries as JSON",
      "      --max-depth <DEPTH>  Maximum nesting depth of formulae (default: 256)",
      "  -h, --help               Print this text",
      "  -V, --version            Print the version"]

/-- What is said about arguments that are refused. -/
def Command.Refusal.message : Command.Refusal → String
  | .help => usage
  | .version => "petri-query 0.1.0"
  | .unknownArgument => "error: unexpected argument"
  | .missingArgument => "error: the path of a query document is required"
  | .invalidValue => "error: a value is required"
  | .valueValidation => "error: invalid value"
  | .argumentConflict => "error: an argument cannot be used multiple times"
  | .tooManyValues => "error: unexpected value for a flag"

/-- The fault that an error of the system stands for. -/
def FileFault.ofError : IO.Error → FileFault
  | .noFileOrDirectory .. => .noSuchFile
  | .permissionDenied _ code _ => ⟨"Permission denied", some code.toNat⟩
  | .inappropriateType _ code _ =>
    if code = 21 then .isFolder else if code = 20 then .notFolder
    else ⟨"Inappropriate type", some code.toNat⟩
  | error => ⟨toString error, none⟩

/-- Opens and reads the file at a path. A folder can be opened and not read. -/
def openFile (path : String) : IO (Except FileFault Source) := do
  try
    let content ← IO.FS.readBinFile path
    return .ok (.ok content.toList)
  catch error =>
    let fault := FileFault.ofError error
    return if fault = .isFolder then .ok (.error fault) else .error fault

/-- Runs the command. -/
def runCommand (arguments : List String) : IO UInt32 := do
  match Command.Arguments.read arguments with
  | .error refusal =>
    if refusal = .help ∨ refusal = .version then
      IO.println refusal.message
      return 0
    else
      IO.eprintln refusal.message
      return 2
  | .ok asked =>
    let opened ← openFile asked.path
    match (Command.run asked opened).result with
    | .ok output =>
      IO.print output
      return 0
    | .error failure =>
      IO.eprintln ("ERROR: " ++ failure.message)
      return 1

end PetriQuery

/-- The entry of the program. -/
def main (arguments : List String) : IO UInt32 := PetriQuery.runCommand arguments
