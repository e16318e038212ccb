import PetriQuery.Numeral.Integer

/-!
# Arguments of the command line

Reading the arguments into what they ask for: the path of a document, a selection of its properties,
the form of the report and the depth to which formulae may nest.

Arguments are read from left to right. The value of an option that stands in an argument of its own,
and the path, are judged only when the next argument that is understood has come, or the end; so an
argument that is not understood wins over a bad value right before it. A value in the same argument
as its option is judged at once.
-/

set_option autoImplicit false

namespace PetriQuery.Command

/-- What the arguments ask for. -/
structure Arguments where
  path : String
  /-- The indices of the properties that are wanted, in the order given. -/
  selected : List Nat
  json : Bool
  maxDepth : Nat
deriving DecidableEq, Repr

/-- Why nothing is run. -/
inductive Refusal where
  | help
  | version
  | unknownArgument
  | missingArgument
  /-- An option has no value, or the path is empty. -/
  | invalidValue
  /-- A value is no number of the wanted range. -/
  | valueValidation
  /-- An argument that counts once is given twice. -/
  | argumentConflict
  /-- A value is given to a flag. -/
  | tooManyValues
deriving DecidableEq, Repr

/-- The parameters that take a value. -/
inductive Parameter where
  | path
  | select
  | maxDepth
deriving DecidableEq, Repr

/-- What the arguments so far have said. A parameter whose value has not been judged, or has not
come, is in `pending?`. -/
structure State where
  path? : Option String := none
  selected : List Nat := []
  json : Bool := false
  maxDepth? : Option Nat := none
  pending? : Option (Parameter × Option String) := none
  /-- A path has been given, judged or not. -/
  hasPath : Bool := false
  /-- No option may follow any more. -/
  optionsEnded : Bool := false

/-- A number of 64 bits. -/
def readNumber (text : String) : Except Refusal Nat :=
  (Numeral.readNat 10 0xffffffffffffffff text.toList).mapError fun _ => .valueValidation

/-- The numbers in a list with commas between them. -/
def readNumbers (text : String) : Except Refusal (List Nat) :=
  (text.toList.splitOn ',').mapM fun piece => readNumber (String.ofList piece)

/-- Judges the value of a parameter. -/
def assign (state : State) (parameter : Parameter) (value : String) : Except Refusal State :=
  match parameter with
  | .path =>
    if value = "" then .error .invalidValue else .ok { state with path? := some value }
  | .select => do
    let numbers ← readNumbers value
    return { state with selected := state.selected ++ numbers }
  | .maxDepth => do
    if state.maxDepth?.isSome then .error .argumentConflict
    else
      let number ← readNumber value
      return { state with maxDepth? := some number }

/-- Judges the parameter that is pending, if one is. -/
def settle (state : State) : Except Refusal State :=
  match state.pending? with
  | none => .ok state
  | some (_, none) => .error .invalidValue
  | some (parameter, some value) => assign { state with pending? := none } parameter value

/-- A parameter with a value in the same argument, or with none yet. -/
def give (state : State) (parameter : Parameter) (value? : Option String) :
    Except Refusal State := do
  let state ← settle state
  match value? with
  | some value => assign state parameter value
  | none => return { state with pending? := some (parameter, none) }

/-- The flag that asks for JSON. -/
def giveJson (state : State) : Except Refusal State := do
  let state ← settle state
  if state.json then .error .argumentConflict else .ok { state with json := true }

/-- An argument that ends the reading. -/
def stop (state : State) (refusal : Refusal) : Except Refusal State := do
  -- A bad value right before wins.
  let _ ← settle state
  .error refusal

/-- A path, or the value that is waited for as long as options may follow. -/
def giveWord (state : State) (word : String) : Except Refusal State :=
  match state.pending?, state.optionsEnded with
  -- Kept, and judged when the next argument comes.
  | some (parameter, none), false => .ok { state with pending? := some (parameter, some word) }
  | _, _ =>
    if state.hasPath then .error .unknownArgument
    else do
      let state ← settle state
      return { state with pending? := some (.path, some word), hasPath := true }

/-- A long option, without its two hyphens. -/
def giveLong (state : State) (body : List Char) : Except Refusal State :=
  let name := String.ofList (body.takeWhile fun c => c ≠ '=')
  let value? :=
    match body.dropWhile fun c => c ≠ '=' with
    | [] => none
    | _ :: value => some (String.ofList value)
  let flag (given : Except Refusal State) : Except Refusal State :=
    if value?.isSome then .error .tooManyValues else given
  match name with
  | "select" => give state .select value?
  | "max-depth" => give state .maxDepth value?
  | "json" => flag (giveJson state)
  | "help" => flag (stop state .help)
  | "version" => flag (stop state .version)
  | _ => .error .unknownArgument

/-- A short option, without its hyphen. Its value may follow at once, or behind an equals sign. -/
def giveShort (state : State) : List Char → Except Refusal State
  | ['s'] => give state .select none
  | 's' :: '=' :: value => give state .select (some (String.ofList value))
  | 's' :: value => give state .select (some (String.ofList value))
  | 'h' :: _ => stop state .help
  | 'V' :: _ => stop state .version
  | _ => .error .unknownArgument

/-- Reads one argument. -/
def step (state : State) (argument : String) : Except Refusal State :=
  if state.optionsEnded then giveWord state argument
  else
    match argument.toList with
    | ['-', '-'] => .ok { state with optionsEnded := true }
    | '-' :: '-' :: body => giveLong state body
    | ['-'] => giveWord state argument
    | '-' :: body => giveShort state body
    | _ => giveWord state argument

/-- The nesting depth that is allowed if the arguments give none. -/
def defaultDepth : Nat := 256

/-- What the arguments so far ask for, if none follows. -/
def finish (state : State) : Except Refusal Arguments := do
  let state ← settle state
  match state.path? with
  | none => .error .missingArgument
  | some path =>
    return ⟨path, state.selected, state.json, state.maxDepth?.getD defaultDepth⟩

/-- Reads the arguments after the name of the program. -/
def Arguments.read (arguments : List String) : Except Refusal Arguments := do
  finish (← arguments.foldlM step {})

end PetriQuery.Command
