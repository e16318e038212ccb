import PetriQuery.Command.Arguments
import PetriQuery.Proofs.Numeral.Decimal
import Mathlib.Algebra.Group.Nat.Defs
import Mathlib.Tactic.MkIffOfInductiveProp

/-!
# Spellings of the command line

What a command line gives, and how it can be spelled (`Spells`): a path, and options in any order
and number, each with its value in the same argument or in the next one. `Means` says what the
things that are given ask for, wherever they stand. Neither knows how the arguments are read.

Main facts: an argument is accepted iff it is a word, the two hyphens that end the options, or one
of the options as they can be spelled (`step_eq_ok_iff`), and a value iff it gives something
(`assign_eq_ok_iff`).
-/

set_option autoImplicit false

namespace PetriQuery.Command

/-! ## What is given -/

/-- A thing that arguments give. -/
inductive Given where
  | path (word : String)
  | select (indices : List Nat)
  | json
  | maxDepth (depth : Nat)
deriving DecidableEq, Repr

namespace Given

/-- The path, if this is one. -/
def path? : Given → Option String
  | .path word => some word
  | _ => none

/-- The indices that are selected here. -/
def indices : Given → List Nat
  | .select indices => indices
  | _ => []

/-- The depth, if this is one. -/
def depth? : Given → Option Nat
  | .maxDepth depth => some depth
  | _ => none

end Given

/-- What is given amounts to what is asked for: one path, all indices that are selected anywhere,
JSON at most once, and at most one depth, which is 256 if none is given. -/
@[mk_iff]
structure Means (given : List Given) (asked : Arguments) : Prop where
  path : given.filterMap Given.path? = [asked.path]
  selected : given.flatMap Given.indices = asked.selected
  json : given.count .json = asked.json.toNat
  depth : given.filterMap Given.depth? = [asked.maxDepth]
    ∨ given.filterMap Given.depth? = [] ∧ asked.maxDepth = 256

/-! ## Spellings -/

/-- The characters write a natural number of 64 bits in decimal, with a plus or without. -/
def WritesNumber (cs : List Char) (n : Nat) : Prop :=
  ∃ digits, (cs = digits ∨ cs = '+' :: digits) ∧ Numeral.IsDigits digits
    ∧ Nat.ofDigitChars 10 digits 0 = n ∧ n < 2 ^ 64

/-- The text writes numbers with commas between them. -/
def WritesNumbers (text : String) (ns : List Nat) : Prop :=
  ∃ pieces, text.toList = [','].intercalate pieces ∧ pieces ≠ []
    ∧ List.Forall₂ WritesNumber pieces ns

/-- What a parameter gives by a value. -/
inductive Gives : Parameter → String → Given → Prop
  | path {word : String} : word ≠ "" → Gives .path word (.path word)
  | select {value : String} {indices : List Nat} :
      WritesNumbers value indices → Gives .select value (.select indices)
  | maxDepth {value : String} {depth : Nat} :
      WritesNumber value.toList depth → Gives .maxDepth value (.maxDepth depth)

/-- An argument that is no option, because no character follows a hyphen at its start. -/
def IsWord (argument : String) : Prop := ∀ c rest, argument.toList ≠ '-' :: c :: rest

/-- An option for a parameter, a value of it, and the argument that is both of them. -/
inductive Joins : Parameter → String → String → Prop
  | short {value : String} :
      value ≠ "" → value.toList.head? ≠ some '=' → Joins .select value ("-s" ++ value)
  | shortEquals (value : String) : Joins .select value ("-s=" ++ value)
  | long (value : String) : Joins .select value ("--select=" ++ value)
  | maxDepth (value : String) : Joins .maxDepth value ("--max-depth=" ++ value)

/-- An option whose value is the next argument. -/
inductive Names : Parameter → String → Prop
  | short : Names .select "-s"
  | long : Names .select "--select"
  | maxDepth : Names .maxDepth "--max-depth"

/-- The arguments spell one thing that is given. -/
inductive SpellsOne : Given → List String → Prop
  | path {word : String} : IsWord word → word ≠ "" → SpellsOne (.path word) [word]
  | json : SpellsOne .json ["--json"]
  | joined {parameter : Parameter} {argument value : String} {one : Given} :
      Joins parameter value argument → Gives parameter value one → SpellsOne one [argument]
  | apart {parameter : Parameter} {argument value : String} {one : Given} :
      Names parameter argument → IsWord value → Gives parameter value one →
      SpellsOne one [argument, value]

/-- The arguments spell what is given. Behind two hyphens, all arguments are paths. -/
inductive Spells : List Given → List String → Prop
  | nil : Spells [] []
  | ended {words : List String} :
      (∀ word ∈ words, word ≠ "") → Spells (words.map .path) ("--" :: words)
  | one {one : Given} {arguments : List String} {given : List Given} {rest : List String} :
      SpellsOne one arguments → Spells given rest → Spells (one :: given) (arguments ++ rest)

/-! ## One argument -/

/-- What an option does where nothing is pending. -/
inductive Does : String → (State → Except Refusal State) → Prop
  | joined {parameter : Parameter} {value argument : String} :
      Joins parameter value argument → Does argument fun state => assign state parameter value
  | named {parameter : Parameter} {argument : String} :
      Names parameter argument →
      Does argument fun state => .ok { state with pending? := some (parameter, none) }
  | json :
      Does "--json" fun state =>
        if state.json then .error .argumentConflict else .ok { state with json := true }

/-- The state behind two hyphens. -/
def State.close (state : State) : State := { state with optionsEnded := true }

/-- What stands before the first equals sign of a long option, and what is left from there. -/
theorem takeWhile_name {name : List Char} (plain : '=' ∉ name) (value : List Char) :
    (name ++ '=' :: value).takeWhile (fun c => c ≠ '=') = name
      ∧ (name ++ '=' :: value).dropWhile (fun c => c ≠ '=') = '=' :: value := by
  have all : ∀ c ∈ name, decide (c ≠ '=') = true :=
    fun c member => decide_eq_true (ne_of_mem_of_not_mem member plain)
  constructor
  · rw [List.takeWhile_append_of_pos all]
    simp
  · rw [List.dropWhile_append_of_pos all]
    simp

section Step

variable {state state' : State} {argument : String} {body : List Char}
  {does : State → Except Refusal State}

/-- Behind two hyphens, everything is a word. -/
theorem step_of_ended (ended : state.optionsEnded = true) (argument : String) :
    step state argument = giveWord state argument := if_pos ended

theorem step_word (word : IsWord argument) : step state argument = giveWord state argument := by
  rw [step]
  split
  · rfl
  · split
    · next characters => exact absurd characters (word '-' [])
    · next body _ characters => exact absurd characters (word '-' body)
    · rfl
    · next body _ _ alone characters =>
      cases body with
      | nil => exact absurd rfl alone
      | cons c rest => exact absurd characters (word c rest)
    · rfl

theorem step_end (opened : state.optionsEnded = false) :
    step state "--" = .ok state.close := by
  rw [step, opened]
  rfl

/-- An option takes effect behind the pending value. -/
theorem step_option (opened : state.optionsEnded = false) (option : Does argument does) :
    step state argument = settle state >>= does := by
  rw [step, opened]
  cases option with
  | json => rfl
  | named names => cases names <;> rfl
  | @joined _ value _ joins =>
    have given {parameter : Parameter} :
        give state parameter (some (String.ofList value.toList))
          = settle state >>= fun settled => assign settled parameter value := by
      rw [String.ofList_toList]
      rfl
    cases joins with
    | short nonempty other =>
      obtain ⟨c, rest, characters⟩ :=
        List.exists_cons_of_ne_nil (mt String.toList_eq_nil_iff.1 nonempty)
      rw [String.toList_append]
      change giveShort state ('s' :: value.toList) = _
      rw [← given, characters, giveShort]
      · exact List.cons_ne_nil c rest
      · rintro others same
        rw [characters, same] at other
        exact other rfl
    | shortEquals =>
      rw [String.toList_append]
      exact given
    | long =>
      rw [String.toList_append]
      change giveLong state ("select".toList ++ '=' :: value.toList) = _
      have plain : '=' ∉ "select".toList := by decide
      rw [giveLong, (takeWhile_name plain _).1, (takeWhile_name plain _).2]
      exact given
    | maxDepth =>
      rw [String.toList_append]
      change giveLong state ("max-depth".toList ++ '=' :: value.toList) = _
      have plain : '=' ∉ "max-depth".toList := by decide
      rw [giveLong, (takeWhile_name plain _).1, (takeWhile_name plain _).2]
      exact given

/-- What ends the reading is not accepted. -/
theorem stop_ne_ok {refusal : Refusal} : stop state refusal ≠ .ok state' := by
  intro stopped
  obtain ⟨_, _, refused⟩ := bind_eq_ok_iff.1 stopped
  cases refused

theorem exists_does_of_giveLong (characters : argument.toList = '-' :: '-' :: body)
    (given : giveLong state body = .ok state') :
    ∃ does, Does argument does ∧ (settle state >>= does) = .ok state' := by
  have parts := List.takeWhile_append_dropWhile (p := fun c => decide (c ≠ '=')) (l := body)
  rw [giveLong] at given
  generalize named : String.ofList (body.takeWhile fun c => decide (c ≠ '=')) = name at given
  have first : body.takeWhile (fun c => decide (c ≠ '=')) = name.toList := by
    rw [← named, String.toList_ofList]
  rw [first] at parts
  cases behind : body.dropWhile fun c => decide (c ≠ '=') with
  | nil =>
    have whole : argument = "--" ++ name := by
      rw [← String.toList_inj, characters, String.toList_append, ← parts, behind, List.append_nil]
      rfl
    simp only [behind, Option.isSome_none, Bool.false_eq_true, if_false] at given
    split at given
    · exact ⟨_, .named (whole ▸ .long), given⟩
    · exact ⟨_, .named (whole ▸ .maxDepth), given⟩
    · exact ⟨_, whole ▸ .json, given⟩
    · exact absurd given stop_ne_ok
    · exact absurd given stop_ne_ok
    · cases given
  | cons c value =>
    have equals : c = '=' := by
      have stopped := List.head?_dropWhile_not (fun c => decide (c ≠ '=')) body
      rw [behind] at stopped
      simpa using stopped
    have whole : argument = "--" ++ name ++ "=" ++ String.ofList value := by
      rw [← String.toList_inj, characters, ← parts, behind, equals]
      simp
    simp only [behind, Option.isSome_some, if_true] at given
    split at given
    · exact ⟨_, .joined (whole ▸ .long _), given⟩
    · exact ⟨_, .joined (whole ▸ .maxDepth _), given⟩
    all_goals cases given

theorem exists_does_of_giveShort (characters : argument.toList = '-' :: body)
    (given : giveShort state body = .ok state') :
    ∃ does, Does argument does ∧ (settle state >>= does) = .ok state' := by
  unfold giveShort at given
  split at given
  · have whole : argument = "-s" := String.toList_inj.1 characters
    exact ⟨_, .named (whole ▸ .short), given⟩
  · next value =>
    have whole : argument = "-s=" ++ String.ofList value := by
      rw [← String.toList_inj, characters]
      simp
    exact ⟨_, .joined (whole ▸ .shortEquals _), given⟩
  · next value some other =>
    have whole : argument = "-s" ++ String.ofList value := by
      rw [← String.toList_inj, characters]
      simp
    refine ⟨_, .joined (whole ▸ .short ?_ ?_), given⟩
    · simpa [← String.toList_inj] using some
    · rw [String.toList_ofList]
      intro starts
      obtain ⟨rest, same⟩ := List.head?_eq_some_iff.1 starts
      exact other rest same
  · exact absurd given stop_ne_ok
  · exact absurd given stop_ne_ok
  · cases given

/-- While options may follow, an argument is accepted iff it is a word, the two hyphens that end the
options, or an option. -/
theorem step_eq_ok_iff (opened : state.optionsEnded = false) :
    step state argument = .ok state'
      ↔ IsWord argument ∧ giveWord state argument = .ok state'
        ∨ argument = "--" ∧ state' = state.close
        ∨ ∃ does, Does argument does ∧ (settle state >>= does) = .ok state' := by
  constructor
  · intro stepped
    rw [step, opened] at stepped
    simp only [Bool.false_eq_true, if_false] at stepped
    split at stepped
    · next characters =>
      exact .inr (.inl ⟨String.toList_inj.1 characters, (Except.ok.inj stepped).symm⟩)
    · next characters => exact .inr (.inr (exists_does_of_giveLong characters stepped))
    · next characters =>
      refine .inl ⟨?_, stepped⟩
      intro c rest same
      rw [characters] at same
      cases same
    · next characters => exact .inr (.inr (exists_does_of_giveShort characters stepped))
    · next other =>
      exact .inl ⟨fun c rest => other (c :: rest), stepped⟩
  · rintro (⟨word, given⟩ | ⟨rfl, rfl⟩ | ⟨does, option, given⟩)
    · rw [step_word word, given]
    · exact step_end opened
    · rw [step_option opened option, given]

end Step

/-! ## Values -/

section Values

variable {state state' : State} {parameter : Parameter} {value : String}

theorem readNumber_eq_ok_iff {text : String} {n : Nat} :
    readNumber text = .ok n ↔ WritesNumber text.toList n := by
  rw [readNumber, mapError_eq_ok_iff, Numeral.readNat_eq_ok_iff]
  simp only [WritesNumber, Nat.lt_iff_le_pred (Nat.two_pow_pos 64)]

/-- There is no comma in a number. -/
theorem WritesNumber.noComma {cs : List Char} {n : Nat} (writes : WritesNumber cs n) :
    ',' ∉ cs := by
  obtain ⟨digits, same, ⟨-, all⟩, -⟩ := writes
  have none : ',' ∉ digits := fun member => absurd (all _ member) (by decide)
  rcases same with rfl | rfl
  · exact none
  · simpa using none

theorem readNumbers_eq_ok_iff {text : String} {ns : List Nat} :
    readNumbers text = .ok ns ↔ WritesNumbers text ns := by
  simp only [readNumbers, mapM_eq_ok_iff, readNumber_eq_ok_iff, String.toList_ofList]
  constructor
  · intro each
    exact ⟨_, (List.intercalate_splitOn ',').symm, List.splitOn_ne_nil _ _, each⟩
  · rintro ⟨pieces, same, some, each⟩
    have commas : ∀ piece ∈ pieces, ',' ∉ piece :=
      ((List.forall₂_and_left pieces ns).1 (each.imp fun _ _ writes => ⟨writes.noComma, writes⟩)).1
    rwa [same, List.splitOn_intercalate ',' commas some]

/-- The state without what is pending. -/
def State.clear (state : State) : State := { state with pending? := none }

/-- What the next thing does to a state. -/
def State.add (state : State) : Given → State
  | .path word => { state with path? := some word }
  | .select indices => { state with selected := state.selected ++ indices }
  | .json => { state with json := true }
  | .maxDepth depth => { state with maxDepth? := some depth }

/-- What is given changes nothing that is about reading. -/
theorem State.add_frame (state : State) (one : Given) :
    (state.add one).pending? = state.pending? ∧ (state.add one).hasPath = state.hasPath
      ∧ (state.add one).optionsEnded = state.optionsEnded := by
  cases one <;> exact ⟨rfl, rfl, rfl⟩

/-- A value is accepted iff it gives something, and of a depth there is none yet. -/
theorem assign_eq_ok_iff :
    assign state parameter value = .ok state'
      ↔ (parameter = .maxDepth → state.maxDepth? = none)
        ∧ ∃ one, Gives parameter value one ∧ state' = state.add one := by
  cases parameter with
  | path =>
    rw [assign]
    constructor
    · intro assigned
      by_cases empty : value = ""
      · rw [if_pos empty] at assigned
        cases assigned
      · rw [if_neg empty] at assigned
        exact ⟨nofun, _, .path empty, (Except.ok.inj assigned).symm⟩
    · rintro ⟨-, one, ⟨nonempty⟩, rfl⟩
      exact if_neg nonempty
  | select =>
    constructor
    · intro assigned
      obtain ⟨indices, read, same⟩ := bind_eq_ok_iff.1 assigned
      exact ⟨nofun, _, .select (readNumbers_eq_ok_iff.1 read), (Except.ok.inj same).symm⟩
    · rintro ⟨-, one, gives, rfl⟩
      cases gives with
      | select writes => exact bind_eq_ok_iff.2 ⟨_, readNumbers_eq_ok_iff.2 writes, rfl⟩
  | maxDepth =>
    rw [assign]
    constructor
    · intro assigned
      cases given : state.maxDepth? with
      | some depth =>
        rw [given] at assigned
        cases assigned
      | none =>
        rw [given] at assigned
        obtain ⟨depth, read, same⟩ := bind_eq_ok_iff.1 assigned
        exact ⟨fun _ => rfl, _, .maxDepth (readNumber_eq_ok_iff.1 read),
          (Except.ok.inj same).symm⟩
    · rintro ⟨first, one, gives, rfl⟩
      rw [first rfl]
      cases gives with
      | maxDepth writes => exact bind_eq_ok_iff.2 ⟨_, readNumber_eq_ok_iff.2 writes, rfl⟩

/-- Where nothing is pending, nothing is judged. -/
theorem settle_of_none (none : state.pending? = none) : settle state = .ok state := by
  rw [settle, none]

/-- A pending value is judged like one that is not. -/
theorem settle_of_some (waits : state.pending? = some (parameter, some value)) :
    settle state = assign state.clear parameter value := by
  rw [settle, waits]
  rfl

end Values

end PetriQuery.Command
