import PetriQuery.Proofs.Command.Spelling

/-!
# Reading the command line

The reader keeps the value of an argument of its own until the next argument comes, to be able to
refuse that one first. Which arguments are accepted, and as what, does not depend on it: a value can
be judged at once (`accepts_pending_iff`). So the reader is in a settled state after each thing that
is given, and such a state is all that was given before (`State.given`).

Main fact: arguments are accepted as what they spell (`read_eq_ok_iff`).
-/

set_option autoImplicit false

namespace PetriQuery.Command

/-! ## Pending values -/

/-- From the state on, the arguments are accepted as what is asked for. -/
def Accepts (state : State) (arguments : List String) (asked : Arguments) : Prop :=
  (arguments.foldlM step state >>= finish) = .ok asked

section Pending

variable {state state' : State} {parameter : Parameter} {value : String} {asked : Arguments}

theorem accepts_nil_iff : Accepts state [] asked ↔ finish state = .ok asked := Iff.rfl

theorem accepts_cons_iff {argument : String} {rest : List String} :
    Accepts state (argument :: rest) asked
      ↔ ∃ state', step state argument = .ok state' ∧ Accepts state' rest asked := by
  rw [Accepts, List.foldlM_cons, bind_assoc, bind_eq_ok_iff]
  exact Iff.rfl

/-- Two hyphens end the options. -/
theorem accepts_end_iff (opened : state.optionsEnded = false) {rest : List String} :
    Accepts state ("--" :: rest) asked ↔ Accepts state.close rest asked := by
  rw [accepts_cons_iff, step_end opened]
  simp only [Except.ok.injEq, exists_eq_left']

/-- Where no value is missing, a word is a path, and a second one is refused. -/
theorem giveWord_eq (complete : ∀ parameter, state.pending? ≠ some (parameter, none))
    (word : String) :
    giveWord state word
      = if state.hasPath then .error .unknownArgument
        else settle state >>= fun settled =>
          .ok { settled with pending? := some (.path, some word), hasPath := true } := by
  rw [giveWord]
  split
  · next missing _ => exact absurd missing (complete _)
  · rfl

section Waiting

variable (waits : state.pending? = some (parameter, some value))

include waits

/-- Once a pending value is judged, nothing is pending. -/
theorem frame_of_settle {settled : State} (judged : settle state = .ok settled) :
    settled.pending? = none ∧ settled.hasPath = state.hasPath
      ∧ settled.optionsEnded = state.optionsEnded := by
  rw [settle_of_some waits] at judged
  obtain ⟨-, one, -, rfl⟩ := assign_eq_ok_iff.1 judged
  exact State.add_frame _ one

/-- What begins with judging a pending value can begin behind that. -/
theorem settle_bind_eq_ok_iff {α : Type} {next : State → Except Refusal α} {a : α} :
    (settle state >>= next) = .ok a
      ↔ ∃ settled, settle state = .ok settled ∧ (settle settled >>= next) = .ok a := by
  rw [bind_eq_ok_iff]
  refine exists_congr fun settled => and_congr_right fun judged => ?_
  rw [settle_of_none (frame_of_settle waits judged).1]
  exact Iff.rfl

theorem giveWord_eq_ok_iff {word : String} :
    giveWord state word = .ok state'
      ↔ ∃ settled, settle state = .ok settled ∧ giveWord settled word = .ok state' := by
  rw [giveWord_eq (by simp [waits])]
  have judges {settled : State} (judged : settle state = .ok settled) :
      giveWord settled word
        = if state.hasPath then .error .unknownArgument
          else settle settled >>= fun settled =>
            .ok { settled with pending? := some (.path, some word), hasPath := true } := by
    obtain ⟨nothing, hasPath, -⟩ := frame_of_settle waits judged
    rw [giveWord_eq (by simp [nothing]), hasPath]
  by_cases second : state.hasPath = true
  · rw [if_pos second]
    refine iff_of_false nofun ?_
    rintro ⟨settled, judged, given⟩
    rw [judges judged, if_pos second] at given
    cases given
  · rw [if_neg second, settle_bind_eq_ok_iff waits]
    refine exists_congr fun settled => and_congr_right fun judged => ?_
    rw [judges judged, if_neg second]

/-- An argument behind a pending value is accepted iff the value is accepted, and then the argument,
unless it ends the options. -/
theorem step_eq_ok_iff_of_pending {argument : String}
    (other : ¬(state.optionsEnded = false ∧ argument = "--")) :
    step state argument = .ok state'
      ↔ ∃ settled, settle state = .ok settled ∧ step settled argument = .ok state' := by
  have same {settled : State} (judged : settle state = .ok settled) :=
    (frame_of_settle waits judged).2.2
  cases ended : state.optionsEnded with
  | true =>
    rw [step_of_ended ended, giveWord_eq_ok_iff waits]
    refine exists_congr fun settled => and_congr_right fun judged => ?_
    rw [step_of_ended ((same judged).trans ended)]
  | false =>
    constructor
    · intro stepped
      rcases (step_eq_ok_iff ended).1 stepped with ⟨word, given⟩ | ⟨hyphens, -⟩
        | ⟨does, option, given⟩
      · obtain ⟨settled, judged, given⟩ := (giveWord_eq_ok_iff waits).1 given
        exact ⟨settled, judged, (step_word word).trans given⟩
      · exact absurd ⟨ended, hyphens⟩ other
      · obtain ⟨settled, judged, given⟩ := (settle_bind_eq_ok_iff waits).1 given
        exact ⟨settled, judged, (step_option ((same judged).trans ended) option).trans given⟩
    · rintro ⟨settled, judged, stepped⟩
      rcases (step_eq_ok_iff ((same judged).trans ended)).1 stepped with ⟨word, given⟩
        | ⟨hyphens, -⟩ | ⟨does, option, given⟩
      · exact (step_word word).trans ((giveWord_eq_ok_iff waits).2 ⟨settled, judged, given⟩)
      · exact absurd ⟨ended, hyphens⟩ other
      · exact (step_option ended option).trans
          ((settle_bind_eq_ok_iff waits).2 ⟨settled, judged, given⟩)

/-- A pending value is accepted iff it gives something, and of a depth there is none yet. -/
theorem exists_settled_iff {P : State → Prop} :
    (∃ settled, settle state = .ok settled ∧ P settled)
      ↔ (parameter = .maxDepth → state.maxDepth? = none)
        ∧ ∃ one, Gives parameter value one ∧ P (state.clear.add one) := by
  simp only [settle_of_some waits, assign_eq_ok_iff]
  constructor
  · rintro ⟨settled, ⟨first, one, gives, rfl⟩, holds⟩
    exact ⟨first, one, gives, holds⟩
  · rintro ⟨first, one, gives, holds⟩
    exact ⟨_, ⟨first, one, gives, rfl⟩, holds⟩

/-- A pending value can be judged at once: it does not matter that the next argument is looked at
first. -/
theorem accepts_pending_iff {arguments : List String} :
    Accepts state arguments asked
      ↔ (parameter = .maxDepth → state.maxDepth? = none)
        ∧ ∃ one, Gives parameter value one
          ∧ Accepts (state.clear.add one) arguments asked := by
  induction arguments generalizing state with
  | nil => exact (settle_bind_eq_ok_iff waits).trans (exists_settled_iff waits)
  | cons argument rest ih =>
    by_cases ends : state.optionsEnded = false ∧ argument = "--"
    -- The end of the options leaves the value pending.
    · obtain ⟨opened, rfl⟩ := ends
      have commutes (one : Given) : (state.clear.add one).close = state.close.clear.add one := by
        cases one <;> rfl
      rw [accepts_end_iff opened, @ih state.close waits]
      refine and_congr_right fun _ => exists_congr fun one => and_congr_right fun _ => ?_
      rw [accepts_end_iff ((State.add_frame state.clear one).2.2.trans opened), commutes]
    · have judged := exists_settled_iff waits (P := fun settled =>
        Accepts settled (argument :: rest) asked)
      refine Iff.trans ?_ judged
      simp only [accepts_cons_iff, step_eq_ok_iff_of_pending waits ends]
      constructor
      · rintro ⟨state', ⟨settled, judged, stepped⟩, accepted⟩
        exact ⟨settled, judged, state', stepped, accepted⟩
      · rintro ⟨settled, judged, state', stepped, accepted⟩
        exact ⟨state', ⟨settled, judged, stepped⟩, accepted⟩

end Waiting

end Pending

/-! ## Settled states -/

/-- In the state nothing is pending, and whether there is a path is noted right. -/
structure State.Settled (state : State) : Prop where
  pending : state.pending? = none
  path : state.hasPath = state.path?.isSome

/-- All that was given, as far as the state knows. -/
def State.given (state : State) : List Given :=
  state.path?.toList.map .path ++ .select state.selected :: (if state.json then [.json] else [])
    ++ state.maxDepth?.toList.map .maxDepth

/-- The state behind one more thing that is given. -/
def State.take (state : State) : Given → State
  | .path word => { state with path? := some word, hasPath := true }
  | one => state.add one

/-- The state can be given one more thing: of paths, JSON and depths there is only one. -/
def State.Admits (state : State) : Given → Prop
  | .path _ => state.path? = none
  | .select _ => True
  | .json => state.json = false
  | .maxDepth _ => state.maxDepth? = none

section Settled

variable {state : State} {asked : Arguments} {given : List Given} {one : Given}

theorem State.Settled.take (settled : state.Settled) : (state.take one).Settled := by
  cases one with
  | path _ => exact ⟨settled.pending, rfl⟩
  | _ => exact ⟨settled.pending, settled.path⟩

theorem State.optionsEnded_take : (state.take one).optionsEnded = state.optionsEnded := by
  cases one <;> rfl

@[simp] theorem State.filterMap_path?_given :
    state.given.filterMap Given.path? = state.path?.toList := by
  obtain ⟨path?, selected, json, maxDepth?, -, -, -⟩ := state
  cases path? <;> cases json <;> cases maxDepth? <;> rfl

@[simp] theorem State.flatMap_indices_given :
    state.given.flatMap Given.indices = state.selected := by
  obtain ⟨path?, selected, json, maxDepth?, -, -, -⟩ := state
  cases path? <;> cases json <;> cases maxDepth? <;> exact List.append_nil selected

@[simp] theorem State.count_json_given : state.given.count .json = state.json.toNat := by
  obtain ⟨path?, selected, json, maxDepth?, -, -, -⟩ := state
  cases path? <;> cases json <;> cases maxDepth? <;> rfl

@[simp] theorem State.filterMap_depth?_given :
    state.given.filterMap Given.depth? = state.maxDepth?.toList := by
  obtain ⟨path?, selected, json, maxDepth?, -, -, -⟩ := state
  cases path? <;> cases json <;> cases maxDepth? <;> rfl

/-- What is given behind a state amounts to what is asked for iff it completes what the state has of
it. -/
theorem means_given_append_iff :
    Means (state.given ++ given) asked
      ↔ state.path?.toList ++ given.filterMap Given.path? = [asked.path]
        ∧ state.selected ++ given.flatMap Given.indices = asked.selected
        ∧ state.json.toNat + given.count .json = asked.json.toNat
        ∧ (state.maxDepth?.toList ++ given.filterMap Given.depth? = [asked.maxDepth]
          ∨ state.maxDepth?.toList ++ given.filterMap Given.depth? = []
            ∧ asked.maxDepth = 256) := by
  simp only [means_iff, List.filterMap_append, List.flatMap_append, List.count_append,
    State.filterMap_path?_given, State.flatMap_indices_given, State.count_json_given,
    State.filterMap_depth?_given]

/-- What a state admits can be given to it before the rest is. -/
theorem means_take_iff :
    state.Admits one ∧ Means ((state.take one).given ++ given) asked
      ↔ Means (state.given ++ one :: given) asked := by
  simp only [means_given_append_iff]
  cases one with
  | path word =>
    change state.path? = none ∧ word :: given.filterMap Given.path? = _ ∧ _
      ↔ state.path?.toList ++ word :: given.filterMap Given.path? = _ ∧ _
    cases state.path? with
    | none => exact and_iff_right rfl
    | some path =>
      refine iff_of_false (fun h => nomatch h.1) ?_
      rintro ⟨two, -⟩
      simp at two
  | select indices =>
    change True ∧ _ ∧ state.selected ++ indices ++ given.flatMap Given.indices = _ ∧ _
      ↔ _ ∧ state.selected ++ (indices ++ given.flatMap Given.indices) = _ ∧ _
    rw [List.append_assoc]
    exact and_iff_right trivial
  | json =>
    change state.json = false ∧ _ ∧ _ ∧ 1 + given.count .json = _ ∧ _
      ↔ _ ∧ _ ∧ state.json.toNat + (Given.json :: given).count .json = _ ∧ _
    rw [List.count_cons_self]
    cases state.json with
    | false =>
      rw [Nat.add_comm 1, Bool.toNat_false, Nat.zero_add]
      exact and_iff_right rfl
    | true =>
      refine iff_of_false (fun h => nomatch h.1) ?_
      rintro ⟨-, -, two, -⟩
      have once := Bool.toNat_le asked.json
      rw [Bool.toNat_true] at two
      omega
  | maxDepth depth =>
    change state.maxDepth? = none ∧ _ ∧ _ ∧ _
        ∧ (depth :: given.filterMap Given.depth? = _
          ∨ depth :: given.filterMap Given.depth? = _ ∧ _)
      ↔ _ ∧ _ ∧ _ ∧ (state.maxDepth?.toList ++ depth :: given.filterMap Given.depth? = _
        ∨ state.maxDepth?.toList ++ depth :: given.filterMap Given.depth? = _ ∧ _)
    cases state.maxDepth? with
    | none => exact and_iff_right rfl
    | some depth' =>
      refine iff_of_false (fun h => nomatch h.1) ?_
      rintro ⟨-, -, -, two | ⟨two, -⟩⟩
      · simp at two
      · simp at two

/-- At the end, what was given amounts to what is asked for, or it is refused. -/
theorem finish_eq_ok_iff (settled : state.Settled) :
    finish state = .ok asked ↔ Means state.given asked := by
  have whole := @means_given_append_iff state asked []
  rw [List.append_nil] at whole
  rw [whole, finish, bind_eq_ok_iff, settle_of_none settled.pending]
  simp only [Except.ok.injEq, exists_eq_left']
  have flags {a b : Bool} : a.toNat = b.toNat ↔ a = b := by cases a <;> cases b <;> decide
  obtain ⟨path, selected, json, maxDepth⟩ := asked
  cases state.path? with
  | none => simp
  | some path' =>
    simp only [pure, Except.pure, Except.ok.injEq, Arguments.mk.injEq, Option.toList_some,
      List.filterMap_nil, List.append_nil, List.cons.injEq, and_true, List.flatMap_nil,
      List.count_nil, Nat.add_zero]
    cases state.maxDepth? with
    | none => simp [flags, eq_comm, defaultDepth]
    | some depth => simp [flags]

end Settled

/-! ## Reading one thing -/

/-- The state with a parameter that waits for its value, or for it to be judged. -/
def State.wait (state : State) (parameter : Parameter) (value? : Option String) : State :=
  { state with pending? := some (parameter, value?) }

/-- The state in which a path has been found. -/
def State.found (state : State) : State := { state with hasPath := true }

theorem Joins.ne_path {parameter : Parameter} {argument value : String}
    (joins : Joins parameter value argument) : parameter ≠ .path := by
  cases joins <;> exact nofun

theorem Names.ne_path {parameter : Parameter} {argument : String}
    (names : Names parameter argument) : parameter ≠ .path := by
  cases names <;> exact nofun

section Missing

variable {state : State} {parameter : Parameter} {asked : Arguments} {rest : List String}

/-- A parameter without a value is refused at the end. -/
theorem not_accepts_nil_of_missing (missing : state.pending? = some (parameter, none)) :
    ¬ Accepts state [] asked := by
  intro accepted
  obtain ⟨settled, judged, -⟩ := bind_eq_ok_iff.1 (accepts_nil_iff.1 accepted)
  rw [settle, missing] at judged
  cases judged

/-- A parameter without a value is refused where no option may follow. -/
theorem not_accepts_of_missing (missing : state.pending? = some (parameter, none))
    (ended : state.optionsEnded = true) : ¬ Accepts state rest asked := by
  cases rest with
  | nil => exact not_accepts_nil_of_missing missing
  | cons word rest =>
    intro accepted
    obtain ⟨state', stepped, -⟩ := accepts_cons_iff.1 accepted
    rw [step_of_ended ended, giveWord] at stepped
    split at stepped
    · next opened =>
      rw [ended] at opened
      cases opened
    · split at stepped
      · cases stepped
      · rw [settle, missing] at stepped
        cases stepped

/-- A parameter without a value takes the next argument, which is a word. -/
theorem exists_value_of_accepts (opened : state.optionsEnded = false)
    (accepted : Accepts (state.wait parameter none) rest asked) :
    ∃ value rest', rest = value :: rest' ∧ IsWord value := by
  cases rest with
  | nil => exact absurd accepted (not_accepts_nil_of_missing rfl)
  | cons value rest =>
    obtain ⟨state', stepped, accepted⟩ := accepts_cons_iff.1 accepted
    rcases (step_eq_ok_iff (by exact opened)).1 stepped with ⟨word, -⟩ | ⟨-, rfl⟩ | ⟨does, -, given⟩
    · exact ⟨value, rest, rfl, word⟩
    · exact absurd accepted (not_accepts_of_missing rfl rfl)
    · cases given

end Missing

section Nothing

variable {state : State} {parameter : Parameter} {argument value : String} {asked : Arguments}
  {rest : List String} (nothing : state.pending? = none)

include nothing

theorem clear_wait {value? : Option String} : (state.wait parameter value?).clear = state := by
  obtain ⟨path?, selected, json, maxDepth?, pending?, hasPath, optionsEnded⟩ := state
  obtain rfl : pending? = none := nothing
  rfl

/-- A value that waits to be judged is accepted iff it gives something, and of a depth there is none
yet. -/
theorem accepts_wait_iff :
    Accepts (state.wait parameter (some value)) rest asked
      ↔ (parameter = .maxDepth → state.maxDepth? = none)
        ∧ ∃ one, Gives parameter value one ∧ Accepts (state.add one) rest asked := by
  have judged := @accepts_pending_iff (state.wait parameter (some value)) parameter value asked rfl
    rest
  rwa [clear_wait nothing] at judged

/-- The value of an option is accepted iff it gives something that the state admits. -/
theorem accepts_wait_option_iff (option : parameter ≠ .path) :
    Accepts (state.wait parameter (some value)) rest asked
      ↔ ∃ one, Gives parameter value one ∧ state.Admits one
        ∧ Accepts (state.take one) rest asked := by
  rw [accepts_wait_iff nothing, and_comm, ← exists_and_right]
  refine exists_congr fun one => ?_
  rw [and_assoc]
  refine and_congr_right fun gives => ?_
  rw [and_comm]
  cases gives with
  | path _ => exact absurd rfl option
  | select _ => exact and_congr_left' (iff_of_true nofun trivial)
  | maxDepth _ => exact and_congr_left' ⟨fun first => first rfl, fun first _ => first⟩

variable (opened : state.optionsEnded = false)

include opened

/-- Where nothing is pending, an option takes effect at once. -/
theorem step_option_of_none {does : State → Except Refusal State} (option : Does argument does) :
    step state argument = does state := by
  rw [step_option opened option, settle_of_none nothing]
  rfl

/-- An option with its value is accepted like a value that waits. -/
theorem accepts_joined_iff (joins : Joins parameter value argument) :
    Accepts state (argument :: rest) asked
      ↔ Accepts (state.wait parameter (some value)) rest asked := by
  rw [accepts_cons_iff, step_option_of_none nothing opened (.joined joins),
    accepts_wait_iff nothing]
  simp only [assign_eq_ok_iff]
  constructor
  · rintro ⟨state', ⟨first, one, gives, rfl⟩, accepted⟩
    exact ⟨first, one, gives, accepted⟩
  · rintro ⟨first, one, gives, accepted⟩
    exact ⟨_, ⟨first, one, gives, rfl⟩, accepted⟩

theorem accepts_named_iff (names : Names parameter argument) :
    Accepts state (argument :: rest) asked ↔ Accepts (state.wait parameter none) rest asked := by
  rw [accepts_cons_iff, step_option_of_none nothing opened (.named names)]
  simp only [Except.ok.injEq, exists_eq_left']
  exact Iff.rfl

omit nothing in
/-- The next argument is the value that is missing. -/
theorem accepts_missing_iff (word : IsWord value) :
    Accepts (state.wait parameter none) (value :: rest) asked
      ↔ Accepts (state.wait parameter (some value)) rest asked := by
  have given : giveWord (state.wait parameter none) value
      = .ok (state.wait parameter (some value)) := by
    simp only [giveWord, State.wait, opened]
  rw [accepts_cons_iff, step_word word, given]
  simp only [Except.ok.injEq, exists_eq_left']

theorem accepts_json_iff :
    Accepts state ("--json" :: rest) asked
      ↔ state.Admits .json ∧ Accepts (state.take .json) rest asked := by
  rw [accepts_cons_iff, step_option_of_none nothing opened .json, State.Admits]
  cases once : state.json with
  | true => simp
  | false =>
    simp only [Bool.false_eq_true, if_false, Except.ok.injEq, exists_eq_left', true_and]
    exact Iff.rfl

end Nothing

section One

variable {state : State} {asked : Arguments} {rest : List String} (settled : state.Settled)

include settled

/-- A word is accepted as a path, if it is the first one. -/
theorem accepts_word_iff {word : String} (reads : step state word = giveWord state word) :
    Accepts state (word :: rest) asked
      ↔ word ≠ "" ∧ state.Admits (.path word) ∧ Accepts (state.take (.path word)) rest asked := by
  rw [accepts_cons_iff, reads, giveWord_eq (by simp [settled.pending]), settled.path,
    settle_of_none settled.pending, State.Admits]
  cases first : state.path? with
  | some path => simp
  | none =>
    change (∃ state', Except.ok (state.found.wait .path (some word)) = .ok state' ∧ _) ↔ _
    simp only [Except.ok.injEq, exists_eq_left', true_and]
    rw [accepts_wait_iff (by exact settled.pending)]
    constructor
    · rintro ⟨-, one, ⟨nonempty⟩, accepted⟩
      exact ⟨nonempty, accepted⟩
    · rintro ⟨nonempty, accepted⟩
      exact ⟨nofun, _, .path nonempty, accepted⟩

variable (opened : state.optionsEnded = false)

include opened

/-- One thing is accepted behind a state that admits it, if the rest is accepted behind it. -/
theorem accepts_of_one {one : Given} {arguments : List String} (spells : SpellsOne one arguments)
    (admits : state.Admits one) (accepted : Accepts (state.take one) rest asked) :
    Accepts state (arguments ++ rest) asked := by
  cases spells with
  | path word nonempty =>
    exact (accepts_word_iff settled (step_word word)).2 ⟨nonempty, admits, accepted⟩
  | json => exact (accepts_json_iff settled.pending opened).2 ⟨admits, accepted⟩
  | joined joins gives =>
    exact (accepts_joined_iff settled.pending opened joins).2
      ((accepts_wait_option_iff settled.pending joins.ne_path).2 ⟨one, gives, admits, accepted⟩)
  | apart names word gives =>
    rw [List.cons_append, accepts_named_iff settled.pending opened names, List.cons_append,
      accepts_missing_iff opened word]
    exact (accepts_wait_option_iff settled.pending names.ne_path).2 ⟨one, gives, admits, accepted⟩

/-- While options may follow, what is accepted ends the options or starts with one thing that the
state admits. -/
theorem exists_one_of_accepts {argument : String}
    (accepted : Accepts state (argument :: rest) asked) :
    (argument = "--" ∧ Accepts state.close rest asked)
      ∨ ∃ one front back, argument :: rest = front ++ back ∧ front ≠ [] ∧ SpellsOne one front
        ∧ state.Admits one ∧ Accepts (state.take one) back asked := by
  obtain ⟨state', stepped, -⟩ := accepts_cons_iff.1 accepted
  rcases (step_eq_ok_iff opened).1 stepped with ⟨word, -⟩ | ⟨rfl, -⟩ | ⟨does, option, -⟩
  · obtain ⟨nonempty, admits, accepted⟩ := (accepts_word_iff settled (step_word word)).1 accepted
    exact .inr ⟨_, [argument], rest, rfl, nofun, .path word nonempty, admits, accepted⟩
  · exact .inl ⟨rfl, (accepts_end_iff opened).1 accepted⟩
  · cases option with
    | joined joins =>
      rw [accepts_joined_iff settled.pending opened joins,
        accepts_wait_option_iff settled.pending joins.ne_path] at accepted
      obtain ⟨one, gives, admits, accepted⟩ := accepted
      exact .inr ⟨one, [argument], rest, rfl, nofun, .joined joins gives, admits, accepted⟩
    | named names =>
      rw [accepts_named_iff settled.pending opened names] at accepted
      obtain ⟨value, rest, rfl, word⟩ := exists_value_of_accepts opened accepted
      rw [accepts_missing_iff opened word,
        accepts_wait_option_iff settled.pending names.ne_path] at accepted
      obtain ⟨one, gives, admits, accepted⟩ := accepted
      exact .inr ⟨one, [argument, value], rest, rfl, nofun, .apart names word gives, admits,
        accepted⟩
    | json =>
      obtain ⟨admits, accepted⟩ := (accepts_json_iff settled.pending opened).1 accepted
      exact .inr ⟨_, ["--json"], rest, rfl, nofun, .json, admits, accepted⟩

end One

/-! ## Reading all arguments -/

section All

variable {state : State} {given : List Given} {arguments : List String} {asked : Arguments}

/-- Behind two hyphens, the arguments are accepted as paths. -/
theorem accepts_words_iff {words : List String} (settled : state.Settled)
    (ended : state.optionsEnded = true) :
    Accepts state words asked
      ↔ (∀ word ∈ words, word ≠ "") ∧ Means (state.given ++ words.map .path) asked := by
  induction words generalizing state with
  | nil =>
    rw [accepts_nil_iff, finish_eq_ok_iff settled, List.map_nil, List.append_nil]
    exact (and_iff_right nofun).symm
  | cons word words ih =>
    rw [accepts_word_iff settled (step_of_ended ended word),
      ih settled.take (State.optionsEnded_take.trans ended), List.forall_mem_cons, List.map_cons,
      ← means_take_iff, and_assoc]
    exact and_congr_right fun _ => and_left_comm

/-- What is spelled is accepted as what it amounts to. -/
theorem accepts_of_spells (spells : Spells given arguments) (settled : state.Settled)
    (opened : state.optionsEnded = false) (means : Means (state.given ++ given) asked) :
    Accepts state arguments asked := by
  induction spells generalizing state with
  | nil =>
    rw [List.append_nil] at means
    exact accepts_nil_iff.2 ((finish_eq_ok_iff settled).2 means)
  | ended nonempty =>
    rw [accepts_end_iff opened]
    exact (@accepts_words_iff state.close _ _ ⟨settled.pending, settled.path⟩ rfl).2
      ⟨nonempty, means⟩
  | one spellsOne _ ih =>
    obtain ⟨admits, means⟩ := means_take_iff.2 means
    exact accepts_of_one settled opened spellsOne admits
      (ih settled.take (State.optionsEnded_take.trans opened) means)

/-- What is accepted is spelled by the arguments. -/
theorem exists_spells_of_accepts (settled : state.Settled) (opened : state.optionsEnded = false)
    (accepted : Accepts state arguments asked) :
    ∃ given, Spells given arguments ∧ Means (state.given ++ given) asked := by
  -- One thing can take two arguments, so the induction is on their number.
  induction count : arguments.length using Nat.strongRecOn generalizing state arguments with
  | ind _ ih =>
    subst count
    cases arguments with
    | nil =>
      have means := (finish_eq_ok_iff settled).1 (accepts_nil_iff.1 accepted)
      exact ⟨[], .nil, by rwa [List.append_nil]⟩
    | cons argument rest =>
      rcases exists_one_of_accepts settled opened accepted with ⟨rfl, words⟩
        | ⟨one, front, back, split, nonempty, spellsOne, admits, accepted⟩
      · obtain ⟨nonempty, means⟩ :=
          (@accepts_words_iff state.close _ _ ⟨settled.pending, settled.path⟩ rfl).1 words
        exact ⟨_, .ended nonempty, means⟩
      · rw [split] at ih ⊢
        have shorter : back.length < (front ++ back).length := by
          rw [List.length_append]
          exact Nat.lt_add_of_pos_left (List.length_pos_iff.2 nonempty)
        obtain ⟨given, spells, means⟩ :=
          ih _ shorter settled.take (State.optionsEnded_take.trans opened) accepted rfl
        exact ⟨_, .one spellsOne spells, means_take_iff.1 ⟨admits, means⟩⟩

/-- **Arguments are accepted as what they spell.** -/
theorem read_eq_ok_iff :
    Arguments.read arguments = .ok asked ↔ ∃ given, Spells given arguments ∧ Means given asked := by
  have start {given : List Given} :
      Means (State.given {} ++ given) asked ↔ Means given asked := by
    rw [means_given_append_iff, means_iff]
    simp
  change Accepts {} arguments asked ↔ _
  constructor
  · intro accepted
    obtain ⟨given, spells, means⟩ := exists_spells_of_accepts ⟨rfl, rfl⟩ rfl accepted
    exact ⟨given, spells, start.1 means⟩
  · rintro ⟨given, spells, means⟩
    exact accepts_of_spells spells ⟨rfl, rfl⟩ rfl (start.2 means)

end All

end PetriQuery.Command
