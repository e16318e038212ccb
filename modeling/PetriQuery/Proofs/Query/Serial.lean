import PetriQuery.Proofs.Json
import PetriQuery.Query.Serial

/-!
# The JSON form of conditions is unambiguous

Expressions and conditions with one JSON form are equal. What stands in the only member of an
expression tells the constructor; the name of a condition's only member tells the operator, with the
quantifier, the modality, the relation or the goal that belong to it (`Operation.ofName?_name`).

The fractions in a JSON form are those of settings, so the form of a condition whose settings are
all finite has a text that determines it.
-/

set_option autoImplicit false

namespace PetriQuery.Query

/-! ## Expressions -/

/-- A node determines its name and its contents. -/
theorem tagged_inj {name name' : String} {contents contents' : Json}
    (same : tagged name contents = tagged name' contents') :
    name = name' ∧ contents = contents' := by
  have members := Json.object.inj same
  exact Prod.mk.inj (List.cons.inj members).1

/-- A node with two operands determines both. -/
theorem tagged_pair_inj {name name' : String} {a a' b b' : Json}
    (same : tagged name (.array [a, b]) = tagged name' (.array [a', b'])) : a = a' ∧ b = b' := by
  obtain ⟨first, others⟩ := List.cons.inj (Json.array.inj (tagged_inj same).2)
  exact ⟨first, (List.cons.inj others).1⟩

/-- The names of operators differ. -/
theorem Operator.name_inj {op op' : Operator} (same : op.name = op'.name) : op = op' := by
  cases op <;> cases op' <;> first | rfl | exact absurd same (by decide)

mutual

/-- Expressions with one form are equal. -/
theorem Expr.toJson_inj : ∀ (x : Expr) {y : Expr}, x.toJson = y.toJson → x = y
  | .literal m, .literal n, same => by
    obtain ⟨-, values⟩ := tagged_inj same
    rw [Int32.toInt_inj.1 (Json.int.inj values)]
  | .place p, .place q, same => by
    obtain ⟨-, names⟩ := tagged_inj same
    rw [Json.string.inj names]
  | .chain op xs, .chain op' ys, same => by
    obtain ⟨names, operands⟩ := tagged_inj same
    rw [Operator.name_inj names, Expr.toJsonList_inj xs (Json.array.inj operands)]
  -- The contents of an integer, a name and a list of operands are of different kinds.
  | .literal _, .place _, same | .literal _, .chain _ _, same | .place _, .literal _, same
  | .place _, .chain _ _, same | .chain _ _, .literal _, same | .chain _ _, .place _, same => by
    cases (tagged_inj same).2

/-- Lists of operands with one form are equal. -/
theorem Expr.toJsonList_inj : ∀ (xs : List Expr) {ys : List Expr},
    Expr.toJsonList xs = Expr.toJsonList ys → xs = ys
  | [], [], _ => rfl
  | [], _ :: _, same | _ :: _, [], same => by cases same
  | x :: xs, y :: ys, same => by
    obtain ⟨first, others⟩ := List.cons.inj same
    rw [Expr.toJson_inj x first, Expr.toJsonList_inj xs others]

end

/-! ## Operations -/

/-- The outermost operation of a condition whose form is a node. -/
inductive Operation where
  | truth
  | neg
  | conj
  | disj
  | compare (relation : Relation)
  | path (quantifier : PathQuantifier) (modality : Modality)
  | holdUntil (quantifier : PathQuantifier)
  | kSafe
  | control
  | probability (goal : RunGoal)
deriving DecidableEq

/-- The name of the node for an operation. -/
def Operation.name : Operation → String
  | .truth => "Boolean"
  | .neg => "Not"
  | .conj => "And"
  | .disj => "Or"
  | .compare relation => relation.name
  | .path quantifier modality => quantifier.name ++ modality.name
  | .holdUntil quantifier => quantifier.name ++ "Until"
  | .kSafe => "KSafe"
  | .control => "Control"
  | .probability goal => "Probability" ++ goal.name

/-- All operations. -/
def Operation.all : List Operation :=
  [.truth, .neg, .conj, .disj, .kSafe, .control]
    ++ [Relation.equal, .notEqual, .less, .lessEqual].map .compare
    ++ [PathQuantifier.somePath, .everyPath].flatMap (fun quantifier =>
      .holdUntil quantifier :: [Modality.next, .always, .eventually].map (.path quantifier))
    ++ [RunGoal.eventually, .always].map .probability

/-- The operation with a name. -/
def Operation.ofName? (name : String) : Option Operation :=
  all.find? fun operation => operation.name = name

/-- Every operation is found by its name. -/
theorem Operation.ofName?_name (operation : Operation) :
    ofName? operation.name = some operation := by
  cases operation with
  | compare relation => cases relation <;> decide +kernel
  | path quantifier modality => cases quantifier <;> cases modality <;> decide +kernel
  | holdUntil quantifier => cases quantifier <;> decide +kernel
  | probability goal => cases goal <;> decide +kernel
  | _ => decide +kernel

/-- The names of operations differ. -/
theorem Operation.name_inj {f g : Operation} (same : f.name = g.name) : f = g := by
  have found := f.ofName?_name
  rw [same, g.ofName?_name] at found
  exact (Option.some.inj found).symm

/-! ## Conditions -/

namespace Condition

/-- The outermost operation of a condition. The form of a deadlock is no node. -/
def operation? : Condition → Option Operation
  | .truth _ => some .truth
  | .deadlock => none
  | .neg _ => some .neg
  | .conj _ _ => some .conj
  | .disj _ _ => some .disj
  | .compare relation _ _ => some (.compare relation)
  | .path quantifier modality _ => some (.path quantifier modality)
  | .holdUntil quantifier _ _ => some (.holdUntil quantifier)
  | .kSafe _ => some .kSafe
  | .control _ => some .control
  | .probability goal _ _ _ => some (.probability goal)

/-- What the form of a condition tells of the outermost operation. -/
theorem toJson_eq (c : Condition) :
    (c.operation? = none ∧ c.toJson = .string "Deadlock")
      ∨ ∃ operation contents, c.operation? = some operation
        ∧ c.toJson = tagged operation.name contents := by
  cases c with
  | deadlock => exact Or.inl ⟨rfl, rfl⟩
  | _ => exact Or.inr ⟨_, _, rfl, rfl⟩

/-- Conditions with one form have one outermost operation. -/
theorem operation?_eq_of_toJson {c d : Condition} (same : c.toJson = d.toJson) :
    c.operation? = d.operation? := by
  rcases c.toJson_eq with ⟨none, form⟩ | ⟨f, contents, some, form⟩
  · rcases d.toJson_eq with ⟨none', form'⟩ | ⟨g, contents', some', form'⟩
    · rw [none, none']
    · rw [form, form'] at same
      cases same
  · rcases d.toJson_eq with ⟨none', form'⟩ | ⟨g, contents', some', form'⟩
    · rw [form, form'] at same
      cases same
    · rw [form, form'] at same
      rw [some, some', Operation.name_inj (tagged_inj same).1]

end Condition

/-- Settings with one form are equal. -/
theorem Sampling.toJson_inj {s t : Sampling} (same : s.toJson = t.toJson) : s = t := by
  obtain ⟨⟩ := s
  obtain ⟨⟩ := t
  simpa [Sampling.toJson, Int32.toInt_inj] using same

/-- Observables with one form are equal. -/
theorem observables_inj {os ps : List Observable}
    (same : os.map (fun observable : Observable =>
        Json.array [.string observable.1, observable.2.toJson])
      = ps.map fun observable => Json.array [.string observable.1, observable.2.toJson]) :
    os = ps := by
  apply List.map_injective_iff.2 _ same
  rintro ⟨name, x⟩ ⟨name', y⟩ forms
  simp only [Json.array.injEq, List.cons.injEq, Json.string.injEq, and_true] at forms
  obtain ⟨rfl, forms⟩ := forms
  rw [Expr.toJson_inj x forms]

namespace Condition

/-- **Conditions with one form are equal**, settings and observables included. -/
theorem toJson_inj {c d : Condition} (same : c.toJson = d.toJson) : c = d := by
  have operations := operation?_eq_of_toJson same
  -- The operations agree, so beside each constructor of `c` only the same one of `d` is left.
  induction c generalizing d with
  | truth value =>
    cases d with
    | truth value' => rw [Json.bool.inj (tagged_inj same).2]
    | _ => cases operations
  | deadlock =>
    cases d with
    | deadlock => rfl
    | _ => cases operations
  | neg body ih =>
    cases d with
    | neg body' =>
      have inner := (tagged_inj same).2
      rw [ih inner (operation?_eq_of_toJson inner)]
    | _ => cases operations
  | conj left right ihLeft ihRight =>
    cases d with
    | conj left' right' =>
      obtain ⟨first, second⟩ := tagged_pair_inj same
      rw [ihLeft first (operation?_eq_of_toJson first),
        ihRight second (operation?_eq_of_toJson second)]
    | _ => cases operations
  | disj left right ihLeft ihRight =>
    cases d with
    | disj left' right' =>
      obtain ⟨first, second⟩ := tagged_pair_inj same
      rw [ihLeft first (operation?_eq_of_toJson first),
        ihRight second (operation?_eq_of_toJson second)]
    | _ => cases operations
  | compare relation left right =>
    cases d with
    | compare relation' left' right' =>
      obtain rfl := Operation.compare.inj (Option.some.inj operations)
      obtain ⟨first, second⟩ := tagged_pair_inj same
      rw [Expr.toJson_inj left first, Expr.toJson_inj right second]
    | _ => cases operations
  | path quantifier modality body ih =>
    cases d with
    | path quantifier' modality' body' =>
      obtain ⟨rfl, rfl⟩ := Operation.path.inj (Option.some.inj operations)
      have inner := (tagged_inj same).2
      rw [ih inner (operation?_eq_of_toJson inner)]
    | _ => cases operations
  | holdUntil quantifier before goal ihBefore ihGoal =>
    cases d with
    | holdUntil quantifier' before' goal' =>
      obtain rfl := Operation.holdUntil.inj (Option.some.inj operations)
      obtain ⟨first, second⟩ := tagged_pair_inj same
      rw [ihBefore first (operation?_eq_of_toJson first),
        ihGoal second (operation?_eq_of_toJson second)]
    | _ => cases operations
  | kSafe bound =>
    cases d with
    | kSafe bound' => rw [Expr.toJson_inj bound (tagged_inj same).2]
    | _ => cases operations
  | control body ih =>
    cases d with
    | control body' =>
      have inner := (tagged_inj same).2
      rw [ih inner (operation?_eq_of_toJson inner)]
    | _ => cases operations
  | probability goal settings body observables ih =>
    cases d with
    | probability goal' settings' body' observables' =>
      obtain rfl := Operation.probability.inj (Option.some.inj operations)
      have members := Json.object.inj (tagged_inj same).2
      simp only [List.cons.injEq, Prod.mk.injEq, true_and, and_true, Json.array.injEq] at members
      obtain ⟨made, inner, watched⟩ := members
      rw [Sampling.toJson_inj made, ih inner (operation?_eq_of_toJson inner),
        observables_inj watched]
    | _ => cases operations

end Condition

/-! ## Finite settings -/

/-- All fractions of the settings are finite. -/
def Sampling.IsFinite (s : Sampling) : Prop :=
  ∀ fraction ∈ [s.falsePositives, s.falseNegatives, s.indifferenceUp, s.indifferenceDown,
    s.confidence, s.intervalWidth, s.threshold], fraction.isFinite = true

instance (s : Sampling) : Decidable s.IsFinite := inferInstanceAs (Decidable (∀ _ ∈ _, _))

/-- All fractions in the settings of the condition, and of the conditions in it, are finite. -/
def Condition.HasFiniteSettings : Condition → Prop
  | .truth _ | .deadlock | .compare _ _ _ | .kSafe _ => True
  | .neg body | .path _ _ body | .control body => body.HasFiniteSettings
  | .conj left right | .disj left right | .holdUntil _ left right =>
    left.HasFiniteSettings ∧ right.HasFiniteSettings
  | .probability _ settings body _ => settings.IsFinite ∧ body.HasFiniteSettings

mutual

/-- There are no fractions in expressions. -/
theorem Expr.exact_toJson : ∀ x : Expr, x.toJson.Exact
  | .literal _ => ⟨trivial, trivial⟩
  | .place _ => ⟨trivial, trivial⟩
  | .chain _ operands => ⟨Expr.exact_toJsonList operands, trivial⟩

/-- There are no fractions in operands. -/
theorem Expr.exact_toJsonList : ∀ xs : List Expr, Json.AllExact (Expr.toJsonList xs)
  | [] => trivial
  | x :: xs => ⟨Expr.exact_toJson x, Expr.exact_toJsonList xs⟩

end

/-- The form of settings has their fractions. -/
theorem Sampling.exact_toJson {s : Sampling} (finite : s.IsFinite) : s.toJson.Exact := by
  simp only [Sampling.IsFinite, List.forall_mem_cons] at finite
  obtain ⟨positives, negatives, up, down, confidence, width, threshold, -⟩ := finite
  exact ⟨trivial, trivial, positives, negatives, up, down, confidence, width, trivial, threshold,
    trivial⟩

/-- There are no fractions in observables. -/
theorem exact_observables (os : List Observable) :
    Json.AllExact (os.map fun observable : Observable =>
      Json.array [.string observable.1, observable.2.toJson]) := by
  rw [Json.allExact_iff]
  intro form member
  obtain ⟨observable, -, rfl⟩ := List.mem_map.1 member
  exact ⟨trivial, observable.2.exact_toJson, trivial⟩

/-- The fractions in the form of a condition are those of settings. -/
theorem Condition.exact_toJson {c : Condition} (finite : c.HasFiniteSettings) : c.toJson.Exact := by
  induction c with
  | truth value => exact ⟨trivial, trivial⟩
  | deadlock => trivial
  | neg body ih | path quantifier modality body ih | control body ih => exact ⟨ih finite, trivial⟩
  | conj left right first second | disj left right first second
  | holdUntil quantifier left right first second =>
    exact ⟨⟨first finite.1, second finite.2, trivial⟩, trivial⟩
  | compare relation left right =>
    exact ⟨⟨left.exact_toJson, right.exact_toJson, trivial⟩, trivial⟩
  | kSafe bound => exact ⟨bound.exact_toJson, trivial⟩
  | probability goal settings body observables ih =>
    exact ⟨⟨Sampling.exact_toJson finite.1, ih finite.2, exact_observables observables, trivial⟩,
      trivial⟩

end PetriQuery.Query
