import PetriQuery.Proofs.Grammar.Encoding
import PetriQuery.Proofs.Grammar.Induction
import PetriQuery.Proofs.Grammar.Root

/-!
# What formulae are translated to

The conditions that `formula` elements are translated to are exactly those that can be written down:
plain conditions and properties of whole nets. Every one of them is the translation of its own
encoding, and nothing else is a translation, whatever the element and the limit. Statistical queries
are exactly those over plain conditions, with the settings that are given and no observables.
-/

set_option autoImplicit false

namespace PetriQuery.Grammar

open Document (Element)
open Query (Condition Expr IsName Operator RunGoal Sampling)

/-! ## Expressions -/

/-- The name that a `place` element has can be written down. -/
theorem NamesPlace.isName {e : Element} {name : String} (h : NamesPlace e name) : IsName name := by
  have text := h.strip_eq
  obtain ⟨-, -, notEmpty⟩ := h
  subst text
  exact ⟨notEmpty, fun _ member => Text.not_isBlank_of_mem_strip member⟩

/-- The counts of places that are named are well formed. -/
theorem allWellFormed_places {es : List Element} {names : List String}
    (named : List.Forall₂ NamesPlace es names) : Expr.AllWellFormed (names.map .place) := by
  induction named with
  | nil => trivial
  | cons head tail ih => exact ⟨head.isName, ih⟩

/-- A chain over two or more elements is well formed if each of its operands is. -/
theorem wellFormed_chain {op : Operator} {es : List Element} {xs : List Expr} (two : 2 ≤ es.length)
    (each : List.Forall₂ (fun e x => ∃ (m : Nat) (_ : DenotesExpr e m x), x.WellFormed) es xs) :
    (Expr.chain op xs).WellFormed := by
  refine ⟨each.length_eq ▸ two, Expr.allWellFormed_iff.2 ?_⟩
  exact forall_of_forall₂ (fun _ _ ⟨_, _, wellFormed⟩ => wellFormed) each

/-- An expression that an element denotes is well formed. -/
theorem DenotesExpr.wellFormed {k : Nat} {e : Element} {x : Expr} (h : DenotesExpr e k x) :
    x.WellFormed := by
  induction h using DenotesExpr.rec' with
  | constant _ => trivial
  | place named => exact named.isName
  | onePlace named => exact named.isName
  | places two named =>
    refine ⟨?_, allWellFormed_places named⟩
    rw [List.length_map, ← named.length_eq]
    exact two
  | sum two _ ih => exact wellFormed_chain two ih
  | product two _ ih => exact wellFormed_chain two ih
  -- The operand of a single-operand difference stands second, behind the zero it is taken from.
  | opposite _ ih => exact ⟨Nat.le_refl 2, trivial, ih, trivial⟩
  | difference two _ ih => exact wellFormed_chain two ih

/-! ## Formulae -/

/-- Combining plain conditions by an operator that keeps them plain gives a plain one. -/
theorem isPlain_foldl {op : Condition → Condition → Condition}
    (keeps : ∀ {c d : Condition}, c.IsPlain → d.IsPlain → (op c d).IsPlain)
    {c : Condition} {cs : List Condition} (all : ∀ d ∈ c :: cs, d.IsPlain) :
    (cs.foldl op c).IsPlain := by
  induction cs generalizing c with
  | nil => exact all c List.mem_cons_self
  | cons d cs ih =>
    obtain ⟨first, others⟩ := List.forall_mem_cons.1 all
    obtain ⟨second, rest⟩ := List.forall_mem_cons.1 others
    exact ih (List.forall_mem_cons.2 ⟨keeps first second, rest⟩)

/-- A condition that an element denotes is plain. -/
theorem Denotes.isPlain {k : Nat} {e : Element} {c : Condition} (h : Denotes e k c) :
    c.IsPlain := by
  induction h using Denotes.rec' with
  -- Negations, quantifiers and modalities are plain over plain conditions, by definition.
  | invariant _ ih | impossibility _ ih | possibility _ ih | notInvariant _ ih
  | notImpossibility _ ih | notPossibility _ ih | negation _ _ ih | path _ _ _ ih => exact ih
  | holdUntil _ _ _ left right => exact ⟨left, right⟩
  | deadlock | alwaysTrue | alwaysFalse => trivial
  | conjunction _ _ ih | disjunction _ _ ih =>
    exact isPlain_foldl And.intro (forall_of_forall₂ (fun _ _ ⟨_, _, plain⟩ => plain) ih)
  | exclusive _ _ left right => exact ⟨⟨left, right⟩, left, right⟩
  | implication _ _ left right => exact ⟨left, right⟩
  | equivalence _ _ left right => exact ⟨⟨left, right⟩, left, right⟩
  | compare _ first second => exact ⟨first.wellFormed, second.wellFormed⟩
  | greater first second => exact ⟨second.wellFormed, first.wellFormed⟩
  | greaterEqual first second => exact ⟨second.wellFormed, first.wellFormed⟩

/-! ## Roots -/

/-- A condition that the content of a `formula` element denotes is a query. -/
theorem DenotesFormula.isQuery {e : Element} {k : Nat} {c : Condition} (h : DenotesFormula e k c) :
    c.IsQuery := by
  cases h with
  | kSafe h => exact .inr (.inl ⟨_, h.wellFormed, rfl⟩)
  | control h => exact .inr (.inr ⟨_, h.isPlain, rfl⟩)
  | plain h => exact .inl h.isPlain

/-- A condition that the content of a `formula` element denotes as a statistical query is one over a
plain condition. -/
theorem DenotesStatistical.exists_plain {settings : Sampling} {e : Element} {k : Nat}
    {c : Condition} (h : DenotesStatistical settings e k c) :
    ∃ goal body, body.IsPlain ∧ c = .probability goal settings body [] := by
  obtain ⟨goal, denotes⟩ := h
  exact ⟨goal, _, denotes.isPlain, rfl⟩

/-- The encoding of a query is translated back to it. -/
theorem formula_encodeFormula {c : Condition} {limit : Nat} (query : c.IsQuery)
    (le : c.levels ≤ limit) : (formula limit (encodeFormula c)).result = .ok c :=
  formula_eq_ok_iff.2 ⟨c.levels, le, denotesFormula_encodeFormula query⟩

/-- The encoding of a statistical query over a plain condition is translated back to it. -/
theorem statisticalFormula_encodeFormula {c : Condition} {limit : Nat} (goal : RunGoal)
    (settings : Sampling) (plain : c.IsPlain) (le : c.levels ≤ limit) :
    (statisticalFormula limit settings (encodeFormula (.probability goal settings c []))).result
      = .ok (.probability goal settings c []) :=
  statisticalFormula_eq_ok_iff.2
    ⟨c.levels, le, denotesStatistical_encodeFormula goal settings plain⟩

/-- Whatever a `formula` element is translated to is a query. -/
theorem isQuery_of_formula {limit : Nat} {e : Element} {c : Condition}
    (accepted : (formula limit e).result = .ok c) : c.IsQuery := by
  obtain ⟨k, -, denotes⟩ := formula_eq_ok_iff.1 accepted
  exact denotes.isQuery

/-- Whatever a `formula` element is translated to under settings is a statistical query with them
over a plain condition. -/
theorem exists_plain_of_statisticalFormula {limit : Nat} {settings : Sampling} {e : Element}
    {c : Condition} (accepted : (statisticalFormula limit settings e).result = .ok c) :
    ∃ goal body, body.IsPlain ∧ c = .probability goal settings body [] := by
  obtain ⟨k, -, denotes⟩ := statisticalFormula_eq_ok_iff.1 accepted
  exact denotes.exists_plain

/-- **The image of the translation is exactly the queries.** A condition is the translation of some
`formula` element under some limit iff it is plain, `k-safe` of a well-formed expression or
`control` of a plain condition; every translation is, and every such condition is the translation of
its own encoding, in which a negated `EF` is a negation of an `exists-path`. The translations under
settings are exactly the statistical queries with these settings, a plain condition and no
observables. -/
theorem translation_image :
    (∀ c : Condition,
      (∃ limit e, e.tag = .formula ∧ (formula limit e).result = .ok c)
        ↔ c.IsPlain ∨ (∃ bound, bound.WellFormed ∧ c = .kSafe bound)
          ∨ ∃ body, body.IsPlain ∧ c = .control body)
    ∧ (∀ limit e c, (formula limit e).result = .ok c → c.IsQuery)
    ∧ (∀ c limit, c.IsQuery → c.levels ≤ limit →
        (formula limit (encodeFormula c)).result = .ok c)
    ∧ (∀ (f : Condition) (limit : Nat), f.IsPlain → f.levels + 2 ≤ limit →
        encodeFormula (.neg f.ef)
            = node .formula [node .negation [node .existsPath [node .eventually [encode f]]]]
          ∧ (formula limit (encodeFormula (.neg f.ef))).result = .ok (.neg f.ef))
    ∧ ∀ (settings : Sampling) (c : Condition),
      ((∃ limit e, e.tag = .formula ∧ (statisticalFormula limit settings e).result = .ok c)
        ↔ ∃ goal body, body.IsPlain ∧ c = .probability goal settings body [])
      ∧ (∀ limit e, (statisticalFormula limit settings e).result = .ok c →
          ∃ goal body, body.IsPlain ∧ c = .probability goal settings body [])
      ∧ ∀ goal limit, c.IsPlain → c.levels ≤ limit →
        (statisticalFormula limit settings
            (encodeFormula (.probability goal settings c []))).result
          = .ok (.probability goal settings c []) := by
  refine ⟨?_, fun _ _ _ => isQuery_of_formula, fun _ _ => formula_encodeFormula, ?_, ?_⟩
  · intro c
    constructor
    · rintro ⟨limit, e, -, accepted⟩
      exact isQuery_of_formula accepted
    · intro query
      exact ⟨c.levels, encodeFormula c, rfl, formula_encodeFormula query (Nat.le_refl _)⟩
  · intro f limit plain le
    have query : (Condition.neg f.ef).IsQuery := .inl plain
    exact ⟨rfl, formula_encodeFormula query le⟩
  · intro settings c
    refine ⟨?_, fun _ _ => exists_plain_of_statisticalFormula, ?_⟩
    · constructor
      · rintro ⟨limit, e, -, accepted⟩
        exact exists_plain_of_statisticalFormula accepted
      · rintro ⟨goal, body, plain, rfl⟩
        refine ⟨body.levels, encodeFormula (.probability goal settings body []), rfl, ?_⟩
        exact statisticalFormula_encodeFormula goal settings plain (Nat.le_refl _)
    · intro goal limit plain le
      exact statisticalFormula_encodeFormula goal settings plain le

theorem translation_image_of_negated_ef :
    (Condition.neg (.ef (.compare .lessEqual (.place "p") (.literal 2)))).IsQuery
      ∧ (formula 4 (encodeFormula
          (.neg (.ef (.compare .lessEqual (.place "p") (.literal 2)))))).result
        = .ok (.neg (.ef (.compare .lessEqual (.place "p") (.literal 2)))) := by
  have plain : (Condition.compare .lessEqual (.place "p") (.literal 2)).IsPlain := by
    refine ⟨⟨by decide, ?_⟩, trivial⟩
    intro c member
    obtain rfl : c = 'p' := List.mem_singleton.1 member
    rfl
  refine ⟨.inl plain, ?_⟩
  exact (translation_image.2.2.2.1 _ 4 plain (by decide)).2

end PetriQuery.Grammar
