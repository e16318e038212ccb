import PetriQuery.Proofs.Content.Kept

/-!
# Readers look at the content alone

Every reader gives for the content of an element what it gives for the element: the same value or
the same failure. There is one lemma for each reader, up to sets of properties
(`result_propertySet_kept`).
-/

set_option autoImplicit false

namespace PetriQuery

/-! ## Computations with related parts -/

namespace Traced

variable {ε α β γ : Type}

/-- Going on alike from values that a map relates. -/
theorem result_bind_of_map {x : Traced ε α} {y : Traced ε β} {h : α → β} {f : β → Traced ε γ}
    {g : α → Traced ε γ} (first : y.result = x.result.map h)
    (next : ∀ a, (f (h a)).result = (g a).result) : (y >>= f).result = (x >>= g).result := by
  rw [result_bind, result_bind, first]
  cases x.result with
  | ok a => exact next a
  | error failure => rfl

/-- Going on alike from one value. -/
theorem result_bind_congr {x y : Traced ε α} {f g : α → Traced ε β} (first : x.result = y.result)
    (next : ∀ a, (f a).result = (g a).result) : (x >>= f).result = (y >>= g).result := by
  rw [result_bind, result_bind, first]
  cases y.result with
  | ok a => exact next a
  | error failure => rfl

/-- Reading lists whose items are read alike. -/
theorem result_mapM_congr {f : β → Traced ε γ} {g : α → Traced ε γ} {bs : List β} {as : List α}
    (same : List.Forall₂ (fun b a => (f b).result = (g a).result) bs as) :
    (bs.mapM f).result = (as.mapM g).result := by
  induction same with
  | nil => rfl
  | cons first _ ih =>
    rw [List.mapM_cons, List.mapM_cons]
    exact result_bind_congr first fun b => result_bind_congr ih fun bs => rfl

/-- Reading the images of the items of a list. -/
theorem result_mapM_map {h : α → β} {f : β → Traced ε γ} {g : α → Traced ε γ} {as : List α}
    (same : ∀ a ∈ as, (f (h a)).result = (g a).result) :
    ((as.map h).mapM f).result = (as.mapM g).result :=
  result_mapM_congr (List.forall₂_map_left_iff.2 (List.forall₂_same.2 same))

/-- Combining the images of the items of a list. -/
theorem result_foldlM_map {σ : Type} {h : α → β} {f : σ → β → Traced ε σ} {g : σ → α → Traced ε σ}
    (same : ∀ s a, (f s (h a)).result = (g s a).result) (as : List α) (start : σ) :
    ((as.map h).foldlM f start).result = (as.foldlM g start).result := by
  induction as generalizing start with
  | nil => rfl
  | cons a as ih =>
    rw [List.map_cons, List.foldlM_cons, List.foldlM_cons]
    exact result_bind_congr (same start a) ih

end Traced

namespace Grammar

open Document (Element Tag)
open Query (Condition Expr PathQuantifier Sampling)
open Traced (result_bind_congr result_bind_of_map result_foldlM_map result_mapM_congr
  result_mapM_map)

/-! ## Children -/

/-- All children of the element are looked at. -/
def KeepsChildren (e : Element) : Prop := (kept e).children = e.children.map kept

theorem keepsChildren_of_tag {e : Element} {tag : Tag} (same : e.tag = tag)
    (whole : isSelective tag = false) : KeepsChildren e := by
  rw [KeepsChildren, children_kept]
  exact lookedAt_of_not_isSelective (same ▸ whole)

section Children

variable {e : Element} (all : KeepsChildren e)

include all

theorem result_refuseArity_kept {α : Type} (expected : Arity) :
    (refuseArity expected (kept e) : Traced Fault α).result
      = .error (.wrongArity e.name expected e.children.length) := by
  rw [result_refuseArity, name_kept, all, List.length_map]

theorem result_onlyChild_kept :
    (onlyChild (kept e)).result = (onlyChild e).result.map kept := by
  rw [onlyChild, onlyChild, all]
  rcases e.children with _ | ⟨first, _ | ⟨second, rest⟩⟩
  · exact result_refuseArity_kept all _
  · rfl
  · exact result_refuseArity_kept all _

theorem result_twoChildren_kept :
    (twoChildren (kept e)).result = (twoChildren e).result.map (Prod.map kept kept) := by
  rw [twoChildren, twoChildren, all]
  rcases e.children with _ | ⟨first, _ | ⟨second, _ | ⟨third, rest⟩⟩⟩
  · exact result_refuseArity_kept all _
  · exact result_refuseArity_kept all _
  · rfl
  · exact result_refuseArity_kept all _

theorem result_noChildren_kept : (noChildren (kept e)).result = (noChildren e).result := by
  rw [noChildren, noChildren, all]
  rcases e.children with _ | ⟨first, rest⟩
  · rfl
  · exact result_refuseArity_kept all _

theorem result_someChildren_kept (count : Nat) :
    (someChildren count (kept e)).result = (someChildren count e).result.map (List.map kept) := by
  rw [someChildren, someChildren, all, List.length_map]
  split
  · rfl
  · exact result_refuseArity_kept all _

theorem result_operands_kept :
    (operands (kept e)).result
      = (operands e).result.map (Prod.map kept (List.map kept)) := by
  rw [operands, operands, all]
  rcases e.children with _ | ⟨first, _ | ⟨second, rest⟩⟩
  · exact result_refuseArity_kept all _
  · exact result_refuseArity_kept all _
  · rfl

end Children

theorem result_unexpected_kept {α : Type} (e : Element) (context : Construct) :
    (unexpected (kept e) context : Traced Fault α).result = (unexpected e context).result := by
  rw [result_unexpected, result_unexpected, name_kept]

/-! ## Expressions -/

theorem result_constant_kept {e : Element} (tag : e.tag = .integerConstant) :
    (constant (kept e)).result = (constant e).result := by
  rw [constant, constant, text_kept, tag]
  simp only [keptText, Text.trim_trim]

theorem placeName_kept (e : Element) : (kept e).placeName = e.placeName := by
  rw [Element.placeName, Element.placeName, tag_kept]
  split
  · next place => rw [text_kept, place, keptText, Text.strip_strip]
  · rfl

theorem result_tokensOf_kept (message : String) (e : Element) :
    (tokensOf message (kept e)).result = (tokensOf message e).result := by
  rw [tokensOf, tokensOf, placeName_kept]

theorem result_countedPlace_kept (e : Element) :
    (countedPlace (kept e)).result = (countedPlace e).result := by
  rw [countedPlace, countedPlace, tag_kept]
  split
  · exact result_tokensOf_kept _ e
  · exact result_unexpected_kept e _

theorem result_tokensCount_kept {e : Element} (all : KeepsChildren e) :
    (tokensCount (kept e)).result = (tokensCount e).result := by
  rw [tokensCount, tokensCount]
  apply result_bind_of_map (result_someChildren_kept all 1)
  intro places
  apply result_bind_congr (result_mapM_map fun e _ => result_countedPlace_kept e)
  exact fun _ => rfl

theorem result_operandExprs_kept {e : Element} (all : KeepsChildren e) {read : Reader Expr}
    (same : ∀ child, (read (kept child)).result = (read child).result) (count : Nat)
    (build : List Expr → Expr) :
    (someChildren count (kept e) >>= fun es => es.mapM read >>= fun xs => pure (build xs)).result
      = (someChildren count e >>= fun es => es.mapM read >>= fun xs => pure (build xs)).result := by
  apply result_bind_of_map (result_someChildren_kept all count)
  intro operands
  apply result_bind_congr (result_mapM_map fun child _ => same child)
  exact fun _ => rfl

theorem result_toExpr_kept (limit left : Nat) (e : Element) :
    (toExpr limit left (kept e)).result = (toExpr limit left e).result := by
  induction left generalizing e with
  | zero => rfl
  | succ left ih =>
    simp only [toExpr, tag_kept]
    cases tag : e.tag with
    | integerConstant => exact result_constant_kept tag
    | place => exact result_tokensOf_kept _ e
    | tokensCount => exact result_tokensCount_kept (keepsChildren_of_tag tag rfl)
    | integerSum | integerProduct | integerDifference =>
      exact result_operandExprs_kept (keepsChildren_of_tag tag rfl) ih _ _
    | _ => exact result_unexpected_kept e _

/-! ## Formulae -/

section Formulae

variable {e : Element} {read : Reader Condition}
  (same : ∀ child, (read (kept child)).result = (read child).result)

include same

/-- Reading the only child of an element. -/
theorem result_only_kept (all : KeepsChildren e) {β : Type} (build : Condition → β) :
    (onlyChild (kept e) >>= fun child => read child >>= fun c => pure (build c)).result
      = (onlyChild e >>= fun child => read child >>= fun c => pure (build c)).result := by
  apply result_bind_of_map (result_onlyChild_kept all)
  intro child
  exact result_bind_congr (same child) fun _ => rfl

theorem result_pair_kept (all : KeepsChildren e) :
    (pair read (kept e)).result = (pair read e).result := by
  rw [pair, pair]
  apply result_bind_of_map (result_twoChildren_kept all)
  rintro ⟨first, second⟩
  exact result_bind_congr (same first) fun _ => result_bind_congr (same second) fun _ => rfl

theorem result_combine_kept (all : KeepsChildren e)
    (op : Condition → Condition → Condition) :
    (combine read op (kept e)).result = (combine read op e).result := by
  rw [combine, combine]
  apply result_bind_of_map (result_operands_kept all)
  rintro ⟨first, rest⟩
  apply result_bind_congr (same first)
  intro start
  apply result_foldlM_map
  intro sofar child
  rw [Traced.result_map, Traced.result_map, same]

theorem result_negation_kept (all : KeepsChildren e) :
    (negation read (kept e)).result = (negation read e).result := by
  rw [negation, negation]
  apply result_bind_of_map (result_onlyChild_kept all)
  intro child
  simp only [tag_kept]
  cases tag : child.tag with
  | invariant | impossibility | possibility =>
    exact result_only_kept same (keepsChildren_of_tag tag rfl) _
  | _ => exact result_bind_congr (same child) fun _ => rfl

theorem result_untilOperands_kept (all : KeepsChildren e) :
    (untilOperands read (kept e)).result = (untilOperands read e).result := by
  rw [untilOperands, untilOperands]
  apply result_bind_of_map (result_twoChildren_kept all)
  rintro ⟨before, reach⟩
  simp only [Prod.map_apply, tag_kept, name_kept]
  split
  · next tags =>
    obtain ⟨tag, tag'⟩ := tags
    apply result_bind_of_map (result_onlyChild_kept (keepsChildren_of_tag tag rfl))
    intro hold
    apply result_bind_congr (same hold)
    intro first
    exact result_only_kept same (keepsChildren_of_tag tag' rfl) _
  · rfl

theorem result_pathFormula_kept (all : KeepsChildren e) (quantifier : PathQuantifier) :
    (pathFormula read quantifier (kept e)).result = (pathFormula read quantifier e).result := by
  rw [pathFormula, pathFormula]
  apply result_bind_of_map (result_onlyChild_kept all)
  intro modality
  simp only [tag_kept]
  cases tag : modality.tag with
  | next | always | eventually => exact result_only_kept same (keepsChildren_of_tag tag rfl) _
  | holdUntil =>
    apply result_bind_congr (result_untilOperands_kept same (keepsChildren_of_tag tag rfl))
    exact fun _ => rfl
  | _ => exact result_unexpected_kept modality _

end Formulae

theorem result_compareOperands_kept (e : Element) (left right : Expr) :
    (compareOperands (kept e) left right).result = (compareOperands e left right).result := by
  simp only [compareOperands, tag_kept]
  cases e.tag with
  | integerEq | integerNe | integerLt | integerLe | integerGt | integerGe => rfl
  | _ => exact result_unexpected_kept e _

theorem result_comparison_kept {e : Element} (all : KeepsChildren e) {expression : Reader Expr}
    (same : ∀ child, (expression (kept child)).result = (expression child).result) :
    (comparison expression (kept e)).result = (comparison expression e).result := by
  rw [comparison, comparison]
  apply result_bind_of_map (result_twoChildren_kept all)
  rintro ⟨first, second⟩
  apply result_bind_congr (same first)
  intro left
  apply result_bind_congr (same second)
  exact fun right => result_compareOperands_kept e left right

theorem result_toCondition_kept (limit left : Nat) (e : Element) :
    (toCondition limit left (kept e)).result = (toCondition limit left e).result := by
  induction left generalizing e with
  | zero => rfl
  | succ left ih =>
    simp only [toCondition, tag_kept]
    cases tag : e.tag with
    | invariant | impossibility | possibility =>
      exact result_only_kept ih (keepsChildren_of_tag tag rfl) _
    | existsPath | allPaths =>
      exact result_pathFormula_kept ih (keepsChildren_of_tag tag rfl) _
    | deadlock | alwaysTrue | alwaysFalse =>
      apply result_bind_congr (result_noChildren_kept (keepsChildren_of_tag tag rfl))
      exact fun _ => rfl
    | negation => exact result_negation_kept ih (keepsChildren_of_tag tag rfl)
    | conjunction | disjunction =>
      exact result_combine_kept ih (keepsChildren_of_tag tag rfl) _
    | exclusiveDisjunction | implication | equivalence =>
      apply result_bind_congr (result_pair_kept ih (keepsChildren_of_tag tag rfl))
      exact fun _ => rfl
    | integerEq | integerNe | integerLt | integerLe | integerGt | integerGe =>
      exact result_comparison_kept (keepsChildren_of_tag tag rfl) (result_toExpr_kept limit left)
    | _ => exact result_unexpected_kept e _

theorem result_formula_kept {e : Element} (all : KeepsChildren e) (limit : Nat) :
    (formula limit (kept e)).result = (formula limit e).result := by
  rw [formula, formula]
  apply result_bind_of_map (result_onlyChild_kept all)
  intro child
  simp only [tag_kept]
  cases tag : child.tag with
  | kSafe =>
    apply result_bind_of_map (result_onlyChild_kept (keepsChildren_of_tag tag rfl))
    intro bound
    exact result_bind_congr (result_toExpr_kept limit limit bound) fun _ => rfl
  | control =>
    exact result_only_kept (result_toCondition_kept limit limit) (keepsChildren_of_tag tag rfl) _
  | _ => exact result_toCondition_kept limit limit child

theorem result_statisticalFormula_kept {e : Element} (all : KeepsChildren e) (limit : Nat)
    (settings : Sampling) :
    (statisticalFormula limit settings (kept e)).result
      = (statisticalFormula limit settings e).result := by
  rw [statisticalFormula, statisticalFormula]
  apply result_bind_of_map (result_onlyChild_kept all)
  intro child
  simp only [tag_kept]
  cases tag : child.tag with
  | eventually | always =>
    exact result_only_kept (result_toCondition_kept limit limit) (keepsChildren_of_tag tag rfl) _
  | _ => exact result_unexpected_kept child _

/-! ## Settings and observables -/

theorem readAttribute_kept {α : Type} {e : Element} {key : String}
    (listed : key ∈ readKeys e.tag) (read? : List Char → Option α) :
    readAttribute read? (kept e) key = readAttribute read? e key := by
  rw [readAttribute, readAttribute, get?_kept, if_pos listed]

theorem settings_kept {e : Element} (tag : e.tag = .smc) : settings (kept e) = settings e := by
  have bound : ∀ key ∈ settingKeys, readBound (kept e) key = readBound e key := by
    intro key listed
    exact readAttribute_kept (tag ▸ listed) _
  have fraction : ∀ key ∈ settingKeys, readFraction (kept e) key = readFraction e key := by
    intro key listed
    exact readAttribute_kept (tag ▸ listed) _
  simp only [settings, bound "time-bound" (by decide), bound "step-bound" (by decide),
    fraction "false-positives" (by decide), fraction "false-negatives" (by decide),
    fraction "indifference" (by decide), fraction "confidence" (by decide),
    fraction "interval-width" (by decide), fraction "compare-to" (by decide)]

theorem result_observable?_kept {e : Element} (tag : e.tag = .watch) (limit : Nat) :
    (observable? limit (kept e)).result = (observable? limit e).result := by
  have name : (kept e).get? "name" = e.get? "name" := by
    rw [get?_kept, if_pos]
    rw [tag]
    exact List.mem_singleton_self _
  rw [observable?, observable?, name]
  cases named : e.get? "name" with
  | none => rfl
  | some name =>
    have all : KeepsChildren e :=
      children_kept_of_named tag (Option.isSome_iff_exists.2 ⟨name, named⟩)
    apply result_bind_of_map (result_onlyChild_kept all)
    intro child
    exact result_bind_congr (result_toExpr_kept limit limit child) fun _ => rfl

theorem result_observables_kept {e : Element} (tag : e.tag = .observations) (limit : Nat) :
    (observables limit (kept e)).result = (observables limit e).result := by
  have watches : (kept e).children.filter (fun child => child.tag = .watch)
      = (e.children.filter fun child => child.tag = .watch).map kept := by
    rw [children_kept_of_observations tag, filter_map_kept, List.filter_filter]
    simp only [Bool.and_self]
  rw [observables, observables, watches]
  refine result_bind_congr (result_mapM_map fun child member => ?_) fun _ => rfl
  have watch : child.tag = .watch := by simpa using (List.mem_filter.1 member).2
  exact result_observable?_kept watch limit

/-! ## Properties -/

section Properties

variable {e : Element} (property : e.tag = .property)

include property

theorem propertyId?_kept : propertyId? (kept e) = propertyId? e := by
  have counts : Tag.id ∈ countedTags e := by
    rw [countedTags]
    split_ifs <;> decide
  rw [propertyId?, propertyId?, lastChild?_kept property, if_pos counts]
  cases found : e.lastChild? .id with
  | none => rfl
  | some child =>
    have ofId := (lastChild?_eq_some_iff.1 found).mem.2
    change Option.filter _ (some (Text.trim (kept child).text)) = _
    rw [text_kept, ofId, keptText, Text.trim_trim]
    rfl

theorem isReachability_kept : isReachability (kept e) = isReachability e := by
  have counts : Tag.tags ∈ countedTags e := by
    rw [countedTags]
    split_ifs <;> decide
  apply isReachability_eq_of_lastChild?
  rw [lastChild?_kept property, if_pos counts]

/-- The formula of a property that is not marked counts. -/
theorem lastChild?_formula_kept (unmarked : isReachability e = false) :
    (kept e).lastChild? .formula = (e.lastChild? .formula).map kept := by
  have counts : Tag.formula ∈ countedTags e := by
    rw [countedTags, unmarked, if_neg Bool.false_ne_true]
    split_ifs <;> decide
  rw [lastChild?_kept property, if_pos counts]

theorem result_propertyQuery_kept (unmarked : isReachability e = false) {body : Element}
    (ofFormula : body.tag = .formula) (limit : Nat) (id : String) :
    (propertyQuery limit (partsOf (kept e)) id (kept body)).result
      = (propertyQuery limit (partsOf e) id body).result := by
  have all : KeepsChildren body := keepsChildren_of_tag ofFormula rfl
  rw [propertyQuery, propertyQuery]
  simp only [smc?_partsOf, observations?_partsOf]
  cases found : e.lastChild? .smc with
  | none =>
    have none : (kept e).lastChild? .smc = none := by
      rw [lastChild?_kept property, found]
      exact ite_self _
    rw [none]
    simp only [Traced.result_mapError, result_formula_kept all]
  | some smc =>
    have counted : countedTags e = [.id, .tags, .formula, .smc, .observations] := by
      rw [countedTags, unmarked, found]
      rfl
    have some : (kept e).lastChild? .smc = some (kept smc) := by
      rw [lastChild?_kept property, counted, found]
      rfl
    have observed : (kept e).lastChild? .observations = (e.lastChild? .observations).map kept := by
      rw [lastChild?_kept property, counted]
      exact if_pos (by decide)
    rw [some, observed]
    simp only [settings_kept (lastChild?_eq_some_iff.1 found).mem.2]
    refine result_bind_congr rfl fun settings => result_bind_congr ?_ fun query => ?_
    · rw [Traced.result_mapError, Traced.result_mapError, result_statisticalFormula_kept all]
    · cases watched : e.lastChild? .observations with
      | none => rfl
      | some observations =>
        refine result_bind_congr ?_ fun _ => rfl
        rw [Traced.result_mapError, Traced.result_mapError,
          result_observables_kept (lastChild?_eq_some_iff.1 watched).mem.2]

end Properties

theorem result_property_kept (limit : Nat) (e : Element) :
    (property limit (kept e)).result = (property limit e).result := by
  by_cases tag : e.tag = .property
  · rw [result_property tag, result_property ((tag_kept e).trans tag), propertyId?_kept tag,
      isReachability_kept tag]
    cases propertyId? e with
    | none => rfl
    | some id =>
      cases marked : isReachability e with
      | true => rfl
      | false =>
        rw [lastChild?_formula_kept tag marked]
        cases found : e.lastChild? .formula with
        | none => rfl
        | some body =>
          have ofFormula := (lastChild?_eq_some_iff.1 found).mem.2
          simp only [Option.map_some, result_propertyQuery_kept tag marked ofFormula]
  · rw [property, property, tag_kept, if_pos tag, if_pos tag, name_kept]

/-! ## Sets of properties -/

/-- Sets of properties are read alike if the properties that are selected are. -/
theorem result_propertySet_congr {options : Options} {root root' : Element}
    (tag : root.tag = root'.tag) (count : root.children.length = root'.children.length)
    (same : ∀ (index : Nat) (child child' : Element), root.children[index]? = some child →
      root'.children[index]? = some child' → options.selects index = true →
      (property options.maxDepth child).result = (property options.maxDepth child').result) :
    (propertySet options root).result = (propertySet options root').result := by
  have entered : (enterSet root).result = (enterSet root').result := by
    rw [enterSet, enterSet, tag]
    split
    · rw [refuseGrammar, refuseGrammar, Element.name, Element.name, tag]
    · rfl
  have selected : List.Forall₂ (fun entry entry' : Element × Nat =>
      (selectedProperty options entry.1 entry.2).result
        = (selectedProperty options entry'.1 entry'.2).result)
      root.children.zipIdx root'.children.zipIdx := by
    rw [List.forall₂_iff_get]
    refine ⟨by simp [count], ?_⟩
    intro index less less'
    simp only [List.get_eq_getElem, List.getElem_zipIdx, Nat.zero_add, selectedProperty]
    split
    · next selects =>
      rw [Traced.result_mapError, Traced.result_mapError,
        same index _ _ (List.getElem?_eq_getElem _) (List.getElem?_eq_getElem _) selects]
    · rfl
  rw [propertySet, propertySet]
  refine result_bind_congr entered fun _ => ?_
  exact result_bind_congr (result_mapM_congr selected) fun _ => rfl

/-- **A set of properties is read from its content alone.** -/
theorem result_propertySet_kept (options : Options) (root : Element) :
    (propertySet options (kept root)).result = (propertySet options root).result := by
  by_cases tag : root.tag = .propertySet
  · have all : KeepsChildren root := keepsChildren_of_tag tag rfl
    apply result_propertySet_congr (tag_kept root)
    · rw [all, List.length_map]
    · intro index child child' found found' _
      rw [all, List.getElem?_map, found', Option.map_some] at found
      obtain rfl := Option.some.inj found
      exact result_property_kept options.maxDepth child'
  · have refused : ∀ e : Element, e.tag ≠ .propertySet → (propertySet options e).result
        = .error (.ofCause (.grammar (.unexpectedRoot e.name))) := by
      intro e tag
      rw [propertySet, enterSet, if_pos tag]
      rfl
    rw [refused root tag, refused (kept root) (tag_kept root ▸ tag), name_kept]

end Grammar

end PetriQuery
