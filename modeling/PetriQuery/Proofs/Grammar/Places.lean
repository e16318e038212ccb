import PetriQuery.Proofs.Grammar.Image
import PetriQuery.Proofs.Grammar.Parts
import PetriQuery.Proofs.Grammar.Watches

/-!
# The places of a query

A query mentions the places that its property names: those of the `place` elements in the last
`formula` child and, for a statistical query, in the named watches of the last `observations` child.
Constants and places are judged by their text, so what stands inside of them names nothing
(`Exposed`).

The proof is about derivations. A rule whose premises mention what their elements name mentions what
its own element names, since every rule looks at all children of its element: operands change sides
and are written twice, but none is left out.

Main result: `places_of_property`.
-/

set_option autoImplicit false

namespace PetriQuery

open Document (Element Tag)

namespace Query

/-! ## Names that can be written down -/

mutual

/-- Every place that a well-formed expression mentions has a name that can be written down. -/
theorem Expr.WellFormed.isName : ∀ {x : Expr}, x.WellFormed → ∀ p ∈ x.mentions, IsName p
  | .literal _, _, _, member => absurd member List.not_mem_nil
  | .place _, named, _, member => List.mem_singleton.1 member ▸ named
  | .chain _ _, ⟨_, all⟩, p, member => Expr.AllWellFormed.isName all p member

/-- Every place that well-formed operands mention has a name that can be written down. -/
theorem Expr.AllWellFormed.isName : ∀ {xs : List Expr}, Expr.AllWellFormed xs →
    ∀ p ∈ Expr.mentionsList xs, IsName p
  | [], _, _, member => absurd member List.not_mem_nil
  | _ :: _, ⟨first, others⟩, p, member =>
    (List.mem_append.1 member).elim (first.isName p) (Expr.AllWellFormed.isName others p)

end

/-- Every place that a plain condition mentions has a name that can be written down. -/
theorem Condition.IsPlain.isName {c : Condition} (plain : c.IsPlain) :
    ∀ p ∈ c.mentions, IsName p := by
  induction c with
  | truth _ | deadlock => exact List.forall_mem_nil _
  | neg _ ih | path _ _ _ ih => exact ih plain
  | conj _ _ first second | disj _ _ first second | holdUntil _ _ _ first second =>
    exact List.forall_mem_append.2 ⟨first plain.1, second plain.2⟩
  | compare _ _ _ => exact List.forall_mem_append.2 ⟨plain.1.isName, plain.2.isName⟩
  | kSafe _ | control _ _ | probability _ _ _ _ _ => exact plain.elim

/-- The operator mentions what its operands mention. -/
def Collects (op : Condition → Condition → Condition) : Prop :=
  ∀ c d, (op c d).mentions = c.mentions ++ d.mentions

/-- Operands combined from the left mention together what each of them mentions. -/
theorem Collects.mem_mentions_foldl_iff {op : Condition → Condition → Condition}
    (collects : Collects op) {cs : List Condition} {c : Condition} {p : String} :
    p ∈ (cs.foldl op c).mentions ↔ ∃ d ∈ c :: cs, p ∈ d.mentions := by
  induction cs generalizing c with
  | nil => simp
  | cons d cs ih =>
    rw [List.foldl_cons, ih]
    simp only [List.exists_mem_cons_iff, collects c d, List.mem_append, or_assoc]

end Query

namespace Grammar

open Query (Collects Condition Expr IsName Observable Operator RunGoal Sampling)
open Traced (result_bind_eq_ok_iff result_mapM_eq_ok_iff)

/-! ## Places in elements -/

/-- The elements of the kind are judged by their text, whatever stands inside of them. -/
def hides : Tag → Bool
  | .integerConstant | .place => true
  | _ => false

/-- The first element is the second one or stands somewhere inside of it, with no constant and no
place around it. -/
inductive Exposed (x : Element) : Element → Prop
  | self : Exposed x x
  | child {c e : Element} : hides e.tag = false → c ∈ e.children → Exposed x c → Exposed x e

/-- A `place` element that is exposed in the element has the text, blanks left out. -/
def HasPlace (e : Element) (name : String) : Prop :=
  ∃ place, Exposed place e ∧ place.tag = .place ∧ Text.strip place.text = name

section Elements

variable {e φ ψ : Element} {tag : Tag} {text : String} {attributes : Document.Attributes}
  {es : List Element} {name : String}

/-- The places of an element are those of its children. -/
theorem hasPlace_iff (shown : hides e.tag = false) :
    HasPlace e name ↔ ∃ c ∈ e.children, HasPlace c name := by
  constructor
  · rintro ⟨place, exposed, isPlace, named⟩
    cases exposed with
    | self =>
      rw [isPlace] at shown
      cases shown
    | child _ member exposed => exact ⟨_, member, place, exposed, isPlace, named⟩
  · rintro ⟨c, member, place, exposed, isPlace, named⟩
    exact ⟨place, .child shown member exposed, isPlace, named⟩

/-- An element with one child has the places of that one. -/
theorem hasPlace_only_iff (shown : hides tag = false) :
    HasPlace (.mk tag text attributes [φ]) name ↔ HasPlace φ name := by
  have own : hides (Element.mk tag text attributes [φ]).tag = false := shown
  simp only [hasPlace_iff own, Element.children, List.mem_singleton, exists_eq_left]

/-- An element with two children has the places of both. -/
theorem hasPlace_two_iff (shown : hides tag = false) :
    HasPlace (.mk tag text attributes [φ, ψ]) name ↔ HasPlace φ name ∨ HasPlace ψ name := by
  have own : hides (Element.mk tag text attributes [φ, ψ]).tag = false := shown
  simp only [hasPlace_iff own, Element.children, List.exists_mem_cons_iff, List.not_mem_nil,
    false_and, exists_false, or_false]

/-- A `place` element is the only place that counts in it. -/
theorem hasPlace_place_iff (isPlace : e.tag = .place) :
    HasPlace e name ↔ Text.strip e.text = name := by
  constructor
  · rintro ⟨place, exposed, -, named⟩
    cases exposed with
    | self => exact named
    | child shown _ _ =>
      rw [isPlace] at shown
      cases shown
  · exact fun named => ⟨e, .self, isPlace, named⟩

/-- No place counts in a constant. -/
theorem not_hasPlace_constant : ¬ HasPlace (.mk .integerConstant text attributes es) name := by
  rintro ⟨place, exposed, isPlace, -⟩
  cases exposed with
  | self => cases isPlace
  | child shown _ _ => cases shown

end Elements

/-! ## Expressions -/

/-- Of lists whose members are related in that the same is true of them, some member of the one has
it iff some member of the other one does. -/
theorem exists_mem_iff_of_forall₂ {α β : Type} {P : α → Prop} {Q : β → Prop} {as : List α}
    {bs : List β} (same : List.Forall₂ (fun a b => P a ↔ Q b) as bs) :
    (∃ a ∈ as, P a) ↔ ∃ b ∈ bs, Q b := by
  induction same with
  | nil => simp
  | cons head _ ih => simp only [List.exists_mem_cons_iff, head, ih]

/-- A `place` element has the place that it names. -/
theorem NamesPlace.mem_mentions_iff {e : Element} {own name : String} (named : NamesPlace e own) :
    name ∈ (Expr.place own).mentions ↔ HasPlace e name := by
  rw [hasPlace_place_iff named.1, named.strip_eq, Expr.mentions, List.mem_singleton, eq_comm]

/-- A chain mentions the places that its element has, if the operands mention those of the
children. -/
theorem mem_mentions_chain_iff {op : Operator} {tag : Tag} {text : String}
    {attributes : Document.Attributes} {es : List Element} {xs : List Expr} {name : String}
    (shown : hides tag = false)
    (same : List.Forall₂ (fun e x => name ∈ x.mentions ↔ HasPlace e name) es xs) :
    name ∈ (Expr.chain op xs).mentions ↔ HasPlace (.mk tag text attributes es) name := by
  have own : hides (Element.mk tag text attributes es).tag = false := shown
  rw [Expr.mentions, Expr.mem_mentionsList, hasPlace_iff own]
  exact (exists_mem_iff_of_forall₂ (same.imp fun _ _ => Iff.symm)).symm

/-- An expression mentions the places of its element. -/
theorem DenotesExpr.mem_mentions_iff {name : String} {e : Element} {k : Nat} {x : Expr}
    (h : DenotesExpr e k x) : name ∈ x.mentions ↔ HasPlace e name := by
  induction h using DenotesExpr.rec' with
  | constant _ => exact iff_of_false List.not_mem_nil not_hasPlace_constant
  | place named => exact named.mem_mentions_iff
  | onePlace named =>
    rw [hasPlace_only_iff rfl]
    exact named.mem_mentions_iff
  | places _ named =>
    apply mem_mentions_chain_iff rfl
    exact List.forall₂_map_right_iff.2 (named.imp fun _ _ named => named.mem_mentions_iff)
  | sum _ _ ih | product _ _ ih | difference _ _ ih =>
    exact mem_mentions_chain_iff rfl (ih.imp fun _ _ ⟨_, _, same⟩ => same)
  | opposite _ ih =>
    -- The zero in front, which no element stands for, mentions nothing.
    rw [hasPlace_only_iff rfl, ← ih]
    simp [Expr.mentions, Expr.mentionsList]

/-! ## Formulae -/

/-- Operands combined from the left mention the places of an element, if each of them mentions those
of the child at its place. -/
theorem mem_mentions_combination_iff {op : Condition → Condition → Condition}
    (collects : Collects op) {tag : Tag} {text : String} {attributes : Document.Attributes}
    {φs : List Element} {c : Condition} {cs : List Condition} {name : String}
    (shown : hides tag = false)
    (same : List.Forall₂ (fun φ d => ∃ (m : Nat) (_ : Denotes φ m d),
      (name ∈ d.mentions ↔ HasPlace φ name)) φs (c :: cs)) :
    name ∈ (cs.foldl op c).mentions ↔ HasPlace (.mk tag text attributes φs) name := by
  have own : hides (Element.mk tag text attributes φs).tag = false := shown
  rw [collects.mem_mentions_foldl_iff, hasPlace_iff own]
  exact (exists_mem_iff_of_forall₂ (same.imp fun _ _ ⟨_, _, same⟩ => same.symm)).symm

/-- A condition mentions the places of its element. -/
theorem Denotes.mem_mentions_iff {name : String} {e : Element} {k : Nat} {c : Condition}
    (h : Denotes e k c) : name ∈ c.mentions ↔ HasPlace e name := by
  induction h using Denotes.rec' with
  | invariant _ ih | impossibility _ ih | possibility _ ih | negation _ _ ih =>
    rw [hasPlace_only_iff rfl]
    exact ih
  | notInvariant _ ih | notImpossibility _ ih | notPossibility _ ih =>
    rw [hasPlace_only_iff rfl, hasPlace_only_iff rfl]
    exact ih
  | path quantifier modality _ ih =>
    rw [hasPlace_only_iff (by cases quantifier <;> rfl),
      hasPlace_only_iff (by cases modality <;> rfl)]
    exact ih
  | holdUntil quantifier _ _ before goal =>
    rw [hasPlace_only_iff (by cases quantifier <;> rfl), hasPlace_two_iff rfl,
      hasPlace_only_iff rfl, hasPlace_only_iff rfl, ← before, ← goal]
    exact List.mem_append
  | deadlock | alwaysTrue | alwaysFalse =>
    rw [hasPlace_iff rfl]
    exact iff_of_false List.not_mem_nil (fun ⟨_, member, _⟩ => nomatch member)
  | conjunction _ _ ih => exact mem_mentions_combination_iff (fun _ _ => rfl) rfl ih
  | disjunction _ _ ih => exact mem_mentions_combination_iff (fun _ _ => rfl) rfl ih
  | exclusive _ _ left right | equivalence _ _ left right =>
    -- Each operand is written twice.
    rw [hasPlace_two_iff rfl, ← left, ← right]
    simp only [Condition.mentions, List.mem_append, or_self]
  | implication _ _ left right =>
    rw [hasPlace_two_iff rfl, ← left, ← right]
    exact List.mem_append
  | compare relation first second =>
    rw [hasPlace_two_iff (by cases relation <;> rfl), ← first.mem_mentions_iff,
      ← second.mem_mentions_iff]
    exact List.mem_append
  | greater first second | greaterEqual first second =>
    rw [hasPlace_two_iff rfl, ← first.mem_mentions_iff, ← second.mem_mentions_iff, or_comm]
    exact List.mem_append

/-! ## Roots -/

/-- A condition mentions the places of the `formula` element whose content denotes it. -/
theorem DenotesFormula.mem_mentions_iff {name : String} {e : Element} {k : Nat} {c : Condition}
    (h : DenotesFormula e k c) (shown : hides e.tag = false) :
    name ∈ c.mentions ↔ HasPlace e name := by
  cases h with
  | kSafe denotes =>
    rw [Element.tag] at shown
    rw [hasPlace_only_iff shown, hasPlace_only_iff rfl]
    exact denotes.mem_mentions_iff
  | control denotes =>
    rw [Element.tag] at shown
    rw [hasPlace_only_iff shown, hasPlace_only_iff rfl]
    exact denotes.mem_mentions_iff
  | plain denotes =>
    rw [Element.tag] at shown
    rw [hasPlace_only_iff shown]
    exact denotes.mem_mentions_iff

/-- A statistical query without observables is one over a formula that mentions the places of the
`formula` element whose content denotes the query. -/
theorem DenotesStatistical.exists_mentions_iff {settings : Sampling} {e : Element} {k : Nat}
    {c : Condition} (h : DenotesStatistical settings e k c) (shown : hides e.tag = false) :
    ∃ goal body, c = .probability goal settings body []
      ∧ ∀ name, name ∈ body.mentions ↔ HasPlace e name := by
  cases h with
  | @mk tag text attributes text' attributes' φ k body goal denotes =>
    refine ⟨goal, body, rfl, ?_⟩
    intro name
    rw [Element.tag] at shown
    rw [hasPlace_only_iff shown, hasPlace_only_iff (by cases goal <;> rfl)]
    exact denotes.mem_mentions_iff

/-- The observable of a watch mentions the places of the watch. -/
theorem Observes.mem_mentions_iff {limit : Nat} {watch : Element} {own name : String}
    {observable : Observable} (h : Observes limit (own, watch) observable)
    (isWatch : watch.tag = .watch) : name ∈ observable.2.mentions ↔ HasPlace watch name := by
  obtain ⟨-, child, children, k, -, denotes⟩ := h
  have shown : hides watch.tag = false := isWatch ▸ rfl
  rw [hasPlace_iff shown, children, denotes.mem_mentions_iff]
  simp

/-- The observables of an `observations` element mention the places of its named watches. -/
theorem mem_mentions_observables_iff {limit : Nat} {e : Element}
    {watched : List Observable} {name : String}
    (read : (observables limit e).result = .ok watched) :
    (∃ observable ∈ watched, name ∈ observable.2.mentions)
      ↔ ∃ watch ∈ e.children, watch.tag = .watch ∧ (watch.get? "name").isSome = true
        ∧ HasPlace watch name := by
  have watches : ∀ named ∈ namedWatches e, named.2.tag = .watch :=
    fun _ member => (mem_namedWatches_iff.1 member).2.1
  have one := (List.forall₂_and_left _ _).2 ⟨watches, observables_eq_ok_iff.1 read⟩
  have all : (∃ named ∈ namedWatches e, HasPlace named.2 name)
      ↔ ∃ observable ∈ watched, name ∈ observable.2.mentions :=
    exists_mem_iff_of_forall₂ (one.imp fun _ _ ⟨isWatch, observes⟩ =>
      (observes.mem_mentions_iff isWatch).symm)
  rw [← all]
  constructor
  · rintro ⟨⟨own, watch⟩, member, has⟩
    obtain ⟨member, tag, named⟩ := mem_namedWatches_iff.1 member
    exact ⟨watch, member, tag, Option.isSome_iff_exists.2 ⟨own, named⟩, has⟩
  · rintro ⟨watch, member, tag, named, has⟩
    obtain ⟨own, named⟩ := Option.isSome_iff_exists.1 named
    exact ⟨(own, watch), mem_namedWatches_iff.2 ⟨member, tag, named⟩, has⟩

/-! ## Properties -/

/-- Every place that the query of a property mentions has a name that can be written down. -/
theorem isName_of_propertyQuery {limit : Nat} {e body : Element} {id : String} {query : Condition}
    (read : (propertyQuery limit (partsOf e) id body).result = .ok query) :
    ∀ p ∈ query.mentions, IsName p := by
  rcases exists_denotes_of_propertyQuery read with
    ⟨-, k, -, denotes⟩ | ⟨-, goal, made, c, watched, -, ⟨k, -, denotes⟩, rfl, observed⟩
  · cases denotes with
    | kSafe denotes => exact denotes.wellFormed.isName
    | control denotes | plain denotes => exact denotes.isPlain.isName
  · cases denotes with
    | mk goal denotes =>
      refine List.forall_mem_append.2 ⟨denotes.isPlain.isName, ?_⟩
      intro p member
      obtain ⟨observable, watchedOne, mentioned⟩ := List.mem_flatMap.1 member
      rcases observed with rfl | ⟨observations, found⟩
      · cases watchedOne
      · obtain ⟨-, -, child, -, m, -, denotes⟩ :=
          exists_observes_of_observables found observable watchedOne
        exact denotes.wellFormed.isName p mentioned

/-- A named watch of the last `observations` child has the place. -/
def HasWatchedPlace (e : Element) (name : String) : Prop :=
  ∃ observations, IsLastChild e .observations observations
    ∧ ∃ watch ∈ observations.children, watch.tag = .watch ∧ (watch.get? "name").isSome = true
      ∧ HasPlace watch name

/-- The watched places are those of the named watches in the last `observations` child. -/
theorem hasWatchedPlace_iff {e observations : Element} {name : String}
    (last : IsLastChild e .observations observations) :
    HasWatchedPlace e name
      ↔ ∃ watch ∈ observations.children, watch.tag = .watch ∧ (watch.get? "name").isSome = true
        ∧ HasPlace watch name := by
  have found := lastChild?_eq_some_iff.2 last
  simp only [HasWatchedPlace, ← lastChild?_eq_some_iff, found, Option.some.injEq, exists_eq_left']

/-- A statistical query mentions what its formula mentions and what its observables mention. -/
theorem mem_mentions_probability_iff {goal : RunGoal} {settings : Sampling} {body : Condition}
    {watched : List Observable} {name : String} :
    name ∈ (Condition.probability goal settings body watched).mentions
      ↔ name ∈ body.mentions ∨ ∃ observable ∈ watched, name ∈ observable.2.mentions := by
  rw [Condition.mentions, List.mem_append, List.mem_flatMap]

/-- The query of a property mentions the places of its formula and, if it is statistical, those of
its watches. -/
theorem mem_mentions_propertyQuery_iff {limit : Nat} {e body : Element} {id name : String}
    {query : Condition} (isFormula : body.tag = .formula)
    (read : (propertyQuery limit (partsOf e) id body).result = .ok query) :
    name ∈ query.mentions
      ↔ HasPlace body name ∨ ((∃ smc, IsLastChild e .smc smc) ∧ HasWatchedPlace e name) := by
  have shown : hides body.tag = false := isFormula ▸ rfl
  rcases propertyQuery_eq_ok_iff.1 read with ⟨plain, denoted⟩ |
    ⟨smc, made, bare, last, -, denoted, attached⟩
  · obtain ⟨k, -, denotes⟩ := formula_eq_ok_iff.1 denoted
    -- Watches without an `smc` child are never read, so they may name places that do not count.
    rw [denotes.mem_mentions_iff shown, iff_self_or]
    rintro ⟨⟨smc, last⟩, -⟩
    exact absurd last.mem.2 (plain smc last.mem.1)
  · obtain ⟨k, -, denotes⟩ := statisticalFormula_eq_ok_iff.1 denoted
    obtain ⟨goal, c, rfl, places⟩ := denotes.exists_mentions_iff shown
    rw [and_iff_right ⟨smc, last⟩]
    rcases attached with ⟨none, rfl⟩ | ⟨observations, watched, last, found, attach⟩
    · rw [mem_mentions_probability_iff, places]
      refine or_congr_right (iff_of_false ?_ ?_)
      · exact fun ⟨_, member, _⟩ => nomatch member
      · rintro ⟨observations, last, -⟩
        exact none observations last.mem.1 last.mem.2
    · obtain rfl := Option.some.inj attach
      rw [mem_mentions_probability_iff, places, mem_mentions_observables_iff found,
        hasWatchedPlace_iff last]

/-- **No place is lost and none is made up.** The places of a query are those that its property
names: the texts, blanks left out, of the `place` elements in the last `formula` child and, if there
is an `smc` child, in the named watches of the last `observations` child. What stands inside of a
constant or of a place counts for nothing. The places are listed in increasing order, and none of
them is empty or has a blank in its name. -/
theorem places_of_property {limit : Nat} {e : Element} {item : Item} {query : Condition}
    (read : (property limit e).result = .ok item) (has : item.query? = some query) :
    ∃ body, IsLastChild e .formula body
      ∧ (∀ name, name ∈ query.places
          ↔ HasPlace body name ∨ ((∃ smc, IsLastChild e .smc smc) ∧ HasWatchedPlace e name))
      ∧ query.places.Pairwise (· < ·)
      ∧ ∀ name ∈ query.places, IsName name := by
  obtain ⟨-, id, -, ⟨-, rfl⟩ | ⟨-, body, query', last, found, rfl⟩⟩ := property_eq_ok_iff.1 read
  · cases has
  · obtain rfl := Option.some.inj has
    refine ⟨body, last, ?_, Query.Names.pairwise_ordered _, ?_⟩
    · intro name
      rw [Condition.mem_places, mem_mentions_propertyQuery_iff last.mem.2 found]
    · intro name member
      exact isName_of_propertyQuery found name (Condition.mem_places.1 member)

/-- A `place` element with the given text, inside of which another one stands. -/
def placeAround (text : String) : Element :=
  .mk .place text .empty [.mk .place "hidden" .empty []]

/-- A statistical property: eventually exactly one of these holds, no transition is enabled, the
tokens of `p1` are more than three. The place `r` is watched under the name `w`, and the place `s`
without a name. -/
def watchedProperty : Element :=
  .mk .property "" .empty
    [.mk .id "q" .empty [], .mk .smc "" .empty [],
      .mk .formula "" .empty
        [.mk .eventually "" .empty
          [.mk .exclusiveDisjunction "" .empty
            [.mk .deadlock "" .empty [],
              .mk .integerGt "" .empty
                [.mk .tokensCount "" .empty [placeAround " p 1"],
                  .mk .integerConstant "3" .empty [placeAround "hidden"]]]]],
      .mk .observations "" .empty
        [.mk .watch "" (Document.Attributes.empty.insert "name" "w") [placeAround "r"],
          .mk .watch "" .empty [placeAround "s"]]]

/-- The query of `watchedProperty`. -/
def watchedQuery : Condition :=
  .probability .eventually .default
    (exclusive .deadlock (.compare .less (.literal 3) (.place "p1"))) [("w", .place "r")]

theorem places_of_property_of_watched :
    (property 3 watchedProperty).result = .ok ⟨"q", some watchedQuery, .ok⟩
      ∧ watchedQuery.places = ["p1", "r"]
      ∧ ∃ body, IsLastChild watchedProperty .formula body
        ∧ ∀ name, name ∈ ["p1", "r"]
          ↔ HasPlace body name
            ∨ ((∃ smc, IsLastChild watchedProperty .smc smc)
              ∧ HasWatchedPlace watchedProperty name) := by
  have read : (property 3 watchedProperty).result = .ok ⟨"q", some watchedQuery, .ok⟩ := by rfl
  have listed : watchedQuery.places = ["p1", "r"] := by decide
  obtain ⟨body, last, places, -, -⟩ := places_of_property read rfl
  exact ⟨read, listed, body, last, fun name => listed ▸ places name⟩

end Grammar

end PetriQuery
