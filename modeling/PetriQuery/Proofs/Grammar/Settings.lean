import PetriQuery.Proofs.Content.Kept
import PetriQuery.Proofs.Document.Writing
import PetriQuery.Proofs.Numeral.Fraction

/-!
# Settings attribute by attribute

The settings of a statistical query are made of eight attributes, each of which has fields of its
own. Settings are refused iff one of the attributes has a value that is no number of its type, and
then for the first such attribute in a fixed order (`settings_eq_error_iff`). Otherwise each field
has the value of its attribute, or its default where that attribute is missing
(`settings_eq_ok_iff`), so a change of one attribute changes no field of another one
(`Makes.sameBut`).
-/

set_option autoImplicit false

namespace PetriQuery.Grammar

open Document (Attributes Element)
open Numeral (Binary32 IsNumeral numeralValue)
open Query (Sampling)
open Traced (result_bind_eq_error_iff result_bind_eq_ok_iff result_mapM_eq_error_iff
  result_mapM_eq_ok_iff)

/-! ## Single attributes -/

/-- The value of the attribute of a setting is no number of the type that the setting has, even
without the blanks around it. -/
def IsBadSetting (key value : String) : Prop :=
  (key ∈ ["time-bound", "step-bound"] ∧ ¬ Numeral.IsInt32 (Text.trimmed value.toList))
    ∨ (key ∈ ["false-positives", "false-negatives", "indifference", "confidence", "interval-width",
        "compare-to"] ∧ ¬ Numeral.IsFraction (Text.trimmed value.toList))

/-- The attributes of settings are those of the bounds and those of the fractions. -/
theorem mem_settingKeys_iff {key : String} :
    key ∈ settingKeys
      ↔ key ∈ ["time-bound", "step-bound"]
        ∨ key ∈ ["false-positives", "false-negatives", "indifference", "confidence",
          "interval-width", "compare-to"] := by
  change key ∈ ["time-bound", "step-bound"] ++ ["false-positives", "false-negatives",
    "indifference", "confidence", "interval-width", "compare-to"] ↔ _
  exact List.mem_append

/-- No attribute of a bound is one of a fraction. -/
theorem not_fraction_of_bound {key : String} (bound : key ∈ ["time-bound", "step-bound"]) :
    key ∉ ["false-positives", "false-negatives", "indifference", "confidence", "interval-width",
      "compare-to"] := by
  simp only [List.mem_cons, List.not_mem_nil, or_false] at bound
  rcases bound with rfl | rfl
  · decide
  · decide

theorem isBadSetting_of_bound {key value : String} (bound : key ∈ ["time-bound", "step-bound"]) :
    IsBadSetting key value ↔ ¬ Numeral.IsInt32 (Text.trimmed value.toList) := by
  rw [IsBadSetting, and_iff_right bound, or_iff_left]
  exact fun both => not_fraction_of_bound bound both.1

theorem isBadSetting_of_fraction {key value : String}
    (fraction : key ∈ ["false-positives", "false-negatives", "indifference", "confidence",
      "interval-width", "compare-to"]) :
    IsBadSetting key value ↔ ¬ Numeral.IsFraction (Text.trimmed value.toList) := by
  rw [IsBadSetting, and_iff_right fraction, or_iff_right]
  exact fun both => not_fraction_of_bound both.1 fraction

/-- A field has the number that the value of its attribute is without the blanks around it, or the
default if the attribute is missing. -/
def FieldIs {α : Type} (IsOf : List Char → α → Prop) (e : Element) (key : String)
    (default field : α) : Prop :=
  match e.get? key with
  | none => field = default
  | some value => IsOf (Text.trimmed value.toList) field

/-- A field for a bound has the integer that the attribute writes, or the default. -/
def BoundIs : Element → String → Int32 → Int32 → Prop :=
  FieldIs fun text bound => IsNumeral text ∧ bound.toInt = numeralValue text

/-- A field for a fraction has the number that is read from the attribute, or the default. -/
def FractionIs : Element → String → Binary32 → Binary32 → Prop :=
  FieldIs fun text fraction => Binary32.read? text = some fraction

/-- An attribute is refused iff it has a value, and the value is not read. -/
theorem readAttribute_eq_error_iff {α : Type} {read? : List Char → Option α} {e : Element}
    {key : String} {fault : Fault} :
    (readAttribute read? e key).result = .error fault
      ↔ ∃ value, e.get? key = some value ∧ read? (Text.trimmed value.toList) = none
        ∧ fault = .invalidAttribute key value := by
  rw [readAttribute]
  cases e.get? key with
  | none => simp
  | some value =>
    cases read : read? (Text.trimmed value.toList) with
    | none => simp [read, eq_comm]
    | some found => simp [read]

/-- A bound is refused for a value that is no integer of 32 bits. -/
theorem readBound_eq_error_iff {e : Element} {key : String} {fault : Fault} :
    (readBound e key).result = .error fault
      ↔ ∃ value, e.get? key = some value ∧ ¬ Numeral.IsInt32 (Text.trimmed value.toList)
        ∧ fault = .invalidAttribute key value := by
  rw [readBound, readAttribute_eq_error_iff]
  refine exists_congr fun value => and_congr_right fun _ => and_congr_left fun _ => ?_
  rw [← Numeral.exists_readInt32_iff]
  cases Numeral.readInt32 (Text.trimmed value.toList) <;> simp [Except.toOption]

/-- A bound is read from the numerals of the integers of 32 bits. -/
theorem readBound_eq_ok_iff {e : Element} {key : String} {bound : Int32} :
    (readBound e key).result = .ok (some bound)
      ↔ ∃ value, e.get? key = some value ∧ IsNumeral (Text.trimmed value.toList)
        ∧ bound.toInt = numeralValue (Text.trimmed value.toList) := by
  rw [readBound, readAttribute]
  cases e.get? key with
  | none => simp
  | some value =>
    simp only [Option.some.injEq, exists_eq_left', ← Numeral.readInt32_eq_ok_iff]
    cases read : Numeral.readInt32 (Text.trimmed value.toList) <;> simp [Except.toOption]

/-- A fraction is refused for a value that is no fraction numeral. -/
theorem readFraction_eq_error_iff {e : Element} {key : String} {fault : Fault} :
    (readFraction e key).result = .error fault
      ↔ ∃ value, e.get? key = some value ∧ ¬ Numeral.IsFraction (Text.trimmed value.toList)
        ∧ fault = .invalidAttribute key value := by
  rw [readFraction, readAttribute_eq_error_iff]
  refine exists_congr fun value => and_congr_right fun _ => and_congr_left fun _ => ?_
  rw [← Numeral.exists_read?_iff, not_exists, Option.eq_none_iff_forall_ne_some]

/-- What is read of an attribute is some value iff the attribute is there. -/
theorem isSome_of_readAttribute {α : Type} {read? : List Char → Option α} {e : Element}
    {key : String} {found : Option α} (read : (readAttribute read? e key).result = .ok found) :
    found.isSome = true ↔ ∃ value, e.get? key = some value := by
  rw [readAttribute] at read
  cases has : e.get? key with
  | none =>
    rw [has] at read
    obtain rfl := Except.ok.inj read
    simp
  | some value =>
    rw [has] at read
    cases number : read? (Text.trimmed value.toList) with
    | none =>
      simp only [number] at read
      cases read
    | some a =>
      simp only [number] at read
      obtain rfl := Except.ok.inj read
      simp

/-- A field has the number of its attribute iff that number is read and put in place of the
default. -/
theorem fieldIs_iff {α : Type} {read? : List Char → Option α} {IsOf : List Char → α → Prop}
    (reads : ∀ text a, read? text = some a ↔ IsOf text a) {e : Element} {key : String}
    {default field : α} :
    FieldIs IsOf e key default field
      ↔ ∃ found, (readAttribute read? e key).result = .ok found ∧ found.getD default = field := by
  rw [FieldIs, readAttribute]
  cases e.get? key with
  | none => simp [eq_comm]
  | some value =>
    simp only [← reads]
    cases number : read? (Text.trimmed value.toList) with
    | none => simp
    | some a => simp

/-- A bound is read and put in place of the default. -/
theorem boundIs_iff {e : Element} {key : String} {default field : Int32} :
    BoundIs e key default field
      ↔ ∃ found, (readBound e key).result = .ok found ∧ found.getD default = field := by
  apply fieldIs_iff
  intro text bound
  rw [← Numeral.readInt32_eq_ok_iff]
  cases Numeral.readInt32 text <;> simp [Except.toOption]

/-- A fraction is read and put in place of the default. -/
theorem fractionIs_iff {e : Element} {key : String} {default field : Binary32} :
    FractionIs e key default field
      ↔ ∃ found, (readFraction e key).result = .ok found ∧ found.getD default = field :=
  fieldIs_iff fun _ _ => Iff.rfl

/-- Elements with the same value of an attribute give its field the same number. -/
theorem FieldIs.unique {α : Type} {IsOf : List Char → α → Prop}
    (one : ∀ text a b, IsOf text a → IsOf text b → a = b) {e e' : Element} {key : String}
    {default field field' : α} (same : e'.get? key = e.get? key)
    (h : FieldIs IsOf e key default field) (h' : FieldIs IsOf e' key default field') :
    field = field' := by
  rw [FieldIs] at h h'
  rw [same] at h'
  cases has : e.get? key with
  | none =>
    rw [has] at h h'
    exact h.trans h'.symm
  | some value =>
    rw [has] at h h'
    exact one _ _ _ h h'

theorem BoundIs.unique {e e' : Element} {key : String} {default field field' : Int32}
    (same : e'.get? key = e.get? key) (h : BoundIs e key default field)
    (h' : BoundIs e' key default field') : field = field' :=
  FieldIs.unique (fun _ _ _ first second => Int32.toInt_inj.1 (first.2.trans second.2.symm)) same h
    h'

theorem FractionIs.unique {e e' : Element} {key : String} {default field field' : Binary32}
    (same : e'.get? key = e.get? key) (h : FractionIs e key default field)
    (h' : FractionIs e' key default field') : field = field' :=
  FieldIs.unique (fun _ _ _ first second => Option.some.inj (first.symm.trans second)) same h h'

/-! ## All attributes -/

/-- The element makes the settings: each field has the number of its attribute or its default. -/
structure Makes (e : Element) (made : Sampling) : Prop where
  timeBound : BoundIs e "time-bound" Sampling.default.timeBound made.timeBound
  stepBound : BoundIs e "step-bound" Sampling.default.stepBound made.stepBound
  falsePositives :
    FractionIs e "false-positives" Sampling.default.falsePositives made.falsePositives
  falseNegatives :
    FractionIs e "false-negatives" Sampling.default.falseNegatives made.falseNegatives
  indifferenceUp : FractionIs e "indifference" Sampling.default.indifferenceUp made.indifferenceUp
  indifferenceDown :
    FractionIs e "indifference" Sampling.default.indifferenceDown made.indifferenceDown
  confidence : FractionIs e "confidence" Sampling.default.confidence made.confidence
  intervalWidth : FractionIs e "interval-width" Sampling.default.intervalWidth made.intervalWidth
  isTest : made.isTest = true ↔ ∃ value, e.get? "compare-to" = some value
  threshold : FractionIs e "compare-to" Sampling.default.threshold made.threshold

/-- The settings are equal but for the fields that an attribute makes. -/
structure SameBut (key : String) (s t : Sampling) : Prop where
  timeBound : key ≠ "time-bound" → s.timeBound = t.timeBound
  stepBound : key ≠ "step-bound" → s.stepBound = t.stepBound
  falsePositives : key ≠ "false-positives" → s.falsePositives = t.falsePositives
  falseNegatives : key ≠ "false-negatives" → s.falseNegatives = t.falseNegatives
  indifferenceUp : key ≠ "indifference" → s.indifferenceUp = t.indifferenceUp
  indifferenceDown : key ≠ "indifference" → s.indifferenceDown = t.indifferenceDown
  confidence : key ≠ "confidence" → s.confidence = t.confidence
  intervalWidth : key ≠ "interval-width" → s.intervalWidth = t.intervalWidth
  isTest : key ≠ "compare-to" → s.isTest = t.isTest
  threshold : key ≠ "compare-to" → s.threshold = t.threshold

/-- Reads the attribute of a setting and leaves its value out. -/
def checkSetting (e : Element) (key : String) : Traced Fault Unit :=
  if key ∈ ["time-bound", "step-bound"] then (fun _ => ()) <$> readBound e key
  else (fun _ => ()) <$> readFraction e key

section

variable {e : Element}

/-- The attribute of a setting is refused iff its value is bad. -/
theorem checkSetting_eq_error_iff {key : String} (known : key ∈ settingKeys) {fault : Fault} :
    (checkSetting e key).result = .error fault
      ↔ ∃ value, e.get? key = some value ∧ IsBadSetting key value
        ∧ fault = .invalidAttribute key value := by
  rw [checkSetting]
  split
  · next bound =>
    rw [Traced.result_map, map_eq_error_iff, readBound_eq_error_iff]
    simp only [isBadSetting_of_bound bound]
  · next notBound =>
    rw [Traced.result_map, map_eq_error_iff, readFraction_eq_error_iff]
    simp only [isBadSetting_of_fraction ((mem_settingKeys_iff.1 known).resolve_left notBound)]

/-- The attribute of a setting is read iff its value is not bad. -/
theorem exists_checkSetting_iff {key : String} (known : key ∈ settingKeys) :
    (∃ u, (checkSetting e key).result = .ok u)
      ↔ ∀ value, e.get? key = some value → ¬ IsBadSetting key value := by
  cases read : (checkSetting e key).result with
  | ok u =>
    refine iff_of_true ⟨u, rfl⟩ fun value has bad => ?_
    have refused := (checkSetting_eq_error_iff known).2 ⟨value, has, bad, rfl⟩
    rw [read] at refused
    cases refused
  | error fault =>
    obtain ⟨value, has, bad, -⟩ := (checkSetting_eq_error_iff known).1 read
    exact iff_of_false nofun fun good => good value has bad

/-- Settings are refused as a walk along their attributes is. -/
theorem settings_eq_error_iff_check {fault : Fault} :
    (settings e).result = .error fault
      ↔ (settingKeys.mapM (checkSetting e)).result = .error fault := by
  -- What settings do behind their attributes is to leave a note, and that cannot fail.
  have noted (message : String) :
      (Traced.note .debug message : Traced Fault Unit).result = .ok () := rfl
  simp only [settings, settingKeys, checkSetting, List.mapM_cons, List.mapM_nil, List.mem_cons,
    List.not_mem_nil, String.reduceEq, or_self, or_false, or_true, if_true, if_false,
    result_bind_eq_error_iff, Traced.result_map, map_eq_error_iff, map_eq_ok_iff,
    Traced.result_pure, noted, reduceCtorEq, and_false, exists_false, exists_const,
    exists_and_right, and_true]

/-- Settings are refused for the first of their attributes that has a bad value. -/
theorem settings_eq_error_iff {fault : Fault} :
    (settings e).result = .error fault
      ↔ ∃ (index : Nat) (key value : String), settingKeys[index]? = some key
        ∧ e.get? key = some value ∧ IsBadSetting key value ∧ fault = .invalidAttribute key value
        ∧ ∀ earlier < index, ∀ key', settingKeys[earlier]? = some key' →
          ∀ value', e.get? key' = some value' → ¬ IsBadSetting key' value' := by
  rw [settings_eq_error_iff_check, result_mapM_eq_error_iff]
  constructor
  · rintro ⟨index, key, place, refused, before⟩
    obtain ⟨value, has, bad, same⟩ :=
      (checkSetting_eq_error_iff (List.mem_of_getElem? place)).1 refused
    refine ⟨index, key, value, place, has, bad, same, ?_⟩
    intro earlier less key' place'
    apply (exists_checkSetting_iff (List.mem_of_getElem? place')).1
    exact before earlier less key' place'
  · rintro ⟨index, key, value, place, has, bad, same, before⟩
    refine ⟨index, key, place, ?_, ?_⟩
    · exact (checkSetting_eq_error_iff (List.mem_of_getElem? place)).2 ⟨value, has, bad, same⟩
    · intro earlier less key' place'
      apply (exists_checkSetting_iff (List.mem_of_getElem? place')).2
      exact before earlier less key' place'

/-- Settings are refused iff one of their attributes has a bad value. -/
theorem exists_error_of_settings_iff :
    (∃ fault, (settings e).result = .error fault)
      ↔ ∃ key value, e.get? key = some value ∧ IsBadSetting key value := by
  constructor
  · rintro ⟨fault, refused⟩
    obtain ⟨-, key, value, -, has, bad, -⟩ := settings_eq_error_iff.1 refused
    exact ⟨key, value, has, bad⟩
  · rintro ⟨key, value, has, bad⟩
    have known : key ∈ settingKeys := mem_settingKeys_iff.2 (bad.imp And.left And.left)
    cases read : (settingKeys.mapM (checkSetting e)).result with
    | error fault => exact ⟨fault, settings_eq_error_iff_check.2 read⟩
    | ok us =>
      -- A walk that comes to its end has read every attribute, this one too.
      obtain ⟨index, within, rfl⟩ := List.mem_iff_getElem.1 known
      have each := result_mapM_eq_ok_iff.1 read
      have passed := each.get within (each.length_eq ▸ within)
      exact absurd bad ((exists_checkSetting_iff known).1 ⟨_, passed⟩ value has)

/-- **Settings are made of the numbers in their attributes and of the defaults.** -/
theorem settings_eq_ok_iff {made : Sampling} : (settings e).result = .ok made ↔ Makes e made := by
  constructor
  · intro read
    simp only [settings, result_bind_eq_ok_iff] at read
    obtain ⟨time, readTime, step, readStep, positives, readPositives, negatives, readNegatives,
      indifference, readIndifference, confidence, readConfidence, width, readWidth, threshold,
      readThreshold, -, -, same⟩ := read
    obtain rfl := Except.ok.inj same
    exact
      { timeBound := boundIs_iff.2 ⟨time, readTime, rfl⟩
        stepBound := boundIs_iff.2 ⟨step, readStep, rfl⟩
        falsePositives := fractionIs_iff.2 ⟨positives, readPositives, rfl⟩
        falseNegatives := fractionIs_iff.2 ⟨negatives, readNegatives, rfl⟩
        indifferenceUp := fractionIs_iff.2 ⟨indifference, readIndifference, rfl⟩
        indifferenceDown := fractionIs_iff.2 ⟨indifference, readIndifference, rfl⟩
        confidence := fractionIs_iff.2 ⟨confidence, readConfidence, rfl⟩
        intervalWidth := fractionIs_iff.2 ⟨width, readWidth, rfl⟩
        isTest := isSome_of_readAttribute readThreshold
        threshold := fractionIs_iff.2 ⟨threshold, readThreshold, rfl⟩ }
  · intro makes
    obtain ⟨time, readTime, timeIs⟩ := boundIs_iff.1 makes.timeBound
    obtain ⟨step, readStep, stepIs⟩ := boundIs_iff.1 makes.stepBound
    obtain ⟨positives, readPositives, positivesIs⟩ := fractionIs_iff.1 makes.falsePositives
    obtain ⟨negatives, readNegatives, negativesIs⟩ := fractionIs_iff.1 makes.falseNegatives
    obtain ⟨indifference, readIndifference, upIs⟩ := fractionIs_iff.1 makes.indifferenceUp
    obtain ⟨again, readAgain, downIs⟩ := fractionIs_iff.1 makes.indifferenceDown
    obtain ⟨confidence, readConfidence, confidenceIs⟩ := fractionIs_iff.1 makes.confidence
    obtain ⟨width, readWidth, widthIs⟩ := fractionIs_iff.1 makes.intervalWidth
    obtain ⟨threshold, readThreshold, thresholdIs⟩ := fractionIs_iff.1 makes.threshold
    -- One attribute is read for the two fields of the indifference region.
    obtain rfl : indifference = again := Except.ok.inj (readIndifference.symm.trans readAgain)
    have testIs : threshold.isSome = made.isTest :=
      Bool.eq_iff_iff.2 ((isSome_of_readAttribute readThreshold).trans makes.isTest.symm)
    simp only [settings, result_bind_eq_ok_iff]
    refine ⟨time, readTime, step, readStep, positives, readPositives, negatives, readNegatives,
      indifference, readIndifference, confidence, readConfidence, width, readWidth, threshold,
      readThreshold, (), rfl, ?_⟩
    rw [timeIs, stepIs, positivesIs, negativesIs, upIs, downIs, confidenceIs, widthIs, testIs,
      thresholdIs]
    rfl

/-- Settings of elements that differ in one attribute differ in its fields alone. -/
theorem Makes.sameBut {e' : Element} {key : String} {made made' : Sampling}
    (others : ∀ other ≠ key, e'.get? other = e.get? other) (h : Makes e made)
    (h' : Makes e' made') : SameBut key made made' where
  timeBound other := h.timeBound.unique (others _ other.symm) h'.timeBound
  stepBound other := h.stepBound.unique (others _ other.symm) h'.stepBound
  falsePositives other := h.falsePositives.unique (others _ other.symm) h'.falsePositives
  falseNegatives other := h.falseNegatives.unique (others _ other.symm) h'.falseNegatives
  indifferenceUp other := h.indifferenceUp.unique (others _ other.symm) h'.indifferenceUp
  indifferenceDown other := h.indifferenceDown.unique (others _ other.symm) h'.indifferenceDown
  confidence other := h.confidence.unique (others _ other.symm) h'.confidence
  intervalWidth other := h.intervalWidth.unique (others _ other.symm) h'.intervalWidth
  isTest other := by
    rw [Bool.eq_iff_iff, h.isTest, h'.isTest, others _ other.symm]
  threshold other := h.threshold.unique (others _ other.symm) h'.threshold

end

/-- **Settings are read attribute by attribute.** They are refused for the first attribute, in a
fixed order of the eight, that has a value which is no number of its type, with that value as it
stands, and they are refused only then. Otherwise each field has the number in its own attribute, or
its default if the attribute is missing. So elements that differ in one attribute make settings that
differ in the fields of that attribute alone, and the order in which the attributes of an element
are added does not matter. -/
theorem settings_are_independent (e : Element) :
    (∀ fault, (settings e).result = .error fault
        ↔ ∃ (index : Nat) (key value : String), settingKeys[index]? = some key
          ∧ e.get? key = some value ∧ IsBadSetting key value ∧ fault = .invalidAttribute key value
          ∧ ∀ earlier < index, ∀ key', settingKeys[earlier]? = some key' →
            ∀ value', e.get? key' = some value' → ¬ IsBadSetting key' value')
      ∧ ((∃ fault, (settings e).result = .error fault)
        ↔ ∃ key value, e.get? key = some value ∧ IsBadSetting key value)
      ∧ (∀ made, (settings e).result = .ok made ↔ Makes e made)
      ∧ (∀ (e' : Element) (key : String), (∀ other ≠ key, e'.get? other = e.get? other) →
          ∀ made made', (settings e).result = .ok made → (settings e').result = .ok made' →
            SameBut key made made')
      ∧ ∀ entries, entries.Perm e.attributes.entries →
          settings (.mk e.tag e.text (.ofList entries) e.children) = settings e := by
  refine ⟨?_, exists_error_of_settings_iff, ?_, ?_, ?_⟩
  · exact fun fault => settings_eq_error_iff
  · exact fun made => settings_eq_ok_iff
  · intro e' key others made made' read read'
    exact (settings_eq_ok_iff.1 read).sameBut others (settings_eq_ok_iff.1 read')
  · intro entries perm
    rw [Attributes.ofList_of_perm perm]
    cases e
    rfl

/-- An `smc` element with the attributes. -/
def smcOf (entries : List (String × String)) : Element := .mk .smc "" (.ofList entries) []

theorem settings_are_independent_of_indifference :
    (settings (smcOf [("compare-to", "half"), ("step-bound", " 1.5")])).result
        = .error (.invalidAttribute "step-bound" " 1.5")
      ∧ (settings (smcOf [("compare-to", " 1 ")])).result
        = .ok { isTest := true, threshold := ⟨0x3f800000⟩ }
      ∧ SameBut "indifference" { isTest := true, threshold := ⟨0x3f800000⟩ }
        { isTest := true, threshold := ⟨0x3f800000⟩, indifferenceUp := ⟨0x3f000000⟩,
          indifferenceDown := ⟨0x3f000000⟩ }
      ∧ settings (smcOf [("indifference", "0.5"), ("compare-to", " 1 ")])
        = settings (smcOf [("compare-to", " 1 "), ("indifference", "0.5")]) := by
  have plain : (settings (smcOf [("compare-to", " 1 ")])).result
      = .ok { isTest := true, threshold := ⟨0x3f800000⟩ } := by
    rfl
  have widened : (settings (smcOf [("compare-to", " 1 "), ("indifference", "0.5")])).result
      = .ok { isTest := true, threshold := ⟨0x3f800000⟩, indifferenceUp := ⟨0x3f000000⟩,
              indifferenceDown := ⟨0x3f000000⟩ } := by
    rfl
  refine ⟨?_, plain, ?_, ?_⟩
  · have bad : IsBadSetting "step-bound" " 1.5" := by
      apply (isBadSetting_of_bound (by decide)).2
      rw [← Numeral.exists_readInt32_iff]
      rintro ⟨bound, read⟩
      cases read
    refine ((settings_are_independent _).1 _).2 ⟨1, "step-bound", " 1.5", rfl, by rfl, bad, rfl, ?_⟩
    intro earlier less key place value has
    obtain rfl := Nat.lt_one_iff.1 less
    obtain rfl := Option.some.inj place
    cases has
  · refine (settings_are_independent _).2.2.2.1 _ "indifference" ?_ _ _ plain widened
    intro other different
    exact (Attributes.get?_insert _ _ _ other).trans (if_neg different.symm)
  · obtain ⟨-, -, -, -, reordered⟩ :=
      settings_are_independent (smcOf [("compare-to", " 1 "), ("indifference", "0.5")])
    exact reordered [("indifference", "0.5"), ("compare-to", " 1 ")] (by decide)

end PetriQuery.Grammar
