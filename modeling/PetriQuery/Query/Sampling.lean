import PetriQuery.Numeral.Layout

/-!
# Settings of statistical queries

What a statistical test is run with: bounds on the sampled runs, the admitted errors of the test and
the threshold that a hypothesis test compares with. The settings are stored and never evaluated.
-/

set_option autoImplicit false

namespace PetriQuery.Query

open Numeral

/-- Settings of a statistical query. A bound equal to the largest integer is no bound. -/
structure Sampling where
  /-- Bound on the duration of a run. -/
  timeBound : Int32 := Int32.maxValue
  /-- Bound on the number of steps of a run. -/
  stepBound : Int32 := Int32.maxValue
  /-- Probability of accepting a false hypothesis. -/
  falsePositives : Binary32 := ⟨0x3d4ccccd⟩
  /-- Probability of rejecting a true hypothesis. -/
  falseNegatives : Binary32 := ⟨0x3d4ccccd⟩
  /-- Upper half-width of the indifference region. -/
  indifferenceUp : Binary32 := ⟨0x3d4ccccd⟩
  /-- Lower half-width of the indifference region. -/
  indifferenceDown : Binary32 := ⟨0x3d4ccccd⟩
  /-- Confidence of an estimation. -/
  confidence : Binary32 := ⟨0x3f733333⟩
  /-- Width of the confidence interval of an estimation. -/
  intervalWidth : Binary32 := ⟨0x3d4ccccd⟩
  /-- Whether the query is a hypothesis test against `threshold`, and no estimation. -/
  isTest : Bool := false
  /-- Threshold of a hypothesis test. -/
  threshold : Binary32 := .zero
deriving DecidableEq, Repr

namespace Sampling

/-- The settings of a query that sets none. -/
def default : Sampling := {}

instance : Inhabited Sampling := ⟨default⟩

/-- Whether runs are bounded neither in time nor in steps. -/
def isUnbounded (s : Sampling) : Bool :=
  s.timeBound = Int32.maxValue && s.stepBound = Int32.maxValue

/-- Whether two settings have equal values, fractions compared as numbers. -/
def agrees (s t : Sampling) : Bool :=
  s.timeBound = t.timeBound && s.stepBound = t.stepBound
    && s.falsePositives.agrees t.falsePositives && s.falseNegatives.agrees t.falseNegatives
    && s.indifferenceUp.agrees t.indifferenceUp && s.indifferenceDown.agrees t.indifferenceDown
    && s.confidence.agrees t.confidence && s.intervalWidth.agrees t.intervalWidth
    && s.isTest = t.isTest && s.threshold.agrees t.threshold

/-- The settings as they stand in a log record. -/
def describe (s : Sampling) : String :=
  let fields : List (String × String) :=
    [("time_bound", toString s.timeBound.toInt),
      ("step_bound", toString s.stepBound.toInt),
      ("false_positives", Layout.log.text s.falsePositives),
      ("false_negatives", Layout.log.text s.falseNegatives),
      ("indifference_region_up", Layout.log.text s.indifferenceUp),
      ("indifference_region_down", Layout.log.text s.indifferenceDown),
      ("confidence", Layout.log.text s.confidence),
      ("estimation_interval_width", Layout.log.text s.intervalWidth),
      ("compare_to_float", toString s.isTest),
      ("geq_than", Layout.log.text s.threshold)]
  let written := fields.map fun field => field.1 ++ ": " ++ field.2
  "SmcSettings \x7b " ++ String.intercalate ", " written ++ " \x7d"

/-- The default fractions are the numbers nearest to 0.05 and 0.95. -/
example : Layout.json.text default.falsePositives = "0.05"
    ∧ Layout.json.text default.confidence = "0.95" := by
  decide +kernel

end Sampling

end PetriQuery.Query
