import PetriQuery.Command.Run
import PetriQuery.Proofs.Command.Reading
import PetriQuery.Proofs.Grammar.Property

/-!
# What the command line means

A command line is accepted as what it spells, whatever the order and the form of its options, and
what is printed then is the report of the document that it names, read as it asks for. Of the
indices that are selected only their set counts, so command lines that ask for the same document, in
the same form, to the same depth and with the same set of indices do the same.

Main result: `command_line_means_its_options`.
-/

set_option autoImplicit false

namespace PetriQuery

namespace Grammar

variable {options options' : Options}

/-- Of the selection, only the set of its indices counts. -/
theorem selected_congr {selection selection' : List Nat}
    (same : ∀ index, index ∈ selection' ↔ index ∈ selection) (index : Nat) :
    Selected selection' index ↔ Selected selection index := by
  simp only [Selected, List.eq_nil_iff_forall_not_mem, same]

/-- A set of properties is read alike, log and all, to the same depth and with the same indices. -/
theorem propertySet_congr (depth : options'.maxDepth = options.maxDepth)
    (same : ∀ index, index ∈ options'.selected ↔ index ∈ options.selected) :
    propertySet options' = propertySet options := by
  have selects (index : Nat) : options'.selects index = options.selects index := by
    rw [Bool.eq_iff_iff, selects_iff, selects_iff]
    exact selected_congr same index
  have each : selectedProperty options' = selectedProperty options := by
    funext child index
    rw [selectedProperty, selectedProperty, selects, depth]
  funext root
  rw [propertySet, propertySet, each]

end Grammar

namespace Command

open Grammar (Selected)

/-- What is printed of a run: its report, if it has one. -/
def printed (outcome : Traced Failure String) : String :=
  match outcome.result with
  | .ok report => report
  | .error _ => ""

/-- A run prints the report of what is loaded, and nothing if nothing is loaded. -/
theorem printed_run (asked : Arguments) (opened : Except FileFault Source) :
    printed (run asked opened)
      = match (load asked.options asked.path opened).result with
        | .ok items => Report.report asked.json items
        | .error _ => "" := by
  rw [printed, run, Traced.result_bind]
  cases (load asked.options asked.path opened).result <;> rfl

/-- Runs that ask for the same path, form and depth, and for the same set of indices, are the
same. -/
theorem run_congr {asked asked' : Arguments} (path : asked'.path = asked.path)
    (json : asked'.json = asked.json) (depth : asked'.maxDepth = asked.maxDepth)
    (same : ∀ index, index ∈ asked'.selected ↔ index ∈ asked.selected) :
    run asked' = run asked := by
  have sets : Grammar.propertySet asked'.options = Grammar.propertySet asked.options :=
    Grammar.propertySet_congr depth same
  have items : readItems asked'.options = readItems asked.options := by
    funext reading source
    rw [readItems, readItems, sets]
  have loads : load asked'.options = load asked.options := by
    funext path opened
    cases opened <;> simp only [load, items]
  funext opened
  rw [run, run, loads, path, json]

/-- What is selected is what is given anywhere, or everything if nothing is. -/
theorem Means.selects_iff {given : List Given} {asked : Arguments} (means : Means given asked)
    (index : Nat) :
    asked.options.selects index = true
      ↔ (∀ one ∈ given, one.indices = []) ∨ ∃ one ∈ given, index ∈ one.indices := by
  rw [Grammar.selects_iff, Selected, Arguments.options, ← means.selected, List.mem_flatMap,
    List.flatMap_eq_nil_iff]

/-- **The command line means what its options say, in any spelling and order.** It is accepted iff
it spells things that amount to what is asked for. What is printed then is the report of the
document that is loaded, and nothing if none is. In the document those properties are read whose
indices are given in any of the lists, or all if no index is given, and they are read to the depth
that is given, or to 256 levels. So two command lines that are accepted with the same path, form and
depth, and with the same set of indices, do the same, whatever files there are. -/
theorem command_line_means_its_options (arguments : List String) (asked : Arguments) :
    (Arguments.read arguments = .ok asked
        ↔ ∃ given, Spells given arguments ∧ Means given asked)
      ∧ (∀ given, Spells given arguments → Means given asked →
          (∀ index, asked.options.selects index = true
            ↔ (∀ one ∈ given, one.indices = []) ∨ ∃ one ∈ given, index ∈ one.indices)
          ∧ (given.filterMap Given.depth? = [asked.options.maxDepth]
            ∨ given.filterMap Given.depth? = [] ∧ asked.options.maxDepth = 256)
          ∧ ∀ files : String → Except FileFault Source,
            printed (run asked (files asked.path))
              = match (load asked.options asked.path (files asked.path)).result with
                | .ok items => Report.report asked.json items
                | .error _ => "")
      ∧ ∀ arguments' asked', Arguments.read arguments = .ok asked →
          Arguments.read arguments' = .ok asked' → asked'.path = asked.path →
          asked'.json = asked.json → asked'.maxDepth = asked.maxDepth →
          (∀ index, index ∈ asked'.selected ↔ index ∈ asked.selected) →
          ∀ files : String → Except FileFault Source,
            run asked' (files asked'.path) = run asked (files asked.path) := by
  refine ⟨read_eq_ok_iff, ?_, ?_⟩
  · intro given _ means
    exact ⟨means.selects_iff, means.depth, fun files => printed_run asked (files asked.path)⟩
  · intro arguments' asked' _ _ path json depth same files
    rw [run_congr path json depth same, path]

/-- A document of two properties. -/
def twoProperties : Source :=
  .ok ("<property-set><property><id>a</id><formula><deadlock/></formula></property>"
    ++ "<property><id>b</id><formula><deadlock/></formula></property></property-set>").toUTF8.toList

/-- That document under a name, and no other file. -/
def oneFile (path : String) : Except FileFault Source :=
  if path = "a.xml" then .ok twoProperties else .error .noSuchFile

theorem command_line_means_its_options_of_two_spellings :
    Arguments.read ["-s2,0", "a.xml"] = .ok ⟨"a.xml", [2, 0], false, 256⟩
      ∧ Arguments.read ["--select", "0", "--max-depth=256", "-s=+02,0", "--select=2", "--", "a.xml"]
        = .ok ⟨"a.xml", [0, 2, 0, 2], false, 256⟩
      ∧ Spells [.select [2, 0], .path "a.xml"] ["-s2,0", "a.xml"]
      ∧ Means [.select [2, 0], .path "a.xml"] ⟨"a.xml", [2, 0], false, 256⟩
      ∧ printed (run ⟨"a.xml", [2, 0], false, 256⟩ (oneFile "a.xml"))
        = "0 ok a deadlock\n1 skipped\n"
      ∧ run ⟨"a.xml", [0, 2, 0, 2], false, 256⟩ (oneFile "a.xml")
        = run ⟨"a.xml", [2, 0], false, 256⟩ (oneFile "a.xml")
      ∧ Spells [.maxDepth 0, .path "a.xml"] ["--max-depth=0", "a.xml"]
      ∧ Means [.maxDepth 0, .path "a.xml"] ⟨"a.xml", [], false, 0⟩
      ∧ (Arguments.mk "a.xml" [] false 0).options.maxDepth = 0
      ∧ printed (run ⟨"a.xml", [], false, 0⟩ (oneFile "a.xml")) = "" := by
  have read : Arguments.read ["-s2,0", "a.xml"] = .ok ⟨"a.xml", [2, 0], false, 256⟩ := by
    decide +kernel
  have read' : Arguments.read
        ["--select", "0", "--max-depth=256", "-s=+02,0", "--select=2", "--", "a.xml"]
      = .ok ⟨"a.xml", [0, 2, 0, 2], false, 256⟩ := by
    decide +kernel
  have numbers : WritesNumbers "2,0" [2, 0] := readNumbers_eq_ok_iff.1 (by decide +kernel)
  have joins : Joins .select "2,0" "-s2,0" := .short (by decide) (by decide)
  have word : IsWord "a.xml" := fun c rest same => nomatch (List.cons.inj same).1
  have spells : Spells [.select [2, 0], .path "a.xml"] ["-s2,0", "a.xml"] :=
    .one (.joined joins (.select numbers)) (.one (.path word (by decide)) .nil)
  have means : Means [.select [2, 0], .path "a.xml"] ⟨"a.xml", [2, 0], false, 256⟩ :=
    ⟨rfl, rfl, rfl, .inr ⟨rfl, rfl⟩⟩
  obtain ⟨-, prints, alike⟩ :=
    command_line_means_its_options ["-s2,0", "a.xml"] ⟨"a.xml", [2, 0], false, 256⟩
  obtain ⟨-, -, text⟩ := prints _ spells means
  have set : ∀ index, index ∈ [0, 2, 0, 2] ↔ index ∈ [2, 0] := by simp; omega
  have number : WritesNumber "0".toList 0 := readNumber_eq_ok_iff.1 (by decide +kernel)
  have shallow : Spells [.maxDepth 0, .path "a.xml"] ["--max-depth=0", "a.xml"] :=
    .one (.joined (.maxDepth "0") (.maxDepth number)) (.one (.path word (by decide)) .nil)
  have means' : Means [.maxDepth 0, .path "a.xml"] ⟨"a.xml", [], false, 0⟩ :=
    ⟨rfl, rfl, rfl, .inl rfl⟩
  obtain ⟨-, prints', -⟩ :=
    command_line_means_its_options ["--max-depth=0", "a.xml"] ⟨"a.xml", [], false, 0⟩
  obtain ⟨-, depth, text'⟩ := prints' _ shallow means'
  have given : (Arguments.mk "a.xml" [] false 0).options.maxDepth = 0 := by
    rcases depth with depth | ⟨none, -⟩
    · exact (List.singleton_inj.1 depth).symm
    · cases none
  exact ⟨read, read', spells, means, (text oneFile).trans (by decide +kernel),
    alike _ _ read read' rfl rfl rfl set oneFile, shallow, means', given,
    (text' oneFile).trans (by decide +kernel)⟩

end Command

end PetriQuery
