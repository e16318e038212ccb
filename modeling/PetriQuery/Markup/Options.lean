/-!
# Reading options

How strictly markup is read and what is left out of it.
-/

set_option autoImplicit false

namespace PetriQuery.Markup

/-- Options of reading. -/
structure Options where
  /-- The name of an end tag has to be the name of the open element. -/
  checkEndNames : Bool := true
  /-- An end tag may stand where no element is open. -/
  allowUnmatchedEnds : Bool := false
  /-- An empty-element tag counts as a start tag and an end tag. -/
  expandEmptyElements : Bool := false
  /-- Spaces at the start of a run of text are dropped. -/
  trimTextStart : Bool := false
  /-- Spaces at the end of a run of text are dropped. -/
  trimTextEnd : Bool := false
  /-- Spaces after the name in an end tag are dropped. -/
  trimEndNames : Bool := true
  /-- Two hyphens within a comment are refused. -/
  checkComments : Bool := false
deriving DecidableEq, Repr

/-- The options of a reader for which none is set. -/
def Options.default : Options := {}

end PetriQuery.Markup
