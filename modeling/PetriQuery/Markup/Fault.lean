import PetriQuery.Numeral.Integer
import PetriQuery.Storage
import PetriQuery.Text.Utf8

/-!
# Faults of markup

Everything that stops the reading of a document, and its wording. A wording is a chain of messages:
each one after the first tells the cause of the one before.
-/

set_option autoImplicit false

namespace PetriQuery.Markup

/-- Markup that cannot be told apart into pieces. -/
inductive SyntaxFault where
  | invalidBangMarkup
  | unclosedInstruction
  | unclosedComment
  | unclosedDoctype
  | unclosedCData
  | unclosedTag
deriving DecidableEq, Repr

/-- The wording of a fault. -/
def SyntaxFault.message : SyntaxFault → String
  | .invalidBangMarkup => "unknown or missed symbol in markup"
  | .unclosedInstruction =>
    "processing instruction or xml declaration not closed: `?>` not found before end of input"
  | .unclosedComment => "comment not closed: `-->` not found before end of input"
  | .unclosedDoctype => "DOCTYPE not closed: `>` not found before end of input"
  | .unclosedCData => "CDATA not closed: `]]>` not found before end of input"
  | .unclosedTag => "tag not closed: `>` not found before end of input"

/-- Pieces of markup that do not stand where they may. -/
inductive FormFault where
  | missingDoctypeName
  | unmatchedEnd (name : String)
  | mismatchedEnd (expected found : String)
  | doubleHyphenInComment
deriving DecidableEq, Repr

/-- The wording of a fault. -/
def FormFault.message : FormFault → String
  | .missingDoctypeName => "`<!DOCTYPE>` declaration does not contain a name of a document type"
  | .unmatchedEnd name => s!"close tag `</{name}>` does not match any open tag"
  | .mismatchedEnd expected found => s!"expected `</{expected}>`, but `</{found}>` was found"
  | .doubleHyphenInComment => "forbidden string `--` was found in a comment"

/-- Attributes that are not written as attributes are. Positions count bytes from the start of the
element's name. -/
inductive AttributeFault where
  | expectedEquals (position : Nat)
  | expectedValue (position : Nat)
  | unquotedValue (position : Nat)
  | expectedQuote (position : Nat) (quote : Char)
  | duplicated (position previous : Nat)
deriving DecidableEq, Repr

/-- The wording of a fault. -/
def AttributeFault.message : AttributeFault → String
  | .expectedEquals position =>
    s!"position {position}: attribute key must be directly followed by `=` or space"
  | .expectedValue position => s!"position {position}: `=` must be followed by an attribute value"
  | .unquotedValue position =>
    s!"position {position}: attribute value must be enclosed in `\"` or `'`"
  | .expectedQuote position quote =>
    s!"position {position}: missing closing quote `{quote}` in attribute value"
  | .duplicated position previous =>
    s!"position {position}: duplicated attribute, previous declaration at position {previous}"

/-- References to a character by a number that is none. -/
inductive CharRefFault where
  | sign
  | number (fault : Numeral.IntegerFault)
  | null
  | notCodepoint (value : Nat)
deriving DecidableEq, Repr

/-- The wording of a fault. -/
def CharRefFault.message : CharRefFault → String
  | .sign => "unexpected number sign"
  | .number fault => fault.message
  | .null => "0x0 character is not permitted in XML"
  | .notCodepoint value => s!"`{value}` is not a valid codepoint"

/-- References that stand for nothing. Positions count bytes from the start of the text. -/
inductive EntityFault where
  /-- An ampersand at `first` without its semicolon, in a text of `last` bytes. -/
  | unterminated (first last : Nat)
  /-- An unknown name between `first` and `last`. -/
  | unrecognized (first last : Nat) (name : String)
  | charRef (fault : CharRefFault)
deriving DecidableEq, Repr

/-- The wording of a fault, with its causes. -/
def EntityFault.chain : EntityFault → List String
  | .unterminated first last =>
    let range := s!"{first}..{last}"
    let text := s!"Error while escaping character at range {range}: Cannot find ';' after '&'"
    [text, text]
  | .unrecognized first last name =>
    let text := s!"at {first}..{last}: unrecognized entity `{name}`"
    [text, text]
  | .charRef fault =>
    let text := "invalid character reference: " ++ fault.message
    let cause :=
      match fault with
      | .number _ => [fault.message, fault.message]
      | .sign | .null | .notCodepoint _ => [fault.message]
    text :: text :: cause

/-- What stops the reading of a document. Positions count bytes of the document. -/
inductive Fault where
  | malformed (position : Nat) (fault : SyntaxFault)
  | illFormed (position : Nat) (fault : FormFault)
  /-- The document cannot be read from where it is stored. -/
  | unreadable (fault : FileFault)
  | badAttribute (fault : AttributeFault)
  | badReference (fault : EntityFault)
  /-- A name, an attribute key or a CDATA section is not UTF-8. -/
  | nameEncoding (fault : Text.Utf8.Fault)
  /-- A text or an attribute value is not UTF-8. -/
  | textEncoding (fault : Text.Utf8.Fault)
deriving DecidableEq, Repr

/-- The wording of a fault, with its causes. -/
def Fault.chain : Fault → List String
  | .malformed position fault =>
    [s!"failed reading event at byte {position}", "syntax error: " ++ fault.message,
      fault.message]
  | .illFormed position fault =>
    [s!"failed reading event at byte {position}", "ill-formed document: " ++ fault.message,
      fault.message]
  | .unreadable fault =>
    ["failed reading event at byte 0", "I/O error: " ++ fault.message, fault.message]
  | .badAttribute fault => [fault.message]
  | .badReference fault => fault.chain
  | .nameEncoding fault => ["cannot decode input using UTF-8: " ++ fault.message, fault.message]
  | .textEncoding fault =>
    let text := "cannot decode input using UTF-8: " ++ fault.message
    [text, text, fault.message]

end PetriQuery.Markup
