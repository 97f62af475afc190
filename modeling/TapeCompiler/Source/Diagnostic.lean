import TapeCompiler.Source.Brackets
import TapeCompiler.Source.Excerpt
import TapeCompiler.Source.Position
import TapeCompiler.Text.Split

/-!
# Diagnostics

The report on a source whose brackets are refused: a message, the place with
an excerpt where there is one, and a hint on what to do.  The hint is chosen
by words of the message, in any mixture of upper and lower case.
-/

namespace TapeCompiler
namespace Source

open Text

/-- A report on a refused source.  Line and column are zero and the excerpt is
empty when the report has no place. -/
structure Diagnostic where
  message : String
  line : Nat := 0
  column : Nat := 0
  context : String := ""
deriving DecidableEq, Repr

/-- The lower case of a character as far as it holds ASCII letters.  Besides
`A` to `Z` only the Kelvin sign and the dotted capital `I` have such a lower
case, so a search for ASCII words needs no other. -/
def lowerCase (c : Char) : List Char :=
  if c = '\u212a' then ['k']
  else if c = '\u0130' then ['i', '\u0307']
  else [c.toLower]

/-- Whether a lower-case ASCII word occurs in a message, in any case. -/
def mentions (message word : String) : Bool :=
  occursIn word.toList (message.toList.flatMap lowerCase)

/-- The advice that goes with a message. -/
def hint? (message : String) : Option String :=
  if mentions message "unmatched" && mentions message "]" then
    some "This \"]\" closes no open loop. Remove it or add a \"[\" before it."
  else if mentions message "unclosed" then
    some "Add a matching \"]\" after the loop body."
  else if mentions message "missing square brackets" then
    some "Every \"[\" needs a matching \"]\". Compile with --strict to locate the culprit."
  else
    none

/-- The hint as it stands at the end of a report. -/
def hintLine (message : String) : String :=
  match hint? message with
  | some hint => s!"\nHint: {hint}"
  | none => ""

namespace Diagnostic

/-- A report without a place. -/
def unplaced (message : String) : Diagnostic :=
  { message := message ++ hintLine message }

/-- A report on the character at an index. -/
def placed (message : String) (source : List Char) (pos : Int) : Diagnostic :=
  let place := Position.of source pos
  let context :=
    excerpt ((lines source).map String.ofList) place.line place.column defaultContext
  { message :=
      s!"{message} (line {place.line}, column {place.column})\n{context}" ++ hintLine message
    line := place.line
    column := place.column
    context }

/-- A report with or without a place. -/
def report (message : String) (source : List Char) : Option Int → Diagnostic
  | none => unplaced message
  | some pos => placed message source pos

end Diagnostic

/-- The report on a bracket fault of a source. -/
def BracketFault.diagnostic (source : List Char) : BracketFault → Diagnostic
  | .unequalCounts => .unplaced "There are some missing square brackets."
  | .unmatchedEnd pos => .placed "Unmatched \"]\"" source pos
  | .unclosedStart pos => .placed "Unclosed \"[\"" source pos

end Source
end TapeCompiler
