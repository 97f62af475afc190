/-!
# Bracket checks

Two checks of the loop brackets of a source.  The lenient one compares the
numbers of `[` and `]` and nothing else, so `][` passes.  The strict one asks
for proper nesting and names the culprit: the first `]` with no open loop, or
else the innermost `[` that is never closed.  Both look at all characters;
there is no comment syntax that could hide a bracket.
-/

namespace TapeCompiler
namespace Source

/-- What is wrong with the brackets of a source. -/
inductive BracketFault where
  /-- The numbers of `[` and `]` differ. -/
  | unequalCounts
  /-- The `]` at this index closes no open loop. -/
  | unmatchedEnd (pos : Nat)
  /-- The `[` at this index is never closed. -/
  | unclosedStart (pos : Nat)
deriving DecidableEq, Repr

/-- The lenient check. -/
def checkCounts (source : List Char) : Except BracketFault Unit :=
  if source.count '[' = source.count ']' then .ok () else .error .unequalCounts

/-- The strict check on placed characters, with the indices of the open loops,
innermost first. -/
def checkNestingFrom : List (Char × Nat) → List Nat → Except BracketFault Unit
  | [], [] => .ok ()
  | [], pos :: _ => .error (.unclosedStart pos)
  | (c, pos) :: rest, opened =>
      if c = '[' then
        checkNestingFrom rest (pos :: opened)
      else if c = ']' then
        match opened with
        | [] => .error (.unmatchedEnd pos)
        | _ :: outer => checkNestingFrom rest outer
      else
        checkNestingFrom rest opened

/-- The strict check. -/
def checkNesting (source : List Char) : Except BracketFault Unit :=
  checkNestingFrom source.zipIdx []

/-- The check of the chosen strictness. -/
def checkBrackets (strict : Bool) (source : List Char) : Except BracketFault Unit :=
  if strict then checkNesting source else checkCounts source

end Source
end TapeCompiler
