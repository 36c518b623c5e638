import Inlay.Text.Basic

/-!
The language of command lines: words with their quoting and expansions, redirections, and commands
built from simple ones by pipelines, lists and the usual compounds.
-/
namespace Inlay.Shell

/-- A part of a word. What stands in quotes is neither split nor taken as a pattern. -/
inductive Piece where
  | literal (text : Text) (quoted : Bool)
  /-- A parameter, with an operator and its word where the parameter is in braces. -/
  | parameter (name : Text) (operator : Text) (word : List Piece) (quoted : Bool)
  /-- The output of a script. -/
  | output (script : Text) (quoted : Bool)
  | arithmetic (expression : Text) (quoted : Bool)
  deriving Repr

abbrev Word := List Piece

/-- The word as it is written, if nothing in it is quoted or expanded. -/
def Word.plain? : Word → Option Text
  | [] => some []
  | .literal t false :: rest => (plain? rest).map (t ++ ·)
  | _ => none

inductive Direction where
  | input
  | output
  | append
  | both
  /-- A copy of another descriptor. -/
  | copy
  /-- A text that stands in the script itself. -/
  | here
  deriving DecidableEq, Repr

structure Redirection where
  descriptor : Nat
  direction : Direction
  target : Word
  deriving Repr

inductive Command where
  | simple (line : Nat) (assignments : List (Text × Word)) (words : List Word)
      (redirections : List Redirection)
  | pipeline (stages : List Command)
  | negated (c : Command)
  | sequence (first second : Command)
  | both (first second : Command)
  | either (first second : Command)
  | group (body : Command) (redirections : List Redirection)
  | subshell (body : Command) (redirections : List Redirection)
  | conditional (test yes : Command) (no : Option Command)
  /-- A loop that goes on while the test holds, or until it does. -/
  | loop (until_ : Bool) (test body : Command)
  | forEach (name : Text) (words : List Word) (body : Command)
  | case (word : Word) (branches : List (List Word × Option Command))
  | define (name : Text) (body : Command)
  deriving Repr

inductive Problem where
  | unterminatedQuote
  | unterminatedBackquote
  | missingBrace
  | missingArithmeticEnd
  | unexpected (token : String) (expected : Option String)
  | badSubstitution
  deriving DecidableEq, Repr

structure SyntaxError where
  line : Nat
  problem : Problem
  deriving DecidableEq, Repr

def Problem.message : Problem → String
  | unterminatedQuote => "Syntax error: Unterminated quoted string"
  | unterminatedBackquote => "Syntax error: EOF in backquote substitution"
  | missingBrace => "Syntax error: Missing '\x7d'"
  | missingArithmeticEnd => "Syntax error: Missing '))'"
  | unexpected token none => s!"Syntax error: {token} unexpected"
  | unexpected token (some other) => s!"Syntax error: {token} unexpected (expecting {other})"
  | badSubstitution => "Bad substitution"

end Inlay.Shell
