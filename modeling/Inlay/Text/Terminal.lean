import Inlay.Text.Basic

/-!
Text without the sequences by which it would control a terminal: the escape character with all that
belongs to it, and the control characters that are no white space.
-/
namespace Inlay.Text.Terminal

inductive State where
  | ground
  | escape
  | intermediate
  /-- Parameters up to a final letter. -/
  | sequence
  /-- A string up to the next escape; some also end at a bell. -/
  | string (bell : Bool)
  deriving DecidableEq, Repr

def isWhiteControl (c : Char) : Bool := c = '\t' || c = '\n' || c = '\x0c' || c = '\r'

/-- The state after a character, and whether the character is part of the plain text. -/
def step (s : State) (c : Char) : State × Bool :=
  if c = '\x1b' then (.escape, false)
  else if c = '\x18' || c = '\x1a' then (.ground, false)
  else if '\x7f' < c then (.ground, true)
  else match s with
    | .string bell => (if bell && c = '\x07' then .ground else s, false)
    | s =>
      if isWhiteControl c then (.ground, true)
      else if c < ' ' || c = '\x7f' then (s, false)
      else match s with
        | .ground => (.ground, true)
        | .escape =>
          if c < '0' then (.intermediate, false)
          else if c = '[' then (.sequence, false)
          else if c = ']' then (.string true, false)
          else if c = 'P' || c = 'X' || c = '^' || c = '_' then (.string false, false)
          else (.ground, false)
        | .intermediate => (if c < '0' then s else .ground, false)
        | .sequence => (if c < '@' then s else .ground, false)
        | .string bell => (.string bell, false)

def plainFrom (s : State) : Text → Text
  | [] => []
  | c :: t =>
    let (s, isPlain) := step s c
    if isPlain then c :: plainFrom s t else plainFrom s t

def plain (t : Text) : Text := plainFrom .ground t

end Inlay.Text.Terminal
