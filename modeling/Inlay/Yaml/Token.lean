import Inlay.Text.Utf8

namespace Inlay.Yaml

inductive Style where
  | plain
  | quoted
  /-- As the indented lines below an indicator, with their ends as they are. -/
  | literal
  | folded
  deriving DecidableEq, Repr

inductive Token where
  | version
  /-- Says how the tags begin that are written with a handle. -/
  | family (handle : Text) (stem : Bytes)
  | documentStart
  | documentEnd
  /-- The start of a block collection, which is marked by its indentation alone. -/
  | sequenceStart
  | mappingStart
  | blockEnd
  | listOpen
  | listClose
  | recordOpen
  | recordClose
  | comma
  | dash
  | key
  | value
  | alias (name : Text)
  | anchor (name : Text)
  /-- A tag without a handle is written in full. -/
  | tag (handle : Text) (rest : Bytes)
  | scalar (style : Style) (text : Text)
  deriving DecidableEq, Repr

def Token.isDirective : Token → Bool
  | version | family .. => true
  | _ => false

/-- Line feed and the two Unicode separators. -/
def isBreak (c : Char) : Bool := c = '\n' || c = '\u2028' || c = '\u2029'

def isBlank (c : Char) : Bool := c = ' ' || c = '\t'

def isNameChar (c : Char) : Bool := c.isAlphanum || c = '_' || c = '-'

/-- Whether a text begins with white space or is at its end. -/
def atGap : Text → Bool
  | [] => true
  | c :: _ => isBlank c || isBreak c

/-- Whether a text begins with a word that stands alone. -/
def beginsWith (word : String) (t : Text) : Bool :=
  (Text.after? word.toList t).any atGap

def isAllowed (c : Char) : Bool :=
  c = '\t' || c = '\n' || c = '\r' || c = '\u0085' || ('\x20' ≤ c && c ≤ '\x7E') ||
    ('\u00A0' ≤ c && c ≠ '\uFFFE' && c ≠ '\uFFFF')

/-- The text with each of its line ends written as one line feed. -/
def unifyBreaks : Text → Text
  | [] => []
  | '\r' :: '\n' :: rest => '\n' :: unifyBreaks rest
  | c :: rest => (if c = '\r' || c = '\u0085' then '\n' else c) :: unifyBreaks rest

/-- A character in its place, with what stands after it. -/
structure Cell where
  char : Char
  rest : Text
  line : Nat
  column : Nat
  index : Nat
  deriving DecidableEq, Repr

/-- The characters of a text in their places, the first of which is given. -/
def cells (line column index : Nat) : Text → List Cell
  | [] => []
  | c :: rest =>
    ⟨c, rest, line, column, index⟩ ::
      if isBreak c then cells (line + 1) 0 (index + 1) rest
      else cells line (column + 1) (index + 1) rest

def Cell.here (c : Cell) : Text := c.char :: c.rest

/-- Whether a line begins here that marks where a document starts or ends. -/
def Cell.atMarker (c : Cell) : Bool :=
  c.column = 0 && (beginsWith "---" c.here || beginsWith "..." c.here)

end Inlay.Yaml
