import Inlay.Yaml.Token

namespace Inlay.Yaml

/-- White space that may turn out to lie between two words of a scalar. -/
inductive Gap where
  | none
  | blanks (text : Text)
  /-- Line ends, the first of which may have been escaped. -/
  | breaks (first : Option Char) (more : Text)
  deriving DecidableEq, Repr

namespace Gap

def isBroken : Gap → Bool
  | breaks .. => true
  | _ => false

/-- The gap with one more white space character; blanks next to a line end do not count. -/
def add (c : Char) : Gap → Gap
  | none => if isBreak c then breaks (some c) [] else blanks [c]
  | blanks t => if isBreak c then breaks (some c) [] else blanks (t ++ [c])
  | breaks first more => if isBreak c then breaks first (more ++ [c]) else breaks first more

/-- What the gap is in the scalar: one line feed becomes a space, and of several the first goes. -/
def text : Gap → Text
  | none => []
  | blanks t => t
  | breaks (some '\n') [] => [' ']
  | breaks (some '\n') more => more
  | breaks first more => first.toList ++ more

end Gap

def hexDigit? (c : Char) : Option Nat :=
  if c.isDigit then some (c.toNat - '0'.toNat)
  else if 'a' ≤ c && c ≤ 'f' then some (c.toNat - 'a'.toNat + 10)
  else if 'A' ≤ c && c ≤ 'F' then some (c.toNat - 'A'.toNat + 10)
  else none

/-- The character with a code point of so many hexadecimal digits. -/
def codePoint? (digits : Nat) (t : Text) : Option Char := do
  let ds ← (t.take digits).mapM hexDigit?
  let n := ds.foldl (fun n d => n * 16 + d) 0
  if ds.length = digits && n.isValidChar then some (Char.ofNat n) else none

/-- The character that an escape stands for, from what follows the backslash, and its length. -/
def escape? : Text → Option (Char × Nat)
  | [] => none
  | c :: rest =>
    match c with
    | '0' => some ('\x00', 1)
    | 'a' => some ('\x07', 1)
    | 'b' => some ('\x08', 1)
    | 't' => some ('\t', 1)
    | '\t' => some ('\t', 1)
    | 'n' => some ('\n', 1)
    | 'v' => some ('\x0b', 1)
    | 'f' => some ('\x0c', 1)
    | 'r' => some ('\r', 1)
    | 'e' => some ('\x1b', 1)
    | ' ' => some (' ', 1)
    | '"' => some ('"', 1)
    | '/' => some ('/', 1)
    | '\'' => some ('\'', 1)
    | '\\' => some ('\\', 1)
    | 'N' => some ('\u0085', 1)
    | '_' => some ('\u00a0', 1)
    | 'L' => some ('\u2028', 1)
    | 'P' => some ('\u2029', 1)
    | 'x' => (codePoint? 2 rest).map (·, 3)
    | 'u' => (codePoint? 4 rest).map (·, 5)
    | 'U' => (codePoint? 8 rest).map (·, 9)
    | _ => none

/-- What becomes of the line ends after the last line. -/
inductive Chomping where
  | clip
  | strip
  | keep
  deriving DecidableEq, Repr

structure Block where
  /-- Whether line ends stay as they are. -/
  literal : Bool
  chomping : Chomping := .clip
  /-- The indentation, once it is known. -/
  indent : Option Nat := none
  /-- The least that the indentation can be. -/
  least : Nat
  /-- The widest indentation of an empty line so far. -/
  widest : Nat := 0
  text : Text := []
  /-- The end of the last line. -/
  ending : Text := []
  /-- The ends of the empty lines after it. -/
  empties : Text := []
  /-- Whether the last line began with a blank. -/
  indented : Bool := false
  inLine : Bool := false
  deriving DecidableEq, Repr

namespace Block

def chomping? (c : Char) : Option Chomping :=
  if c = '+' then some .keep else if c = '-' then some .strip else none

def width? (c : Char) : Option Nat :=
  if '1' ≤ c && c ≤ '9' then some (c.toNat - '0'.toNat) else none

/-- The indicators after the one that starts the scalar, in either order, and what follows them. -/
def indicators (header : Text) : Chomping × Option Nat × Text :=
  match header with
  | [] => (.clip, none, [])
  | c :: rest =>
    match chomping? c, width? c with
    | some chomping, _ =>
      match rest with
      | [] => (chomping, none, [])
      | d :: after =>
        if (width? d).isSome then (chomping, width? d, after) else (chomping, none, rest)
    | _, some width =>
      match rest with
      | [] => (.clip, some width, [])
      | d :: after =>
        match chomping? d with
        | some chomping => (chomping, some width, after)
        | none => (.clip, some width, rest)
    | none, none => (.clip, none, header)

/-- A block scalar by the rest of its first line; `parent` is the indentation around it. -/
def ofHeader? (literal : Bool) (parent : Option Nat) (header : Text) : Option Block :=
  let (chomping, width, rest) := indicators header
  match rest.dropWhile isBlank with
  | c :: _ => if c = '#' then some (make chomping width) else none
  | [] => some (make chomping width)
where
  make (chomping : Chomping) (width : Option Nat) : Block :=
    { literal := literal
      chomping := chomping
      indent := width.map (parent.getD 0 + ·)
      least := max 1 (parent.elim 0 (· + 1)) }

/-- The text before a new line: a folded line end between two plain lines is one space. -/
def joined (b : Block) (indented : Bool) : Text :=
  if !b.literal && b.ending = ['\n'] && !b.indented && !indented then
    b.text ++ (if b.empties = [] then [' '] else b.empties)
  else b.text ++ b.ending ++ b.empties

inductive Next where
  | more (b : Block)
  /-- The scalar has ended before this character. -/
  | ended
  | bad

def next (b : Block) (c : Cell) : Next :=
  if b.inLine then
    if isBreak c.char then .more { b with inLine := false, ending := [c.char], empties := [] }
    else .more { b with text := b.text ++ [c.char] }
  else
    let within := b.indent.all (c.column < ·)
    if c.char = ' ' && within then .more { b with widest := max b.widest (c.column + 1) }
    else if c.char = '\t' && within then .bad
    else if isBreak c.char then .more { b with empties := b.empties ++ [c.char] }
    else
      let indent := b.indent.getD (max b.widest b.least)
      if c.column = indent then
        let indented := isBlank c.char
        .more { b with
          indent := some indent
          text := b.joined indented ++ [c.char]
          ending := []
          empties := []
          indented := indented
          inLine := true }
      else .ended

def result (b : Block) : Text :=
  match b.chomping with
  | .strip => b.text
  | .clip => b.text ++ b.ending
  | .keep => b.text ++ b.ending ++ b.empties

end Block
end Inlay.Yaml
