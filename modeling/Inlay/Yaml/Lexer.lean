import Inlay.Yaml.Scalar
import Inlay.Yaml.Tag

/-!
From characters to tokens, one character at a time. In block context indentation opens and closes
collections, and what looks like a scalar may turn out to be a key: its place is remembered, and
when a colon follows, the key token is put there afterwards.
-/
namespace Inlay.Yaml

/-- A place where a key may have begun. -/
structure Candidate where
  /-- The number of tokens in front of it. -/
  place : Nat
  /-- Whether nothing but a key can stand there. -/
  required : Bool
  line : Nat
  column : Nat
  index : Nat
  deriving DecidableEq, Repr

inductive Mode where
  | between
  | comment
  | plain (text : Text) (gap : Gap)
  | single (text : Text) (gap : Gap)
  | double (text : Text) (gap : Gap)
  | block (b : Block)
  deriving DecidableEq, Repr

structure Lexer where
  /-- The tokens so far, the last one first. -/
  tokens : List Token := []
  /-- The indentations of the open block collections, the innermost one first. -/
  indents : List Nat := []
  candidate : Option Candidate := none
  /-- The candidates around the open flow collections, the innermost one first. -/
  outer : List (Option Candidate) := []
  /-- Whether a key may begin here. -/
  keyAllowed : Bool := true
  mode : Mode := .between
  /-- How many of the next characters have been dealt with. -/
  skip : Nat := 0
  deriving DecidableEq, Repr

namespace Lexer

/-- The longest stretch of characters in which a key may end that has no mark of its own. -/
def keyLimit : Nat := 1024

def inFlow (s : Lexer) : Bool := !s.outer.isEmpty

def emit (t : Token) (s : Lexer) : Lexer := { s with tokens := t :: s.tokens }

def insert (place : Nat) (t : Token) (s : Lexer) : Lexer :=
  let later := s.tokens.length - place
  { s with tokens := s.tokens.take later ++ t :: s.tokens.drop later }

/-- Gives the candidate up, unless it had to be a key. -/
def dropCandidate (s : Lexer) : Option Lexer :=
  if s.candidate.any (·.required) then none else some { s with candidate := none }

def isStale (c : Cell) (k : Candidate) : Bool := k.line < c.line || k.index + keyLimit < c.index

def freshen (c : Cell) (k : Option Candidate) : Option (Option Candidate) :=
  if k.any (isStale c) then (if k.any (·.required) then none else some none) else some k

/-- Gives up the candidates that are too far away. -/
def dropStale (c : Cell) (s : Lexer) : Option Lexer := do
  return { s with candidate := ← freshen c s.candidate, outer := ← s.outer.mapM (freshen c) }

def offerKey (c : Cell) (s : Lexer) : Option Lexer :=
  if !s.keyAllowed then some s
  else do
    let s ← s.dropCandidate
    let required := !s.inFlow && s.indents.head? = some c.column
    return { s with candidate := some ⟨s.tokens.length, required, c.line, c.column, c.index⟩ }

/-- Closes the block collections that are indented more than `column`. -/
def closeBlocks (column : Nat) : List Nat → List Token → List Nat × List Token
  | [], ts => ([], ts)
  | indent :: rest, ts =>
    if column < indent then closeBlocks column rest (.blockEnd :: ts) else (indent :: rest, ts)

def unroll (column : Nat) (s : Lexer) : Lexer :=
  if s.inFlow then s
  else
    let (indents, tokens) := closeBlocks column s.indents s.tokens
    { s with indents := indents, tokens := tokens }

def unrollAll (s : Lexer) : Lexer :=
  if s.inFlow then s
  else { s with indents := [], tokens := s.indents.map (fun _ => Token.blockEnd) ++ s.tokens }

/-- Opens a block collection at a column, unless one is open there. -/
def roll (column place : Nat) (t : Token) (s : Lexer) : Lexer :=
  if s.inFlow || !s.indents.head?.all (· < column) then s
  else { s with indents := column :: s.indents }.insert place t

def marker (t : Token) (s : Lexer) : Option Lexer := do
  let s ← s.unrollAll.dropCandidate
  return { s with keyAllowed := false, skip := 2 }.emit t

/-- A directive, with nothing but a comment behind it. -/
def directive (c : Cell) (s : Lexer) : Option Lexer := do
  let s ← s.unrollAll.dropCandidate
  let line := c.rest.takeWhile fun d => !isBreak d
  let (t, after) ← directive? line
  if (after.dropWhile isBlank).head?.all (· = '#') then
    return { s with keyAllowed := false, skip := line.length }.emit t
  else none

def openFlow (t : Token) (c : Cell) (s : Lexer) : Option Lexer := do
  let s ← s.offerKey c
  return { s with candidate := none, outer := s.candidate :: s.outer, keyAllowed := true }.emit t

def closeFlow (t : Token) (s : Lexer) : Option Lexer := do
  let s ← s.dropCandidate
  let s := match s.outer with
    | k :: outer => { s with candidate := k, outer := outer }
    | [] => s
  return { s with keyAllowed := false }.emit t

def comma (s : Lexer) : Option Lexer := do
  let s ← s.dropCandidate
  return { s with keyAllowed := true }.emit .comma

def dash (c : Cell) (s : Lexer) : Option Lexer :=
  if !s.inFlow && !s.keyAllowed then none
  else do
    let s ← (s.roll c.column s.tokens.length .sequenceStart).dropCandidate
    return { s with keyAllowed := true }.emit .dash

def markedKey (c : Cell) (s : Lexer) : Option Lexer :=
  if !s.inFlow && !s.keyAllowed then none
  else do
    let s ← (s.roll c.column s.tokens.length .mappingStart).dropCandidate
    return { s with keyAllowed := !s.inFlow }.emit .key

def value (c : Cell) (s : Lexer) : Option Lexer :=
  match s.candidate with
  | some k =>
    let s := (s.insert k.place .key).roll k.column k.place .mappingStart
    some ({ s with candidate := none, keyAllowed := false }.emit .value)
  | none =>
    if !s.inFlow && !s.keyAllowed then none
    else
      let s := s.roll c.column s.tokens.length .mappingStart
      some ({ s with keyAllowed := !s.inFlow }.emit .value)

def name (make : Text → Token) (c : Cell) (s : Lexer) : Option Lexer := do
  let s ← s.offerKey c
  let name := c.rest.takeWhile isNameChar
  let after := c.rest.drop name.length
  if name ≠ [] && (atGap after || after.head?.any (· ∈ "?:,]\x7d%@\x60".toList)) then
    return { s with keyAllowed := false, skip := name.length }.emit (make name)
  else none

def tag (c : Cell) (s : Lexer) : Option Lexer := do
  let s ← s.offerKey c
  let (t, after) ← tag? c.rest
  if atGap after || (s.inFlow && after.head? = some ',') then
    return { s with keyAllowed := false, skip := c.rest.length - after.length }.emit t
  else none

def block (literal : Bool) (c : Cell) (s : Lexer) : Option Lexer := do
  let s ← s.dropCandidate
  let header := c.rest.takeWhile fun d => !isBreak d
  let b ← Block.ofHeader? literal s.indents.head? header
  return { s with keyAllowed := true, mode := .block b, skip := header.length + 1 }

def beginScalar (mode : Mode) (c : Cell) (s : Lexer) : Option Lexer := do
  let s ← s.offerKey c
  return { s with keyAllowed := false, mode := mode }

/-- Whether a plain scalar may begin with a character, by what follows it. -/
def startsPlain (flow : Bool) (c : Cell) : Bool :=
  if c.char = '-' then !c.rest.head?.any isBlank
  else if c.char = '?' || c.char = ':' then !flow && !atGap c.rest
  else !atGap c.here && c.char ∉ ",[]\x7b\x7d#&*!|>'\"%@\x60".toList

def beginToken (c : Cell) (s : Lexer) : Option Lexer := do
  let s ← s.dropStale c
  let s := s.unroll c.column
  if c.column = 0 && c.char = '%' then s.directive c
  else if c.column = 0 && beginsWith "---" c.here then s.marker .documentStart
  else if c.column = 0 && beginsWith "..." c.here then s.marker .documentEnd
  else if c.char = '[' then s.openFlow .listOpen c
  else if c.char = '\x7b' then s.openFlow .recordOpen c
  else if c.char = ']' then s.closeFlow .listClose
  else if c.char = '\x7d' then s.closeFlow .recordClose
  else if c.char = ',' then s.comma
  else if c.char = '-' && atGap c.rest then s.dash c
  else if c.char = '?' && (s.inFlow || atGap c.rest) then s.markedKey c
  else if c.char = ':' && (s.inFlow || atGap c.rest) then s.value c
  else if c.char = '*' then s.name .alias c
  else if c.char = '&' then s.name .anchor c
  else if c.char = '!' then s.tag c
  else if c.char = '|' && !s.inFlow then s.block true c
  else if c.char = '>' && !s.inFlow then s.block false c
  else if c.char = '\'' then s.beginScalar (.single [] .none) c
  else if c.char = '"' then s.beginScalar (.double [] .none) c
  else if startsPlain s.inFlow c then s.beginScalar (.plain [c.char] .none) c
  else none

/-- A character between two tokens. -/
def between (c : Cell) (s : Lexer) : Option Lexer :=
  if isBreak c.char then
    some { s with mode := .between, keyAllowed := s.keyAllowed || !s.inFlow }
  else if s.mode = .comment then some s
  else if c.char = ' ' || (c.char = '\t' && (s.inFlow || !s.keyAllowed)) then some s
  else if c.char = '#' then some { s with mode := .comment }
  else s.beginToken c

def finish (style : Style) (text : Text) (s : Lexer) : Lexer :=
  { s with mode := .between }.emit (.scalar style text)

def finishBlock (b : Block) (s : Lexer) : Lexer :=
  s.finish (if b.literal then .literal else .folded) b.result

/-- Whether a plain scalar ends before a character that is no white space. -/
def endsPlain (s : Lexer) (gap : Gap) (c : Cell) : Bool :=
  let width := s.indents.head?.elim 0 (· + 1)
  let ends := gap ≠ .none && (c.char = '#' || c.atMarker || (!s.inFlow && c.column < width))
  ends || (c.char = ':' && atGap c.rest) || (s.inFlow && c.char ∈ ",[]\x7b\x7d".toList)

def stepPlain (text : Text) (gap : Gap) (c : Cell) (s : Lexer) : Option Lexer :=
  let width := s.indents.head?.elim 0 (· + 1)
  if isBreak c.char || isBlank c.char then
    if gap.isBroken && c.char = '\t' && c.column < width then none
    else some { s with mode := .plain text (gap.add c.char) }
  else if s.endsPlain gap c then
    ({ s with keyAllowed := gap.isBroken }.finish .plain text).between c
  else if s.inFlow && c.char = ':' && c.rest.head?.any (· ∈ ",?[]\x7b\x7d".toList) then none
  else some { s with mode := .plain (text ++ gap.text ++ [c.char]) .none }

def stepSingle (text : Text) (gap : Gap) (c : Cell) (s : Lexer) : Option Lexer :=
  if isBreak c.char || isBlank c.char then some { s with mode := .single text (gap.add c.char) }
  else if c.atMarker then none
  else if c.char = '\'' then
    if c.rest.head? = some '\'' then
      some { s with mode := .single (text ++ gap.text ++ ['\'']) .none, skip := 1 }
    else some (s.finish .quoted (text ++ gap.text))
  else some { s with mode := .single (text ++ gap.text ++ [c.char]) .none }

def stepDouble (text : Text) (gap : Gap) (c : Cell) (s : Lexer) : Option Lexer :=
  if isBreak c.char || isBlank c.char then some { s with mode := .double text (gap.add c.char) }
  else if c.atMarker then none
  else if c.char = '"' then some (s.finish .quoted (text ++ gap.text))
  else if c.char = '\\' then
    if c.rest.head?.any isBreak then
      some { s with mode := .double (text ++ gap.text) (.breaks none []), skip := 1 }
    else do
      let (d, length) ← escape? c.rest
      return { s with mode := .double (text ++ gap.text ++ [d]) .none, skip := length }
  else some { s with mode := .double (text ++ gap.text ++ [c.char]) .none }

def step (s : Lexer) (c : Cell) : Option Lexer :=
  match s.skip with
  | n + 1 => some { s with skip := n }
  | 0 =>
    match s.mode with
    | .between | .comment => s.between c
    | .plain text gap => s.stepPlain text gap c
    | .single text gap => s.stepSingle text gap c
    | .double text gap => s.stepDouble text gap c
    | .block b =>
      match b.next c with
      | .more b => some { s with mode := .block b }
      | .bad => none
      | .ended => (s.finishBlock b).between c

def stop (s : Lexer) : Option (List Token) := do
  let s ← match s.mode with
    | .between | .comment => some s
    | .plain text _ => some (s.finish .plain text)
    | .block b => some (s.finishBlock b)
    | .single .. | .double .. => none
  let s ← s.unrollAll.dropCandidate
  return s.tokens.reverse

end Lexer

/-- The tokens of a text, without a byte order mark at its head. -/
def scan (t : Text) : Option (List Token) :=
  if t.all isAllowed then
    let t := unifyBreaks ((Text.after? ['\uFEFF'] t).getD t)
    ((cells 0 0 0 t).foldlM Lexer.step {}).bind Lexer.stop
  else none

end Inlay.Yaml
