import Inlay.Yaml.Lexer

/-!
Documents: scalars, sequences and mappings, read from the tokens of a stream that holds one
document at most. A node may be named, and other places may then refer to it, itself included.
-/
namespace Inlay.Yaml

structure Scalar where
  style : Style
  text : Text
  tag : Option Bytes := none
  deriving DecidableEq, Repr

inductive Node where
  | scalar (s : Scalar)
  | sequence (items : List Node)
  | mapping (entries : List (Node × Node))
  /-- Another node, by its number among the named ones. -/
  | alias (number : Nat)
  deriving Repr

/-- The value that is left out where one could stand. -/
def Node.nothing (tag : Option Bytes) : Node := .scalar ⟨.plain, [], tag⟩

structure Document where
  node : Node
  named : List (Nat × Node)
  deriving Repr

/-- The node itself, which a name never stands for a second time. -/
def Document.target (d : Document) : Node :=
  match d.node with
  | .alias number => ((d.named.find? (·.1 = number)).map (·.2)).getD d.node
  | n => n

/-- The handles of tags that need no declaration. -/
def commonFamilies : List (Text × Bytes) :=
  [("!".toList, Text.encode "!".toList), ("!!".toList, Text.encode "tag:yaml.org,2002:".toList)]

structure Reader.State where
  tokens : List Token
  families : List (Text × Bytes) := commonFamilies
  /-- The numbers of the names, the last one given first. -/
  names : List (Text × Nat) := []
  named : List (Nat × Node) := []

abbrev Reader := StateT Reader.State Option

namespace Reader

def peek : Reader (Option Token) := do return (← get).tokens.head?

def skip : Reader Unit := modify fun s => { s with tokens := s.tokens.drop 1 }

def expect (t : Token) : Reader Unit := do
  if (← peek) = some t then skip else failure

def resolve (handle : Text) (rest : Bytes) : Reader Bytes := do
  if handle = [] then return rest
  match (← get).families.find? (·.1 = handle) with
  | some (_, stem) => return stem ++ rest
  | none => failure

def tag? : Reader (Option Bytes) := do
  match ← peek with
  | some (.tag handle rest) =>
    skip
    return some (← resolve handle rest)
  | _ => return none

/-- Gives a name to the node that comes next; the last node of a name counts. -/
def name? : Reader (Option Nat) := do
  match ← peek with
  | some (.anchor name) =>
    skip
    let number := (← get).names.length
    modify fun s => { s with names := (name, number) :: s.names }
    return some number
  | _ => return none

/-- The name and the tag in front of a node, in either order. -/
def properties : Reader (Option Nat × Option Bytes) := do
  match ← name? with
  | some number => return (some number, ← tag?)
  | none =>
    let tag ← tag?
    return (← name?, tag)

def remember (number : Option Nat) (n : Node) : Reader Unit :=
  match number with
  | some number => modify fun s => { s with named := (number, n) :: s.named }
  | none => pure ()

def lookUp (name : Text) : Reader Node := do
  match (← get).names.find? (·.1 = name) with
  | some (_, number) => return .alias number
  | none => failure

mutual

/--
A node. Block collections count only where `block` says so, and dashes without an indentation of
their own only where `dashes` does.
-/
def node (block dashes : Bool) : (limit : Nat) → Reader Node
  | 0 => failure
  | limit + 1 => do
    match ← peek with
    | some (.alias name) =>
      skip
      lookUp name
    | _ =>
      let (number, tag) ← properties
      let n ← content block dashes (number.isSome || tag.isSome) tag limit
      remember number n
      return n

def content (block dashes bare : Bool) (tag : Option Bytes) : (limit : Nat) → Reader Node
  | 0 => failure
  | limit + 1 => do
    match ← peek, block, dashes with
    | some .dash, _, true => return .sequence (← looseItems limit)
    | some (.scalar style text), _, _ =>
      skip
      return .scalar ⟨style, text, tag⟩
    | some .listOpen, _, _ =>
      skip
      return .sequence (← listItems true limit)
    | some .recordOpen, _, _ =>
      skip
      return .mapping (← recordEntries true limit)
    | some .sequenceStart, true, _ =>
      skip
      return .sequence (← items limit)
    | some .mappingStart, true, _ =>
      skip
      return .mapping (← entries limit)
    -- A name or a tag may stand for a node of its own.
    | _, _, _ => if bare then return .nothing tag else failure

/-- A node, or nothing if one of the tokens stands there that can follow it. -/
def nodeUnless (block dashes : Bool) (stops : List Token) : (limit : Nat) → Reader Node
  | 0 => failure
  | limit + 1 => do
    match ← peek with
    | some t => if t ∈ stops then return .nothing none else node block dashes limit
    | none => node block dashes limit

def items : (limit : Nat) → Reader (List Node)
  | 0 => failure
  | limit + 1 => do
    match ← peek with
    | some .dash =>
      skip
      let item ← nodeUnless true false [.dash, .blockEnd] limit
      return item :: (← items limit)
    | _ =>
      expect .blockEnd
      return []

/-- The items of a sequence that is not indented more than the key in front of it. -/
def looseItems : (limit : Nat) → Reader (List Node)
  | 0 => failure
  | limit + 1 => do
    match ← peek with
    | some .dash =>
      skip
      let item ← nodeUnless true false [.dash, .key, .value, .blockEnd] limit
      return item :: (← looseItems limit)
    | _ => return []

def entries : (limit : Nat) → Reader (List (Node × Node))
  | 0 => failure
  | limit + 1 => do
    match ← peek with
    | some .key =>
      skip
      let k ← nodeUnless true true [.key, .value, .blockEnd] limit
      let v ← valueUnless true [.key, .value, .blockEnd] limit
      return (k, v) :: (← entries limit)
    | _ =>
      expect .blockEnd
      return []

/-- A value, or nothing if there is no mark of one. -/
def valueUnless (block : Bool) (stops : List Token) : (limit : Nat) → Reader Node
  | 0 => failure
  | limit + 1 => do
    match ← peek with
    | some .value =>
      skip
      nodeUnless block block stops limit
    | _ => return .nothing none

/-- The items of a flow sequence; a marked key makes a mapping of one entry. -/
def listItems (first : Bool) : (limit : Nat) → Reader (List Node)
  | 0 => failure
  | limit + 1 => do
    match ← peek with
    | some .listClose =>
      skip
      return []
    | _ =>
      if !first then expect .comma
      match ← peek with
      | some .listClose =>
        skip
        return []
      | some .key =>
        skip
        let k ← nodeUnless false false [.value, .comma, .listClose] limit
        let v ← valueUnless false [.comma, .listClose] limit
        return .mapping [(k, v)] :: (← listItems false limit)
      | _ =>
        let item ← node false false limit
        return item :: (← listItems false limit)

def recordEntries (first : Bool) : (limit : Nat) → Reader (List (Node × Node))
  | 0 => failure
  | limit + 1 => do
    match ← peek with
    | some .recordClose =>
      skip
      return []
    | _ =>
      if !first then expect .comma
      match ← peek with
      | some .recordClose =>
        skip
        return []
      | some .key =>
        skip
        let k ← nodeUnless false false [.value, .comma, .recordClose] limit
        let v ← valueUnless false [.comma, .recordClose] limit
        return (k, v) :: (← recordEntries false limit)
      | _ =>
        let k ← node false false limit
        return (k, .nothing none) :: (← recordEntries false limit)

end

/-- What may stand in front of a document: directives, and the mark of its start. -/
def preamble : Reader Bool := do
  let directives := (← get).tokens.takeWhile Token.isDirective
  let families := directives.filterMap fun
    | .family handle stem => some (handle, stem)
    | _ => none
  -- A handle may be declared once, but the common ones may be declared anew.
  if 1 < directives.count .version || !(families.map (·.1)).Nodup then failure
  modify fun s =>
    { s with tokens := s.tokens.drop directives.length, families := families ++ s.families }
  if directives ≠ [] then
    expect .documentStart
    return true
  else if (← peek) = some .documentStart then
    skip
    return true
  else return false

/-- The document of a stream; where there is none, it is taken to be left out. -/
def document (limit : Nat) : Reader Node := do
  let marked ← preamble
  match ← peek, marked with
  | none, _ => return .nothing none
  -- A second mark would begin a second document.
  | some .documentStart, true => failure
  | some .documentEnd, true =>
    finish
    return .nothing none
  | _, _ =>
    let n ← node true false limit
    finish
    return n
where
  finish : Reader Unit := do
    modify fun s => { s with tokens := s.tokens.dropWhile (· = .documentEnd) }
    if (← get).tokens ≠ [] then failure

end Reader

/-- The document that a text holds; there is no result if the text is malformed. -/
def read (t : Text) : Option Document := do
  let tokens ← scan t
  let (n, s) ← (Reader.document (4 * tokens.length + 4)).run { tokens := tokens }
  return ⟨n, s.named⟩

end Inlay.Yaml
