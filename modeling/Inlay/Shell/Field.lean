import Inlay.Shell.Pattern
import Inlay.Shell.State

namespace Inlay.Shell

inductive Item where
  | byte (b : UInt8) (quoted : Bool)
  /-- A place where the word may be split. -/
  | gap
  /-- A place where the word is split even beside nothing. -/
  | cut
  /-- Quotes, which make a field even of nothing. -/
  | mark
  deriving DecidableEq, Repr

def quotedItems (b : Bytes) : List Item := .mark :: b.map (.byte · true)

/-- An unquoted value, split at the separators. -/
def splitItems (separators : Bytes) (b : Bytes) : List Item :=
  b.map fun c =>
    if c ∈ separators then (if c = 32 || c = 9 || c = 10 then .gap else .cut) else .byte c false

structure Fields where
  done : List Pattern.Marked := []
  current : Pattern.Marked := []
  marked : Bool := false

namespace Fields

def flush (f : Fields) : Fields :=
  if f.current = [] && !f.marked then f
  else { done := f.current.reverse :: f.done }

def add (f : Fields) : Item → Fields
  | .byte b quoted => { f with current := (b, quoted) :: f.current }
  | .mark => { f with marked := true }
  | .gap => f.flush
  | .cut => { f with marked := true }.flush

def ofItems (items : List Item) : List Pattern.Marked :=
  ((items.foldl add {}).flush).done.reverse

end Fields

def unmarked (m : Pattern.Marked) : Bytes := m.map (·.1)

def flatBytes (items : List Item) : Bytes :=
  items.filterMap fun
    | .byte b _ => some b
    | _ => none

def namesIn (t : Tree) (l : Location) : List Text :=
  (t.nodes.filterMap fun (m, _) =>
    if m ≠ [] && m.dropLast = l then m.getLast? else none).mergeSort Text.notAfter

def cutMarked (m : Pattern.Marked) : List Pattern.Marked :=
  m.foldr (fun c pieces =>
    if c.1 = 47 then [] :: pieces
    else match pieces with
      | [] => [[c]]
      | piece :: rest => (c :: piece) :: rest) [[]]

/-- The paths that fit a pattern's pieces below a path that is written so far. -/
def expandPieces (t : Tree) (cwd : Location) (written : Text) : List Pattern.Marked → List Text
  | [] => []
  | piece :: rest =>
    let candidates : List Text :=
      if Pattern.isPattern piece then
        let here := if written = [] then ['.'] else written
        match t.find cwd here with
        | .ok (l, .directory) =>
          let hidden := (piece.head?.map (·.1)) = some 46
          (namesIn t l).filter fun n =>
            (hidden || n.head? ≠ some '.') && (Pattern.ofMarked piece).fits (Text.encode n)
        | _ => []
      else [Text.decodeLossy (unmarked piece)]
    match rest with
    | [] => (candidates.map (written ++ ·)).filter fun p =>
        (t.locate cwd p false).toOption.elim false fun
          | .node .. => true
          | .free .. => false
    | _ => candidates.flatMap fun n => expandPieces t cwd (written ++ n ++ ['/']) rest

/-- A field as it is, or the files that it is a pattern of. -/
def expandField (s : State) (m : Pattern.Marked) : List Bytes :=
  if Pattern.isPattern m then
    match expandPieces s.tree s.cwd [] (cutMarked m) with
    | [] => [unmarked m]
    | paths => paths.map Text.encode
  else [unmarked m]

/-- The least or greatest head of a value that fits a pattern, taken away. -/
def withoutHead (p : Pattern) (greedy : Bool) (b : Bytes) : Bytes :=
  let lengths := List.range (b.length + 1)
  let lengths := if greedy then lengths.reverse else lengths
  match lengths.find? fun n => Pattern.fits p (b.take n) with
  | some n => b.drop n
  | none => b

def withoutTail (p : Pattern) (greedy : Bool) (b : Bytes) : Bytes :=
  let lengths := List.range (b.length + 1)
  let lengths := if greedy then lengths else lengths.reverse
  match lengths.find? fun n => Pattern.fits p (b.drop n) with
  | some n => b.take n
  | none => b

end Inlay.Shell
