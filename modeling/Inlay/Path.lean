import Inlay.Text.Utf8

/-!
Paths as text, and the components that they are made of. Two paths are the same place on paper
when their components agree: repeated slashes count once, and a `.` counts only where it begins a
path that has no root. `parent?` keeps the spelling of what it keeps.
-/
namespace Inlay

abbrev Path := Text

namespace Path

/-- A path that is given as bytes; what of them is no text is replaced. -/
def ofBytes (bytes : Bytes) : Path := Text.decodeLossy bytes

inductive Component where
  | root
  | here
  | up
  | name (text : Text)
  deriving DecidableEq, Repr

def isRooted (p : Path) : Bool := p.head? = some '/'

/--
The stretches between slashes, each with whether it is a component: an empty stretch never is, and
`.` is one only at the head of a path without a root.
-/
def stretches (p : Path) : List (Text × Bool) :=
  match Text.cutAt '/' p with
  | [] => []
  | first :: rest =>
    (first, !first.isEmpty) :: rest.map fun s => (s, !s.isEmpty && s ≠ ['.'])

def componentOf (s : Text) : Component :=
  if s = ['.'] then .here else if s = ['.', '.'] then .up else .name s

def components (p : Path) : List Component :=
  (if isRooted p then [.root] else []) ++
    ((stretches p).filter (·.2)).map (componentOf ·.1)

/-- Equality of places on paper. -/
def same (p q : Path) : Bool := components p = components q

/-- The stretches below the root, if there is one, the last one first. -/
def backwards (p : Path) : List (Text × Bool) :=
  ((stretches p).drop (if isRooted p then 1 else 0)).reverse

/--
The path without its last component, and without the slashes and dots that this leaves at the end.
A path that is empty or only a root has no parent.
-/
def parent? (p : Path) : Option Path :=
  match (backwards p).dropWhile (!·.2) with
  | [] => none
  | _ :: above =>
    let kept := (above.dropWhile (!·.2)).reverse.map (·.1)
    some ((if isRooted p then ['/'] else []) ++ Text.joinWith ['/'] kept)

def fileName? (p : Path) : Option Text :=
  match (components p).getLast? with
  | some (.name n) => some n
  | _ => none

/-- A path read from a directory; a rooted one stands alone. -/
def join (dir p : Path) : Path :=
  if isRooted p || dir.isEmpty then p
  else if dir.getLast? = some '/' then dir ++ p
  else dir ++ '/' :: p

/--
One step along a path that is settled so far, its last component first. Going up from a name
leaves that name, going up from the root stays there, and anything else keeps the step.
-/
def settle (stack : List Component) : Component → List Component
  | .name n => .name n :: stack
  | .up =>
    match stack with
    | .name _ :: below => below
    | .root :: _ => stack
    | _ => .up :: stack
  | .root => if stack = [] then [.root] else stack
  | .here => stack

/-- The components after every step has been settled, without looking at any directory. -/
def normalize (cs : List Component) : List Component :=
  (cs.foldl settle []).reverse

def Component.text : Component → Text
  | .root => []
  | .here => ['.']
  | .up => ['.', '.']
  | .name n => n

def ofComponents : List Component → Path
  | [] => ['.']
  | [.root] => ['/']
  | cs => Text.joinWith ['/'] (cs.map Component.text)

/-- The normal form of a path set below a directory, even where the path has a root of its own. -/
def below (dir p : Path) : Path :=
  ofComponents (normalize (components dir ++ (components p).filter (· ≠ .root)))

end Path
end Inlay
