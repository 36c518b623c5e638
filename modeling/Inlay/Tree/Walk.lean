import Inlay.Tree.Basic

namespace Inlay.Tree

/-- Where a path leads: to a node, or to a free place in a directory. -/
inductive Spot where
  | node (at_ : Location) (n : Node)
  /-- The path may end in a slash, so that it can lead to a directory only. -/
  | free (at_ : Location) (slashed : Bool)
  deriving DecidableEq, Repr

/-- The most bytes that one name in a path may have. -/
def nameLimit : Nat := 255

/-- A path of so many bytes is too long. -/
def pathLimit : Nat := 4096

/-- The most links that are followed on the way. -/
def linkLimit : Nat := 40

/-- The names in a path, with the empty ones between repeated slashes and after a last one. -/
def names (p : Path) : List Text := Text.cutAt '/' p

def origin (cwd : Location) (p : Path) : Location := if Path.isRooted p then [] else cwd

/--
Follows names from a location that is a directory. A link at the very end is followed only if
`last` says so; `links` is how many links may still be followed.
-/
def walk (t : Tree) (last : Bool) (links : Nat) (here : Location) :
    List Text → Except Errno Spot
  | [] =>
    match t.node? here with
    | some n => .ok (.node here n)
    | none => .error .noEntry
  | name :: rest =>
    if name = [] || name = ['.'] then walk t last links here rest
    else if name = ['.', '.'] then walk t last links here.dropLast rest
    else if nameLimit < Text.size name then .error .nameTooLong
    else
      let there := here ++ [name]
      match t.node? there with
      -- Slashes at the end are no names of their own.
      | none => if rest.all (· = []) then .ok (.free there (rest ≠ [])) else .error .noEntry
      | some .directory => walk t last links there rest
      | some (.link target) =>
        if rest = [] && !last then .ok (.node there (.link target))
        else match links with
          | 0 => .error .linkLoop
          -- The target is read from the directory that the link stands in.
          | links + 1 => walk t last links (origin here target) (names target ++ rest)
      | some n => if rest = [] then .ok (.node there n) else .error .notDirectory
termination_by names => (links, names.length)

/-- Where a path leads from a working directory. -/
def locate (t : Tree) (cwd : Location) (p : Path) (last : Bool) : Except Fault Spot :=
  if '\x00' ∈ p then .error .nulInPath
  else if p = [] then .error (.system .noEntry)
  else if pathLimit ≤ Text.size p then .error (.system .nameTooLong)
  else (walk t last linkLimit (origin cwd p) (names p)).mapError .system

def find (t : Tree) (cwd : Location) (p : Path) : Except Fault (Location × Node) := do
  match ← locate t cwd p true with
  | .node l n => pure (l, n)
  | .free .. => throw (.system .noEntry)

/-- The path of the place that a path leads to, free of links and dots. -/
def realPath (t : Tree) (cwd : Location) (p : Path) : Except Fault Path := do
  return Location.path (← find t cwd p).1

def isDirectory (t : Tree) (cwd : Location) (p : Path) : Bool :=
  match find t cwd p with
  | .ok (_, .directory) => true
  | _ => false

end Inlay.Tree
