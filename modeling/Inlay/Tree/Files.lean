import Inlay.Tree.Walk

/-!
Reading and writing files in a tree. An open file is a place and a position in it; what is written
goes to the position, over what stands there and after zeros where the file is too short.
-/
namespace Inlay.Tree

def read (t : Tree) (cwd : Location) (p : Path) : Except Fault Bytes := do
  match (← find t cwd p).2 with
  | .file content => pure content
  | .directory => throw (.system .isDirectory)
  | _ => pure []

/-- An operation on a tree: a result or a fault, and the tree after it in either case. -/
abbrev Action (α : Type) := Tree → Except Fault α × Tree

def makeDirectory (cwd : Location) (p : Path) : Action Unit := fun t =>
  match locate t cwd p false with
  | .error fault => (.error fault, t)
  | .ok (.node ..) => (.error (.system .alreadyExists), t)
  | .ok (.free l _) => (.ok (), t.put l .directory)

/--
Makes the directory that comes first among the paths, each of which is the parent of the one
before it, and the ones above it where they are missing.
-/
def makeFirst (cwd : Location) : List Path → Action Unit
  | [], t => (.ok (), t)
  | p :: parents, t =>
    if p = [] then (.ok (), t)
    else
      let settle (fault : Fault) (t : Tree) :=
        if isDirectory t cwd p then (Except.ok (), t) else (.error fault, t)
      match makeDirectory cwd p t with
      | (.ok (), t) => (.ok (), t)
      | (.error (.system .noEntry), t) =>
        -- Only a missing parent sends it upwards; any other fault is settled here.
        match makeFirst cwd parents t with
        | (.error fault, t) => (.error fault, t)
        | (.ok (), t) =>
          match makeDirectory cwd p t with
          | (.ok (), t) => (.ok (), t)
          | (.error fault, t) => settle fault t
      | (.error fault, t) => settle fault t

/-- A path and its parents, at most as many as `limit`. -/
def lineage : (limit : Nat) → Path → List Path
  | 0, _ => []
  | limit + 1, p => p :: (Path.parent? p).elim [] (lineage limit)

def makeDirectories (cwd : Location) (p : Path) : Action Unit :=
  makeFirst cwd (lineage (p.length + 1) p)

inductive Outlet where
  | file (at_ : Location)
  | device (d : Device)
  deriving DecidableEq, Repr

/-- What the path of a file that is to be opened must not be, short of where it leads. -/
def endsInSlash (p : Path) : Bool := p.getLast? = some '/'

/-- Opens a file for writing and makes it if it is not there; it is emptied if `fresh` says so. -/
def openOutlet (cwd : Location) (p : Path) (fresh : Bool) : Action Outlet := fun t =>
  if endsInSlash p then
    match locate t cwd (Text.trimEnd (· = '/') p) false with
    -- Nothing but slashes is the root, which is a directory.
    | .error fault => (.error (if p.all (· = '/') then .system .isDirectory else fault), t)
    | .ok _ => (.error (.system .isDirectory), t)
  else match locate t cwd p true with
    | .error fault => (.error fault, t)
    | .ok (.free l false) => (.ok (.file l), t.put l (.file []))
    | .ok (.free _ true) => (.error (.system .isDirectory), t)
    | .ok (.node l (.file _)) => (.ok (.file l), if fresh then t.put l (.file []) else t)
    | .ok (.node _ (.device d)) => (.ok (.device d), t)
    | .ok (.node _ .directory) => (.error (.system .isDirectory), t)
    | .ok (.node ..) => (.error (.system .accessDenied), t)

/-- Bytes with others laid over them from a position on, after zeros up to the position. -/
def overlay (content new : Bytes) (position : Nat) : Bytes :=
  content.take position ++ List.replicate (position - content.length) 0 ++ new ++
    content.drop (position + new.length)

def contentAt (t : Tree) (l : Location) : Bytes :=
  match t.node? l with
  | some (.file content) => content
  | _ => []

/-- Writes bytes at a position of an open file. -/
def writeAt (o : Outlet) (new : Bytes) (position : Nat) : Action Unit := fun t =>
  match o with
  | .file l =>
    (.ok (), if new = [] then t else t.put l (.file (overlay (t.contentAt l) new position)))
  | .device .full => (if new = [] then .ok () else .error (.system .noSpace), t)
  | .device _ => (.ok (), t)

/-- What has come into the tree below a location, or stands there in another form. -/
def changes (top : Location) (before after : Tree) : List (Location × Node) :=
  after.nodes.filterMap fun (l, n) =>
    if top.isPrefixOf l && before.node? l ≠ some n then some (l.drop top.length, n) else none

end Inlay.Tree
