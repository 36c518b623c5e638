import Inlay.Source

namespace Inlay.Output

inductive Target where
  | stdout
  | combined (path : Path)
  | directory (dir : Path) (suffix : Option Text)
  deriving DecidableEq, Repr

/-- The destination of one document: the one that all share, or a file. -/
inductive Destination where
  | shared
  | file (path : Path)
  deriving DecidableEq, Repr

/-- A file name with its last extension, dot included, replaced; a name without one stays. -/
def withSuffix (name suffix : Text) : Text :=
  match name.reverse.takeWhile (· ≠ '.'), name.reverse.dropWhile (· ≠ '.') with
  | _ :: _, _ :: stem => stem.reverse ++ suffix
  | _, _ => name

namespace Target

/-- A file for all documents wins over a directory; a suffix counts only in a directory. -/
def ofOptions (file? dir? : Option Path) (suffix : Option Text) : Target :=
  match file?, dir? with
  | some path, _ => combined path
  | none, some dir => directory dir suffix
  | none, none => stdout

/-- The name in the directory of the document from a source. -/
def documentName (source : Source) (suffix : Option Text) : Text :=
  let name := (source.path?.bind Path.fileName?).getD "stdin".toList
  suffix.elim name (withSuffix name)

def destination (t : Target) (source : Source) : Destination :=
  match t with
  | stdout => .shared
  | combined _ => .shared
  | directory dir suffix => .file (Path.join dir (documentName source suffix))

def describe : Target → Text
  | stdout => "<stdout>".toList
  | combined path => path
  | directory dir _ => dir

def describeFor (t : Target) (source : Source) : Text :=
  match t.destination source with
  | .shared => t.describe
  | .file path => path

end Target
end Inlay.Output
