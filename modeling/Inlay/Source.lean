import Inlay.Path

namespace Inlay

inductive Source where
  | stdin
  | file (path : Path)
  deriving DecidableEq, Repr

namespace Source

/-- A command line argument as a source; two spellings mean standard input. -/
def ofArgument (arg : Text) : Source :=
  if arg = ['-'] || arg = "/dev/stdin".toList then .stdin else .file arg

def path? : Source → Option Path
  | .stdin => none
  | .file p => some p

def display : Source → Text
  | .stdin => "<stdin>".toList
  | .file p => p

/--
The directory of the document; a bare file name and standard input have the working directory.
-/
def directory : Source → Path
  | .stdin => ['.']
  | .file p =>
    match Path.parent? p with
    | some (c :: dir) => c :: dir
    | _ => ['.']

def resolve (s : Source) (relative : Text) : Path := Path.below s.directory relative

end Source
end Inlay
