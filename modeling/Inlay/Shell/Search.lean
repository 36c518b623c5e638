import Inlay.Shell.State

namespace Inlay.Shell

inductive Found where
  | program (name : String)
  | missing
  | denied
  deriving DecidableEq

def programAt (t : Tree) (cwd : Location) (path : Path) : Found :=
  match t.find cwd path with
  | .ok (_, .program name) => .program (String.ofList name)
  | .ok _ => .denied
  | .error (.system .accessDenied) => .denied
  | .error _ => .missing

def findProgram (t : Tree) (cwd : Location) (searchPath : Text) (word : Text) : Found :=
  if word = [] then .missing
  else if '/' ∈ word then programAt t cwd word
  else
    let tries := (Text.cutAt ':' searchPath).map fun dir =>
      programAt t cwd (Path.join (if dir = [] then ['.'] else dir) word)
    match tries.find? fun f => match f with
      | .program _ => true
      | _ => false with
    | some f => f
    | none => if .denied ∈ tries then .denied else .missing

def defaultSearchPath : Text := "/usr/bin:/bin".toList

def searchPath (s : State) : Text :=
  ((s.lookup "PATH".toList).map Text.decodeLossy).getD defaultSearchPath

end Inlay.Shell
