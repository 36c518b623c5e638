import Inlay.Shell.Evaluation
import Inlay.World.Basic

namespace Inlay.World

inductive Ending where
  | exited (code : Nat)
  | killed (signal : Nat)
  deriving DecidableEq, Repr

def Ending.describe : Ending → Text
  | exited code => s!"exit code {code}".toList
  | killed signal => s!"signal {signal}".toList

structure Finished where
  ending : Ending
  out : Bytes
  err : Bytes
  /-- In microseconds. -/
  elapsed : Nat
  tree : Tree

/-- The bytes, with an end, from which on an argument is too long to be passed. -/
def argumentLimit : Nat := 131072

/-- How deeply commands, expansions and loops of a command line may nest. -/
def nestingLimit : Nat := 100000

def enter (w : World) (directory : Path) : Except Fault Location := do
  match ← w.tree.find w.cwd directory with
  | (l, .directory) => pure l
  | _ => throw (.system .notDirectory)

def resolveProgram (w : World) (cwd : Location) (name : Text) : Except Fault String :=
  if '/' ∈ name then do
    match ← w.tree.find cwd name with
    | (_, .program p) => pure (String.ofList p)
    | _ => throw (.system .accessDenied)
  else
    let searchPath := ((w.env.find? (·.1 = "PATH".toList)).map fun e => Text.decodeLossy e.2).getD
      Shell.defaultSearchPath
    match Shell.findProgram w.tree cwd searchPath name with
    | .program p => .ok p
    | .missing => .error (.system .noEntry)
    | .denied => .error (.system .accessDenied)

def isVariableName (name : Text) : Bool :=
  match name with
  | [] => false
  | c :: t => Shell.isNameStart c && t.all Shell.isNameChar

def shellState (w : World) (cwd : Location) : Shell.State :=
  let vars := (w.env.filter fun e => isVariableName e.1).map fun e =>
    (e.1, (⟨e.2, true⟩ : Shell.Variable))
  let s : Shell.State := { tree := w.tree, cwd := cwd, pwd := Location.path cwd, vars := vars }
  (((s.assign "PWD".toList (Text.encode (Location.path cwd)) false).connect 0 (.feed {})).connect 1
    (.kept {})).connect 2 (.kept {})

def keptBytes (s : Shell.State) (channel : Nat) : Bytes :=
  match s.channels[channel]? with
  | some (.kept out) => out.head
  | _ => []

def runProgram (w : World) (cwd : Location) (program : String) (name command : Text) : Finished :=
  let args := [Text.encode ['-', 'c'], Text.encode command]
  let session : Shell.Session Shell.Flow :=
    if program ∈ Tool.shells then
      Shell.innerShell nestingLimit program (String.ofList name) args
    else do
      Shell.carryOut program (Tool.run (Shell.context (← get)) program args)
  let (flow, s) := session.run (shellState w cwd)
  let ending := match flow with
    | .killed n => .killed n
    | _ => .exited s.status
  ⟨ending, keptBytes s 1, keptBytes s 2, s.elapsed, s.tree⟩

/-- Starts a shell on a command in a directory and waits for its end. -/
def runCommand (w : World) (shell command : Text) (directory : Path) : Except Fault Finished :=
  if '\x00' ∈ command then .error .nulInCommand
  else if '\x00' ∈ shell || '\x00' ∈ directory then .error .nulInPath
  else do
    let cwd ← enter w directory
    let program ← resolveProgram w cwd shell
    if argumentLimit ≤ Text.size command then throw (.system .argumentsTooLong)
    pure (runProgram w cwd program shell command)

end Inlay.World
