import Inlay.Shell.Syntax
import Inlay.Tool.Basic

namespace Inlay.Shell

/-- The two dialects that differ in what they say and in how they write. -/
inductive Dialect where
  | posix
  | extended
  deriving DecidableEq, Repr

structure Variable where
  value : Bytes
  exported : Bool
  deriving DecidableEq, Repr

inductive Channel where
  /-- What is written is kept for whoever reads it. -/
  | kept (s : Stream)
  /-- What is still to be read. -/
  | feed (s : Stream)
  /-- A file that is written to, with the position; or always at its end. -/
  | file (outlet : Tree.Outlet) (position : Nat) (atEnd : Bool)
  deriving DecidableEq, Repr

structure State where
  tree : Tree
  cwd : Location
  /-- The working directory as it was walked to. -/
  pwd : Path
  /-- What the shell was called by. -/
  name : String := "sh"
  dialect : Dialect := .posix
  vars : List (Text × Variable) := []
  functions : List (Text × Command) := []
  arguments : List Bytes := []
  status : Nat := 0
  channels : List Channel := []
  /-- Which channel each descriptor stands for. -/
  descriptors : List (Nat × Nat) := []
  /-- In microseconds. -/
  elapsed : Nat := 0
  line : Nat := 1
  /-- Whether an expansion has failed, which ends the script. -/
  broken : Bool := false
  /-- Whether a command that fails ends the script. -/
  strict : Bool := false

abbrev Session := StateM State

inductive Flow where
  | next
  | exit
  | killed (signal : Nat)
  | leaveLoop (depth : Nat)
  | repeatLoop (depth : Nat)
  | leaveFunction
  deriving DecidableEq, Repr

namespace State

def lookup (s : State) (name : Text) : Option Bytes :=
  (s.vars.find? (·.1 = name)).map (·.2.value)

/-- A variable set to a value; it stays exported if it was. -/
def assign (s : State) (name : Text) (value : Bytes) (exported : Bool) : State :=
  let was := ((s.vars.find? (·.1 = name)).map (·.2.exported)).getD false
  let others := s.vars.filter (·.1 ≠ name)
  { s with vars := others ++ [(name, ⟨value, exported || was⟩)] }

def channel? (s : State) (descriptor : Nat) : Option (Nat × Channel) := do
  let (_, i) ← s.descriptors.find? (·.1 = descriptor)
  let c ← s.channels[i]?
  return (i, c)

def setChannel (s : State) (i : Nat) (c : Channel) : State :=
  { s with channels := s.channels.set i c }

def close (s : State) (descriptor : Nat) : State :=
  { s with descriptors := s.descriptors.filter (·.1 ≠ descriptor) }

/-- A descriptor made to lead to a channel that is there. -/
def share (s : State) (descriptor i : Nat) : State :=
  { s with descriptors := (s.close descriptor).descriptors ++ [(descriptor, i)] }

def connect (s : State) (descriptor : Nat) (c : Channel) : State :=
  { s with channels := s.channels ++ [c] }.share descriptor s.channels.length

def input (s : State) (descriptor : Nat) : Stream :=
  match s.channel? descriptor with
  | some (_, .feed stream) => stream
  | _ => {}

end State

/-- Writes to a descriptor; the answer says whether the device took it. -/
def emit (descriptor : Nat) (out : Stream) : Session Bool := do
  let s ← get
  match s.channel? descriptor with
  | some (i, .kept had) => do
    set (s.setChannel i (.kept (had.append out)))
    return true
  | some (i, .file outlet position atEnd) => do
    let position := match atEnd, outlet with
      | true, .file l => (s.tree.contentAt l).length
      | _, _ => position
    let (result, tree) := s.tree |> Tree.writeAt outlet out.head position
    set ({ s with tree := tree }.setChannel i (.file outlet (position + out.head.length) atEnd))
    return result.toOption.isSome
  | _ => return false

/-- The head of a line in which the shell complains. -/
def State.blame (s : State) : String :=
  match s.dialect with
  | .posix => s!"{s.name}: {s.line}: "
  | .extended => s!"{s.name}: line {s.line}: "

def complain (status : Nat) (message : String) : Session Unit := do
  let s ← get
  let _ ← emit 2 (.ofString (s.blame ++ message ++ "\n"))
  modify fun s => { s with status := status }

def setStatus (status : Nat) : Session Unit := modify fun s => { s with status := status }

end Inlay.Shell
