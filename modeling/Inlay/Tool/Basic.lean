import Inlay.Tool.Stream
import Inlay.Tree.Files

/-!
Tools: the programs that command lines are made of. A tool sees its arguments, its standard input
and the files; what it leaves is what it writes, its status and the time that it slept.
-/
namespace Inlay.Tool

structure Context where
  tree : Tree
  cwd : Location
  input : Stream

inductive Channel where
  | out
  | err
  deriving DecidableEq, Repr

structure Result where
  writes : List (Channel × Stream) := []
  status : Nat := 0
  /-- In microseconds. -/
  slept : Nat := 0
  readsInput : Bool := false

def string (b : Bytes) : String := String.ofList (Text.decodeLossy b)

def Result.out (s : Stream) : Result := { writes := [(.out, s)] }

def Result.complain (status : Nat) (message : String) : Result :=
  { writes := [(.err, .ofString (message ++ "\n"))], status := status }

/-- One result after another; a failure of either is a failure of both. -/
def Result.andThen (a b : Result) : Result :=
  { writes := a.writes ++ b.writes
    status := max a.status b.status
    slept := a.slept + b.slept
    readsInput := a.readsInput || b.readsInput }

def Result.all (rs : List Result) : Result := rs.foldl Result.andThen {}

def describe : Fault → String
  | .system e => e.describe
  | fault => String.ofList fault.message

/-- The content of a file as a stream; `-` is standard input. -/
def Context.open (c : Context) (name : Bytes) : Except Fault Stream := do
  let path := Text.decodeLossy name
  if path = ['-'] || path = "/dev/stdin".toList then return c.input
  match (← c.tree.find c.cwd path).2 with
  | .file content => return ⟨content, []⟩
  | .directory => throw (.system .isDirectory)
  | .device .null => return {}
  | .device _ => return ⟨[], [0]⟩
  | _ => return {}

def tryHelp (tool : String) : String := s!"\nTry '{tool} --help' for more information."

def invalidOption (tool : String) (c : Char) : Result :=
  .complain 1 (s!"{tool}: invalid option -- '{c}'" ++ tryHelp tool)

/-- A natural number in decimal digits. -/
def decimal? (s : String) : Option Nat :=
  let cs := s.toList
  if cs ≠ [] && cs.all Char.isDigit then
    some (cs.foldl (fun n c => n * 10 + (c.toNat - '0'.toNat)) 0)
  else none

def octalDigit? (c : Char) : Option Nat :=
  if '0' ≤ c && c ≤ '7' then some (c.toNat - '0'.toNat) else none

/-- Up to `limit` octal digits at the head of a text, as a number, and the text after them. -/
def octal (limit : Nat) (t : Text) : Nat × Text :=
  let digits := (t.take limit).takeWhile fun c => (octalDigit? c).isSome
  (digits.foldl (fun n c => n * 8 + (octalDigit? c).getD 0) 0, t.drop digits.length)

/-- The character that a letter stands for after a backslash. -/
def letterEscape? : Char → Option UInt8
  | 'a' => some 7
  | 'b' => some 8
  | 'f' => some 12
  | 'n' => some 10
  | 'r' => some 13
  | 't' => some 9
  | 'v' => some 11
  | '\\' => some 92
  | _ => none

end Inlay.Tool
