import Inlay.CommandLine.Rejection
import Inlay.Text.Utf8

/-!
Reading a command line word by word. An option that has been named stays pending, with its value
once it has one, until the next option or the next run of file names begins; only then is the value
looked at. So of two mistakes an unknown option is reported before a wrong value in front of it.
-/
namespace Inlay.CommandLine

inductive Word where
  /-- Two dashes and a name, perhaps with a value after an equals sign. -/
  | long (name : Bytes) (value : Option Bytes)
  /-- One dash and a letter, with whatever follows it. -/
  | short (letters : Bytes)
  /-- Two dashes alone. -/
  | divider
  | plain (word : Bytes)
  deriving DecidableEq, Repr

def dash : UInt8 := 0x2D

def equals : UInt8 := 0x3D

/-- The name up to the first equals sign, and the value after it. -/
def Word.ofName (word : Bytes) : Word :=
  match word.dropWhile (· ≠ equals) with
  | [] => long word none
  | _ :: value => long (word.takeWhile (· ≠ equals)) (some value)

def Word.ofBytes : Bytes → Word
  | a :: b :: rest =>
    if a = dash then
      if b = dash then (if rest = [] then divider else ofName rest) else short (b :: rest)
    else plain (a :: b :: rest)
  | word => plain word

inductive Pending where
  | nothing
  | parameter (p : Parameter) (value : Option Bytes)
  | files (words : List Bytes)
  deriving DecidableEq, Repr

structure Reading where
  arguments : Arguments := {}
  pending : Pending := .nothing
  /-- After the divider every word is a file. -/
  onlyFiles : Bool := false
  deriving DecidableEq, Repr

def reject {α : Type} (r : Rejection) : Except Stop α := .error (.rejected r)

namespace Arguments

def isSet (a : Arguments) : Parameter → Bool
  | .output => a.output.isSome
  | .directory => a.directory.isSome
  | .suffix => a.suffix.isSome
  | .config => a.config.isSome
  | .maxConcurrent => a.maxConcurrent.isSome

/-- A path may have any bytes, but not none. -/
def pathValue (p : Parameter) (value : Bytes) : Except Stop Bytes :=
  if value = [] then reject (.missingValue p) else .ok value

def textValue (value : Bytes) : Except Stop Text :=
  match Text.decode? value with
  | some t => .ok t
  | none => reject .notText

def numberValue (p : Parameter) (value : Bytes) : Except Stop Nat := do
  let t ← textValue value
  match Text.readWord t with
  | .ok n => pure n
  | .error fault => reject (.invalidNumber p t fault)

/-- The arguments with the value of an option, which must not have one yet. -/
def assign (a : Arguments) (p : Parameter) (value : Bytes) : Except Stop Arguments :=
  if a.isSet p then reject (.repeated (.parameter p))
  else match p with
    | .output => do return { a with output := some (← pathValue p value) }
    | .directory => do return { a with directory := some (← pathValue p value) }
    | .suffix => do return { a with suffix := some (← textValue value) }
    | .config => do return { a with config := some (← pathValue p value) }
    | .maxConcurrent => do return { a with maxConcurrent := some (← numberValue p value) }

def turnOn (a : Arguments) : Switch → Except Stop Arguments
  | .debug => if a.debug then reject (.repeated (.switch .debug)) else .ok { a with debug := true }
  | .noColor =>
    if a.noColor then reject (.repeated (.switch .noColor)) else .ok { a with noColor := true }

end Arguments

namespace Reading

def settle (r : Reading) : Except Stop Reading :=
  match r.pending with
  | .nothing => .ok r
  | .parameter p none => reject (.missingValue p)
  | .parameter p (some value) => do
    return { r with arguments := ← r.arguments.assign p value, pending := .nothing }
  | .files words => do
    let files := r.arguments.files ++ (← words.mapM Arguments.textValue)
    return { r with arguments := { r.arguments with files := files }, pending := .nothing }

def addFile (r : Reading) (word : Bytes) : Except Stop Reading :=
  match r.pending with
  | .files words => .ok { r with pending := .files (words ++ [word]) }
  | _ => do return { ← r.settle with pending := .files [word] }

/-- An option by its name, with the value that is attached to it. -/
def option (r : Reading) (n : Name) (attached : Option Bytes) : Except Stop Reading :=
  match n, attached with
  | .parameter p, none => do return { ← r.settle with pending := .parameter p none }
  | .parameter p, some value => do
    let r ← r.settle
    return { r with arguments := ← r.arguments.assign p value }
  | n, some value => reject (.unwantedValue n (Text.decodeLossy value))
  | .switch s, none => do
    let r ← r.settle
    return { r with arguments := ← r.arguments.turnOn s }
  | .inquiry i, none => do
    let _ ← r.settle
    .error (.asked i)

def long (r : Reading) (name : Bytes) (value : Option Bytes) : Except Stop Reading :=
  match (Text.decode? name).bind Name.ofLong? with
  | some n => r.option n value
  | none => reject (.unknown ("--".toList ++ Text.decodeLossy name))

def firstChar? (bytes : Bytes) : Option Char :=
  match Text.decodeParts bytes with
  | some c :: _ => some c
  | _ => none

/-- The value attached to a letter, after an equals sign if there is one. -/
def attachedTo : Bytes → Option Bytes
  | [] => none
  | b :: rest => some (if b = equals then rest else b :: rest)

/-- An option by its letter. What follows the letter is the value of an option that takes one. -/
def short (r : Reading) (letters : Bytes) : Except Stop Reading :=
  match firstChar? letters with
  | none => reject (.unknown ('-' :: Text.decodeLossy letters))
  | some c =>
    match Name.ofLetter? c with
    | none => reject (.unknown ['-', c])
    | some (.parameter p) => r.option (.parameter p) (attachedTo (letters.drop 1))
    | some n => r.option n none

def step (r : Reading) (word : Bytes) : Except Stop Reading :=
  if r.onlyFiles then r.addFile word
  else match Word.ofBytes word with
    | .divider => .ok { r with onlyFiles := true }
    | .long name value => r.long name value
    | .short letters => r.short letters
    | .plain word =>
      match r.pending with
      -- A value in a word of its own is looked at when the next argument or the end settles it.
      | .parameter p none => .ok { r with pending := .parameter p (some word) }
      | _ => r.addFile word

end Reading

/-- The arguments that the words of a command line, the program's name left out, stand for. -/
def Arguments.read (words : List Bytes) : Except Stop Arguments := do
  let r ← words.foldlM Reading.step {}
  return (← r.settle).arguments

end Inlay.CommandLine
