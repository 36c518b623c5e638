import Inlay.Plan.Host

/-!
Scripted hosts: tables of variables, files and commands with the answers that they give. An entry
has one answer for every call, or a list of answers that is used up by the calls.
-/
namespace Inlay

namespace Script

structure Timed (α : Type) where
  answer : α
  delay : Nat := 0

inductive FileAnswer where
  | text (t : Text)
  | fault (cause : Text)

inductive CommandAnswer where
  | output (t : Text)
  /-- The shell does not start. -/
  | unstartable (cause : Text)
  | failed (status stderr : Text)

/-- The answers of one entry; one that is missing is `none`. -/
inductive Answers (α : Type) where
  | always (a : Option (Timed α))
  | each (as : List (Option (Timed α)))

namespace Answers

variable {α : Type}

def next : Answers α → Option (Timed α) × Answers α
  | always a => (a, always a)
  | each [] => (none, each [])
  | each (a :: as) => (a, each as)

end Answers
end Script

open Script in
structure Script where
  vars : List (Text × Option Text) := []
  files : List (Path × Answers FileAnswer) := []
  commands : List (Text × Answers CommandAnswer) := []
  /-- What the files are called, if the script has names for them. -/
  aliases : Option (List (Path × Path)) := none

namespace Script

def find? {κ α : Type} (fits : κ → Bool) (table : List (κ × α)) : Option α :=
  (table.find? (fits ·.1)).map (·.2)

def change {κ α : Type} (fits : κ → Bool) (a : α) : List (κ × α) → List (κ × α)
  | [] => []
  | entry :: table =>
    if fits entry.1 then (entry.1, a) :: table else entry :: change fits a table

/-- The next answer for a key, and the table after it. -/
def take {κ α : Type} (fits : κ → Bool) (table : List (κ × Answers α)) :
    Option (Timed α) × List (κ × Answers α) :=
  match find? fits table with
  | none => (none, table)
  | some answers => (answers.next.1, change fits answers.next.2 table)

def merge {κ α : Type} (same : κ → κ → Bool) (table entries : List (κ × α)) : List (κ × α) :=
  entries.foldl (fun table entry =>
    if table.any (same entry.1 ·.1) then change (same entry.1) entry.2 table
    else table ++ [entry]) table

def missingFile : Fault := .told "no such file".toList

def missingCommand (command : Text) : Failure :=
  .commandFailed command "exit code 127".toList (command ++ ": not found".toList)

def readAnswer : Option (Timed FileAnswer) → Reply (Except Fault Text)
  | none => ⟨.error missingFile, 0, []⟩
  | some ⟨.text t, delay⟩ => ⟨.ok t, delay, []⟩
  | some ⟨.fault cause, delay⟩ => ⟨.error (.told cause), delay, []⟩

def executeAnswer (command : Text) : Option (Timed CommandAnswer) → Reply (Except Failure Text)
  | none => ⟨.error (missingCommand command), 0, []⟩
  | some ⟨.output t, delay⟩ => ⟨.ok t, delay, []⟩
  | some ⟨.unstartable cause, delay⟩ => ⟨.error (.unstartable command (.told cause)), delay, []⟩
  | some ⟨.failed status stderr, delay⟩ =>
    ⟨.error (.commandFailed command status stderr), delay, []⟩

/-- A script as a host. Files are known by their paths as places on paper. -/
def host : Host Script
  | .lookup name, s => (⟨(find? (· = name) s.vars).join, 0, []⟩, s)
  | .identify path, s =>
    (⟨((s.aliases.getD []) |> find? (Path.same path)).getD path, 0, []⟩, s)
  | .read path, s =>
    let (answer, files) := take (Path.same path) s.files
    (readAnswer answer, { s with files := files })
  | .readStdin, s => (⟨.error missingFile, 0, []⟩, s)
  | .execute command _, s =>
    let (answer, commands) := take (· = command) s.commands
    (executeAnswer command answer, { s with commands := commands })

/-- The number of answers that the entries' lists still hold. -/
def pending (s : Script) : Nat :=
  s.files.foldl (fun n entry =>
    match entry.2 with
    | .always _ => n
    | .each as => n + as.length) 0

/--
How deeply documents can include one another before one of them has been read twice without any
list of answers having become shorter in between.
-/
def depth (s : Script) : Nat := (s.files.length + 2) * (s.pending + 2)

/-- The calls that a script leaves a trace of: naming files only where it has names for them. -/
def isRecorded (s : Script) : Call → Bool
  | .identify _ => s.aliases.isSome
  | _ => true

end Script
end Inlay
