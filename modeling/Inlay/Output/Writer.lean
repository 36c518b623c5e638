import Inlay.Output.Failure
import Inlay.World.Basic

/-!
Files that documents are written to. A writer keeps its file open and takes over each text at
once; a fault of the device shows only at the next write, which is then not done, or at a flush.
-/
namespace Inlay.Output

/-- A step that may fail and that changes a run in either case. -/
abbrev Step (α : Type) := Run World → Except Failure α × Run World

/-- A step that goes on only after a success. -/
def Step.andThen {α β : Type} (first : Step α) (next : α → Step β) : Step β := fun r =>
  match first r with
  | (.ok a, r) => next a r
  | (.error e, r) => (.error e, r)

/-- An action on the tree, with its fault told as a failure to write. -/
def onTree {α : Type} (fails : Fault → Failure) (act : Location → Tree.Action α) : Step α :=
  fun r =>
  let (result, r) := r.onTree (act r.host.cwd)
  (result.mapError fails, r)

/-- Makes the directories that a file stands in, where they are missing. -/
def makeRoom (path : Path) : Step Unit :=
  match Path.parent? path with
  | some (c :: dir) =>
    onTree (.noDirectory (c :: dir)) fun cwd => Tree.makeDirectories cwd (c :: dir)
  | _ => fun r => (.ok (), r)

def bytesNote (verb : String) (destination : Option Path) (content : Text) : Text :=
  verb.toList ++ (destination.elim [] (": ".toList ++ ·)) ++
    s!" ({Text.size content} bytes)".toList

def writeDocument (path : Path) (content : Text) : Step Unit :=
  Step.andThen (makeRoom path) fun _ =>
  Step.andThen (onTree (.notWritten path) fun cwd => Tree.openOutlet cwd path true) fun outlet =>
  Step.andThen (onTree (.notWritten path) fun _ => Tree.writeAt outlet (Text.encode content) 0)
    fun _ r => (.ok (), r.say .debug (bytesNote "Output written to file" (some path) content))

/-- An open file: where it writes, how far it has come, and a fault that has not been told yet. -/
structure Writer where
  path : Path
  outlet : Tree.Outlet
  position : Nat := 0
  untold : Option Fault := none
  deriving DecidableEq, Repr

namespace Writer

def create (path : Path) : Step Writer :=
  Step.andThen (makeRoom path) fun _ =>
  Step.andThen (onTree (.notOpened path) fun cwd => Tree.openOutlet cwd path true) fun outlet r =>
    (.ok { path := path, outlet := outlet }, r)

/-- Hands a text over, with the writer after it. -/
def append (w : Writer) (content : Text) (r : Run World) :
    Except Failure Unit × Writer × Run World :=
  let accepted (w : Writer) (r : Run World) :=
    (Except.ok (), w, r.say .debug (bytesNote "Output appended to file" (some w.path) content))
  -- An empty text hands nothing over and so never meets a fault.
  if content = [] then accepted w r
  else match w.untold with
    | some fault => (.error (.notWritten w.path fault), { w with untold := none }, r)
    | none =>
      let new := Text.encode content
      match r.onTree (Tree.writeAt w.outlet new w.position) with
      | (.ok (), r) => accepted { w with position := w.position + new.length } r
      | (.error fault, r) => accepted { w with untold := some fault } r

/-- Waits until everything is written, with the writer after it. -/
def flush (w : Writer) : Except Failure Unit × Writer :=
  match w.untold with
  | some fault => (.error (.notFlushed fault), { w with untold := none })
  | none => (.ok (), w)

end Writer
end Inlay.Output
