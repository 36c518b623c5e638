import Inlay.Output.Target
import Inlay.Output.Writer

/-!
Routing documents to their destinations. What all documents share is opened when the first of them
needs it and stays open for the others; an opening that fails is tried again by the next document.
-/
namespace Inlay.Output

inductive Shared where
  | stdout
  | file (w : Writer)
  deriving DecidableEq, Repr

structure Router where
  target : Target
  shared : Option Shared := none
  deriving DecidableEq, Repr

namespace Shared

def describe : Shared → Text
  | stdout => "<stdout>".toList
  | file w => w.path

def create (t : Target) : Step Shared :=
  Step.andThen
    (match t with
      | .combined path => Step.andThen (Writer.create path) fun w r => (.ok (.file w), r)
      | _ => fun r => (.ok .stdout, r))
    fun s r => (.ok s, r.say .debug ("Opened shared output ".toList ++ s.describe))

def append (s : Shared) (content : Text) (r : Run World) :
    Except Failure Unit × Shared × Run World :=
  match s with
  | stdout =>
    let host := { r.host with stdout := r.host.stdout ++ Text.encode content }
    (.ok (), stdout,
      { r with host := host }.say .debug (bytesNote "Output written to stdout" none content))
  | file w =>
    let (result, w, r) := w.append content r
    (result, file w, r)

def flush : Shared → Except Failure Unit
  | stdout => .ok ()
  | file w => w.flush.1

end Shared

namespace Router

/-- What the documents share, opened now unless it already is. -/
def opened (router : Router) : Step Shared := fun r =>
  match router.shared with
  | some s => (.ok s, r)
  | none => Shared.create router.target r

def write (router : Router) (source : Source) (content : Text) (r : Run World) :
    Except Failure Unit × Router × Run World :=
  match router.target.destination source with
  | .file path =>
    let (result, r) := writeDocument path content r
    (result, router, r)
  | .shared =>
    match router.opened r with
    -- What could not be opened is left unopened for the next document.
    | (.error e, r) => (.error e, router, r)
    | (.ok s, r) =>
      let (result, s, r) := s.append content r
      (result, { router with shared := some s }, r)

/-- Flushes what the documents share, if any of them needed it. -/
def finish (router : Router) : Step Unit := fun r =>
  match router.shared with
  | none => (.ok (), r)
  | some s => (s.flush, r.say .debug ("Flushing output ".toList ++ s.describe))

end Router
end Inlay.Output
