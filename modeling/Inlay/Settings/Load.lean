import Inlay.Settings.Layer
import Inlay.World.Basic

namespace Inlay.Settings

inductive Problem where
  | absent (path : Path)
  | unreadable (path : Path) (cause : Fault)
  | invalid (path : Path)
  | notNumber (value : Text) (cause : Text.NumberFault)
  deriving DecidableEq, Repr

/-- What is said about a problem: what went wrong, and then its cause if it is known. -/
def Problem.chain : Problem → List Text
  | absent path => ["Config file not found: ".toList ++ path]
  | unreadable path cause => ["Failed to read config ".toList ++ path, cause.message]
  | invalid path => ["Invalid config ".toList ++ path]
  | notNumber value cause =>
    ["Invalid SALADPLATE_MAX_CONCURRENT '".toList ++ value ++ ['\''], cause.message]

/-- The places where a file is looked for, in their order. -/
def localPlaces : List Path :=
  ["saladplate.yaml".toList, "saladplate.yml".toList, ".saladplate.yaml".toList,
    ".saladplate.yml".toList]

def homePlace (home : Path) : Path :=
  Path.join (Path.join home ".saladplate".toList) "config.yaml".toList

/-- The home directory: the one that the environment names, or else that of the account. -/
def home? (w : World) : Option Path :=
  (((w.env.find? (·.1 = "HOME".toList)).map fun e => Path.ofBytes e.2).filter (· ≠ [])).or
    (w.accountHome.filter (· ≠ []))

def isThere (w : World) (p : Path) : Bool := (w.tree.find w.cwd p).isOk

def found? (w : World) : Option Path :=
  (localPlaces ++ ((home? w).map homePlace).toList).find? (isThere w)

/-- The file to be read, if there is one; a file that was named has to be there. -/
def file? (w : World) (named : Option Path) : Except Problem (Option Path) :=
  match named with
  | none => .ok (found? w)
  | some p => if isThere w p then .ok (some p) else .error (.absent p)

def readLayer (d : Decoder) (w : World) (p : Path) : Except Problem Layer :=
  match w.tree.read w.cwd p with
  | .error cause => .error (.unreadable p cause)
  | .ok bytes =>
    match Text.decode? bytes with
    | none => .error (.unreadable p .invalidText)
    | some t =>
      match (d.document? t).bind (Layer.ofNode? d) with
      | none => .error (.invalid p)
      | some layer => .ok layer

/-- The layer of the file, which says nothing if there is none. -/
def fileLayer (d : Decoder) (w : World) (named : Option Path) : Except Problem Layer := do
  match ← file? w named with
  | none => return {}
  | some p => readLayer d w p

/-- The layer of the environment; a variable that holds no text is as good as unset. -/
def envLayer (w : World) : Except Problem Layer := do
  let maxConcurrent ← match w.envText? "SALADPLATE_MAX_CONCURRENT".toList with
    | none => pure none
    | some value =>
      match Text.readWord value with
      | .ok n => pure (some n)
      | .error cause => throw (.notNumber value cause)
  return {
    maxConcurrent := maxConcurrent
    shell := w.envText? "SALADPLATE_SHELL".toList
    logLevel := w.envText? "SALADPLATE_LOG_LEVEL".toList
    logFormat := w.envText? "SALADPLATE_LOG_FORMAT".toList }

/-- The settings of a run; what is wrong with the file comes before the environment. -/
def load (d : Decoder) (w : World) (named : Option Path) : Except Problem Settings := do
  let file ← fileLayer d w named
  let env ← envLayer w
  return (env.onTop file).settings

end Inlay.Settings
