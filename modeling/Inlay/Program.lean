import Inlay.Batch
import Inlay.CommandLine.Reading
import Inlay.Log.Display
import Inlay.Log.Filter
import Inlay.Settings.Load
import Inlay.World.Host

/-!
A whole run of the program, from the words of its command line to its exit code and to what it has
written. Log lines are collected on the way; which of them are shown, and how, does not change
anything else.
-/
namespace Inlay.Program

open CommandLine

inductive Ending where
  | done
  /-- There was no run: the command line asked for a text or was rejected. -/
  | stopped (why : Stop)
  /-- What went wrong, and then its causes. -/
  | failed (chain : List Text)
  deriving DecidableEq, Repr

namespace Ending

def code : Ending → Nat
  | done => 0
  | stopped (.asked _) => 0
  | stopped (.rejected _) => 2
  | failed _ => 1

def causes : List Text → Text
  | [] => []
  | cs => "\n\nCaused by:".toList ++ cs.flatMap fun c =>
      (Text.cutAt '\n' c).flatMap fun line => "\n    ".toList ++ line

/-- What is said about the end of a run on standard error. -/
def message : Ending → Text
  | done => []
  | stopped (.asked _) => []
  | stopped (.rejected r) => r.message ++ ['\n']
  | failed [] => []
  | failed (what :: why) => "Error: ".toList ++ what ++ causes why ++ ['\n']

end Ending

structure Result where
  /-- The world after the run. -/
  world : World
  ending : Ending
  /-- What is said about the log filter. -/
  complaints : List Text := []
  /-- The log lines that are shown. -/
  log : List Log.Line := []
  coloured : Bool := true
  deriving DecidableEq, Repr

/-- All that is written to standard error, with a time stamp for each log line. -/
def Result.stderr (stamp : Text) (r : Result) : Text :=
  r.complaints.flatMap (· ++ ['\n']) ++
    r.log.flatMap (fun l => l.shown r.coloured stamp ++ ['\n']) ++ r.ending.message

/-- The names of all parts of the program, as filters know them, begin like this. -/
def part : Text := s!"{programName}::".toList

/-- The limit that the arguments and the settings give to the log. -/
def logLevel (a : Arguments) (s : Settings) : Text :=
  if a.debug then "debug".toList else s.logLevel

/-- The filter, and what is said about it. One in the environment wins if it can be understood. -/
def logFilter (w : World) (level : Text) : Log.Filter × List Text :=
  match ((w.envText? "RUST_LOG".toList).map Log.Filter.ofText) with
  | some (.ok f) => (f, [])
  -- A filter that is not there and one that is malformed both leave it to the level.
  | _ => (Log.Filter.lenient level, Log.Filter.complaints level)

/-- A path in quotes, in which single quotes are escaped too. -/
def quotedPath (p : Path) : Text :=
  ['"'] ++ p.flatMap (fun c => if c = '\'' then ['\\', c] else Text.Quoted.encodeChar c) ++ ['"']

def shownOption : Option Path → Text
  | none => "None".toList
  | some p => "Some(".toList ++ quotedPath p ++ ")".toList

/--
How deeply documents may include one another. Nothing else bounds that where cycles are let be; this
bound is there so that plans are finite.
-/
def depthLimit : Nat := 1000

/--
How often the clock may move, which is often enough for any run that comes to an end in practice.
-/
def roundLimit : Nat := 1000000000

def batchSettings (a : Arguments) (s : Settings) (rounds : Nat) : Batch.Settings :=
  { options := ⟨a.debug, s.detectCycles⟩
    maxConcurrent := a.maxConcurrent.getD s.maxConcurrent
    depth := depthLimit
    rounds := rounds }

def announce (a : Arguments) (s : Settings) (r : Run World) : Run World :=
  let r := r.say .debug ("Logging initialized with level: ".toList ++ logLevel a s)
  let r := if a.debug then r.say .debug "debug mode enabled".toList else r
  let r := r.say .info s!"Starting {programName} v{programVersion}".toList
  r.say .debug ("Configuration loaded from: ".toList ++ shownOption (a.config.map Path.ofBytes))

/-- How a run ends whose documents have been written or reported. -/
def conclude (desk : Batch.Desk) (r : Run World) : Ending × Run World :=
  match desk.router.finish r with
  | (.error e, r) => (.failed [e.message, e.cause.message], r)
  | (.ok (), r) =>
    if desk.report.isSuccess then (.done, r.say .debug "done".toList)
    else
      let failures := desk.report.failures.length
      (.failed [s!"{failures} of {desk.report.total} files failed".toList], r)

def print (t : Text) (w : World) : World := { w with stdout := w.stdout ++ Text.encode t }

/-- Renders and writes all documents by a host of any timing. -/
def perform (h : Host World) (rounds : Nat) (a : Arguments) (s : Settings) (r : Run World) :
    Ending × Run World :=
  let r := announce a s r
  if a.files = [] then
    -- The help goes to standard output here, although the run fails.
    (.failed ["no input files; use - for stdin".toList], { r with host := print help r.host })
  else
    let (desk, r) := Batch.process h (batchSettings a s rounds) a.target a.sources r
    conclude desk r

/-- Runs the program on the words of a command line, its own name left out. -/
def run (d : Settings.Decoder) (words : List Bytes) (w : World) : Result :=
  match Arguments.read words with
  | .error (.asked i) => { world := print i.answer w, ending := .stopped (.asked i) }
  | .error why => { world := w, ending := .stopped why }
  | .ok a =>
    match Settings.load d w (a.config.map Path.ofBytes) with
    | .error p => { world := w, ending := .failed p.chain }
    | .ok s =>
      let (filter, complaints) := logFilter w (logLevel a s)
      let host := World.host (s.shell.getD World.defaultShell)
      let (ending, r) := perform host roundLimit a s ⟨w, 0, []⟩
      { world := r.host
        ending := ending
        complaints := complaints
        log := r.log.filter (filter.shows part)
        coloured := !a.noColor }

end Inlay.Program
