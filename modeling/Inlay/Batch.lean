import Inlay.Output.Router
import Inlay.Plan.Notice
import Inlay.Plan.Render
import Inlay.Plan.Schedule

namespace Inlay.Batch

def document (opts : Options) (depth : Nat) (place : Place) (source : Source) : Plan :=
  let rest : Except Fault Text → Plan
    | .ok text => .note place (.templating source) (Plan.render opts depth place source text)
    | .error cause => .halt (.unread cause)
  .note place (.reading source) <|
    match source with
    | .stdin => .ask place .readStdin rest
    | .file path => .ask place (.read path) rest

inductive Failure where
  | unread (cause : Fault)
  | unrendered (failure : Inlay.Failure)
  | tooDeep
  | unwritten (failure : Output.Failure)
  deriving DecidableEq, Repr

def Failure.ofHalt : Halt → Failure
  | .failed failure => unrendered failure
  | .unread cause => unread cause
  | .tooDeep => tooDeep

/-- What is said about a failure: first what failed, then each cause in turn. -/
def Failure.chain (source : Source) : Failure → List Text
  | unread cause =>
    let what := match source with
      | .stdin => "standard input".toList
      | .file path => path
    ["Failed to read ".toList ++ what, cause.message]
  | unrendered failure =>
    ["Failed to template ".toList ++ source.display, failure.message] ++
      (failure.cause?.map Fault.message).toList
  | tooDeep =>
    ["Failed to template ".toList ++ source.display, "Includes are nested too deeply".toList]
  | unwritten failure =>
    ["Failed to write output for ".toList ++ source.display, failure.message,
      failure.cause.message]

def Failure.message (source : Source) (f : Failure) : Text :=
  Text.joinWith ": ".toList (f.chain source)

structure Report where
  processed : Nat := 0
  failures : List (Source × Failure) := []

namespace Report

def total (r : Report) : Nat := r.processed + r.failures.length

def isSuccess (r : Report) : Bool := r.failures.isEmpty

end Report

/-- The part of a batch that happens in the order of the sources. -/
structure Desk where
  router : Output.Router
  report : Report := {}

namespace Desk

def succeed (d : Desk) : Desk :=
  { d with report := { d.report with processed := d.report.processed + 1 } }

def fail (d : Desk) (source : Source) (f : Failure) (r : Run World) : Desk × Run World :=
  let report := { d.report with failures := d.report.failures ++ [(source, f)] }
  ({ d with report := report }, r.say .error (source.display ++ ": ".toList ++ f.message source))

/-- Writes what a document has become, or reports why it has become nothing. -/
def deliver (d : Desk) (source : Source) (outcome : Except Halt Text) (r : Run World) :
    Desk × Run World :=
  match outcome with
  | .error why => d.fail source (.ofHalt why) r
  | .ok text =>
    let r := r.say .debug
      ("writing ".toList ++ d.router.target.describeFor source ++ "...".toList)
    match d.router.write source text r with
    | (.ok (), router, r) => ({ d with router := router }.succeed, r)
    | (.error e, router, r) => { d with router := router }.fail source (.unwritten e) r

end Desk

inductive Progress where
  | idle (p : Plan)
  | under (s : Strand)

abbrev Flight := List (Source × Progress)

def Progress.outcome? : Progress → Option (Except Halt Text)
  | under (.finished t) => some (.ok t)
  | under (.halted why) => some (.error why)
  | _ => none

def Progress.due : Progress → Option Nat
  | idle _ => none
  | under s => Schedule.due s

variable {σ : Type}

def Progress.step (h : Host σ) (p : Progress) (r : Run σ) : Progress × Run σ :=
  let (s, r) := match p with
    | idle p => Schedule.start h p r
    | under s => Schedule.resume h s r
  (under s, r)

def stepAll (h : Host σ) : Flight → Run σ → Flight × Run σ
  | [], r => ([], r)
  | (source, p) :: rest, r =>
    let (p, r) := p.step h r
    let (rest, r) := stepAll h rest r
    ((source, p) :: rest, r)

/-- Goes on with every document in the window, unless the first of them is or becomes done. -/
def poll (h : Host σ) (flight : Flight) (r : Run σ) : Flight × Run σ :=
  match flight with
  | [] => ([], r)
  | (source, p) :: rest =>
    -- Only the front is looked at, so that a document that ends early waits for those before it.
    if p.outcome?.isSome then (flight, r)
    else
      let (p, r) := p.step h r
      if p.outcome?.isSome then ((source, p) :: rest, r)
      else
        let (rest, r) := stepAll h rest r
        ((source, p) :: rest, r)

/-- The number of documents in the window at most; there is always room for one. -/
def room (maxConcurrent : Nat) : Nat := max 1 maxConcurrent

/-- The next answer that a document in the window waits for. -/
def nextDue (flight : Flight) : Option Nat :=
  (flight.map (·.2.due)).foldl Schedule.sooner none

structure State where
  flight : Flight := []
  /-- The documents that have not come into the window yet. -/
  pending : Flight
  desk : Desk
  run : Run World

def State.fill (room : Nat) (s : State) : State :=
  let free := room - s.flight.length
  { s with flight := s.flight ++ s.pending.take free, pending := s.pending.drop free }

/-- Works on the batch until all documents are written or reported. -/
def work (h : Host World) (room : Nat) : (rounds : Nat) → State → State
  | 0, s => s
  | rounds + 1, s =>
    let s := s.fill room
    match s.flight with
    | [] => s
    | flight =>
      let (flight, r) := poll h flight s.run
      match flight with
      | [] => { s with run := r }
      | (source, p) :: rest =>
        match p.outcome? with
        | some outcome =>
          let (desk, r) := s.desk.deliver source outcome r
          work h room rounds { s with flight := rest, desk := desk, run := r }
        | none =>
          -- Nothing can go on at this moment, and the clock moves.
          match nextDue flight with
          | some t => work h room rounds { s with flight := flight, run := { r with now := t } }
          | none => { s with flight := flight, run := r }

/-- The documents of a batch, each with its place among them. -/
def documents (opts : Options) (depth : Nat) (sources : List Source) : Flight :=
  sources.mapIdx fun i source => (source, .idle (document opts depth [i] source))

structure Settings where
  options : Options := {}
  maxConcurrent : Nat := 4
  /-- How deeply documents may include one another. -/
  depth : Nat
  /-- How often the clock may move. -/
  rounds : Nat

/-- Renders and writes all documents, and says at the end how many of them succeeded. -/
def process (h : Host World) (settings : Settings) (target : Output.Target)
    (sources : List Source) (r : Run World) : Desk × Run World :=
  let s := work h (room settings.maxConcurrent) settings.rounds
    { pending := documents settings.options settings.depth sources
      desk := { router := { target := target } }
      run := r }
  let report := s.desk.report
  (s.desk, s.run.say .info s!"Templated {report.processed} of {report.total} files".toList)

end Inlay.Batch
