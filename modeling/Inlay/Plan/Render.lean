import Inlay.Marker.Splice
import Inlay.Marker.Stray
import Inlay.Plan.Basic

/-!
The plan that renders a document. Three passes follow one another: variables, then included
documents, each rendered in the same way from its own directory, then the output of commands. What
a pass sets in place of its markers is text for the later passes.
-/
namespace Inlay

structure Options where
  /-- Whether the rendering says what it does. -/
  debug : Bool := false
  /-- Whether a document that includes itself is refused. -/
  detectCycles : Bool := true
  deriving DecidableEq, Repr

namespace Plan

/-- A pass over so many segments joins its markers eagerly; over more, in their order. -/
def eagerLimit : Nat := 30

def joinRule (segments : List Segment) : JoinRule :=
  if segments.length ≤ eagerLimit then .eager else .inOrder

/-- A notice that is given only when the rendering says what it does. -/
def noteIf (opts : Options) (place : Place) (n : Notice) (rest : Plan) : Plan :=
  if opts.debug then note place n rest else rest

def strayNotices (source : Source) (kind : Marker.Kind) (text : Text) (segments : List Segment) :
    List Notice :=
  (Marker.strayOpeners kind segments).map fun offset =>
    .stray source kind (Marker.snippetAt text offset)

/-- One pass: every marker of a kind is resolved, and then all values are set in place at once. -/
def pass (opts : Options) (place : Place) (source : Source) (kind : Marker.Kind) (text : Text)
    (resolve : Nat → Text → Plan) : Plan :=
  let segments := Marker.scan kind text
  let branches := (Segment.markers segments).mapIdx fun i m => resolve i m.payload
  let joined := join (joinRule segments) branches fun values =>
    done (Segment.splice segments values)
  if opts.debug then notes place (strayNotices source kind text segments) joined else joined

def resolveName (opts : Options) (place : Place) (source : Source) (name : Text) : Plan :=
  noteIf opts place (.resolvingName source name) <|
    ask place (.lookup name) fun value => done (value.getD [])

def resolveCommand (opts : Options) (place : Place) (source : Source) (command : Text) : Plan :=
  noteIf opts place (.resolvingCommand source command) <|
    ask place (.execute command source.directory) fun
      | .ok output => done output
      | .error failure => halt (.failed failure)

/--
An include: the file is read and rendered in its turn, unless it is the same file as one of the
documents that include it.
-/
def resolveFile (opts : Options) (place : Place) (source : Source) (chain : List Path)
    (nested : (path : Path) → (chain : List Path) → Text → Plan) (relative : Text) : Plan :=
  let path := source.resolve relative
  let readFile (chain : List Path) :=
    noteIf opts place (.resolvingFile source path) <|
      ask place (.read path) fun
        | .ok text => nested path chain text
        | .error cause => halt (.failed (.unreadable path cause))
  if opts.detectCycles then
    ask place (.identify path) fun (identity : Path) =>
      let longer := chain ++ [identity]
      if chain.any (Path.same identity) then halt (.failed (.cycle longer)) else readFile longer
  else readFile chain

/--
The passes over a document whose including documents are the chain. Documents may include one
another to the given depth, the document itself counted.
-/
def passes (opts : Options) : (depth : Nat) → Place → Source → List Path → Text → Plan
  | 0, _, _, _, _ => halt .tooDeep
  | depth + 1, place, source, chain, text =>
    (pass opts place source .lookup text fun _ name =>
      resolveName opts place source name).bind fun text =>
    (pass opts place source .inclusion text fun i relative =>
      resolveFile opts place source chain
        (fun path chain text => passes opts depth (place ++ [i]) (.file path) chain text)
        relative).bind fun text =>
    (pass opts place source .command text fun _ command =>
      resolveCommand opts place source command).bind fun text =>
    done text.closeLine

def render (opts : Options) (depth : Nat) (place : Place) (source : Source) (text : Text) : Plan :=
  match opts.detectCycles, source.path? with
  | true, some path => ask place (.identify path) fun (identity : Path) =>
      passes opts depth place source [identity] text
  | _, _ => passes opts depth place source [] text

def renderFile (opts : Options) (depth : Nat) (path : Path) : Plan :=
  ask [] (.read path) fun
    | .ok text => render opts depth [] (.file path) text
    | .error cause => halt (.failed (.unreadable path cause))

end Plan
end Inlay
