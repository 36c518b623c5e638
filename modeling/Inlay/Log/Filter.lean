import Inlay.Log
import Inlay.Text.Blank
import Inlay.Text.Number

/-!
Filters: which log lines are shown. A directive gives a limit to all parts of the program whose
names begin with its scope, and of those that apply the one with the longest scope decides.
-/
namespace Inlay.Log

structure Directive where
  scope : Text
  /-- The least severe level shown, if any is. -/
  limit : Option Level
  deriving DecidableEq, Repr

inductive DirectiveFault where
  | malformed
  | unknownLevel
  deriving DecidableEq, Repr

def DirectiveFault.message : DirectiveFault → Text
  | malformed => "invalid filter directive".toList
  | unknownLevel =>
    ("error parsing level filter: expected one of \"off\", \"error\", \"warn\", \"info\", " ++
      "\"debug\", \"trace\", or a number 0-5").toList

/-- The limits from the strictest to the widest, by the words for them. -/
def limits : List (String × Option Level) :=
  [("off", none), ("error", some .error), ("warn", some .warn), ("info", some .info),
    ("debug", some .debug), ("trace", some .trace)]

/-- A limit by its word, in letters of either case, or by its place among the limits. -/
def limit? (t : Text) : Option (Option Level) :=
  match Text.readWord t with
  | .ok n => limits[n]?.map (·.2)
  | .error _ => (limits.find? (·.1.toList = t.map Char.toLower)).map (·.2)

namespace Directive

def opens (c : Char) : Bool :=
  c.isAlphanum || '\x7f' < c || c = '-' || c = ':' || c = '_' || c = '['

/--
A directive is a limit for all parts, a scope with a limit after an equals sign, or a scope alone,
which is shown in full. One in brackets is about nothing that this program has.
-/
def ofText (t : Text) : Except DirectiveFault Directive :=
  let t := t.trimBlank
  if !t.head?.any opens then .error .malformed
  else if '[' ∈ t then .ok ⟨t, none⟩
  else match t.dropWhile (· ≠ '=') with
    | [] =>
      match limit? t with
      | some limit => .ok ⟨[], limit⟩
      | none => .ok ⟨t, some .trace⟩
    | _ :: word =>
      let scope := t.takeWhile (· ≠ '=')
      if word = [] then .ok ⟨scope, some .trace⟩
      else match limit? word with
        | some limit => .ok ⟨scope, limit⟩
        | none => .error .unknownLevel

end Directive

abbrev Filter := List Directive

namespace Filter

def pieces (t : Text) : List Text := (Text.cutAt ',' t).filter (· ≠ [])

def ofText (t : Text) : Except DirectiveFault Filter := (pieces t).mapM Directive.ofText

/-- The directives that are understood, or errors alone if there are none. -/
def lenient (t : Text) : Filter :=
  match (pieces t).filterMap fun p => (Directive.ofText p).toOption with
  | [] => [⟨[], some .error⟩]
  | f => f

/-- What is said about each directive that is not understood. -/
def complaints (t : Text) : List Text :=
  (pieces t).filterMap fun p =>
    match Directive.ofText p with
    | .ok _ => none
    | .error fault => some ("ignoring \x60".toList ++ p ++ "\x60: ".toList ++ fault.message)

/-- The directive that decides about a part of the program; of equal scopes the last one does. -/
def deciding (f : Filter) (part : Text) : Option Directive :=
  f.foldl (fun best d =>
    if d.scope.isPrefixOf part && best.all (·.scope.length ≤ d.scope.length) then some d
    else best) none

def shows (f : Filter) (part : Text) (l : Line) : Bool :=
  ((f.deciding part).bind (·.limit)).any l.level.shownAt

end Filter
end Inlay.Log
