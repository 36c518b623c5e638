import Inlay.Text.Blank

/-!
Markers and the segments of a text. A marker asks for a value to be set in its place: a variable,
an included document or the output of a command. Each kind has its own delimiters.
-/
namespace Inlay

namespace Marker

inductive Kind where
  | lookup
  | inclusion
  | command
  deriving DecidableEq, Repr

namespace Kind

/-- The kinds in the order in which a document's passes resolve them. -/
def passes : List Kind := [.lookup, .inclusion, .command]

def label : Kind → String
  | .lookup => "variable"
  | .inclusion => "include"
  | .command => "exec"

def opener : Kind → Text
  | .lookup => ['$', '\x7b', '\x7b']
  | .inclusion => ['$', '<', '<']
  | .command => ['$', '(', '(']

/-- The character that ends the inner text; the closing delimiter is this character twice. -/
def closing : Kind → Char
  | .lookup => '\x7d'
  | .inclusion => '>'
  | .command => ')'

def closer (k : Kind) : Text := [k.closing, k.closing]

@[simp] theorem length_opener (k : Kind) : k.opener.length = 3 := by cases k <;> rfl

@[simp] theorem size_opener (k : Kind) : Text.size k.opener = 3 := by cases k <;> decide

@[simp] theorem size_closer (k : Kind) : Text.size k.closer = 2 := by cases k <;> decide

end Kind
end Marker

/-- A marker as it was written: its kind, the text between the delimiters, and its first byte. -/
structure Marker where
  kind : Marker.Kind
  inner : Text
  start : Nat
  deriving DecidableEq, Repr

namespace Marker

/-- What the marker asks for: the inner text without the white space around it. -/
def payload (m : Marker) : Text := m.inner.trimBlank

def written (m : Marker) : Text := m.kind.opener ++ m.inner ++ m.kind.closer

def stop (m : Marker) : Nat := m.start + Text.size m.written

end Marker

/-- A stretch of text as one pass sees it. -/
inductive Segment where
  | literal (text : Text)
  | marker (m : Marker)
  deriving DecidableEq, Repr

namespace Segment

def marker? : Segment → Option Marker
  | .literal _ => none
  | .marker m => some m

def written : Segment → Text
  | .literal t => t
  | .marker m => m.written

def markers (segments : List Segment) : List Marker := segments.filterMap marker?

end Segment
end Inlay
