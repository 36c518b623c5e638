import Inlay.Text.Number

/-!
Settings in layers: the environment lies over a configuration file, and the file over the defaults.
A layer may leave each field open, and each field is taken from the uppermost layer that has it.
How a file is written is left to a decoder.
-/
namespace Inlay

structure Settings where
  /-- How many documents are rendered at once. -/
  maxConcurrent : Nat
  shell : Option Text
  detectCycles : Bool
  logLevel : Text
  logFormat : Text
  deriving DecidableEq, Repr

namespace Settings

/--
What reads configuration files: the document that a text is, and what can be made of its parts.
-/
structure Decoder where
  /-- A part of a document. -/
  Node : Type
  /-- The whole document; there is none if the text is malformed. -/
  document? : Text → Option Node
  /-- The values under the keys of a mapping, in their order. -/
  entries? : Node → Option (List (Text × Node))
  text? : Node → Option Text
  /-- A text that may be given as no value. -/
  optionalText? : Node → Option (Option Text)
  bool? : Node → Option Bool
  number? : Node → Option Nat
  /-- Numbers are those of a machine word. -/
  number?_le : ∀ {n : Node} {k : Nat}, number? n = some k → k ≤ Text.wordLimit

structure Layer where
  maxConcurrent : Option Nat := none
  shell : Option Text := none
  detectCycles : Option Bool := none
  logLevel : Option Text := none
  logFormat : Option Text := none
  deriving DecidableEq, Repr

def defaults : Settings :=
  { maxConcurrent := 4
    shell := none
    detectCycles := true
    logLevel := "warn".toList
    logFormat := "pretty".toList }

namespace Layer

def onTop (upper lower : Layer) : Layer :=
  { maxConcurrent := upper.maxConcurrent.or lower.maxConcurrent
    shell := upper.shell.or lower.shell
    detectCycles := upper.detectCycles.or lower.detectCycles
    logLevel := upper.logLevel.or lower.logLevel
    logFormat := upper.logFormat.or lower.logFormat }

def settings (l : Layer) : Settings :=
  { maxConcurrent := l.maxConcurrent.getD defaults.maxConcurrent
    shell := l.shell.or defaults.shell
    detectCycles := l.detectCycles.getD defaults.detectCycles
    logLevel := l.logLevel.getD defaults.logLevel
    logFormat := l.logFormat.getD defaults.logFormat }

/-- The value under a key, which may stand there once at most and must then be readable. -/
def field? {α β : Type} (read : β → Option α) (key : String) (entries : List (Text × β)) :
    Option (Option α) :=
  match entries.filter (·.1 = key.toList) with
  | [] => some none
  | [(_, n)] => (read n).map some
  | _ => none

variable (d : Decoder)

/-- How to log: the level and the format, which cannot be left out. -/
def logging? (n : d.Node) : Option (Text × Text) := do
  let es ← d.entries? n
  return (← ← field? d.text? "level" es, ← ← field? d.text? "format" es)

/-- The layer that a document is; keys that mean nothing here do no harm. -/
def ofNode? (n : d.Node) : Option Layer := do
  let es ← d.entries? n
  let logging ← field? (logging? d) "logging" es
  return {
    maxConcurrent := ← field? d.number? "max_concurrent_files" es
    shell := (← field? d.optionalText? "shell" es).join
    detectCycles := ← field? d.bool? "detect_include_cycles" es
    logLevel := logging.map (·.1)
    logFormat := logging.map (·.2) }

end Layer
end Settings
end Inlay
