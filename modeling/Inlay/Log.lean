import Inlay.Text.Basic

namespace Inlay.Log

/-- The levels from the most to the least severe. -/
inductive Level where
  | error
  | warn
  | info
  | debug
  | trace
  deriving DecidableEq, Repr

namespace Level

def severity : Level → Nat
  | error => 0
  | warn => 1
  | info => 2
  | debug => 3
  | trace => 4

def label : Level → String
  | error => "ERROR"
  | warn => "WARN"
  | info => "INFO"
  | debug => "DEBUG"
  | trace => "TRACE"

/-- Whether a line of this level is shown where `limit` is the least severe level shown. -/
def shownAt (l limit : Level) : Bool := l.severity ≤ limit.severity

end Level

structure Line where
  level : Level
  message : Text
  deriving DecidableEq, Repr

end Inlay.Log
