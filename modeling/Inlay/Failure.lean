import Inlay.Fault
import Inlay.Path
import Inlay.Text.Blank

namespace Inlay

inductive Failure where
  /-- An included file cannot be read. -/
  | unreadable (path : Path) (cause : Fault)
  /-- The shell does not start. -/
  | unstartable (command : Text) (cause : Fault)
  /-- The command ran and did not succeed. -/
  | commandFailed (command status stderr : Text)
  /-- A document includes itself, over the documents between the first and the last path. -/
  | cycle (chain : List Path)
  deriving DecidableEq, Repr

namespace Failure

/-- What the command wrote to standard error, after a colon, unless it is blank. -/
def remark (stderr : Text) : Text :=
  if stderr.trimBlank = [] then [] else ": ".toList ++ stderr.trimBlank

def message : Failure → Text
  | unreadable path cause =>
    "Failed to read include ".toList ++ path ++ ": ".toList ++ cause.message
  | unstartable command cause =>
    "Failed to execute command '".toList ++ command ++ "': ".toList ++ cause.message
  | commandFailed command status stderr =>
    "Command '".toList ++ command ++ "' failed with ".toList ++ status ++ remark stderr
  | cycle chain => "Include cycle detected: ".toList ++ Text.joinWith " -> ".toList chain

def cause? : Failure → Option Fault
  | unreadable _ cause => some cause
  | unstartable _ cause => some cause
  | commandFailed .. => none
  | cycle _ => none

end Failure
end Inlay
