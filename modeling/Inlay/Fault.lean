import Inlay.Text.Basic

namespace Inlay

inductive Errno where
  | noEntry
  | argumentsTooLong
  | notExecutable
  | accessDenied
  | alreadyExists
  | notDirectory
  | isDirectory
  | noSpace
  | nameTooLong
  | linkLoop
  deriving DecidableEq, Repr

namespace Errno

def code : Errno → Nat
  | noEntry => 2
  | argumentsTooLong => 7
  | notExecutable => 8
  | accessDenied => 13
  | alreadyExists => 17
  | notDirectory => 20
  | isDirectory => 21
  | noSpace => 28
  | nameTooLong => 36
  | linkLoop => 40

def describe : Errno → String
  | noEntry => "No such file or directory"
  | argumentsTooLong => "Argument list too long"
  | notExecutable => "Exec format error"
  | accessDenied => "Permission denied"
  | alreadyExists => "File exists"
  | notDirectory => "Not a directory"
  | isDirectory => "Is a directory"
  | noSpace => "No space left on device"
  | nameTooLong => "File name too long"
  | linkLoop => "Too many levels of symbolic links"

end Errno

inductive Fault where
  | system (errno : Errno)
  | nulInPath
  | nulInCommand
  | invalidText
  /-- A cause in the words of whoever reports it. -/
  | told (text : Text)
  deriving DecidableEq, Repr

def Fault.message : Fault → Text
  | system e => s!"{e.describe} (os error {e.code})".toList
  | nulInPath => "file name contained an unexpected NUL byte".toList
  | nulInCommand => "nul byte found in provided data".toList
  | invalidText => "stream did not contain valid UTF-8".toList
  | told text => text

end Inlay
