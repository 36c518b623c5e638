import Inlay.Fault
import Inlay.Path

namespace Inlay.Output

inductive Failure where
  | notOpened (path : Path) (cause : Fault)
  | noDirectory (path : Path) (cause : Fault)
  | notWritten (destination : Text) (cause : Fault)
  | notFlushed (cause : Fault)
  deriving DecidableEq, Repr

namespace Failure

def cause : Failure → Fault
  | notOpened _ cause => cause
  | noDirectory _ cause => cause
  | notWritten _ cause => cause
  | notFlushed cause => cause

def message : Failure → Text
  | notOpened path cause => "Failed to open output ".toList ++ path ++ ": ".toList ++ cause.message
  | noDirectory path cause =>
    "Failed to create directory ".toList ++ path ++ ": ".toList ++ cause.message
  | notWritten destination cause =>
    "Failed to write ".toList ++ destination ++ ": ".toList ++ cause.message
  | notFlushed cause => "IO error: ".toList ++ cause.message

end Failure
end Inlay.Output
