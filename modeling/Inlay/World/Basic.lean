import Inlay.Plan.Host
import Inlay.Tree.Files

namespace Inlay

structure World where
  tree : Tree := {}
  /-- The working directory. -/
  cwd : Location := []
  env : List (Text × Bytes) := []
  /-- What standard input still holds. -/
  stdin : Bytes := []
  /-- What has been written to standard output. -/
  stdout : Bytes := []
  /-- The home directory of the user's account, which counts where the environment names none. -/
  accountHome : Option Path := none
  deriving DecidableEq, Repr

namespace World

/-- The value of an environment variable, if it is text and the name can be one. -/
def envText? (w : World) (name : Text) : Option Text :=
  if name = [] || '=' ∈ name || '\x00' ∈ name then none
  else ((w.env.find? (·.1 = name)).map (·.2)).bind Text.decode?

def readText (w : World) (p : Path) : Except Fault Text :=
  (w.tree.read w.cwd p).map Text.decodeLossy

end World

def Run.onTree {α : Type} (act : Tree.Action α) (r : Run World) : Except Fault α × Run World :=
  let (result, tree) := act r.host.tree
  (result, { r with host := { r.host with tree := tree } })

def Run.say {σ : Type} (r : Run σ) (level : Log.Level) (message : Text) : Run σ :=
  r.record (.said ⟨level, message⟩)

end Inlay
