import Mathlib.Algebra.Group.Nat.Defs
import Inlay.Settings.Load
import Inlay.Settings.Yaml
import Inlay.Proofs.Settings.Document
import Inlay.Proofs.Text.Decoding
import Inlay.Proofs.Text.Number
import Inlay.Proofs.Tree.Growth

namespace Inlay

/-- The variable is set, and to bytes that are this text. -/
def World.Sets (w : World) (name : String) (t : Text) : Prop :=
  w.env.lookup name.toList = some (Text.encode t)

theorem World.Sets.unique {w : World} {name : String} {t u : Text} (ht : w.Sets name t)
    (hu : w.Sets name u) : t = u := by
  have hbytes : Text.encode t = Text.encode u := Option.some.inj (ht.symm.trans hu)
  have hread : Text.decode? (Text.encode u) = some t := Text.decode?_eq_some_iff.2 hbytes.symm
  exact Option.some.inj (hread.symm.trans (Text.decode?_eq_some_iff.2 rfl))

namespace Settings

variable {d : Decoder}

def overlay : Text :=
  "max_concurrent_files: 8\nshell: bash\nlogging:\n  level: info\n  format: json\n".toList

end Settings
end Inlay
