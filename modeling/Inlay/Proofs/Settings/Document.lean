import Inlay.Settings.Layer

/-!
What a configuration file says about each setting, by the keys that its value stands under. Keys
that mean nothing do not matter, and a key that means something stands in its mapping once at most.
-/
namespace Inlay.Settings

variable {d : Decoder}

namespace Layer

variable {n v : d.Node} {es : List (Text × d.Node)} {key : String}

section Field

variable {α β : Type} {read : β → Option α} {entries : List (Text × β)} {x : Option α}

end Field

variable {α : Type} {read : d.Node → Option α} {x : Option α} {a : α}

end Layer
end Inlay.Settings
