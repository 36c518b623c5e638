import Inlay.Fault
import Inlay.Path
import Inlay.Text.Utf8

/-!
File trees as data: which node stands where. A location is the list of names from the root down,
without links or dots; what stands at a location is found by equality alone.
-/
namespace Inlay

abbrev Location := List Text

inductive Device where
  | null
  | zero
  /-- A device that refuses every byte. -/
  | full
  deriving DecidableEq, Repr

inductive Node where
  | directory
  | file (content : Bytes)
  | link (target : Path)
  | device (d : Device)
  /-- A program of the system, by its name. -/
  | program (name : Text)
  deriving DecidableEq, Repr

structure Tree where
  nodes : List (Location × Node) := []
  deriving DecidableEq, Repr

namespace Tree

/-- The root is always a directory. -/
def node? (t : Tree) (l : Location) : Option Node :=
  if l = [] then some .directory else (t.nodes.find? (·.1 = l)).map (·.2)

def replace (l : Location) (n : Node) : List (Location × Node) → List (Location × Node)
  | [] => [(l, n)]
  | entry :: rest => if entry.1 = l then (l, n) :: rest else entry :: replace l n rest

def put (t : Tree) (l : Location) (n : Node) : Tree := ⟨replace l n t.nodes⟩

theorem find?_replace_self (l : Location) (n : Node) (ns : List (Location × Node)) :
    (replace l n ns).find? (·.1 = l) = some (l, n) := by
  induction ns with
  | nil => simp [replace]
  | cons e ns ih => by_cases h : e.1 = l <;> simp [replace, h, ih]

theorem find?_replace_of_ne {l m : Location} (h : m ≠ l) (n : Node)
    (ns : List (Location × Node)) :
    (replace l n ns).find? (·.1 = m) = ns.find? (·.1 = m) := by
  induction ns with
  | nil => simp [replace, Ne.symm h]
  | cons e ns ih =>
    by_cases he : e.1 = l
    · simp [replace, he, Ne.symm h]
    · by_cases hm : e.1 = m <;> simp [replace, he, hm, h, ih]

theorem node?_put_self {t : Tree} {l : Location} (h : l ≠ []) (n : Node) :
    (t.put l n).node? l = some n := by
  simp [node?, put, h, find?_replace_self]

theorem node?_put_of_ne {t : Tree} {l m : Location} (h : m ≠ l) (n : Node) :
    (t.put l n).node? m = t.node? m := by
  simp [node?, put, find?_replace_of_ne h]

/-- The locations above a location and below the root, the outermost one first. -/
def above (l : Location) : List Location := ((List.range l.length).drop 1).map l.take

/-- The tree with a node set at a location and the missing directories above it. -/
def plant (t : Tree) (l : Location) (n : Node) : Tree :=
  ((above l).foldl (fun t l => if (t.node? l).isNone then t.put l .directory else t) t).put l n

end Tree

def Location.path (l : Location) : Path := '/' :: Text.joinWith ['/'] l

end Inlay
