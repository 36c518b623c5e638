import Inlay.Marker.Scan

/-!
Stray openers: openers left in literal text because their marker never closed. They stay in the
document as they are, and a snippet of the text shows where they stand.
-/
namespace Inlay.Marker

/-- The byte offsets of the openers in the literals among segments that begin at `start`. -/
def strayFrom (k : Kind) (start : Nat) : List Segment → List Nat
  | [] => []
  | .literal t :: rest =>
    Text.occurrences k.opener start t ++ strayFrom k (start + Text.size t) rest
  | .marker m :: rest => strayFrom k (start + Text.size m.written) rest

def strayOpeners (k : Kind) (segments : List Segment) : List Nat := strayFrom k 0 segments

def snippetLength : Nat := 24

/-- The text at a byte offset, up to the end of its line and to the snippet's length. -/
def snippetAt (t : Text) (offset : Nat) : Text :=
  ((Text.fromByte? t offset).getD []).takeWhile (· ≠ '\n') |>.take snippetLength

end Inlay.Marker
