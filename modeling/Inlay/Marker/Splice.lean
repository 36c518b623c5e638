import Inlay.Marker.Basic

namespace Inlay

/--
The segments with the values in place of the markers, in order; a marker without one vanishes.
-/
def Segment.splice : List Segment → List Text → Text
  | [], _ => []
  | .literal t :: segments, values => t ++ splice segments values
  | .marker _ :: segments, [] => splice segments []
  | .marker _ :: segments, value :: values => value ++ splice segments values

/-- A text that is not empty ends in exactly one newline. -/
def Text.closeLine (t : Text) : Text :=
  if t = [] then [] else t.trimEnd (· = '\n') ++ ['\n']

end Inlay
