import Inlay.Marker.Basic

/-!
Finding the markers of one kind. The scan goes from left to right: where an opener is followed by
one or more characters other than the closing one and then by the closer, there is a marker, and
the scan goes on behind it; every other character is literal.
-/
namespace Inlay.Marker

/-- The inner text of a marker that begins the text, and what follows the marker. -/
def first? (k : Kind) (t : Text) : Option (Text × Text) := do
  let body ← Text.after? k.opener t
  let inner := body.takeWhile (· ≠ k.closing)
  let rest ← Text.after? k.closer (body.dropWhile (· ≠ k.closing))
  if inner = [] then none else some (inner, rest)

theorem eq_of_first? {k : Kind} {t inner rest : Text} (h : first? k t = some (inner, rest)) :
    t = k.opener ++ inner ++ k.closer ++ rest := by
  simp only [first?, Option.bind_eq_bind, Option.bind_eq_some_iff, Text.after?_eq_some_iff] at h
  obtain ⟨body, rfl, tail, htail, h⟩ := h
  split at h
  · simp at h
  · simp only [Option.some.injEq, Prod.mk.injEq] at h
    obtain ⟨rfl, rfl⟩ := h
    rw [List.append_assoc, List.append_assoc, ← htail, List.takeWhile_append_dropWhile]

theorem length_lt_of_first? {k : Kind} {t inner rest : Text}
    (h : first? k t = some (inner, rest)) : rest.length < t.length := by
  rw [eq_of_first? h]
  simp
  omega

/-- A character set before the segments of what follows it. -/
def glue (c : Char) : List Segment → List Segment
  | .literal t :: segments => .literal (c :: t) :: segments
  | segments => .literal [c] :: segments

/-- The segments of a text whose first byte stands at `start`. -/
def scanFrom (k : Kind) (start : Nat) : Text → List Segment
  | [] => []
  | c :: t =>
    match _ : first? k (c :: t) with
    | some (inner, rest) =>
      let m : Marker := ⟨k, inner, start⟩
      .marker m :: scanFrom k m.stop rest
    | none => glue c (scanFrom k (start + c.utf8Size) t)
termination_by t => t.length
decreasing_by
  · exact length_lt_of_first? ‹_›
  · simp

/-- The text cut into literals and the markers of one kind, in the order of the text. -/
def scan (k : Kind) (t : Text) : List Segment := scanFrom k 0 t

end Inlay.Marker
