import Inlay.Proofs.Path.Spelling

/-!
The moves of a path: its names and its steps up. They can be read off the stretches between slashes
one by one, so a slash between two paths makes the moves of the first and then those of the second.
-/
namespace Inlay

theorem Text.cutAt_append_sep (sep : Char) (t u : Text) :
    cutAt sep (t ++ sep :: u) = cutAt sep t ++ cutAt sep u := by
  rw [cutAt_eq_splitOn, cutAt_eq_splitOn, cutAt_eq_splitOn, List.splitOn_append_cons_self]

namespace Path

/-- A component that leads elsewhere, wherever it stands in a path. -/
def Component.isMove : Component → Bool
  | .name _ | .up => true
  | .root | .here => false

def moves (p : Path) : List Component := (components p).filter Component.isMove

/-- The move of a stretch between slashes; an empty one and a dot make none. -/
def move? (s : Text) : Option Component :=
  if s = [] ∨ s = ['.'] then none else some (componentOf s)

theorem filter_isMove_componentOf (s : Text) :
    [componentOf s].filter Component.isMove = if s = ['.'] then [] else [componentOf s] := by
  unfold componentOf
  by_cases hdot : s = ['.']
  · subst hdot
    rfl
  · rw [if_neg hdot, if_neg hdot]
    split <;> rfl

theorem filter_isMove_marked {stretches : List (Text × Bool)}
    (h : ∀ s ∈ stretches, (s.2 = true → s.1 ≠ []) ∧ (s.2 = false → s.1 = [] ∨ s.1 = ['.'])) :
    ((stretches.filter (·.2)).map (componentOf ·.1)).filter Component.isMove =
      (stretches.map (·.1)).filterMap move? := by
  induction stretches with
  | nil => rfl
  | cons s stretches ih =>
    obtain ⟨t, marked⟩ := s
    obtain ⟨hset, hunset⟩ := h _ List.mem_cons_self
    have htail := ih fun s hs => h s (List.mem_cons_of_mem _ hs)
    rw [List.map_cons, List.filterMap_cons, ← htail]
    cases marked with
    | false =>
      rw [List.filter_cons_of_neg (by simp), move?, if_pos (hunset rfl)]
    | true =>
      rw [List.filter_cons_of_pos rfl, List.map_cons, ← List.singleton_append, List.filter_append,
        filter_isMove_componentOf, move?]
      by_cases hdot : t = ['.']
      · rw [if_pos hdot, if_pos (.inr hdot), List.nil_append]
      · rw [if_neg hdot, if_neg (not_or.2 ⟨hset rfl, hdot⟩), List.singleton_append]

theorem stretches_marked {p : Path} {s : Text × Bool} (h : s ∈ stretches p) :
    (s.2 = true → s.1 ≠ []) ∧ (s.2 = false → s.1 = [] ∨ s.1 = ['.']) := by
  rw [stretches_eq_counted] at h
  cases hcut : Text.cutAt '/' p with
  | nil =>
    rw [hcut] at h
    cases h
  | cons first rest =>
    rw [hcut, counted] at h
    rcases List.mem_cons.1 h with rfl | h
    · by_cases hfirst : first = [] <;> simp [hfirst]
    · obtain ⟨t, -, rfl⟩ := List.mem_map.1 h
      by_cases ht : t = [] <;> simp [ht]

theorem moves_eq (p : Path) : moves p = (Text.cutAt '/' p).filterMap move? := by
  have hroot : (if isRooted p then [Component.root] else []).filter Component.isMove = [] := by
    cases isRooted p <;> rfl
  rw [moves, components, List.filter_append, hroot, List.nil_append,
    filter_isMove_marked fun s hs => stretches_marked hs, stretches_eq_counted, counted_fst]

theorem moves_append_slash (a b : Path) : moves (a ++ '/' :: b) = moves a ++ moves b := by
  rw [moves_eq, moves_eq, moves_eq, Text.cutAt_append_sep, List.filterMap_append]

theorem moves_slash (p : Path) : moves ('/' :: p) = moves p :=
  moves_append_slash [] p

end Path
end Inlay
