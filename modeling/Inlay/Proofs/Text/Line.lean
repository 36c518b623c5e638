import Inlay.Marker.Splice
import Inlay.Proofs.Text.Slice

/-!
The end of a finished text. A text is closed when it is empty or ends in exactly one newline.
Closing the line of a text leaves closed texts as they are, and of other texts it changes nothing
but the number of newlines at the end.
-/
namespace Inlay.Text

/-- The text is empty or ends in exactly one newline. -/
def Closed (t : Text) : Prop :=
  t = [] ∨ ∃ body, t = body ++ ['\n'] ∧ body.getLast? ≠ some '\n'

theorem exists_eq_append_newlines (t : Text) :
    ∃ body newlines, t = body ++ newlines ∧ body.getLast? ≠ some '\n' ∧
      ∀ c ∈ newlines, c = '\n' := by
  obtain ⟨newlines, ht, hnewlines⟩ := exists_eq_trimEnd_append (· = '\n') t
  refine ⟨_, newlines, ht, fun hlast => ?_, fun c hc => of_decide_eq_true (hnewlines c hc)⟩
  exact of_decide_eq_false (getLast?_trimEnd hlast) rfl

theorem closeLine_append {body newlines : Text} (hbody : body.getLast? ≠ some '\n')
    (hnewlines : ∀ c ∈ newlines, c = '\n') :
    (body ++ newlines).closeLine = if body ++ newlines = [] then [] else body ++ ['\n'] := by
  have hall : ∀ c ∈ newlines, decide (c = '\n') = true := fun c hc =>
    decide_eq_true (hnewlines c hc)
  have hlast : ∀ c ∈ body.getLast?, decide (c = '\n') = false := by
    rintro c hc
    refine decide_eq_false ?_
    rintro rfl
    exact hbody hc
  rw [closeLine, trimEnd_append_of_pos hall, trimEnd_eq_self hlast]

theorem exists_closeLine_eq_append (t : Text) :
    ∃ body newlines newlines', t = body ++ newlines ∧ t.closeLine = body ++ newlines' ∧
      body.getLast? ≠ some '\n' ∧ (∀ c ∈ newlines, c = '\n') ∧ ∀ c ∈ newlines', c = '\n' := by
  obtain ⟨body, newlines, rfl, hbody, hnewlines⟩ := exists_eq_append_newlines t
  rw [closeLine_append hbody hnewlines]
  split
  · rename_i hnil
    obtain ⟨rfl, rfl⟩ := List.append_eq_nil_iff.1 hnil
    exact ⟨[], [], [], rfl, rfl, hbody, hnewlines, hnewlines⟩
  · exact ⟨body, newlines, ['\n'], rfl, rfl, hbody, hnewlines, by simp⟩

theorem closed_closeLine (t : Text) : t.closeLine.Closed := by
  obtain ⟨body, newlines, rfl, hbody, hnewlines⟩ := exists_eq_append_newlines t
  rw [closeLine_append hbody hnewlines]
  split
  · exact .inl rfl
  · exact .inr ⟨body, rfl, hbody⟩

theorem Closed.closeLine_eq {t : Text} (h : t.Closed) : t.closeLine = t := by
  rcases h with rfl | ⟨body, rfl, hbody⟩
  · rfl
  · rw [closeLine_append hbody (by simp), if_neg (by simp)]

theorem closeLine_eq_self_iff {t : Text} : t.closeLine = t ↔ t.Closed :=
  ⟨fun h => h ▸ closed_closeLine t, Closed.closeLine_eq⟩

end Inlay.Text
