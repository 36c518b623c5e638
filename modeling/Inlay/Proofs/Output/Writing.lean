import Inlay.Output.Router
import Inlay.Proofs.Text.Bytes
import Inlay.Proofs.Tree.Growth

/-!
What the parts of a write do to a world. Opening a file makes the directories above it and then
empties it or makes it, or fails and has made no more than directories; an open file takes a text
after those that it has taken before.
-/
namespace Inlay

namespace Run

def withTree (r : Run World) (t : Tree) : Run World := { r with host := { r.host with tree := t } }

@[simp] theorem tree_withTree (r : Run World) (t : Tree) : (r.withTree t).host.tree = t := rfl

@[simp] theorem withTree_withTree (r : Run World) (t t' : Tree) :
    (r.withTree t).withTree t' = r.withTree t' := rfl

@[simp] theorem withTree_tree (r : Run World) : r.withTree r.host.tree = r := rfl

@[simp] theorem host_say (r : Run World) (level : Log.Level) (message : Text) :
    (r.say level message).host = r.host := rfl

theorem onTree_eq {α : Type} (act : Tree.Action α) (r : Run World) :
    r.onTree act = ((act r.host.tree).1, r.withTree (act r.host.tree).2) := rfl

end Run

namespace Output

open Inlay.Tree

/-- A failure to open a file, or to make the directory that it stands in. -/
def Failure.IsOpening : Failure → Prop
  | .notOpened .. => True
  | .noDirectory .. => True
  | _ => False

theorem makeRoom_cases (path : Path) (r : Run World) :
    (∃ dir fault t, makeRoom path r = (.error (.noDirectory dir fault), r.withTree t) ∧
      r.host.tree.Furnishes t) ∨
    ∃ t, makeRoom path r = (.ok (), r.withTree t) ∧ r.host.tree.Furnishes t := by
  rcases hparent : Path.parent? path with _ | _ | ⟨c, dir⟩
  · exact .inr ⟨r.host.tree, by rw [makeRoom, hparent, Run.withTree_tree], .refl _⟩
  · exact .inr ⟨r.host.tree, by rw [makeRoom, hparent, Run.withTree_tree], .refl _⟩
  · have hfurnishes := makeDirectories_furnishes r.host.cwd (c :: dir) r.host.tree
    have heq : makeRoom path r =
        (((makeDirectories r.host.cwd (c :: dir) r.host.tree).1.mapError (.noDirectory (c :: dir))),
          r.withTree (makeDirectories r.host.cwd (c :: dir) r.host.tree).2) := by
      rw [makeRoom, hparent]
      rfl
    cases hmade : (makeDirectories r.host.cwd (c :: dir) r.host.tree).1 with
    | error fault =>
      rw [hmade] at heq
      exact .inl ⟨_, fault, _, heq, hfurnishes⟩
    | ok =>
      rw [hmade] at heq
      exact .inr ⟨_, heq, hfurnishes⟩

theorem opening_cases {α : Type} (path : Path) (fails : Fault → Failure) (next : Outlet → Step α)
    (r : Run World) {result : Except Failure α} {r' : Run World}
    (h : Step.andThen (makeRoom path) (fun _ => Step.andThen
      (onTree fails fun cwd => openOutlet cwd path true) next) r = (result, r')) :
    (∃ why t, result = .error why ∧ r' = r.withTree t ∧ r.host.tree.Furnishes t ∧
      ((∃ dir fault, why = .noDirectory dir fault) ∨ ∃ fault, why = fails fault)) ∨
    ∃ t, r.host.tree.Furnishes t ∧ ((∃ d l, next (.device d) (r.withTree t) = (result, r') ∧
        t.find r.host.cwd path = .ok (l, .device d)) ∨
      ∃ l, next (.file l) (r.withTree (t.put l (.file []))) = (result, r') ∧ t.Writable l ∧
        t.LeadsTo r.host.cwd path l) := by
  rcases makeRoom_cases path r with ⟨dir, fault, t, hroom, ht⟩ | ⟨t, hroom, ht⟩
  · rw [Step.andThen, hroom] at h
    cases h
    exact .inl ⟨_, t, rfl, rfl, ht, .inl ⟨dir, fault, rfl⟩⟩
  · rw [Step.andThen, hroom] at h
    simp only [Step.andThen, onTree, Run.onTree_eq, Run.tree_withTree, Run.withTree_withTree] at h
    have hcwd : (r.withTree t).host.cwd = r.host.cwd := rfl
    rw [hcwd] at h
    rcases openOutlet_cases r.host.cwd path t with ⟨fault, hopen⟩ | ⟨d, l, hopen, hfind⟩ |
      ⟨l, hopen, hwritable, hleads⟩
    · rw [hopen] at h
      cases h
      exact .inl ⟨_, t, rfl, rfl, ht, .inr ⟨fault, rfl⟩⟩
    · rw [hopen] at h
      exact .inr ⟨t, ht, .inl ⟨d, l, h, hfind⟩⟩
    · rw [hopen] at h
      exact .inr ⟨t, ht, .inr ⟨l, h, hwritable, hleads⟩⟩

theorem writeDocument_cases {path : Path} {content : Text} {r r' : Run World}
    {result : Except Failure Unit} (h : writeDocument path content r = (result, r')) :
    ∃ t, r'.host = (r.withTree t).host ∧ r.host.tree.Grows t ∧
      (((∃ why, result = .error why) ∧ ∀ m, t.content? m = r.host.tree.content? m) ∨
        (result = .ok () ∧ (∃ d l, t.find r.host.cwd path = .ok (l, .device d)) ∧
          ∀ m, t.content? m = r.host.tree.content? m) ∨
        ∃ l, result = .ok () ∧ t.find r.host.cwd path = .ok (l, .file (Text.encode content)) ∧
          ∀ m, m ≠ l → t.content? m = r.host.tree.content? m) := by
  rcases opening_cases path (.notWritten path) _ r h with ⟨why, t, rfl, rfl, ht, -⟩ |
    ⟨t, ht, ⟨d, l, hnext, hfind⟩ | ⟨l, hnext, hwritable, hleads⟩⟩
  · exact ⟨t, rfl, ht.grows, .inl ⟨⟨why, rfl⟩, ht.content?_eq⟩⟩
  · -- A device leaves the tree as it is, whether or not it takes the text.
    have hdevice := writeAt_device (t := t) d (Text.encode content) 0
    rw [Step.andThen, onTree, Run.onTree_eq, Run.tree_withTree, hdevice] at hnext
    cases htaken : (writeAt (.device d) (Text.encode content) 0 t).1 with
    | error fault =>
      rw [htaken] at hnext
      cases hnext
      exact ⟨t, rfl, ht.grows, .inl ⟨⟨_, rfl⟩, ht.content?_eq⟩⟩
    | ok =>
      rw [htaken] at hnext
      cases hnext
      exact ⟨t, rfl, ht.grows, .inr (.inl ⟨rfl, ⟨d, l, hfind⟩, ht.content?_eq⟩)⟩
  · -- The file has been emptied when it was opened, and so it holds just what is written.
    obtain ⟨t', hwrite, hcontent, hgrows, hother⟩ :=
      writeAt_content? (hwritable.content?_put_self []) (Text.encode content)
    rw [List.nil_append] at hcontent
    have hplace : (0 : Nat) = ([] : Bytes).length := rfl
    rw [Step.andThen, onTree, Run.onTree_eq, Run.tree_withTree, hplace, hwrite] at hnext
    cases hnext
    have hall := (ht.grows.trans (hwritable.grows [])).trans hgrows
    refine ⟨t', rfl, hall, .inr (.inr ⟨l, rfl, ?_, fun m hm => ?_⟩)⟩
    · exact ((hwritable.grows []).trans hgrows).find_file hcontent hleads
    · rw [hother m hm, content?_put_of_ne hm, ht.content?_eq m]

namespace Writer

/-- What the writer has written is all that the file at the location holds. -/
structure Holds (w : Writer) (t : Tree) (l : Location) (content : Bytes) : Prop where
  outlet : w.outlet = .file l
  untold : w.untold = none
  position : w.position = content.length
  content : t.content? l = some content

variable {w w' : Writer} {path : Path} {r r' : Run World} {l : Location} {content : Bytes}

theorem append_outlet (w : Writer) (text : Text) (r : Run World) :
    (w.append text r).2.1.outlet = w.outlet := by
  rw [append]
  by_cases htext : text = []
  · rw [if_pos htext]
  · rw [if_neg htext]
    cases w.untold with
    | some fault => rfl
    | none =>
      dsimp only
      rcases r.onTree (writeAt w.outlet (Text.encode text) w.position) with ⟨_ | _, _⟩ <;> rfl

theorem Holds.append (h : w.Holds r.host.tree l content) {text : Text}
    {result : Except Failure Unit}
    (happend : w.append text r = (result, w', r')) :
    result = .ok () ∧ w'.Holds r'.host.tree l (content ++ Text.encode text) ∧
      r.host.tree.Grows r'.host.tree ∧
      (∀ m, m ≠ l → r'.host.tree.content? m = r.host.tree.content? m) := by
  rw [Writer.append] at happend
  by_cases htext : text = []
  · subst htext
    rw [if_pos rfl] at happend
    cases happend
    exact ⟨rfl, by simpa using h, .refl _, fun _ _ => rfl⟩
  · obtain ⟨t, hwrite, hcontent, hgrows, hother⟩ := writeAt_content? h.content (Text.encode text)
    simp only [if_neg htext, h.untold, Run.onTree_eq, h.outlet, h.position, hwrite] at happend
    cases happend
    refine ⟨rfl, ⟨rfl, rfl, ?_, hcontent⟩, hgrows, hother⟩
    rw [List.length_append]

theorem create_cases {result : Except Failure Writer}
    (h : create path r = (result, r')) :
    (∃ why t, result = .error why ∧ why.IsOpening ∧ r' = r.withTree t ∧
      r.host.tree.Furnishes t) ∨
    ∃ t, r.host.tree.Furnishes t ∧
      ((∃ d, result = .ok { path := path, outlet := .device d } ∧ r' = r.withTree t) ∨
        ∃ l, result = .ok { path := path, outlet := .file l } ∧
          r' = r.withTree (t.put l (.file [])) ∧ t.Writable l) := by
  rcases opening_cases path (.notOpened path) _ r h with ⟨why, t, rfl, rfl, ht, hwhy⟩ |
    ⟨t, ht, ⟨d, -, hnext, -⟩ | ⟨l, hnext, hwritable, -⟩⟩
  · refine .inl ⟨why, t, rfl, ?_, rfl, ht⟩
    rcases hwhy with ⟨dir, fault, rfl⟩ | ⟨fault, rfl⟩ <;> trivial
  · cases hnext
    exact .inr ⟨t, ht, .inl ⟨d, rfl, rfl⟩⟩
  · cases hnext
    exact .inr ⟨t, ht, .inr ⟨l, rfl, rfl, hwritable⟩⟩

end Writer

end Output
end Inlay
