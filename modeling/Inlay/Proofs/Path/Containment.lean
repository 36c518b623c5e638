import Inlay.Proofs.Path.Standing
import Mathlib.Data.List.Infix

namespace Inlay.Path

def Component.isName : Component → Bool
  | .name _ => true
  | _ => false

/-- Nowhere along the components there have been more steps up than names. -/
def Grounded (cs : List Component) : Prop :=
  ∀ front, front <+: cs → front.count .up ≤ front.countP Component.isName

theorem grounded_of_up_not_mem {cs : List Component} (h : .up ∉ cs) : Grounded cs := by
  intro front hfront
  have hnone : front.count .up = 0 := List.count_eq_zero.2 fun hup => h (hfront.subset hup)
  omega

namespace Standing

/--
A walk that never takes back more than its own names leaves the standing it starts from under them.
In the induction it has come down by some names already, which count for those that it may take
back.
-/
theorem exists_walk_eq {base : Base} {names : List Text} {cs : List Component} (down : List Text)
    (h : ∀ front, front <+: cs →
      front.count .up ≤ down.length + front.countP Component.isName) :
    ∃ down', walk ⟨base, down ++ names⟩ cs = ⟨base, down' ++ names⟩ := by
  induction cs generalizing down with
  | nil => exact ⟨down, rfl⟩
  | cons c cs ih =>
    have hfront (front : List Component) (hpre : front <+: cs) :=
      h (c :: front) ((List.prefix_cons_inj c).2 hpre)
    rw [walk_cons]
    cases c with
    | root =>
      rw [move_root]
      exact ih down fun front hpre => by simpa [Component.isName] using hfront front hpre
    | here =>
      rw [move_here]
      exact ih down fun front hpre => by simpa [Component.isName] using hfront front hpre
    | name n =>
      rw [move_name]
      refine ih (n :: down) fun front hpre => ?_
      have hcount := hfront front hpre
      rw [List.count_cons_of_ne (by simp), List.countP_cons_of_pos rfl] at hcount
      rw [List.length_cons]
      omega
    | up =>
      -- Going up takes back one of the names that the walk has come down by.
      have hone := hfront [] List.nil_prefix
      rw [List.count_singleton_self, List.countP_cons_of_neg (by simp [Component.isName])] at hone
      obtain ⟨n, down, rfl⟩ := List.exists_cons_of_length_pos (Nat.lt_of_lt_of_le Nat.one_pos hone)
      rw [List.cons_append, move_up_cons]
      refine ih down fun front hpre => ?_
      have hcount := hfront front hpre
      rw [List.count_cons_self, List.countP_cons_of_neg (by simp [Component.isName]),
        List.length_cons] at hcount
      omega

theorem exists_walk_eq_of_grounded (x : Standing) {cs : List Component} (h : Grounded cs) :
    ∃ down, x.walk cs = ⟨x.base, down ++ x.names⟩ :=
  exists_walk_eq [] fun front hpre => Nat.le_trans (h front hpre) (Nat.le_add_left _ _)

end Standing

/-- The components that lead somewhere: a dot is none. -/
def withoutDots (p : Path) : List Component := (components p).filter (· ≠ .here)

theorem Standing.Sound.withoutDots_path {x : Standing} (h : x.Sound) :
    withoutDots x.path = x.components := by
  rw [withoutDots, h.components_path]
  split
  · rename_i hx
    subst hx
    rfl
  · have hhere : Component.here ∉ x.components := by
      rw [← List.mem_reverse]
      exact h.settled.here_not_mem
    exact List.filter_eq_self.2 fun c hc => decide_eq_true fun heq => hhere (heq ▸ hc)

/--
An include stays below the document. If its steps up never outnumber the names in front of them, as
when it has no steps up, the file has the components of the document's directory in normal form and
then names only; and a root in front of an include changes nothing.
-/
theorem resolve_contained (s : Source) (relative : Text) :
    (Grounded (components relative) → ∃ names : List Text,
        withoutDots (s.resolve relative) = normalize (components s.directory) ++ names.map .name) ∧
      (.up ∉ components relative → Grounded (components relative)) ∧
      s.resolve ('/' :: relative) = s.resolve relative := by
  refine ⟨fun hgrounded => ?_, grounded_of_up_not_mem, ?_⟩
  · obtain ⟨down, hdown⟩ := (Standing.ofPath s.directory).exists_walk_eq_of_grounded hgrounded
    refine ⟨down.reverse, ?_⟩
    rw [Standing.resolve_eq, (Standing.sound_walk s.directory relative).withoutDots_path, hdown,
      Standing.components_append, Standing.normalize_components]
  · rw [Standing.resolve_eq, Standing.resolve_eq, ← Standing.walk_moves, ← Standing.walk_moves,
      moves_slash]

theorem resolve_contained_detour :
    Grounded (components "x/../y/./z".toList) ∧
      (∃ names : List Text,
        withoutDots ((Source.file "../t//doc".toList).resolve "x/../y/./z".toList) =
          normalize (components (Source.file "../t//doc".toList).directory) ++ names.map .name) ∧
      (Source.file "../t//doc".toList).resolve "/x/../y/./z".toList =
        (Source.file "../t//doc".toList).resolve "x/../y/./z".toList := by
  obtain ⟨hbelow, -, hroot⟩ :=
    resolve_contained (.file "../t//doc".toList) "x/../y/./z".toList
  have hinits : ∀ front ∈ (components "x/../y/./z".toList).inits,
      front.count .up ≤ front.countP Component.isName := by decide
  have hgrounded : Grounded (components "x/../y/./z".toList) :=
    fun front hfront => hinits front ((List.mem_inits front _).2 hfront)
  exact ⟨hgrounded, hbelow hgrounded, hroot⟩

end Inlay.Path
