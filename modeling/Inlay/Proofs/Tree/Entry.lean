import Inlay.Proofs.Path.Normal
import Inlay.Proofs.Tree.Growth

/-!
The entries of one directory. Paths that differ in their last name only lead through the same
directory, so that they lead to different places unless a link stands at one of them.
-/
namespace Inlay

namespace Path

theorem exists_names_join (dir : Path) :
    ∃ above rooted, ∀ name, (Component.name name).IsStep →
      Tree.names (join dir name) = above ++ [name] ∧ isRooted (join dir name) = rooted := by
  have hwhole : ∀ name, (Component.name name).IsStep →
      Tree.names name = [name] ∧ isRooted name = false := by
    rintro (_ | ⟨c, name⟩) ⟨hne, hfree, -⟩
    · exact absurd rfl hne
    · rw [Tree.names, Text.cutAt_eq_splitOn]
      refine ⟨List.splitOn_eq_singleton hfree, ?_⟩
      simpa [isRooted] using fun h : c = '/' => hfree (h ▸ List.mem_cons_self)
  by_cases hempty : dir = []
  · subst hempty
    refine ⟨[], false, fun name hname => ?_⟩
    obtain ⟨hnames, hrooted⟩ := hwhole name hname
    rw [join, if_pos (by simp)]
    exact ⟨hnames, hrooted⟩
  · -- A slash at the end of the directory is the one before the name.
    obtain ⟨front, hfront⟩ : ∃ front, ∀ name, isRooted name = false →
        join dir name = front ++ '/' :: name ∧ isRooted (join dir name) = isRooted dir := by
      obtain ⟨c, rest, rfl⟩ := List.exists_cons_of_ne_nil hempty
      by_cases hslash : (c :: rest).getLast? = some '/'
      · obtain ⟨front, hdir⟩ := List.getLast?_eq_some_iff.1 hslash
        refine ⟨front, fun name hrooted => ?_⟩
        rw [join, if_neg (by simp [hrooted]), if_pos hslash]
        exact ⟨by rw [hdir, List.append_assoc, List.singleton_append], rfl⟩
      · refine ⟨c :: rest, fun name hrooted => ?_⟩
        rw [join, if_neg (by simp [hrooted]), if_neg hslash]
        exact ⟨rfl, rfl⟩
    refine ⟨Tree.names front, isRooted dir, fun name hname => ?_⟩
    obtain ⟨hnames, hrooted⟩ := hwhole name hname
    obtain ⟨hjoin, hsame⟩ := hfront name hrooted
    rw [Tree.names, Text.cutAt_eq_splitOn] at hnames
    refine ⟨?_, hsame⟩
    rw [hjoin, Tree.names, Tree.names, Text.cutAt_eq_splitOn, Text.cutAt_eq_splitOn,
      List.splitOn_append_cons_self, hnames]

end Path

namespace Tree

variable {t : Tree}

/--
Following names that end in a proper one comes to the same directory whatever that one is. A link
before it is followed in any case, as it is at the end of a path where `last` says so.
-/
theorem exists_walk_concat (t : Tree) (links : Nat) (here : Location) (above : List Text) :
    ∃ way : Except Errno (Nat × Location), ∀ last name, (Path.Component.name name).IsStep →
      walk t last links here (above ++ [name]) =
        way.bind fun (links, dir) => walk t last links dir [name] := by
  fun_induction walk t true links here above with
  | case1 links here | case2 links here => exact ⟨.ok (links, here), fun _ _ _ => rfl⟩
  | case3 links here first rest hfirst ih =>
    obtain ⟨way, hway⟩ := ih
    refine ⟨way, fun last name hname => ?_⟩
    rw [List.cons_append, walk, if_pos hfirst]
    exact hway last name hname
  | case4 links here rest hfirst ih =>
    obtain ⟨way, hway⟩ := ih
    refine ⟨way, fun last name hname => ?_⟩
    rw [List.cons_append, walk, if_neg hfirst, if_pos rfl]
    exact hway last name hname
  | case5 links here first rest hfirst hup hlimit =>
    refine ⟨.error .nameTooLong, fun last name hname => ?_⟩
    rw [List.cons_append, walk, if_neg hfirst, if_neg hup, if_pos hlimit]
    rfl
  | case6 links here first rest hfirst hup hlimit there hnone
  | case7 links here first rest hfirst hup hlimit there hnone =>
    -- The name that comes last is not empty, so that nothing may be missing before it.
    refine ⟨.error .noEntry, fun last name hname => ?_⟩
    rw [List.cons_append, walk_entry hfirst hup hlimit hnone]
    exact if_neg (by simp [hname.1])
  | case8 links here first rest hfirst hup hlimit there hdir ih =>
    obtain ⟨way, hway⟩ := ih
    refine ⟨way, fun last name hname => ?_⟩
    rw [List.cons_append, walk_entry hfirst hup hlimit hdir]
    exact hway last name hname
  | case9 links here first rest hfirst hup hlimit there target hlink hlast => simp at hlast
  | case10 here first rest hfirst hup hlimit there target hlink hlast =>
    refine ⟨.error .linkLoop, fun last name hname => ?_⟩
    rw [List.cons_append, walk_entry hfirst hup hlimit hlink]
    exact if_neg (by simp)
  | case11 here first rest hfirst hup hlimit there target hlink hlast links ih =>
    obtain ⟨way, hway⟩ := ih
    refine ⟨way, fun last name hname => ?_⟩
    rw [List.cons_append, walk_entry hfirst hup hlimit hlink]
    dsimp only
    rw [if_neg (by simp), ← List.append_assoc]
    exact hway last name hname
  | case12 links here first hfirst hup hlimit there old hdir hlink hold
  | case13 links here first rest hfirst hup hlimit there old hdir hlink hold hrest =>
    refine ⟨.error .notDirectory, fun last name hname => ?_⟩
    rw [List.cons_append, walk_entry hfirst hup hlimit hold]
    cases old with
    | directory => exact absurd rfl hdir
    | link target => exact absurd rfl (hlink target)
    | file | device | program => exact if_neg (by simp)

/-- The path leads to a link, if the last step is not taken through it. -/
def IsLink (t : Tree) (cwd : Location) (p : Path) : Prop :=
  ∃ l target, t.locate cwd p false = .ok (.node l (.link target))

theorem not_isLink_of_locate {cwd : Location} {p : Path} (l : Location) (content : Bytes)
    (h : t.locate cwd p false = .ok (.node l (.file content))) : ¬t.IsLink cwd p := by
  rintro ⟨l', target, h'⟩
  rw [h] at h'
  cases h'

theorem eq_concat_of_walk {links : Nat} {dir l : Location} {name : Text} {n : Node}
    (hname : (Path.Component.name name).IsStep)
    (hlink : ∀ l target, walk t false links dir [name] ≠ .ok (.node l (.link target)))
    (h : walk t true links dir [name] = .ok (.node l n)) : l = dir ++ [name] := by
  have hfirst : ¬(name = [] || name = ['.']) = true := by simp [hname.1, hname.2.2.1]
  rw [walk, if_neg hfirst, if_neg hname.2.2.2] at h
  split at h
  · cases h
  · rename_i hlimit
    cases hnode : t.node? (dir ++ [name]) with
    | none => simp [hnode] at h
    | some old =>
      simp only [hnode] at h
      cases old with
      | directory =>
        simp only [walk, hnode] at h
        cases h
        rfl
      | link target =>
        refine absurd ?_ (hlink (dir ++ [name]) target)
        rw [walk_entry hfirst hname.2.2.2 hlimit hnode]
        rfl
      | file | device | program =>
        cases h
        rfl

theorem exists_eq_concat_of_find (t : Tree) (cwd : Location) (dir : Path) :
    ∃ place : Location, ∀ name l n, (Path.Component.name name).IsStep →
      ¬t.IsLink cwd (Path.join dir name) → t.find cwd (Path.join dir name) = .ok (l, n) →
      l = place ++ [name] := by
  obtain ⟨above, rooted, hnames⟩ := Path.exists_names_join dir
  obtain ⟨way, hway⟩ := exists_walk_concat t linkLimit (if rooted then [] else cwd) above
  have hwalk : ∀ last name, (Path.Component.name name).IsStep →
      walk t last linkLimit (origin cwd (Path.join dir name)) (names (Path.join dir name)) =
        way.bind fun (links, dir) => walk t last links dir [name] := by
    intro last name hname
    obtain ⟨habove, hrooted⟩ := hnames name hname
    rw [origin, hrooted, habove]
    exact hway last name hname
  rcases way with fault | ⟨links, place⟩
  · refine ⟨[], fun name l n hname _ hfind => ?_⟩
    obtain ⟨-, hfound⟩ := locate_eq_ok_iff.1 (find_eq_ok_iff.1 hfind)
    rw [hwalk true name hname] at hfound
    cases hfound
  · refine ⟨place, fun name l n hname hlink hfind => ?_⟩
    obtain ⟨hlegal, hfound⟩ := locate_eq_ok_iff.1 (find_eq_ok_iff.1 hfind)
    rw [hwalk true name hname] at hfound
    refine eq_concat_of_walk hname (fun l' target hfound' => hlink ⟨l', target, ?_⟩) hfound
    refine locate_eq_ok_iff.2 ⟨hlegal, ?_⟩
    rw [hwalk false name hname]
    exact hfound'

theorem ne_of_find_join {cwd : Location} {dir : Path} {name₁ name₂ : Text} {l₁ l₂ : Location}
    {n₁ n₂ : Node} (hne : name₁ ≠ name₂) (hname₁ : (Path.Component.name name₁).IsStep)
    (hname₂ : (Path.Component.name name₂).IsStep)
    (hlink₁ : ¬t.IsLink cwd (Path.join dir name₁)) (hlink₂ : ¬t.IsLink cwd (Path.join dir name₂))
    (h₁ : t.find cwd (Path.join dir name₁) = .ok (l₁, n₁))
    (h₂ : t.find cwd (Path.join dir name₂) = .ok (l₂, n₂)) : l₁ ≠ l₂ := by
  obtain ⟨place, hplace⟩ := exists_eq_concat_of_find t cwd dir
  rw [hplace name₁ l₁ n₁ hname₁ hlink₁ h₁, hplace name₂ l₂ n₂ hname₂ hlink₂ h₂]
  simpa using hne

end Tree
end Inlay
