import Inlay.Proofs.Path.Standing

namespace Inlay

/-- The source that is reached when each include is looked up from the file of the one before it. -/
def Source.follow (s : Source) (includes : List Text) : Source :=
  includes.foldl (fun s relative => .file (s.resolve relative)) s

namespace Path

namespace Standing

variable {x : Standing} {base : Base} {n : Text} {names : List Text}

theorem name_not_mem_components (base : Base) (m : Text) : .name m ∉ base.components := by
  cases base with
  | root => simp [Base.components]
  | up count =>
    intro h
    cases List.eq_of_mem_replicate h

theorem Sound.exists_names_eq (h : x.Sound) (hname : (fileName? x.path).isSome) :
    ∃ n names, x.names = n :: names := by
  rcases x with ⟨base, _ | ⟨n, names⟩⟩
  · exfalso
    unfold fileName? at hname
    split at hname
    · rename_i m hlast
      have hmem := List.mem_of_getLast? hlast
      rw [h.components_path] at hmem
      split at hmem
      · simp at hmem
      · exact name_not_mem_components base m (by simpa [components] using hmem)
    · cases hname
  · exact ⟨n, names, rfl⟩

theorem ofPath_directory (h : Sound ⟨base, n :: names⟩) :
    ofPath (Source.file (path ⟨base, n :: names⟩)).directory = ⟨base, names⟩ := by
  have hpath : Path.components (path ⟨base, n :: names⟩) =
      components ⟨base, names⟩ ++ [.name n] := by
    rw [h.components_path, if_neg (by simp [origin])]
    exact components_append base [n] names
  have hdir := components_directory (path ⟨base, n :: names⟩)
  rw [hpath, List.dropLast_concat] at hdir
  split at hdir
  · -- The working directory is spelled as a dot, which leads nowhere.
    rename_i hnil
    rw [components_eq_nil_iff.1 hnil, ofPath, isRooted_eq, hdir]
    rfl
  · exact ofPath_eq_of_components hdir

end Standing

theorem moves_up_between (a b : Path) :
    moves (a ++ "/../".toList ++ b) = moves a ++ .up :: moves b := by
  have htext : a ++ "/../".toList ++ b = a ++ '/' :: (['.', '.'] ++ '/' :: b) := by simp
  have hup : moves ['.', '.'] = [.up] := by decide
  rw [htext, moves_append_slash, moves_append_slash, hup]
  rfl

theorem resolve_resolve {s : Source} {a : Text} (h : (fileName? (s.resolve a)).isSome) (b : Text) :
    (Source.file (s.resolve a)).resolve b = s.resolve (a ++ "/../".toList ++ b) := by
  have hsound := Standing.sound_walk s.directory a
  rw [Standing.resolve_eq s a] at h ⊢
  rw [Standing.resolve_eq, Standing.resolve_eq, ← Standing.walk_moves _ (a ++ _ ++ b),
    moves_up_between, Standing.walk_append, Standing.walk_cons, Standing.walk_moves,
    Standing.walk_moves]
  obtain ⟨n, names, hnames⟩ := hsound.exists_names_eq h
  generalize (Standing.ofPath s.directory).walk (components a) = x at hsound hnames
  obtain ⟨base, _⟩ := x
  obtain rfl := hnames
  rw [Standing.ofPath_directory hsound, Standing.move_up_cons]

/--
Includes inside includes come to one include. From a file that is reached under a name, an include
leads where its document leads by going to the file, up by one and on; and a chain of includes, in
which all files but the last have a name, leads where the document leads by all of them with a step
up between.
-/
theorem follow_eq_resolve (s : Source) :
    (∀ a b : Text, (fileName? (s.resolve a)).isSome →
      (Source.file (s.resolve a)).resolve b = s.resolve (a ++ "/../".toList ++ b)) ∧
      ∀ (first : Text) (rest : List Text),
        (∀ front later, first :: rest = front ++ later → front ≠ [] → later ≠ [] →
          ((s.follow front).path?.bind fileName?).isSome) →
        s.follow (first :: rest) =
          .file (s.resolve (Text.joinWith "/../".toList (first :: rest))) := by
  refine ⟨fun a b h => resolve_resolve h b, fun first rest h => ?_⟩
  induction rest generalizing s first with
  | nil => rfl
  | cons second rest ih =>
    have hfirst : (fileName? (s.resolve first)).isSome :=
      h [first] (second :: rest) rfl (List.cons_ne_nil _ _) (List.cons_ne_nil _ _)
    have hlater := ih (.file (s.resolve first)) second fun front later heq hfront hlast =>
      h (first :: front) later (by rw [heq, List.cons_append]) (List.cons_ne_nil _ _) hlast
    calc s.follow (first :: second :: rest)
        = (Source.file (s.resolve first)).follow (second :: rest) := rfl
      _ = .file ((Source.file (s.resolve first)).resolve
            (Text.joinWith "/../".toList (second :: rest))) := hlater
      _ = .file (s.resolve (first ++ "/../".toList ++
            Text.joinWith "/../".toList (second :: rest))) := by rw [resolve_resolve hfirst]

theorem follow_eq_resolve_descent :
    ((Source.stdin.follow ["a/b".toList, "../../../c".toList]).path?.bind fileName?).isSome ∧
      (Source.file (Source.stdin.resolve "a/b".toList)).resolve "../../../c".toList =
        Source.stdin.resolve "a/b/../../../../c".toList ∧
      Source.stdin.follow ["a/b".toList, "../../../c".toList, "/d".toList] =
        .file (Source.stdin.resolve "a/b/../../../../c/..//d".toList) := by
  obtain ⟨htwo, hchain⟩ := follow_eq_resolve .stdin
  have hnamed : ∀ front later, ["a/b".toList, "../../../c".toList, "/d".toList] = front ++ later →
      front ≠ [] → later ≠ [] → ((Source.stdin.follow front).path?.bind fileName?).isSome := by
    intro front later heq hfront hlater
    rcases front with _ | ⟨first, _ | ⟨second, _ | ⟨third, front⟩⟩⟩
    · exact absurd rfl hfront
    · obtain ⟨rfl, -⟩ := List.cons_eq_cons.1 heq
      decide
    · obtain ⟨rfl, hbehind⟩ := List.cons_eq_cons.1 heq
      obtain ⟨rfl, -⟩ := List.cons_eq_cons.1 hbehind
      decide
    · have hlength := congrArg List.length heq
      have hpos := List.length_pos_of_ne_nil hlater
      simp only [List.length_append, List.length_cons, List.length_nil] at hlength
      omega
  exact ⟨by decide, htwo _ _ (by decide), hchain _ _ hnamed⟩

end Path
end Inlay
