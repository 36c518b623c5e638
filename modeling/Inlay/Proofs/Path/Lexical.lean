import Inlay.Proofs.Path.Growth

namespace Inlay

/-- Documents that are one on paper: standard input, or files at the same place. -/
def Source.same : Source → Source → Bool
  | .stdin, .stdin => true
  | .file p, .file q => Path.same p q
  | _, _ => false

namespace Path

/-- A path in lexical normal form that is neither a dot nor the root alone. -/
structure Plain (p : Path) : Prop where
  nonempty : p ≠ []
  dots : ['.'] ∉ Text.cutAt '/' p
  doubled : ¬ ['/', '/'] <:+: p
  ending : p.getLast? ≠ some '/'
  leading : ∀ before after, components p = before ++ .up :: after → ∀ c ∈ before, c = .up
  relative : .up ∈ components p → isRooted p = false

theorem mem_tail_cutAt_append (t : Text) {pieces : List Text} {piece : Text} (h : piece ∈ pieces) :
    piece ∈ (Text.cutAt '/' t ++ pieces).tail := by
  rw [List.tail_append_of_ne_nil (Text.cutAt_ne_nil '/' t)]
  exact List.mem_append_right _ h

theorem not_doubled {p : Path} (h : [] ∉ (Text.cutAt '/' p).tail) : ¬ ['/', '/'] <:+: p := by
  rintro ⟨before, after, rfl⟩
  apply h
  have htext : before ++ ['/', '/'] ++ after = before ++ '/' :: ([] ++ '/' :: after) := by simp
  rw [htext, Text.cutAt_append_sep]
  exact mem_tail_cutAt_append before (by rw [Text.cutAt_append_sep]; exact List.mem_cons_self)

theorem getLast?_ne_slash {p : Path} (h : [] ∉ (Text.cutAt '/' p).tail) :
    p.getLast? ≠ some '/' := by
  intro hlast
  obtain ⟨front, rfl⟩ := List.getLast?_eq_some_iff.1 hlast
  apply h
  rw [Text.cutAt_append_sep]
  exact mem_tail_cutAt_append front List.mem_cons_self

namespace Standing

variable {x : Standing}

theorem Sound.cutAt_text (h : x.Sound) (hne : x.steps ≠ []) :
    Text.cutAt '/' x.text =
      (if x.base = .root then [[]] else []) ++ x.steps.map Component.text := by
  have hjoin : Text.cutAt '/' (Text.joinWith ['/'] (x.steps.map Component.text)) =
      x.steps.map Component.text :=
    Text.cutAt_joinWith (legible_text h.isStep false).whole (by simpa using hne)
  unfold text spelled
  by_cases hbase : x.base = .root
  · simp only [hbase, decide_true, if_true, List.singleton_append, Text.cutAt_sep, hjoin]
  · simp only [hbase, decide_false, Bool.false_eq_true, if_false, List.nil_append, hjoin]

theorem Sound.nil_not_mem_tail (h : x.Sound) (hne : x.steps ≠ []) :
    [] ∉ (Text.cutAt '/' x.text).tail := by
  have hsteps : [] ∉ x.steps.map Component.text := by
    intro hnil
    obtain ⟨c, hc, htext⟩ := List.mem_map.1 hnil
    exact (h.isStep c hc).text_ne.1 htext
  rw [h.cutAt_text hne]
  split
  · exact hsteps
  · exact fun hnil => hsteps (List.mem_of_mem_tail hnil)

theorem up_not_mem_names (x : Standing) : .up ∉ x.names.reverse.map Component.name := by simp

theorem base_ne_root_of_up_mem (h : .up ∈ x.components) : x.base ≠ .root := by
  intro hroot
  rw [components, hroot] at h
  rcases List.mem_append.1 h with h | h
  · cases List.mem_singleton.1 h
  · exact x.up_not_mem_names h

theorem eq_up_of_components_eq {before after : List Component}
    (h : x.components = before ++ .up :: after) : ∀ c ∈ before, c = .up := by
  intro c hc
  have hbase := base_ne_root_of_up_mem (h ▸ List.mem_append_right before List.mem_cons_self)
  cases hb : x.base with
  | root => exact absurd hb hbase
  | up count =>
    rcases List.append_eq_append_iff.1 h with ⟨gap, rfl, hrest⟩ | ⟨gap, hups, -⟩
    · exact absurd (hrest ▸ List.mem_append_right gap List.mem_cons_self) x.up_not_mem_names
    · rw [hb] at hups
      exact List.eq_of_mem_replicate (hups ▸ List.mem_append_left gap hc)

theorem Sound.isRooted_text (h : x.Sound) : isRooted x.text = decide (x.base = .root) := by
  rw [isRooted_eq, h.components_text]
  exact decide_eq_decide.2 root_mem_components

theorem Sound.plain (h : x.Sound) (hne : x.steps ≠ []) : Plain x.text where
  nonempty htext := by
    rw [h.text_eq_nil_iff] at htext
    exact hne (by rw [htext]; rfl)
  dots hdot := by
    rw [h.cutAt_text hne] at hdot
    rcases List.mem_append.1 hdot with hdot | hdot
    · split at hdot <;> simp at hdot
    · obtain ⟨c, hc, htext⟩ := List.mem_map.1 hdot
      exact (h.isStep c hc).text_ne.2.2 htext
  doubled := not_doubled (h.nil_not_mem_tail hne)
  ending := getLast?_ne_slash (h.nil_not_mem_tail hne)
  leading before after hsplit := eq_up_of_components_eq (h.components_text.symm.trans hsplit)
  relative hup := by
    rw [h.components_text] at hup
    rw [h.isRooted_text, decide_eq_false (base_ne_root_of_up_mem hup)]

theorem Sound.path_normal (h : x.Sound) : x.path = ['.'] ∨ x.path = ['/'] ∨ Plain x.path := by
  rw [h.path_eq]
  split
  · exact .inl rfl
  · rename_i hne
    apply Or.inr
    by_cases hsteps : x.steps = []
    · apply Or.inl
      by_cases hbase : x.base = .root
      · rw [text, hsteps, hbase]
        rfl
      · refine absurd ?_ hne
        rw [text, hsteps, decide_eq_false hbase]
        rfl
    · exact .inr (h.plain hsteps)

theorem Sound.isRooted_path (h : x.Sound) : isRooted x.path = decide (x.base = .root) := by
  rw [h.path_eq]
  split
  · rename_i hnil
    rw [h.text_eq_nil_iff.1 hnil]
    rfl
  · exact h.isRooted_text

theorem base_walk (x : Standing) (cs : List Component) :
    (x.walk cs).base = .root ↔ x.base = .root := by
  induction cs generalizing x with
  | nil => rfl
  | cons c cs ih =>
    rw [walk_cons, ih]
    rcases x with ⟨_ | _, _ | _⟩ <;> cases c <;> simp [move]

theorem base_ofPath (p : Path) : (ofPath p).base = .root ↔ isRooted p := by
  rw [ofPath, base_walk]
  cases isRooted p <;> simp [origin]

end Standing

/--
An included path depends on the document's place and on the moves of the include, not on spelling.
-/
theorem resolve_eq_of_moves {s s' : Source} {relative relative' : Text} (hs : s.same s')
    (hmoves : moves relative = moves relative') : s.resolve relative = s'.resolve relative' := by
  have hsource : s.resolve relative = s'.resolve relative := by
    cases s <;> cases s'
    · rfl
    · cases hs
    · cases hs
    · exact resolve_congr hs relative
  rw [hsource, Standing.resolve_eq, Standing.resolve_eq, ← Standing.walk_moves, hmoves,
    Standing.walk_moves]

/--
What an include names is in lexical normal form, and has a root where the directory of the document
has one, however many steps up the include has. It is what is settled when the components of the
directory and those of the include but its root are walked in turn, and the text that grows along
them; and it is one text for documents that are one on paper and includes with the same moves.
-/
theorem resolve_normal (s : Source) (relative : Text) :
    (s.resolve relative = ['.'] ∨ s.resolve relative = ['/'] ∨ Plain (s.resolve relative)) ∧
      isRooted (s.resolve relative) = isRooted s.directory ∧
      s.resolve relative = ((Standing.origin (isRooted s.directory)).walk
        (components s.directory ++ (components relative).filter (· ≠ .root))).path ∧
      s.resolve relative = grown s.directory relative ∧
      ∀ (s' : Source) (relative' : Text), s.same s' → moves relative = moves relative' →
        s.resolve relative = s'.resolve relative' := by
  have hsound := Standing.sound_walk s.directory relative
  refine ⟨?_, ?_, ?_, below_eq_grown _ _, fun _ _ => resolve_eq_of_moves⟩
  · rw [Standing.resolve_eq]
    exact hsound.path_normal
  · rw [Standing.resolve_eq, hsound.isRooted_path, Bool.eq_iff_iff, decide_eq_true_iff,
      Standing.base_walk, Standing.base_ofPath]
  · rw [Standing.resolve_eq, Standing.ofPath, Standing.walk_append, Standing.walk_filter_ne_root]

theorem resolve_normal_respelled :
    (Source.file "t//a/./doc".toList).resolve "./x/../y//z".toList =
        (Source.file "t/a/doc".toList).resolve "/x/.././y/z".toList ∧
      (Source.file "t/a/doc".toList).resolve "/x/.././y/z".toList = "t/a/y/z".toList := by
  obtain ⟨-, -, -, -, hrespelled⟩ :=
    resolve_normal (.file "t//a/./doc".toList) "./x/../y//z".toList
  exact ⟨hrespelled _ _ (by decide) (by decide), by decide⟩

end Path
end Inlay
