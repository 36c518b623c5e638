import Inlay.Output.Target
import Inlay.Proofs.Path.Moves
import Inlay.Proofs.Path.Normal

namespace Inlay

namespace Path

variable {dir p : Path} {name : Text}

theorem stretches_append_slash (front : Path) {s : Text} (hs : '/' ∉ s) :
    stretches (front ++ '/' :: s) = stretches front ++ [(s, !s.isEmpty && s ≠ ['.'])] := by
  obtain ⟨first, rest, hcut⟩ := List.exists_cons_of_ne_nil (Text.cutAt_ne_nil '/' front)
  have hlast : Text.cutAt '/' s = [s] := by
    rw [Text.cutAt_eq_splitOn]
    exact List.splitOn_eq_singleton hs
  rw [stretches, stretches, Text.cutAt_append_sep, hcut, hlast]
  simp

theorem components_append_slash (front : Path) {s : Text} (hs : '/' ∉ s) :
    components (front ++ '/' :: s) = (if isRooted (front ++ ['/']) then [.root] else []) ++
      ((stretches front).filter (·.2)).map (componentOf ·.1) ++
        if s = [] ∨ s = ['.'] then [] else [componentOf s] := by
  have hrooted : isRooted (front ++ '/' :: s) = isRooted (front ++ ['/']) := by
    cases front <;> rfl
  rw [components, stretches_append_slash front hs, hrooted, List.filter_append, List.map_append,
    List.append_assoc]
  by_cases hnil : s = [] ∨ s = ['.']
  · rcases hnil with rfl | rfl <;> rfl
  · have hmarked : (!s.isEmpty && s ≠ ['.']) = true := by simpa [not_or] using hnil
    rw [if_neg hnil, hmarked]
    rfl

theorem isRooted_of_isStep (hname : (Component.name name).IsStep) : isRooted name = false := by
  obtain ⟨hne, hslash, -⟩ := hname
  cases name with
  | nil => exact absurd rfl hne
  | cons c rest =>
    have hc : c ≠ '/' := by
      rintro rfl
      exact hslash List.mem_cons_self
    simp [isRooted, hc]

theorem components_concat_slash (front : Path) :
    components (front ++ ['/']) = (if isRooted (front ++ ['/']) then [.root] else []) ++
      ((stretches front).filter (·.2)).map (componentOf ·.1) := by
  rw [components_append_slash front (List.not_mem_nil), if_pos (Or.inl rfl), List.append_nil]

theorem components_join (dir : Path) (hname : (Component.name name).IsStep) :
    components (join dir name) = components dir ++ [.name name] := by
  have hrooted := isRooted_of_isStep hname
  have hcomponent : componentOf name = .name name := hname.componentOf_text
  obtain ⟨hne, hslash, hdot, -⟩ := hname
  have hmark : ¬(name = [] ∨ name = ['.']) := not_or.2 ⟨hne, hdot⟩
  rcases eq_or_ne dir [] with rfl | hdir
  · have hjoin : join [] name = name := by simp [join]
    have hstretches : stretches name = [(name, true)] := by
      rw [stretches, Text.cutAt_eq_splitOn, List.splitOn_eq_singleton hslash]
      simpa using hne
    rw [hjoin, components, hrooted, hstretches, components_nil]
    exact congrArg ([·]) hcomponent
  · have hempty : dir.isEmpty = false := by simpa using hdir
    rw [join, hrooted, hempty, Bool.or_self, if_neg Bool.false_ne_true]
    split
    · -- The slash at the end of the directory is the one before the name.
      rename_i hend
      obtain ⟨front, rfl⟩ := List.getLast?_eq_some_iff.1 hend
      rw [List.append_assoc, List.singleton_append, components_append_slash front hslash,
        components_concat_slash, if_neg hmark, hcomponent]
    · have hsame : isRooted (dir ++ ['/']) = isRooted dir := by
        cases dir with
        | nil => exact absurd rfl hdir
        | cons c rest => rfl
      rw [components_append_slash dir hslash, if_neg hmark, hsame, hcomponent]
      rfl

theorem exists_parent?_of_concat {cs : List Component} (hp : components p = cs ++ [.name name]) :
    ∃ parent, parent? p = some parent ∧ components parent = cs := by
  cases hparent : parent? p with
  | none =>
    have hroot := components_of_parent?_eq_none hparent
    rw [hp] at hroot
    split at hroot
    · have hroot' : cs ++ [.name name] = [] ++ [.root] := hroot
      cases (List.append_inj' hroot' rfl).2
    · simp at hroot
  | some parent =>
    obtain ⟨c, hc⟩ := components_of_parent?_eq_some hparent
    rw [hp] at hc
    exact ⟨parent, rfl, (List.append_inj' hc rfl).1.symm⟩

theorem isStep_of_fileName? (hp : fileName? p = some name) : (Component.name name).IsStep := by
  rw [fileName?] at hp
  split at hp
  · rename_i n hlast
    cases hp
    rcases mem_components (List.mem_of_getLast? hlast) with hroot | hhere | hstep
    · cases hroot
    · cases hhere
    · exact hstep
  · cases hp

/-- The path leads to an entry of the directory, and the entry has the name. -/
def IsEntry (p dir : Path) (name : Text) : Prop :=
  fileName? p = some name ∧ ∃ parent, parent? p = some parent ∧ same parent dir = true

/-- What is read from a directory is an entry of it exactly where it can be the name of one. -/
theorem isEntry_join_iff (dir : Path) (name : Text) :
    (join dir name).IsEntry dir name ↔ (Component.name name).IsStep := by
  refine ⟨fun hentry => isStep_of_fileName? hentry.1, fun hname => ?_⟩
  have hcomponents := components_join dir hname
  obtain ⟨parent, hparent, hsame⟩ := exists_parent?_of_concat hcomponents
  refine ⟨?_, parent, hparent, by rw [same, hsame, decide_eq_true rfl]⟩
  rw [fileName?, hcomponents, List.getLast?_concat]

end Path

namespace Output

/-- A name cut at its last dot, where something stands behind it. -/
structure Cut (name stem ext : Text) : Prop where
  eq : name = stem ++ '.' :: ext
  ext_ne : ext ≠ []
  dotless : '.' ∉ ext

/-- A name cut into a stem and an extension, neither of which is empty. -/
structure Extended (name stem ext : Text) : Prop extends Cut name stem ext where
  stem_ne : stem ≠ []

/-- A name whose only dot is the leading one. -/
structure Hidden (name rest : Text) : Prop where
  eq : name = '.' :: rest
  dotless : '.' ∉ rest

/-- A name without a dot, or with one at its end. -/
def Whole (name : Text) : Prop := '.' ∉ name ∨ name.getLast? = some '.'

variable {name stem ext rest : Text}

theorem Hidden.cut (h : Hidden name rest) (hname : name ≠ ['.']) : Cut name [] rest where
  eq := h.eq
  ext_ne := fun hrest => hname (by rw [h.eq, hrest])
  dotless := h.dotless

theorem Cut.withSuffix (h : Cut name stem ext) (suffix : Text) :
    withSuffix name suffix = stem ++ suffix := by
  obtain ⟨rfl, hne, hdotless⟩ := h
  have hreverse : (stem ++ '.' :: ext).reverse = ext.reverse ++ '.' :: stem.reverse := by simp
  have hbehind : ∀ c ∈ ext.reverse, (c ≠ '.' : Bool) = true := fun c hc =>
    decide_eq_true fun hdot => hdotless (hdot ▸ List.mem_reverse.1 hc)
  have htake : (ext.reverse ++ '.' :: stem.reverse).takeWhile (· ≠ '.') = ext.reverse := by
    rw [List.takeWhile_append_of_pos hbehind]
    simp
  have hdrop : (ext.reverse ++ '.' :: stem.reverse).dropWhile (· ≠ '.') = '.' :: stem.reverse := by
    rw [List.dropWhile_append_of_pos hbehind]
    simp
  obtain ⟨last, rest, hext⟩ := List.exists_cons_of_ne_nil (List.reverse_ne_nil_iff.2 hne)
  rw [Output.withSuffix, hreverse, htake, hdrop, hext]
  simp

theorem Cut.not_whole (h : Cut name stem ext) : ¬Whole name := by
  obtain ⟨rfl, hne, hdotless⟩ := h
  rintro (hnone | hend)
  · exact hnone (by simp)
  · rw [List.getLast?_append_cons, List.getLast?_cons_of_ne_nil hne] at hend
    exact hdotless (List.mem_of_getLast? hend)

theorem cut_or_whole (name : Text) : (∃ stem ext, Cut name stem ext) ∨ Whole name := by
  by_cases hdot : '.' ∈ name
  · -- The first dot of the reverse is the last one of the name.
    obtain ⟨behind, before, hreverse, hbehind⟩ :=
      List.eq_append_cons_of_mem (List.mem_reverse.2 hdot)
    have hname : name = before.reverse ++ '.' :: behind.reverse := by
      rw [← List.reverse_reverse name, hreverse]
      simp
    rcases eq_or_ne behind [] with rfl | hne
    · exact .inr (.inr (by simp [hname]))
    · exact .inl ⟨before.reverse, behind.reverse, hname, by simpa using hne, by simpa using hbehind⟩
  · exact .inr (.inl hdot)

theorem Whole.withSuffix (h : Whole name) (suffix : Text) : withSuffix name suffix = name := by
  rcases h with hdotless | hend
  · have hdrop : name.reverse.dropWhile (· ≠ '.') = [] :=
      List.dropWhile_eq_nil_iff.2 fun c hc =>
        decide_eq_true fun hdot => hdotless (hdot ▸ List.mem_reverse.1 hc)
    rw [Output.withSuffix, hdrop]
    cases name.reverse.takeWhile (· ≠ '.') <;> rfl
  · obtain ⟨front, rfl⟩ := List.getLast?_eq_some_iff.1 hend
    have hreverse : (front ++ ['.']).reverse = '.' :: front.reverse := by simp
    rw [Output.withSuffix, hreverse]
    rfl

theorem extended_or (name : Text) :
    (∃ stem ext, Extended name stem ext) ∨ Whole name ∨ ∃ rest, Hidden name rest := by
  rcases cut_or_whole name with ⟨stem, ext, hcut⟩ | hwhole
  · rcases eq_or_ne stem [] with rfl | hstem
    · exact .inr (.inr ⟨ext, hcut.eq, hcut.dotless⟩)
    · exact .inl ⟨stem, ext, hcut, hstem⟩
  · exact .inr (.inl hwhole)

theorem Hidden.not_extended (h : Hidden name rest) : ¬Extended name stem ext := by
  rintro ⟨⟨hname, -, -⟩, hstem⟩
  obtain ⟨c, stem, rfl⟩ := List.exists_cons_of_ne_nil hstem
  rw [h.eq, List.cons_append, List.cons.injEq] at hname
  exact h.dotless (by simp [hname.2])

namespace Target

open Inlay.Path

theorem isStep_documentName (source : Source) :
    (Component.name (documentName source none)).IsStep := by
  have hstdin : (Component.name "stdin".toList).IsStep := by simp [Component.IsStep]
  rw [documentName, Option.elim]
  cases hname : source.path?.bind fileName? with
  | none => exact hstdin
  | some name =>
    obtain ⟨p, -, hp⟩ := Option.bind_eq_some_iff.1 hname
    exact isStep_of_fileName? hp

theorem isStep_withSuffix_iff {suffix : Text} (hname : (Component.name name).IsStep)
    (hsuffix : '/' ∉ suffix) :
    (Component.name (withSuffix name suffix)).IsStep ↔
      ¬∃ stem ext, Cut name stem ext ∧ stem ++ suffix ∈ [[], ['.'], ['.', '.']] := by
  rcases cut_or_whole name with ⟨stem, ext, hcut⟩ | hwhole
  · have hslash : '/' ∉ stem ++ suffix := by
      have hstem : '/' ∉ stem := fun h => hname.2.1 (hcut.eq ▸ List.mem_append_left _ h)
      simp [hstem, hsuffix]
    have hmade := hcut.withSuffix suffix
    constructor
    · rintro hstep ⟨stem', ext', hcut', hdots⟩
      rw [← hcut'.withSuffix suffix, hmade] at hdots
      rw [hmade] at hstep
      simp only [List.mem_cons, List.not_mem_nil, or_false] at hdots
      exact hdots.elim hstep.1 (·.elim hstep.2.2.1 hstep.2.2.2)
    · intro hdots
      have hnot : stem ++ suffix ∉ [[], ['.'], ['.', '.']] := fun h => hdots ⟨stem, ext, hcut, h⟩
      simp only [List.mem_cons, List.not_mem_nil, or_false, not_or] at hnot
      rw [hmade]
      exact ⟨hnot.1, hslash, hnot.2.1, hnot.2.2⟩
  · rw [hwhole.withSuffix]
    refine iff_of_true hname ?_
    rintro ⟨stem, ext, hcut, -⟩
    exact hcut.not_whole hwhole

/--
The document from a source stands directly in the directory, under a proper name, exactly where a
suffix leaves more than dots of the name that the source gives.
-/
theorem destination_directory (dir : Path) (suffix : Option Text) (hsuffix : ∀ s ∈ suffix, '/' ∉ s)
    (source : Source) :
    ∃ name, (directory dir suffix).destination source = .file (join dir name) ∧
      ((join dir name).IsEntry dir name ↔ ¬∃ s stem ext, s ∈ suffix ∧
        Cut (documentName source none) stem ext ∧ stem ++ s ∈ [[], ['.'], ['.', '.']]) := by
  refine ⟨documentName source suffix, rfl, ?_⟩
  rw [isEntry_join_iff]
  have hname := isStep_documentName source
  cases suffix with
  | none =>
    refine iff_of_true hname ?_
    rintro ⟨s, -, -, hs, -⟩
    cases hs
  | some s =>
    refine (isStep_withSuffix_iff hname (hsuffix s rfl)).trans (not_congr ⟨?_, ?_⟩)
    · rintro ⟨stem, ext, hcut⟩
      exact ⟨s, stem, ext, rfl, hcut⟩
    · rintro ⟨s', stem, ext, hs, hcut⟩
      cases hs
      exact ⟨stem, ext, hcut⟩

/-- A name that starts with dots stays a name behind a suffix with a letter. -/
theorem destination_directory_dots :
    '/' ∉ ".md".toList ∧ ∃ name, (directory "out/".toList (some ".md".toList)).destination
        (.file "x/..a".toList) = .file (join "out/".toList name) ∧
      (join "out/".toList name).IsEntry "out/".toList name := by
  have hsuffix : '/' ∉ ".md".toList := by decide
  obtain ⟨name, hdestination, hentry⟩ := destination_directory "out/".toList (some ".md".toList)
    (fun s hs => Option.some.inj hs ▸ hsuffix) (.file "x/..a".toList)
  refine ⟨hsuffix, name, hdestination, hentry.2 ?_⟩
  rintro ⟨s, stem, ext, hs, -, hdots⟩
  cases hs
  have hlength : 3 ≤ (stem ++ ".md".toList).length := by simp
  generalize stem ++ ".md".toList = made at hdots hlength
  simp only [List.mem_cons, List.not_mem_nil, or_false] at hdots
  rcases hdots with rfl | rfl | rfl <;> simp at hlength

/-- A hidden file and an empty suffix leave no name: what is made of them is the directory. -/
theorem not_destination_directory :
    ¬∀ (dir : Path) (suffix : Option Text) (source : Source), (∀ s ∈ suffix, '/' ∉ s) →
      ∃ name, (directory dir suffix).destination source = .file (join dir name) ∧
        (join dir name).IsEntry dir name := by
  intro hall
  obtain ⟨name, hdestination, hentry⟩ :=
    hall "out".toList (some []) (.file ".env".toList) (by simp)
  have hjoin : "out/".toList = join "out".toList name := Destination.file.inj hdestination
  have hcomponents := components_join "out".toList ((isEntry_join_iff _ name).1 hentry)
  rw [← hjoin] at hcomponents
  exact absurd (congrArg List.length hcomponents) (by simp; decide)

/--
What a suffix does to the name of a file. It takes the place of an extension, and names without a
dot or with one at their end stay; but of a hidden file, which has no extension either, the suffix
alone is left.
-/
theorem destination_suffix (dir : Path) (suffix : Text) {p : Path} {name : Text}
    (hname : fileName? p = some name) :
    (∀ stem ext, Extended name stem ext →
      (directory dir (some suffix)).destination (.file p) = .file (join dir (stem ++ suffix))) ∧
    (Whole name →
      (directory dir (some suffix)).destination (.file p) = .file (join dir name)) ∧
    (∀ rest, Hidden name rest →
      (directory dir (some suffix)).destination (.file p) = .file (join dir suffix)) ∧
    ((∃ stem ext, Extended name stem ext) ∨ Whole name ∨ ∃ rest, Hidden name rest) := by
  have hdestination : (directory dir (some suffix)).destination (.file p) =
      .file (join dir (withSuffix name suffix)) := by
    rw [destination, documentName, Source.path?, Option.bind_some, hname]
    rfl
  rw [hdestination]
  refine ⟨fun stem ext h => ?_, fun h => ?_, fun rest h => ?_, extended_or name⟩
  · rw [h.withSuffix suffix]
  · rw [h.withSuffix suffix]
  · have hdot : name ≠ ['.'] := (isStep_of_fileName? hname).2.2.1
    rw [(h.cut hdot).withSuffix suffix, List.nil_append]

/-- Of several extensions the last one is replaced. -/
theorem destination_suffix_archive :
    fileName? "in/a.tar.gz".toList = some "a.tar.gz".toList ∧
      (directory "out".toList (some ".md".toList)).destination (.file "in/a.tar.gz".toList) =
        .file "out/a.tar.md".toList := by
  have hname : fileName? "in/a.tar.gz".toList = some "a.tar.gz".toList := by decide
  refine ⟨hname, ?_⟩
  obtain ⟨hextended, -⟩ := destination_suffix "out".toList ".md".toList hname
  rw [hextended "a.tar".toList "gz".toList ⟨⟨by decide, by decide, by decide⟩, by decide⟩]
  decide

/-- A name without an extension does not always stay: a hidden file loses its own to the suffix. -/
theorem not_destination_suffix :
    ¬∀ (dir : Path) (suffix : Text) (p : Path) (name : Text), fileName? p = some name →
      (∀ stem ext, ¬Extended name stem ext) →
      (directory dir (some suffix)).destination (.file p) = .file (join dir name) := by
  intro hall
  have hhidden : Hidden ".bashrc".toList "bashrc".toList := ⟨rfl, by decide⟩
  have h := hall "out".toList ".md".toList ".bashrc".toList ".bashrc".toList (by decide)
    fun stem ext => hhidden.not_extended
  exact absurd h (by decide)

end Target
end Output
end Inlay
