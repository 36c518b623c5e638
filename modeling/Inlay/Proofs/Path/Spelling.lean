import Inlay.Source
import Mathlib.Data.List.DropRight

/-!
Paths and their spellings. A path is spelled by its stretches, from the root or not, and its
components are read off them. The directory of a document has all but the last component of its
path, so that it does not matter to an include how the document's path is spelled.
-/
namespace Inlay

namespace Text

theorem cutAt_eq_splitOn (sep : Char) (t : Text) : cutAt sep t = t.splitOn sep := by
  induction t with
  | nil => rfl
  | cons c t ih =>
    have hne := List.splitOn_ne_nil sep t
    rw [List.splitOn_cons_eq_if_modifyHead, ← ih]
    rw [← ih] at hne
    rw [cutAt, List.foldr_cons, ← cutAt]
    cases hcut : cutAt sep t with
    | nil => exact absurd hcut hne
    | cons piece rest => simp

theorem joinWith_eq_intercalate (sep : Text) (ts : List Text) :
    joinWith sep ts = sep.intercalate ts := by
  fun_induction joinWith sep ts with
  | case1 => rfl
  | case2 t => simp
  | case3 t u rest ih => simp [ih]

theorem cutAt_joinWith {sep : Char} {ts : List Text} (h : ∀ t ∈ ts, sep ∉ t) (hne : ts ≠ []) :
    cutAt sep (joinWith [sep] ts) = ts := by
  rw [cutAt_eq_splitOn, joinWith_eq_intercalate]
  exact List.splitOn_intercalate sep h hne

theorem joinWith_cutAt (sep : Char) (t : Text) : joinWith [sep] (cutAt sep t) = t := by
  rw [cutAt_eq_splitOn, joinWith_eq_intercalate]
  exact List.intercalate_splitOn sep

theorem cutAt_ne_nil (sep : Char) (t : Text) : cutAt sep t ≠ [] := by
  rw [cutAt_eq_splitOn]
  exact List.splitOn_ne_nil sep t

theorem cutAt_sep (sep : Char) (t : Text) : cutAt sep (sep :: t) = [] :: cutAt sep t := by
  simp [cutAt]

theorem not_mem_of_mem_cutAt {sep : Char} {t piece : Text} (h : piece ∈ cutAt sep t) :
    sep ∉ piece := by
  induction t generalizing piece with
  | nil =>
    obtain rfl : piece = [] := by simpa [cutAt] using h
    simp
  | cons c t ih =>
    obtain ⟨first, rest, hcut⟩ := List.exists_cons_of_ne_nil (cutAt_ne_nil sep t)
    rw [hcut] at ih
    rw [cutAt, List.foldr_cons, ← cutAt, hcut] at h
    split at h
    · rcases List.mem_cons.1 h with rfl | h
      · simp
      · exact ih h
    · rename_i hc
      rcases List.mem_cons.1 h with rfl | h
      · have hfirst : sep ∉ first := ih (by simp)
        simpa [Ne.symm hc] using hfirst
      · exact ih (by simp [h])

end Text

namespace Path

/-- The path with these stretches below the root, or without a root. -/
def spelled (rooted : Bool) (ps : List Text) : Path :=
  (if rooted then ['/'] else []) ++ Text.joinWith ['/'] ps

/-- Stretches with whether each is a component, below the root or without one. -/
def counted (rooted : Bool) : List Text → List (Text × Bool)
  | [] => []
  | first :: rest =>
    (first, !first.isEmpty && (!rooted || first ≠ ['.'])) ::
      rest.map fun s => (s, !s.isEmpty && s ≠ ['.'])

/-- Stretches that can be told apart again when they are spelled as a path. -/
structure Legible (rooted : Bool) (ps : List Text) : Prop where
  whole : ∀ s ∈ ps, '/' ∉ s
  head : rooted = false → ps.head? ≠ some []

theorem counted_fst (rooted : Bool) (ps : List Text) : (counted rooted ps).map (·.1) = ps := by
  cases ps with
  | nil => rfl
  | cons first rest => simp [counted, Function.comp_def]

theorem counted_take (rooted : Bool) (ps : List Text) (n : Nat) :
    (counted rooted ps).take n = counted rooted (ps.take n) := by
  cases ps with
  | nil => simp [counted]
  | cons first rest => cases n <;> simp [counted]

theorem Legible.take {rooted : Bool} {ps : List Text} (h : Legible rooted ps) (n : Nat) :
    Legible rooted (ps.take n) where
  whole s hs := h.whole s (List.mem_of_mem_take hs)
  head hr hs := by
    have := h.head hr
    cases ps <;> cases n <;> simp_all

theorem isRooted_spelled {rooted : Bool} {ps : List Text} (h : Legible rooted ps) :
    isRooted (spelled rooted ps) = rooted := by
  cases rooted with
  | true => simp [isRooted, spelled]
  | false =>
    rw [isRooted, spelled]
    match ps, h with
    | [], _ => simp [Text.joinWith]
    | [] :: rest, h => exact absurd rfl (h.head rfl)
    | (c :: first) :: rest, h =>
      have hfirst : '/' ∉ c :: first := h.whole _ (by simp)
      have hc : c ≠ '/' := fun hc => hfirst (by simp [hc])
      cases rest <;> simp [Text.joinWith, hc]

theorem stretches_root (t : Text) :
    stretches ('/' :: t) = ([], false) :: counted true (Text.cutAt '/' t) := by
  obtain ⟨first, rest, hcut⟩ := List.exists_cons_of_ne_nil (Text.cutAt_ne_nil '/' t)
  rw [stretches, Text.cutAt_sep, hcut]
  simp [counted]

theorem stretches_eq_counted (p : Path) : stretches p = counted false (Text.cutAt '/' p) := by
  rw [stretches]
  cases Text.cutAt '/' p <;> simp [counted]

theorem components_spelled {rooted : Bool} {ps : List Text} (h : Legible rooted ps) :
    components (spelled rooted ps) =
      (if rooted then [.root] else []) ++
        ((counted rooted ps).filter (·.2)).map (componentOf ·.1) := by
  rw [components, isRooted_spelled h]
  congr 2
  rcases eq_or_ne ps [] with rfl | hne
  · cases rooted <;> decide
  · cases rooted with
    | true => simp [spelled, stretches_root, Text.cutAt_joinWith h.whole hne]
    | false => simp [spelled, stretches_eq_counted, Text.cutAt_joinWith h.whole hne]

theorem exists_legible {p : Path} (hp : p ≠ []) :
    ∃ ps, Legible (isRooted p) ps ∧ p = spelled (isRooted p) ps ∧
      backwards p = (counted (isRooted p) ps).reverse := by
  cases hr : isRooted p with
  | true =>
    obtain ⟨t, rfl⟩ : ∃ t, p = '/' :: t := by
      cases p with
      | nil => exact absurd rfl hp
      | cons c t => exact ⟨t, by simpa [isRooted] using hr⟩
    refine ⟨Text.cutAt '/' t, ⟨fun s => Text.not_mem_of_mem_cutAt, by simp⟩, ?_, ?_⟩
    · simp [spelled, Text.joinWith_cutAt]
    · simp [backwards, hr, stretches_root]
  | false =>
    refine ⟨Text.cutAt '/' p, ⟨fun s => Text.not_mem_of_mem_cutAt, fun _ hhead => ?_⟩, ?_, ?_⟩
    · -- An empty first stretch is what a root looks like.
      have hjoin := Text.joinWith_cutAt '/' p
      match hcut : Text.cutAt '/' p with
      | [] => simp [hcut] at hhead
      | [first] =>
        rw [hcut] at hhead hjoin
        obtain rfl : first = [] := by simpa using hhead
        exact hp hjoin.symm
      | first :: second :: rest =>
        rw [hcut] at hhead hjoin
        obtain rfl : first = [] := by simpa using hhead
        rw [← hjoin] at hr
        simp [isRooted, Text.joinWith] at hr
    · simp [spelled, Text.joinWith_cutAt]
    · simp [backwards, hr, stretches_eq_counted]

theorem components_eq {p : Path} {ps : List Text} (h : Legible (isRooted p) ps)
    (hp : p = spelled (isRooted p) ps) :
    components p = (if isRooted p then [.root] else []) ++
      ((counted (isRooted p) ps).filter (·.2)).map (componentOf ·.1) := by
  conv_lhs => rw [hp]
  exact components_spelled h

@[simp] theorem components_nil : components [] = [] := by decide

theorem components_eq_nil_iff {p : Path} : components p = [] ↔ p = [] := by
  refine ⟨fun h => ?_, fun h => by rw [h, components_nil]⟩
  by_contra hp
  obtain ⟨ps, hps, heq, -⟩ := exists_legible hp
  rw [components_eq hps heq] at h
  cases hr : isRooted p with
  | true => simp [hr] at h
  | false =>
    rw [hr] at hps heq h
    match ps, hps with
    | [], _ => exact hp (by simpa [spelled, Text.joinWith] using heq)
    | [] :: rest, hps => exact hps.head rfl rfl
    | (c :: first) :: rest, _ => simp [counted] at h

theorem filter_dropWhile_not {α : Type} (b : α → Bool) (l : List α) :
    (l.dropWhile (!b ·)).filter b = l.filter b := by
  induction l with
  | nil => rfl
  | cons a l ih => cases h : b a <;> simp [h, ih]

theorem exists_take_of_dropWhile {α : Type} {b : α → Bool} {l above : List α} {last : α}
    (h : l.reverse.dropWhile (!b ·) = last :: above) :
    ∃ n, (above.dropWhile (!b ·)).reverse = l.take n ∧
      l.filter b = (l.take n).filter b ++ [last] := by
  have hlast : b last = true := by
    have := List.head?_dropWhile_not (!b ·) l.reverse
    simpa [h] using this
  have hkept : (above.dropWhile (!b ·)).reverse <+: l := by
    rw [← List.reverse_suffix, List.reverse_reverse]
    refine (List.dropWhile_suffix _).trans ((List.suffix_cons last above).trans ?_)
    rw [← h]
    exact List.dropWhile_suffix _
  have hfilter : l.reverse.filter b = last :: above.filter b := by
    rw [← filter_dropWhile_not, h, List.filter_cons_of_pos hlast]
  refine ⟨_, List.prefix_iff_eq_take.1 hkept, ?_⟩
  rw [← List.prefix_iff_eq_take.1 hkept, List.filter_reverse, filter_dropWhile_not,
    ← List.reverse_cons, ← hfilter, List.filter_reverse, List.reverse_reverse]

theorem components_of_parent?_eq_none {p : Path} (h : parent? p = none) :
    components p = if isRooted p then [.root] else [] := by
  rcases eq_or_ne p [] with rfl | hp
  · decide
  · obtain ⟨ps, hps, heq, hback⟩ := exists_legible hp
    rw [parent?, hback] at h
    have hnone : (counted (isRooted p) ps).reverse.dropWhile (!·.2) = [] := by
      cases hd : (counted (isRooted p) ps).reverse.dropWhile (!·.2) with
      | nil => rfl
      | cons last above => simp [hd] at h
    have hfilter := filter_dropWhile_not (·.2) (counted (isRooted p) ps).reverse
    rw [hnone, List.filter_reverse, List.filter_nil, eq_comm, List.reverse_eq_nil_iff] at hfilter
    rw [components_eq hps heq, hfilter, List.map_nil, List.append_nil]

theorem components_of_parent?_eq_some {p q : Path} (h : parent? p = some q) :
    ∃ c, components p = components q ++ [c] := by
  rcases eq_or_ne p [] with rfl | hp
  · have hnone : parent? [] = none := by decide
    rw [hnone] at h
    cases h
  · obtain ⟨ps, hps, heq, hback⟩ := exists_legible hp
    rw [parent?, hback] at h
    cases hd : (counted (isRooted p) ps).reverse.dropWhile (!·.2) with
    | nil => simp [hd] at h
    | cons last above =>
      obtain ⟨n, hkept, hfilter⟩ := exists_take_of_dropWhile hd
      rw [counted_take] at hkept hfilter
      have hq : q = spelled (isRooted p) (ps.take n) := by
        rw [hd] at h
        rw [← Option.some_inj.1 h, hkept, counted_fst, spelled]
      refine ⟨componentOf last.1, ?_⟩
      rw [components_eq hps heq, hq, components_spelled (hps.take n), hfilter, List.map_append,
        List.append_assoc]
      rfl

theorem components_directory (p : Path) :
    components (Source.file p).directory =
      if (components p).dropLast = [] then [.here] else (components p).dropLast := by
  rw [Source.directory]
  cases hp : parent? p with
  | none =>
    have hlast : (components p).dropLast = [] := by
      rw [components_of_parent?_eq_none hp]
      cases isRooted p <;> rfl
    rw [if_pos hlast]
    decide
  | some q =>
    obtain ⟨c, hc⟩ := components_of_parent?_eq_some hp
    rw [hc, List.dropLast_concat]
    cases q with
    | nil =>
      rw [components_nil, if_pos rfl]
      decide
    | cons a q => rw [if_neg (by simp [components_eq_nil_iff])]

theorem resolve_congr {p q : Path} (h : same p q = true) (relative : Text) :
    (Source.file p).resolve relative = (Source.file q).resolve relative := by
  have hpq : components p = components q := by simpa [same] using h
  have hdir : components (Source.file p).directory = components (Source.file q).directory := by
    rw [components_directory, components_directory, hpq]
  rw [Source.resolve, Source.resolve, below, below, hdir]

end Path
end Inlay
