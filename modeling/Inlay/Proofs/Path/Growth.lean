import Inlay.Proofs.Path.Standing

/-!
Paths that grow as text. From nothing on, each component is set behind the text with a slash, or
takes the last name away from it, and what the text ends in is read off it every time. The text that
grows along components is the plainest spelling of the standing that they lead to.
-/
namespace Inlay

theorem Text.joinWith_concat (sep : Text) {ts : List Text} (hne : ts ≠ []) (t : Text) :
    joinWith sep (ts ++ [t]) = joinWith sep ts ++ sep ++ t := by
  fun_induction joinWith sep ts with
  | case1 => exact absurd rfl hne
  | case2 u => rfl
  | case3 u v rest ih =>
    have hrest := ih (List.cons_ne_nil v rest)
    rw [List.cons_append, List.cons_append, joinWith, ← List.cons_append, hrest]
    simp only [List.append_assoc]

namespace Path

/-- The text of a path with one component more. A step up takes a name at the end away. -/
def extend (p : Path) : Component → Path
  | .root => join p ['/']
  | .here => p
  | .name n => join p n
  | .up =>
    match (components p).getLast? with
    | some (.name _) => (parent? p).getD p
    | some .root => p
    | _ => join p ['.', '.']

/-- The text that grows from nothing along a directory and then along a path set below it. -/
def grown (dir p : Path) : Path :=
  let text := (components dir ++ (components p).filter (· ≠ .root)).foldl extend []
  if text = [] then ['.'] else text

theorem extend_up_of_name {p : Path} {n : Text} (h : (components p).getLast? = some (.name n)) :
    extend p .up = (parent? p).getD p := by
  rw [extend, h]

theorem extend_up_of_root {p : Path} (h : (components p).getLast? = some .root) :
    extend p .up = p := by
  rw [extend, h]

theorem extend_up_of_ups {p : Path} (h : ∀ c ∈ components p, c = .up) :
    extend p .up = join p ['.', '.'] := by
  rw [extend]
  split
  · rename_i hlast
    cases h _ (List.mem_of_getLast? hlast)
  · rename_i hlast
    cases h _ (List.mem_of_getLast? hlast)
  · rfl

section

variable {rooted : Bool} {steps : List Component} {c : Component}

theorem exists_spelled_concat (rooted : Bool) (ps : List Text) (s : Text) :
    ∃ front, spelled rooted (ps ++ [s]) = front ++ s := by
  unfold spelled
  rcases eq_or_ne ps [] with rfl | hne
  · exact ⟨_, rfl⟩
  · rw [Text.joinWith_concat _ hne]
    exact ⟨_, (List.append_assoc _ _ s).symm⟩

theorem join_spelled (hsteps : ∀ d ∈ steps, d.IsStep) (hc : c.IsStep) :
    join (spelled rooted (steps.map Component.text)) c.text =
      spelled rooted ((steps ++ [c]).map Component.text) := by
  obtain ⟨hne, hslash, -⟩ := hc.text_ne
  have hrelative : isRooted c.text = false := by
    cases htext : c.text with
    | nil => exact absurd htext hne
    | cons a t =>
      have ha : a ≠ '/' := by
        rintro rfl
        exact hslash (htext ▸ List.mem_cons_self)
      simp [isRooted, ha]
  rw [List.map_append, List.map_singleton]
  rcases List.eq_nil_or_concat steps with rfl | ⟨front, d, rfl⟩
  · cases rooted <;> simp [join, hrelative, spelled, Text.joinWith]
  · rw [List.concat_eq_append] at hsteps ⊢
    -- The path ends in a step and so in no slash, and the join puts one there.
    obtain ⟨hd, hdslash, -⟩ := (hsteps d (by simp)).text_ne
    have hps : (front ++ [d]).map Component.text ≠ [] := by simp
    obtain ⟨start, hstart⟩ := exists_spelled_concat rooted (front.map Component.text) d.text
    rw [← List.map_singleton, ← List.map_append] at hstart
    have hempty : (spelled rooted ((front ++ [d]).map Component.text)).isEmpty = false := by
      rw [hstart]
      simp [hd]
    have hlast : (spelled rooted ((front ++ [d]).map Component.text)).getLast? ≠ some '/' := by
      rw [hstart, List.getLast?_append_of_ne_nil _ hd]
      exact fun h => hdslash (List.mem_of_getLast? h)
    rw [join, hrelative, hempty, Bool.or_self, if_neg Bool.false_ne_true, if_neg hlast, spelled,
      spelled, Text.joinWith_concat _ hps]
    simp

theorem backwards_spelled {ps : List Text} (h : Legible rooted ps) (hne : ps ≠ []) :
    backwards (spelled rooted ps) = (counted rooted ps).reverse := by
  rw [backwards, isRooted_spelled h]
  cases rooted with
  | true => simp [spelled, stretches_root, Text.cutAt_joinWith h.whole hne]
  | false => simp [spelled, stretches_eq_counted, Text.cutAt_joinWith h.whole hne]

theorem parent?_spelled (hsteps : ∀ d ∈ steps ++ [c], d.IsStep) :
    parent? (spelled rooted ((steps ++ [c]).map Component.text)) =
      some (spelled rooted (steps.map Component.text)) := by
  have hlegible := legible_text hsteps rooted
  have hmarked : ((steps.map fun d => (d.text, true)).reverse.dropWhile fun s => !s.2) =
      (steps.map fun d => (d.text, true)).reverse := by
    refine List.dropWhile_eq_self_iff.2 fun hpos => ?_
    have hmem := List.getElem_mem hpos
    obtain ⟨d, -, hd⟩ := List.mem_map.1 (List.mem_reverse.1 hmem)
    rw [← hd]
    simp
  rw [parent?, backwards_spelled hlegible (by simp), counted_text hsteps, isRooted_spelled hlegible,
    List.map_append, List.reverse_append]
  change some (_ ++ Text.joinWith ['/'] (List.map (·.1)
    ((steps.map fun d => (d.text, true)).reverse.dropWhile fun s => !s.2).reverse)) = _
  rw [hmarked, List.reverse_reverse, List.map_map]
  rfl

end

namespace Standing

variable {x : Standing} {c : Component}

def steps (x : Standing) : List Component :=
  (match x.base with
    | .root => []
    | .up count => List.replicate count .up) ++ x.names.reverse.map .name

/-- The plainest spelling. It is empty where no component is left. -/
def text (x : Standing) : Path := spelled (x.base = .root) (x.steps.map Component.text)

theorem components_eq (x : Standing) :
    x.components = (if decide (x.base = .root) then [.root] else []) ++ x.steps := by
  rcases x with ⟨_ | _, names⟩ <;> rfl

theorem steps_cons (base : Base) (n : Text) (names : List Text) :
    steps ⟨base, n :: names⟩ = steps ⟨base, names⟩ ++ [.name n] := by
  simp [steps]

theorem Sound.isStep (h : x.Sound) : ∀ c ∈ x.steps, c.IsStep := by
  intro c hc
  rcases List.mem_append.1 hc with hc | hc
  · cases hbase : x.base with
    | root =>
      rw [hbase] at hc
      cases hc
    | up count =>
      rw [hbase] at hc
      obtain rfl := List.eq_of_mem_replicate hc
      trivial
  · obtain ⟨n, hn, rfl⟩ := List.mem_map.1 hc
    exact h n (List.mem_reverse.1 hn)

theorem Sound.components_text (h : x.Sound) : Path.components x.text = x.components := by
  rw [text, components_spelled_text h.isStep, components_eq]

theorem Sound.text_eq_nil_iff (h : x.Sound) : x.text = [] ↔ x = origin false := by
  rw [← Path.components_eq_nil_iff, h.components_text, components_eq_nil_iff]

theorem Sound.path_eq (h : x.Sound) : x.path = if x.text = [] then ['.'] else x.text := by
  split
  · rename_i hnil
    rw [h.text_eq_nil_iff.1 hnil]
    rfl
  · rename_i hne
    rw [h.text_eq_nil_iff, ← components_eq_nil_iff, components_eq] at hne
    rw [path, components_eq, ofComponents_eq_spelled hne h.isStep, text]

theorem steps_ups (count : Nat) : steps ⟨.up count, []⟩ = List.replicate count .up :=
  List.append_nil _

theorem Sound.extend_up (h : x.Sound) : extend x.text .up = (x.move .up).text := by
  rcases x with ⟨base, _ | ⟨n, names⟩⟩
  · cases base with
    | root => exact extend_up_of_root (by rw [h.components_text]; rfl)
    | up count =>
      -- Above the directory it starts from, going up adds a step instead of taking one back.
      have hups : ∀ c ∈ Path.components (text ⟨.up count, []⟩), c = .up := by
        rw [h.components_text]
        intro c hc
        simp only [components, Base.components, List.reverse_nil, List.map_nil,
          List.append_nil] at hc
        exact List.eq_of_mem_replicate hc
      have hmore : steps ⟨.up (count + 1), []⟩ = steps ⟨.up count, []⟩ ++ [.up] := by
        rw [steps_ups, steps_ups, List.replicate_succ']
      calc extend (text ⟨.up count, []⟩) .up
          = join (text ⟨.up count, []⟩) ['.', '.'] := extend_up_of_ups hups
        _ = spelled false ((steps ⟨.up count, []⟩ ++ [Component.up]).map Component.text) :=
            join_spelled (c := Component.up) h.isStep trivial
        _ = text ⟨.up (count + 1), []⟩ := by rw [← hmore]; rfl
  · have hlast : (Path.components (text ⟨base, n :: names⟩)).getLast? = some (.name n) := by
      rw [h.components_text]
      simp [components]
    have hsteps := h.isStep
    rw [steps_cons] at hsteps
    rw [extend_up_of_name hlast, move_up_cons, text, steps_cons, parent?_spelled hsteps]
    rfl

theorem Sound.extend_text (h : x.Sound) (hc : c = .here ∨ c.IsStep) :
    extend x.text c = (x.move c).text := by
  cases c with
  | root => rcases hc with hc | hc <;> cases hc
  | here => rw [move_here]; rfl
  | up => exact h.extend_up
  | name n =>
    have hn : (Component.name n).IsStep := by simpa using hc
    rw [move_name]
    exact (join_spelled h.isStep hn).trans (by rw [text, steps_cons])

theorem Sound.foldl_extend {cs : List Component} (h : x.Sound)
    (hcs : ∀ c ∈ cs, c = .here ∨ c.IsStep) : cs.foldl extend x.text = (x.walk cs).text := by
  induction cs generalizing x with
  | nil => rfl
  | cons c cs ih =>
    have hc := hcs c List.mem_cons_self
    rw [List.foldl_cons, h.extend_text hc, walk_cons]
    exact ih (h.move (.inr hc)) fun d hd => hcs d (List.mem_cons_of_mem c hd)

end Standing

theorem here_or_isStep_of_mem {p : Path} {c : Component} (h : c ∈ components p) (hc : c ≠ .root) :
    c = .here ∨ c.IsStep :=
  (mem_components h).resolve_left hc

theorem below_eq_grown (dir p : Path) : below dir p = grown dir p := by
  obtain ⟨cs, hdir, hroot⟩ := exists_components_eq dir
  have hstart : (if isRooted dir then [Component.root] else []).foldl extend [] =
      (Standing.origin (isRooted dir)).text := by
    cases isRooted dir <;> rfl
  have hdirs : (components dir).foldl extend [] = (Standing.ofPath dir).text := by
    have hcs : ∀ c ∈ cs, c = .here ∨ c.IsStep := fun c hc =>
      here_or_isStep_of_mem (hdir ▸ List.mem_append_right _ hc) fun heq => hroot (heq ▸ hc)
    rw [Standing.ofPath, hdir, List.foldl_append, hstart,
      (Standing.sound_origin _).foldl_extend hcs,
      Standing.walk_append]
    cases isRooted dir <;> rfl
  have hcs : ∀ c ∈ (components p).filter (· ≠ .root), c = .here ∨ c.IsStep := by
    intro c hc
    obtain ⟨hmem, hne⟩ := List.mem_filter.1 hc
    exact here_or_isStep_of_mem hmem (by simpa using hne)
  have hgrown : (components dir ++ (components p).filter (· ≠ .root)).foldl extend [] =
      ((Standing.ofPath dir).walk (components p)).text := by
    rw [List.foldl_append, hdirs, (Standing.sound_ofPath dir).foldl_extend hcs,
      Standing.walk_filter_ne_root]
  rw [Standing.below_eq, (Standing.sound_walk dir p).path_eq, grown, hgrown]

end Path
end Inlay
