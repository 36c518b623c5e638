import Inlay.Proofs.Path.Spelling

/-!
Normal forms of paths. Settling leaves steps below a root or without one, and such steps are read
back from their plainest spelling, so that the file which an include names has one spelling only.
-/
namespace Inlay.Path

namespace Component

/-- What a normal form has below the root. -/
def IsStep : Component → Prop
  | .name n => n ≠ [] ∧ '/' ∉ n ∧ n ≠ ['.'] ∧ n ≠ ['.', '.']
  | .up => True
  | .root | .here => False

theorem IsStep.componentOf_text {c : Component} (h : c.IsStep) : componentOf c.text = c := by
  match c, h with
  | .up, _ => decide
  | .name n, h => rw [text, componentOf, if_neg h.2.2.1, if_neg h.2.2.2]

theorem IsStep.text_ne {c : Component} (h : c.IsStep) :
    c.text ≠ [] ∧ '/' ∉ c.text ∧ c.text ≠ ['.'] := by
  match c, h with
  | .up, _ => decide
  | .name n, h => exact ⟨h.1, h.2.1, h.2.2.1⟩

end Component

theorem mem_components {p : Path} {c : Component} (h : c ∈ components p) :
    c = .root ∨ c = .here ∨ c.IsStep := by
  rcases eq_or_ne p [] with rfl | hp
  · simp at h
  · obtain ⟨ps, hps, heq, -⟩ := exists_legible hp
    rw [components_eq hps heq] at h
    rcases List.mem_append.1 h with h | h
    · left
      cases hr : isRooted p <;> simp [hr] at h
      exact h
    · right
      obtain ⟨⟨s, b⟩, hs, rfl⟩ := List.mem_map.1 h
      obtain ⟨hmem, rfl⟩ : (s, b) ∈ counted (isRooted p) ps ∧ b = true := List.mem_filter.1 hs
      have hfst : s ∈ ps := by
        rw [← counted_fst (isRooted p) ps]
        exact List.mem_map.2 ⟨_, hmem, rfl⟩
      -- An empty stretch counts for no component, not even as the first one of a path.
      have hne : s ≠ [] := by
        rintro rfl
        cases ps with
        | nil => simp at hfst
        | cons first rest =>
          simp only [counted, List.mem_cons, List.mem_map, Prod.mk.injEq] at hmem
          rcases hmem with ⟨rfl, hb⟩ | ⟨s, -, rfl, hb⟩ <;> simp at hb
      rw [componentOf]
      split
      · exact .inl rfl
      · right
        split
        · trivial
        · exact ⟨hne, hps.whole s hfst, ‹_›, ‹_›⟩

/-- A path that is settled so far: steps, the last one first, from the root or not. -/
inductive Settled : List Component → Prop
  | nil : Settled []
  | root : Settled [.root]
  | step {c : Component} {stack : List Component} : c.IsStep → Settled stack → Settled (c :: stack)

theorem Settled.settle {stack : List Component} (h : Settled stack) {c : Component}
    (hc : c = .root ∨ c = .here ∨ c.IsStep) : Settled (settle stack c) := by
  cases c with
  | name n => exact .step (by simpa using hc) h
  | here => exact h
  | root =>
    rw [Path.settle]
    split
    · exact .root
    · exact h
  | up =>
    cases h with
    | nil => exact .step trivial .nil
    | root => exact .root
    | @step c stack hstep h =>
      cases c with
      | name n => exact h
      | up => exact .step trivial (.step trivial h)
      | root | here => cases hstep

theorem Settled.foldl {cs : List Component} (hcs : ∀ c ∈ cs, c = .root ∨ c = .here ∨ c.IsStep)
    {stack : List Component} (h : Settled stack) : Settled (cs.foldl Path.settle stack) := by
  induction cs generalizing stack with
  | nil => exact h
  | cons c cs ih =>
    exact ih (fun d hd => hcs d (List.mem_cons_of_mem c hd)) (h.settle (hcs c List.mem_cons_self))

theorem Settled.exists_steps {stack : List Component} (h : Settled stack) :
    ∃ (rooted : Bool) (steps : List Component),
      stack.reverse = (if rooted then [.root] else []) ++ steps ∧ ∀ c ∈ steps, c.IsStep := by
  induction h with
  | nil => exact ⟨false, [], rfl, by simp⟩
  | root => exact ⟨true, [], rfl, by simp⟩
  | @step c stack hc _ ih =>
    obtain ⟨rooted, steps, heq, hsteps⟩ := ih
    refine ⟨rooted, steps ++ [c], by rw [List.reverse_cons, heq, List.append_assoc], ?_⟩
    intro d hd
    rcases List.mem_append.1 hd with hd | hd
    · exact hsteps d hd
    · rwa [List.mem_singleton.1 hd]

theorem ofComponents_eq_spelled {rooted : Bool} {steps : List Component}
    (hne : (if rooted then [.root] else []) ++ steps ≠ []) (hsteps : ∀ c ∈ steps, c.IsStep) :
    ofComponents ((if rooted then [.root] else []) ++ steps) =
      spelled rooted (steps.map Component.text) := by
  match rooted, steps, hne with
  | true, [], _ => rfl
  | true, c :: steps, _ => rfl
  | false, c :: steps, _ =>
    have hc : c ≠ .root := by
      rintro rfl
      exact hsteps .root List.mem_cons_self
    cases c <;> first | exact absurd rfl hc | rfl

theorem counted_text {rooted : Bool} {steps : List Component} (hsteps : ∀ c ∈ steps, c.IsStep) :
    counted rooted (steps.map Component.text) = steps.map fun c => (c.text, true) := by
  cases steps with
  | nil => rfl
  | cons c steps =>
    have hc := (hsteps c List.mem_cons_self).text_ne
    simp only [List.map_cons, counted, List.map_map]
    congr 1
    · simp [hc.1, hc.2.2]
    · refine List.map_congr_left fun d hd => ?_
      have hd := (hsteps d (List.mem_cons_of_mem c hd)).text_ne
      simp [hd.1, hd.2.2]

theorem legible_text {steps : List Component} (hsteps : ∀ c ∈ steps, c.IsStep) (rooted : Bool) :
    Legible rooted (steps.map Component.text) := by
  constructor
  · intro s hs
    obtain ⟨c, hc, rfl⟩ := List.mem_map.1 hs
    exact (hsteps c hc).text_ne.2.1
  · intro _ hhead
    cases steps with
    | nil => simp at hhead
    | cons c steps =>
      exact (hsteps c List.mem_cons_self).text_ne.1 (by simpa using hhead)

theorem components_spelled_text {steps : List Component} (hsteps : ∀ c ∈ steps, c.IsStep)
    (rooted : Bool) : components (spelled rooted (steps.map Component.text)) =
      (if rooted then [.root] else []) ++ steps := by
  rw [components_spelled (legible_text hsteps rooted), counted_text hsteps]
  congr 1
  have htrue : (steps.map fun c => (c.text, true)).filter (·.2) =
      steps.map fun c => (c.text, true) := by
    refine List.filter_eq_self.2 fun s hs => ?_
    obtain ⟨c, -, rfl⟩ := List.mem_map.1 hs
    rfl
  rw [htrue, List.map_map]
  calc steps.map (fun c => componentOf c.text)
      = steps.map id := List.map_congr_left fun c hc => (hsteps c hc).componentOf_text
    _ = steps := List.map_id steps

theorem components_ofComponents {stack : List Component} (h : Settled stack) (hne : stack ≠ []) :
    components (ofComponents stack.reverse) = stack.reverse := by
  obtain ⟨rooted, steps, heq, hsteps⟩ := h.exists_steps
  have hne' : (if rooted then [Component.root] else []) ++ steps ≠ [] := by
    rw [← heq]
    simpa using hne
  rw [heq, ofComponents_eq_spelled hne' hsteps, components_spelled_text hsteps]

theorem settled_below (dir p : Path) :
    Settled ((components dir ++ (components p).filter (· ≠ .root)).foldl settle []) := by
  refine Settled.foldl (fun c hc => ?_) .nil
  rcases List.mem_append.1 hc with hc | hc
  · exact mem_components hc
  · exact mem_components (List.mem_filter.1 hc).1

theorem Settled.here_not_mem {stack : List Component} (h : Settled stack) : .here ∉ stack := by
  induction h with
  | nil => simp
  | root => simp
  | step hc _ ih =>
    rw [List.mem_cons, not_or]
    exact ⟨fun h => by rw [← h] at hc; exact hc, ih⟩

theorem ofComponents_inj {stack stack' : List Component} (h : Settled stack) (h' : Settled stack')
    (heq : components (ofComponents stack.reverse) = components (ofComponents stack'.reverse)) :
    stack = stack' := by
  -- No components at all are spelled as a dot, which is nothing that settles.
  have hhere : components (ofComponents []) = [.here] := by decide
  rcases eq_or_ne stack [] with rfl | hne <;> rcases eq_or_ne stack' [] with rfl | hne'
  · rfl
  · rw [components_ofComponents h' hne', List.reverse_nil, hhere] at heq
    exact absurd (List.mem_reverse.1 (heq ▸ List.mem_singleton_self _)) h'.here_not_mem
  · rw [components_ofComponents h hne, List.reverse_nil, hhere] at heq
    exact absurd (List.mem_reverse.1 (heq ▸ List.mem_singleton_self _)) h.here_not_mem
  · rw [components_ofComponents h hne, components_ofComponents h' hne'] at heq
    exact List.reverse_injective heq

theorem resolve_eq_of_same {s s' : Source} {relative relative' : Text}
    (h : same (s.resolve relative) (s'.resolve relative') = true) :
    s.resolve relative = s'.resolve relative' := by
  rw [same, decide_eq_true_iff] at h
  have hstack := ofComponents_inj (settled_below s.directory relative)
    (settled_below s'.directory relative') h
  rw [Source.resolve, Source.resolve, below, below, normalize, normalize, hstack]

end Inlay.Path
