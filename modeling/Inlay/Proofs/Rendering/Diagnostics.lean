import Inlay.Proofs.Plan.Silence
import Inlay.Proofs.Rendering.Passes

namespace Inlay

def Options.silent (opts : Options) : Options := { opts with debug := false }

namespace Plan

variable {opts : Options} {place : Place} {source : Source}

theorem hush_noteIf (n : Notice) (rest : Plan) :
    (noteIf opts place n rest).hush = noteIf opts.silent place n rest.hush := by
  rw [noteIf_eq, hush_notes]
  rfl

theorem hush_passWith {kind : Marker.Kind} {text : Text} {resolve quiet : Nat → Text → Plan}
    (hresolve : ∀ i payload, (resolve i payload).hush = quiet i payload) :
    (passWith (.strays opts) place source kind text resolve).hush =
      passWith (.strays opts.silent) place source kind text quiet := by
  have hbranches : (branches kind text resolve).map hush = branches kind text quiet := by
    simp [branches, List.mapIdx_eq_zipIdx_map, hresolve]
  rw [passWith, passWith, hush_notes, hush_join, hbranches]
  rfl

theorem hush_readFile {path : Path} {nested quiet : Text → Plan}
    (hnested : ∀ text, (nested text).hush = quiet text) :
    (readFile opts place source path nested).hush =
      readFile opts.silent place source path quiet := by
  rw [readFile, hush_noteIf, readFile, hush]
  congr 2
  funext answer
  cases answer with
  | ok text => exact hnested text
  | error cause => rfl

/-- Without its notices, a rendering has the parts of one that says nothing. -/
theorem hush_congruence (opts : Options) :
    Parts.Congruence (parts (.strays opts) opts) (parts (.strays opts.silent) opts.silent)
      (fun _ => False) (fun _ => False) fun place place' p quiet =>
        place = place' → p.hush = quiet where
  done _ _ := rfl
  stops h _ := by
    cases h with
    | deep | cycle => rfl
    | left h | right h => exact h.elim
  bind hp hf hplace := by
    refine (hush_bind _ _).trans ?_
    rw [hp hplace, funext fun text => hf text hplace]
    rfl
  pass hf := by
    rintro rfl
    exact hush_passWith fun i payload => hf i payload rfl
  name source name := by
    rintro rfl
    exact hush_noteIf _ _
  command source command := by
    rintro rfl
    refine (hush_noteIf _ _).trans ?_
    rw [hush]
    refine congrArg (noteIf _ _ _) (congrArg (ask _ _) (funext fun answer => ?_))
    cases answer <;> rfl
  identify hnext := by
    rintro rfl
    exact congrArg (ask _ _) (funext fun identity => hnext identity rfl)
  read hnext := by
    rintro rfl
    exact hush_readFile fun text => hnext text rfl
  inner h := by
    rintro rfl
    exact h rfl

theorem hush_render (opts : Options) (depth : Nat) (place : Place) (source : Source)
    (text : Text) :
    (render opts depth place source text).hush = render opts.silent depth place source text := by
  rw [render_eq_parts, render_eq_parts]
  exact (hush_congruence opts).related.render (.refl _ _ depth) rfl

end Plan

theorem Options.silent_eq {opts opts' : Options} (h : opts.detectCycles = opts'.detectCycles) :
    opts.silent = opts'.silent := by
  rw [silent, silent, h]

theorem Plan.hush_render_eq {opts opts' : Options} (h : opts.detectCycles = opts'.detectCycles)
    (depth : Nat) (place : Place) (source : Source) (text : Text) :
    (render opts depth place source text).hush = (render opts' depth place source text).hush := by
  rw [hush_render, hush_render, Options.silent_eq h]

end Inlay
