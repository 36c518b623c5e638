import Inlay.Proofs.Plan.Wording
import Inlay.Proofs.Rendering.Telling

/-!
A rendering that says as each pass begins what text the pass is over. Otherwise it says and does
what the rendering itself does, so that its journal is an outline of the other's: where the outline
has the text of a pass, the rendering names the openers that the pass leaves as text.
-/
namespace Inlay

namespace Plan

/-- What a relation must hold of, so that two tellings make no other difference to a rendering. -/
structure Retells (C : List Event → List Event → Prop) (tell tell' : Telling) : Prop where
  wording : Wording C
  pass : ∀ place source kind text,
    C ((tell source kind text).map (.noted place)) ((tell' source kind text).map (.noted place))
  identify : ∀ place path, C [.began place (.identify path)] [.began place (.identify path)]
  name : ∀ place source name,
    C [.noted place (.resolvingName source name), .began place (.lookup name)]
      [.noted place (.resolvingName source name), .began place (.lookup name)]
  file : ∀ place source path,
    C [.noted place (.resolvingFile source path), .began place (.read path)]
      [.noted place (.resolvingFile source path), .began place (.read path)]
  command : ∀ place source command,
    C [.noted place (.resolvingCommand source command),
        .began place (.execute command source.directory)]
      [.noted place (.resolvingCommand source command),
        .began place (.execute command source.directory)]

namespace Words

variable {C : List Event → List Event → Prop} {tell tell' : Telling} {opts : Options}
  {place : Place} {source : Source}

theorem noteIf_ask (hdebug : opts.debug = true) {n : Notice} {c : Call}
    {next next' : c.Answer → Plan} (hC : C [.noted place n, .began place c]
      [.noted place n, .began place c]) (hnext : ∀ a, Words C (next a) (next' a)) :
    Words C (.noteIf opts place n (.ask place c next))
      (.noteIf opts place n (.ask place c next')) := by
  simp only [noteIf, hdebug, if_true]
  exact .ask [n] [n] hC hnext

theorem passWith (hC : Retells C tell tell') {kind : Marker.Kind} {text : Text}
    {resolve resolve' : Nat → Text → Plan}
    (hresolve : ∀ i payload, Words C (resolve i payload) (resolve' i payload)) :
    Words C (.passWith tell place source kind text resolve)
      (.passWith tell' place source kind text resolve') := by
  refine .notes (hC.pass place source kind text) (.join ?_ (fun i hi hi' => ?_) fun _ => .done _)
  · simp [branches]
  · simp only [branches, List.get_eq_getElem, List.getElem_mapIdx]
    exact hresolve i _

/-- Tellings that make no other difference to the parts make no other one to the whole. -/
theorem congruence (hdebug : opts.debug = true) (hC : Retells C tell tell') :
    Parts.Congruence (parts tell opts) (parts tell' opts) (fun _ => False) (fun _ => False)
      fun place place' p p' => place = place' → Words C p p' where
  done text _ := .done text
  stops h _ := by
    cases h with
    | deep | cycle => exact .halt _
    | left h | right h => exact h.elim
  bind hp hf hplace := .bind (hp hplace) fun text => hf text hplace
  pass hf := by
    rintro rfl
    exact passWith hC fun i payload => hf i payload rfl
  name source name := by
    rintro rfl
    exact noteIf_ask hdebug (hC.name _ source name) fun _ => .done _
  command source command := by
    rintro rfl
    refine noteIf_ask hdebug (hC.command _ source command) fun answer => ?_
    cases answer with
    | ok output => exact .done output
    | error failure => exact .halt _
  identify hnext := by
    rintro rfl
    exact ask [] [] (hC.identify _ _) fun identity => hnext identity rfl
  read hnext := by
    rintro rfl
    refine noteIf_ask hdebug (hC.file _ _ _) fun answer => ?_
    cases answer with
    | ok text => exact hnext text rfl
    | error cause => exact .halt _
  inner h := by
    rintro rfl
    exact h rfl

theorem renderWith (hdebug : opts.debug = true) (hC : Retells C tell tell') (depth : Nat)
    (place : Place) (source : Source) (text : Text) :
    Words C (.renderWith tell opts depth place source text)
      (.renderWith tell' opts depth place source text) := by
  rw [renderWith_eq_parts, renderWith_eq_parts]
  exact (congruence hdebug hC).related.render (.refl _ _ depth) rfl

end Words
end Plan

/-- What the rendering itself says for a notice of its outline. -/
def Notice.spelled : Notice → List Notice
  | stray source kind text => Plan.strayNotices source kind text (Marker.scan kind text)
  | n => [n]

namespace Event

/-- What comes about in the rendering itself for an event of its outline. -/
def spelled : Event → List Event
  | noted place n => n.spelled.map (.noted place)
  | e => [e]

end Event

namespace Plan

variable {opts : Options}

end Plan

variable {σ : Type} {opts : Options}

end Inlay
