import Inlay.Program
import Inlay.Settings.Yaml
import Inlay.Proofs.Batch.Diagnostics
import Inlay.Proofs.Batch.Order
import Inlay.Proofs.CommandLine.Switches

namespace Inlay.Program

open CommandLine Batch

variable {r r' : Run World} {a a' : Arguments} {s : Settings} {d : Settings.Decoder}

/-- What a run leaves that has not come to render anything, or else what it needs for that. -/
def preparation (d : Settings.Decoder) (words : List Bytes) (w : World) :
    Except (World × Ending) (Arguments × Settings) :=
  match Arguments.read words with
  | .error (.asked i) => .error (print i.answer w, .stopped (.asked i))
  | .error why => .error (w, .stopped why)
  | .ok a =>
    match Settings.load d w (a.config.map Path.ofBytes) with
    | .error p => .error (w, .failed p.chain)
    | .ok s => .ok (a, s)

/-- The world after a run by a host for the shell, and how the run has ended. -/
def runOn (d : Settings.Decoder) (host : Text → Host World) (rounds : Nat) (words : List Bytes)
    (w : World) : World × Ending :=
  match preparation d words w with
  | .error result => result
  | .ok (a, s) =>
    let (ending, r) := perform (host (s.shell.getD World.defaultShell)) rounds a s ⟨w, 0, []⟩
    (r.host, ending)

theorem run_eq_runOn (d : Settings.Decoder) (words : List Bytes) (w : World) :
    ((run d words w).world, (run d words w).ending) =
      runOn d World.host roundLimit words w := by
  rw [run, runOn, preparation]
  rcases Arguments.read words with (_ | _) | a
  · rfl
  · rfl
  · dsimp only
    cases Settings.load d w (a.config.map Path.ofBytes) with
    | error p => rfl
    | ok s => rfl

theorem alike_announce (a : Arguments) (s : Settings) (r : Run World) :
    (announce a s r).Alike r := by
  rw [announce]
  refine (Run.alike_say _ _ _).trans ((Run.alike_say _ _ _).trans ?_)
  split
  · exact (Run.alike_say _ _ _).trans (Run.alike_say _ _ _)
  · exact Run.alike_say _ _ _

/-- The end of a run depends on what has become of the documents, and only words come after that. -/
theorem conclude_alike (desk : Desk) (r r' : Run World) :
    (conclude desk r).1 = (conclude desk r').1 ∧ (conclude desk r).2.Alike r := by
  have hfinish : ∀ r : Run World, (desk.router.finish r).1 = (desk.router.finish r').1 ∧
      (desk.router.finish r).2.Alike r := by
    intro r
    simp only [Output.Router.finish]
    cases desk.router.shared with
    | none => exact ⟨rfl, .refl r⟩
    | some shared => exact ⟨rfl, r.alike_say _ _⟩
  obtain ⟨hsame, halike⟩ := hfinish r
  rw [conclude, conclude]
  rcases hr : desk.router.finish r with ⟨e | _, r₁⟩ <;>
    rcases hr' : desk.router.finish r' with ⟨e' | _, r₁'⟩ <;> rw [hr, hr'] at hsame <;>
    rw [hr] at halike <;> cases hsame
  · exact ⟨rfl, halike⟩
  · dsimp only
    split
    · exact ⟨rfl, (Run.alike_say _ _ _).trans halike⟩
    · exact ⟨rfl, halike⟩

theorem perform_alike (h : Host World) (rounds : Nat) (ha : a.plain = a'.plain)
    (hr : r.Alike r') :
    (perform h rounds a s r).1 = (perform h rounds a' s r').1 ∧
      (perform h rounds a s r).2.Alike (perform h rounds a' s r').2 := by
  have hannounced := (alike_announce a s r).trans (hr.trans (alike_announce a' s r').symm)
  have hfiles : a.files = a'.files := (congrArg Arguments.files ha :)
  have htarget : a.target = a'.target := (congrArg Arguments.target ha :)
  have hsources : a.sources = a'.sources := (congrArg Arguments.sources ha :)
  have hwindow : a.maxConcurrent = a'.maxConcurrent := (congrArg Arguments.maxConcurrent ha :)
  rw [perform, perform, hfiles]
  split
  · exact ⟨rfl, congrArg (print help) hannounced.host, hannounced.now, hannounced.traffic⟩
  · rw [htarget, hsources, batchSettings, batchSettings, hwindow]
    have hcycles : (Options.mk a.debug s.detectCycles).detectCycles =
      (Options.mk a'.debug s.detectCycles).detectCycles := rfl
    obtain ⟨hdesk, hruns⟩ := process_alike h hcycles (a'.maxConcurrent.getD s.maxConcurrent)
      depthLimit rounds a'.target a'.sources hannounced
    dsimp only
    rw [hdesk]
    obtain ⟨hending, hlast⟩ := conclude_alike _ _ _
    obtain ⟨-, hlast'⟩ := conclude_alike _ _ r
    exact ⟨hending, hlast.trans (hruns.trans hlast'.symm)⟩

variable {words words' : List Bytes} {w : World}

theorem runOn_eq (d : Settings.Decoder) (host : Text → Host World) (rounds : Nat)
    (hwords : Arguments.read words = .ok a) (hwords' : Arguments.read words' = .ok a')
    (ha : a.plain = a'.plain) (w : World) :
    runOn d host rounds words w = runOn d host rounds words' w := by
  have hconfig : a.config = a'.config := (congrArg Arguments.config ha :)
  rw [runOn, runOn, preparation, preparation, hwords, hwords']
  dsimp only
  rw [hconfig]
  cases Settings.load d w (a'.config.map Path.ofBytes) with
  | error p => rfl
  | ok s =>
    obtain ⟨hending, hruns⟩ :=
      perform_alike (s := s) (host (s.shell.getD World.defaultShell)) rounds ha (.refl ⟨w, 0, []⟩)
    exact Prod.ext hruns.host hending

theorem runOn_cons_word (d : Settings.Decoder) (host : Text → Host World) (rounds : Nat)
    {switch : Switch} (honce : Arguments.read (switch.word :: words) ≠ .error switch.repetition)
    (w : World) : runOn d host rounds (switch.word :: words) w = runOn d host rounds words w := by
  have hread := (read_cons_word switch words).resolve_left honce
  cases hwords : Arguments.read words with
  | error why =>
    rw [hwords] at hread
    rw [runOn, runOn, preparation, preparation, hwords, hread]
    rfl
  | ok a =>
    rw [hwords] at hread
    exact runOn_eq d host rounds hread hwords (a.plain_on switch) w

theorem run_agrees (h : ∀ host rounds, runOn d host rounds words w = runOn d host rounds words' w) :
    (run d words w).world = (run d words' w).world ∧
      (run d words w).ending = (run d words' w).ending := by
  have hhost := h World.host roundLimit
  rw [← run_eq_runOn, ← run_eq_runOn] at hhost
  exact Prod.mk.inj hhost

/-- The batch of a run, of which no document has been started. -/
def batch (a : Arguments) (s : Settings) (r : Run World) : Course :=
  opening ⟨a.debug, s.detectCycles⟩ depthLimit a.target a.sources (announce a s r)

theorem perform_outside {h₁ h₂ : Host World} {outcome : Source → Except Halt Text}
    (hforegone₁ : Course.Foregone h₁ outcome (batch a s r))
    (hharmless₁ : Course.Harmless h₁ (batch a s r))
    (hforegone₂ : Course.Foregone h₂ outcome (batch a s r))
    (hharmless₂ : Course.Harmless h₂ (batch a s r)) :
    ∃ enough, ∀ rounds ≥ enough,
      (perform h₁ rounds a s r).1 = (perform h₂ rounds a s r).1 ∧
      (perform h₁ rounds a s r).2.host.outside = (perform h₂ rounds a s r).2.host.outside := by
  -- Both runs come to the desk of one and the same batch in turn.
  obtain ⟨enough₁, hfirst⟩ := exists_process hforegone₁ hharmless₁
    (a.maxConcurrent.getD s.maxConcurrent)
  obtain ⟨enough₂, hsecond⟩ := exists_process hforegone₂ hharmless₂
    (a.maxConcurrent.getD s.maxConcurrent)
  refine ⟨max enough₁ enough₂, fun rounds hrounds => ?_⟩
  obtain ⟨c₁, final₁, hc₁, hprocess₁, -, hhost₁⟩ := hfirst rounds (by omega)
  obtain ⟨c₂, final₂, hc₂, hprocess₂, -, hhost₂⟩ := hsecond rounds (by omega)
  rw [perform, perform, batchSettings]
  split
  · exact ⟨rfl, rfl⟩
  · dsimp only
    rw [hprocess₁, hprocess₂, hc₁.desk_eq, ← hc₂.desk_eq]
    obtain ⟨hending, hlast₁⟩ := conclude_alike c₂.desk final₁ final₂
    obtain ⟨-, hlast₂⟩ := conclude_alike c₂.desk final₂ final₂
    refine ⟨hending, ?_⟩
    dsimp only
    rw [hlast₁.host, hlast₂.host, hhost₁, hhost₂, hc₁.outside_eq, hc₂.outside_eq]

theorem runOn_outside {host₁ host₂ : Text → Host World} {outcome : Source → Except Halt Text}
    (hwords : Arguments.read words = .ok a) (hwords' : Arguments.read words' = .ok a')
    (ha : a.plain = a'.plain) (hload : Settings.load d w (a.config.map Path.ofBytes) = .ok s)
    (hhosts : ∀ host ∈ [host₁, host₂],
      Course.Foregone (host (s.shell.getD World.defaultShell)) outcome (batch a s ⟨w, 0, []⟩) ∧
      Course.Harmless (host (s.shell.getD World.defaultShell)) (batch a s ⟨w, 0, []⟩)) :
    ∃ enough, ∀ rounds ≥ enough,
      (runOn d host₁ rounds words w).1.outside = (runOn d host₂ rounds words' w).1.outside ∧
        (runOn d host₁ rounds words w).2 = (runOn d host₂ rounds words' w).2 := by
  obtain ⟨hforegone₁, hharmless₁⟩ := hhosts host₁ (by simp)
  obtain ⟨hforegone₂, hharmless₂⟩ := hhosts host₂ (by simp)
  obtain ⟨enough, henough⟩ := perform_outside hforegone₁ hharmless₁ hforegone₂ hharmless₂
  refine ⟨enough, fun rounds hrounds => ?_⟩
  obtain ⟨hending, houtside⟩ := henough rounds hrounds
  rw [← runOn_eq d host₂ rounds hwords hwords' ha w, runOn, runOn, preparation, hwords]
  simp only [hload]
  exact ⟨houtside, hending⟩

theorem render_quietly {σ : Type} (h : Host σ) (rounds depth : Nat) (place : Place)
    (source : Source) (text : Text) (detectCycles : Bool) (r : Run σ) :
    (Schedule.run h rounds (Plan.render ⟨true, detectCycles⟩ depth place source text) r).1 =
        (Schedule.run h rounds (Plan.render ⟨false, detectCycles⟩ depth place source text) r).1 ∧
      (Schedule.run h rounds (Plan.render ⟨true, detectCycles⟩ depth place source text) r).2.Alike
        (Schedule.run h rounds (Plan.render ⟨false, detectCycles⟩ depth place source text) r).2 ∧
      (Schedule.run h rounds (Plan.render ⟨true, detectCycles⟩ depth place source text) r).2.calls =
        (Schedule.run h rounds
          (Plan.render ⟨false, detectCycles⟩ depth place source text) r).2.calls := by
  have hcycles : (Options.mk true detectCycles).detectCycles =
    (Options.mk false detectCycles).detectCycles := rfl
  obtain ⟨hend, hruns⟩ := Schedule.run_alike h rounds
    (Plan.hush_render_eq hcycles depth place source text) (.refl r)
  exact ⟨hend, hruns, hruns.calls⟩

/--
Diagnostics change nothing but what is said. A rendering comes to the same end by the same calls at
the same times whether it says what it does or not; by any host of any timing, a run leaves the same
world and ends in the same way whichever switches are given; and where timing makes no difference to
what documents become, it makes none to what runs with different switches leave outside.
-/
theorem diagnostics_neutral :
    (∀ (σ : Type) (h : Host σ) (rounds depth : Nat) (place : Place) (source : Source) (text : Text)
        (detectCycles : Bool) (r : Run σ),
      (Schedule.run h rounds (Plan.render ⟨true, detectCycles⟩ depth place source text) r).1 =
          (Schedule.run h rounds (Plan.render ⟨false, detectCycles⟩ depth place source text) r).1 ∧
        (Schedule.run h rounds (Plan.render ⟨true, detectCycles⟩ depth place source text) r).2.Alike
          (Schedule.run h rounds (Plan.render ⟨false, detectCycles⟩ depth place source text) r).2 ∧
        (Schedule.run h rounds
            (Plan.render ⟨true, detectCycles⟩ depth place source text) r).2.calls =
          (Schedule.run h rounds
            (Plan.render ⟨false, detectCycles⟩ depth place source text) r).2.calls) ∧
    (∀ (d : Settings.Decoder) (words words' : List Bytes) (a a' : Arguments) (w : World),
      Arguments.read words = .ok a → Arguments.read words' = .ok a' → a.plain = a'.plain →
      (∀ host rounds, runOn d host rounds words w = runOn d host rounds words' w) ∧
        (run d words w).world = (run d words' w).world ∧
        (run d words w).ending = (run d words' w).ending) ∧
    (∀ (d : Settings.Decoder) (switch : Switch) (words : List Bytes) (w : World),
      Arguments.read (switch.word :: words) ≠ .error switch.repetition →
      (∀ host rounds,
          runOn d host rounds (switch.word :: words) w = runOn d host rounds words w) ∧
        (run d (switch.word :: words) w).world = (run d words w).world ∧
        (run d (switch.word :: words) w).ending = (run d words w).ending) ∧
    ∀ (d : Settings.Decoder) (host₁ host₂ : Text → Host World) (outcome : Source → Except Halt Text)
      (words words' : List Bytes) (a a' : Arguments) (s : Settings) (w : World),
      Arguments.read words = .ok a → Arguments.read words' = .ok a' → a.plain = a'.plain →
      Settings.load d w (a.config.map Path.ofBytes) = .ok s →
      (∀ host ∈ [host₁, host₂],
        Course.Foregone (host (s.shell.getD World.defaultShell)) outcome (batch a s ⟨w, 0, []⟩) ∧
        Course.Harmless (host (s.shell.getD World.defaultShell)) (batch a s ⟨w, 0, []⟩)) →
      ∃ enough, ∀ rounds ≥ enough,
        (runOn d host₁ rounds words w).1.outside = (runOn d host₂ rounds words' w).1.outside ∧
          (runOn d host₁ rounds words w).2 = (runOn d host₂ rounds words' w).2 := by
  refine ⟨fun σ h rounds => render_quietly h rounds, ?_, ?_,
    fun d host₁ host₂ outcome words words' a a' s w => runOn_outside⟩
  · intro d words words' a a' w hwords hwords' ha
    have hrun := fun host rounds => runOn_eq d host rounds hwords hwords' ha w
    exact ⟨hrun, run_agrees hrun⟩
  · intro d switch words w honce
    have hrun := fun host rounds => runOn_cons_word d host rounds honce w
    exact ⟨hrun, run_agrees hrun⟩

theorem foregone_batch_letters (delay : Call → Nat) {a : Arguments} {s : Settings} {r : Run World}
    (hfiles : a.files = [['a'], ['b']]) (hdebug : a.debug = true)
    (hcycles : s.detectCycles = true) :
    Course.Foregone (letters.acting delay fun _ t => t) lettersOutcome (batch a s r) := by
  rw [batch, hdebug, hcycles]
  refine foregone_opening (letters.acting_follows _ _) fun source hsource place => ?_
  have hsources : a.sources = [.file ['a'], .file ['b']] := by
    rw [Arguments.sources, hfiles]
    decide
  rw [hsources] at hsource
  simp only [List.mem_cons, List.not_mem_nil, or_false] at hsource
  rcases hsource with rfl | rfl
  · exact .of_prompt (by cbv)
  · exact .of_prompt (by cbv)

/-- A file that asks for a variable and leaves a marker open. -/
def draft : World :=
  { tree := { nodes := [([['a']], .file (Text.encode "$\x7b\x7bx\x7d\x7d$((".toList))] } }

/-- A run that says what it does against one without colours, which is given its answers late. -/
theorem diagnostics_neutral_letters :
    (run Yaml.decoder [Switch.debug.word, Text.encode ['a']] draft).world =
        (run Yaml.decoder [Text.encode ['a']] draft).world ∧
      (run Yaml.decoder [Switch.debug.word, Text.encode ['a']] draft).ending =
        (run Yaml.decoder [Text.encode ['a']] draft).ending ∧
      ∃ enough, ∀ rounds ≥ enough,
        (runOn Yaml.decoder (fun _ => letters.acting (fun _ => 0) fun _ t => t) rounds
            [Switch.debug.word, Text.encode ['a'], Text.encode ['b']] {}).1.outside =
          (runOn Yaml.decoder (fun _ => lettersLate) rounds
            [Text.encode ['a'], Switch.noColor.word, Text.encode ['b']] {}).1.outside := by
  obtain ⟨-, -, honce, htimings⟩ := diagnostics_neutral
  obtain ⟨-, hworld, hending⟩ :=
    honce Yaml.decoder .debug [Text.encode ['a']] draft (by cbv; simp)
  have hletters : ∀ delay, Course.Foregone (letters.acting delay fun _ t => t) lettersOutcome
      (batch { files := [['a'], ['b']], debug := true } Settings.defaults ⟨{}, 0, []⟩) ∧
      Course.Harmless (letters.acting delay fun _ t => t)
        (batch { files := [['a'], ['b']], debug := true } Settings.defaults ⟨{}, 0, []⟩) :=
    fun delay =>
      ⟨foregone_batch_letters delay rfl rfl rfl, Course.harmless_of_host (fun _ _ => rfl) _⟩
  obtain ⟨enough, henough⟩ := htimings Yaml.decoder
    (fun _ => letters.acting (fun _ => 0) fun _ t => t)
    (fun _ => lettersLate) lettersOutcome
    [Switch.debug.word, Text.encode ['a'], Text.encode ['b']]
    [Text.encode ['a'], Switch.noColor.word, Text.encode ['b']]
    { files := [['a'], ['b']], debug := true } { files := [['a'], ['b']], noColor := true }
    Settings.defaults {} (by cbv) (by cbv) rfl (by cbv) (by simpa using ⟨hletters _, hletters _⟩)
  exact ⟨hworld, hending, enough, fun rounds hrounds => (henough rounds hrounds).1⟩

end Inlay.Program
