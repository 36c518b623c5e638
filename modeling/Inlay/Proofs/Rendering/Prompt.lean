import Inlay.Proofs.Rendering.Sequential

/-!
Hosts without delay. A plan that is started comes to its end at once, so that what has passed
between a run and its host tells all there is to know about it, and the commands of a document run
one after the other, in the order in which they stand in its text.
-/
namespace Inlay

variable {σ : Type}

namespace Exchange

def request (e : Exchange) : Request := (e.place, e.call)

/-- What the command has printed, where the exchange is about one that has succeeded. -/
def output? : Exchange → Option Text
  | ⟨_, .execute .., .ok output⟩ => some output
  | _ => none

/-- What commands have printed that documents at these places ran. -/
def printed (heard : Place → Bool) (es : List Exchange) : List Text :=
  (es.filter fun e => heard e.place).filterMap output?

@[simp] theorem printed_append (heard : Place → Bool) (es es' : List Exchange) :
    printed heard (es ++ es') = printed heard es ++ printed heard es' := by
  simp [printed]

/-- Commands, each with what it prints, run for a document in one directory. -/
def ran (place : Place) (directory : Path) (runs : List (Text × Text)) : List Exchange :=
  runs.map fun run => ⟨place, .execute run.1 directory, .ok run.2⟩

theorem printed_ran (heard : Place → Bool) (place : Place) (directory : Path)
    (runs : List (Text × Text)) :
    printed heard (ran place directory runs) =
      if heard place = true then runs.map Prod.snd else [] := by
  induction runs with
  | nil => simp [printed, ran]
  | cons run runs ih =>
    have hcons : ran place directory (run :: runs) =
        ran place directory [run] ++ ran place directory runs := rfl
    rw [hcons, printed_append, ih]
    cases hheard : heard place <;> simp [printed, ran, output?, hheard]

theorem map_request_ran (place : Place) (directory : Path) (runs : List (Text × Text)) :
    (ran place directory runs).map request =
      (runs.map Prod.fst).map fun command => (place, .execute command directory) := by
  rw [ran, List.map_map, List.map_map]
  rfl

end Exchange

namespace Host

theorem map_request_dialogue (h : Host σ) (s : σ) (requests : List Request) :
    (h.dialogue s requests).map Exchange.request = requests := by
  induction requests generalizing s with
  | nil => rfl
  | cons r requests ih => rw [dialogue, List.map_cons, ih, Exchange.request]

/-- Every command has succeeded in the course of the requests. -/
def Succeeds (h : Host σ) (s : σ) (requests : List Request) : Prop :=
  ∀ command directory answer, h.Tells s requests (.execute command directory) answer →
    ∃ output : Text, answer = .ok output

theorem Succeeds.of_prefix {h : Host σ} {s : σ} {rs rs' : List Request} (hok : h.Succeeds s rs')
    (hrs : rs <+: rs') : h.Succeeds s rs := by
  obtain ⟨more, rfl⟩ := hrs
  intro command directory answer htells
  exact hok command directory answer (h.tells_append_left more htells)

/--
The commands in a document's text have run last, and the text in the end is this one with what they
have printed in their places.
-/
def Completes (h : Host σ) (s : σ) (requests : List Request) (place : Place) (source : Source)
    (text t : Text) : Prop :=
  ∃ runs, runs.map Prod.fst = (Segment.markers (Marker.scan .command text)).map Marker.payload ∧
    t = (Segment.splice (Marker.scan .command text) (runs.map Prod.snd)).closeLine ∧
    Exchange.ran place source.directory runs <:+ h.dialogue s requests

end Host

/-- A host without delay, and the state in which it begins. -/
structure Side (σ : Type) where
  host : Host σ
  state : σ
  immediate : host.Immediate

namespace Side

open Schedule

variable (x : Side σ)

def talk (r : Run σ) : List Exchange := x.host.dialogue x.state r.requests

/-- The host is in the state to which the run's calls have brought it. -/
def Bears (r : Run σ) : Prop := r.host = x.host.after x.state r.calls

/-- The run after a call and its answer, which comes at once. -/
def answered (place : Place) (c : Call) (r : Run σ) : Run σ :=
  (r.begin x.host place c).2.arrive place c (x.host c r.host).1.remarks

theorem map_talk (r : Run σ) : (x.talk r).map Exchange.request = r.requests :=
  x.host.map_request_dialogue x.state r.requests

theorem start_ask (place : Place) (c : Call) (next : c.Answer → Plan) (r : Run σ) :
    start x.host (.ask place c next) r =
      start x.host (next (x.host c r.host).1.answer) (x.answered place c r) := by
  rw [Schedule.start_ask, if_pos (x.immediate c r.host), answered]

@[simp] theorem requests_answered (place : Place) (c : Call) (r : Run σ) :
    (x.answered place c r).requests = r.requests ++ [(place, c)] := by
  rw [answered, Run.requests, Run.events_arrive, Run.events_begin, Event.requests_append,
    Event.requests_append, Event.requests_ended, List.append_nil]
  rfl

variable {x}

theorem Bears.answered {r : Run σ} (hr : x.Bears r) (place : Place) (c : Call) :
    x.Bears (x.answered place c r) := by
  have hcalls : (x.answered place c r).calls = r.calls ++ [c] := by
    rw [← Run.map_requests, requests_answered, List.map_append, Run.map_requests]
    rfl
  rw [Bears, hcalls, Host.after_append, ← hr]
  simp [Side.answered, Run.begin, Run.record, Host.after]

theorem Bears.talk_answered {r : Run σ} (hr : x.Bears r) (place : Place) (c : Call) :
    x.talk (x.answered place c r) = x.talk r ++ [⟨place, c, (x.host c r.host).1.answer⟩] := by
  rw [talk, requests_answered, Host.dialogue_append, Run.map_requests, ← hr]
  rfl

theorem Bears.of_eq {r r' : Run σ} (hr : x.Bears r) (hrequests : r'.requests = r.requests)
    (hhost : r'.host = r.host) : x.Bears r' := by
  rw [Bears, ← Run.map_requests] at hr ⊢
  rw [hhost, hrequests]
  exact hr

theorem start_command {opts : Options} {place : Place} {source : Source} (command : Text)
    {r : Run σ} (hr : x.Bears r)
    (hok : x.host.Succeeds x.state
      (start x.host (.resolveCommand opts place source command) r).2.requests) :
    ∃ output r', start x.host (.resolveCommand opts place source command) r =
        (.finished output, r') ∧ x.Bears r' ∧
      x.talk r' = x.talk r ++ Exchange.ran place source.directory [(command, output)] := by
  rw [Plan.resolveCommand, Plan.noteIf_eq] at hok ⊢
  obtain ⟨r₁, hrequests, hhost, hstart⟩ := start_notes x.host place _ _ r
  rw [hstart, x.start_ask] at hok ⊢
  have hr₁ : x.Bears r₁ := hr.of_eq hrequests hhost
  have hanswered := hr₁.answered place (.execute command source.directory)
  have htalk := hr₁.talk_answered place (.execute command source.directory)
  -- The answer gets a name of its own, for the run that follows it mentions it too.
  generalize hrun : x.answered place (.execute command source.directory) r₁ = r₂ at *
  generalize hanswer : (x.host (.execute command source.directory) r₁.host).1.answer = answer at *
  have htells : x.host.Tells x.state r₂.requests (.execute command source.directory) answer :=
    ⟨place, by rw [← talk, htalk]; simp⟩
  obtain ⟨output, rfl⟩ := (hok.of_prefix (requests_start x.host _ _)) _ _ _ htells
  refine ⟨output, r₂, rfl, hanswered, ?_⟩
  rw [htalk, talk, hrequests, talk]
  rfl

theorem sweep_commands {opts : Options} {place : Place} {source : Source} (rule : JoinRule)
    (commands : List Text) {r : Run σ} (hr : x.Bears r)
    (hok : x.host.Succeeds x.state (sweep (start x.host) rule true
      (commands.map (Plan.resolveCommand opts place source)) r).2.requests) :
    ∃ runs r', runs.map Prod.fst = commands ∧
      sweep (start x.host) rule true (commands.map (Plan.resolveCommand opts place source)) r =
        (.ok (runs.map fun run => .finished run.2), r') ∧ x.Bears r' ∧
      x.talk r' = x.talk r ++ Exchange.ran place source.directory runs := by
  induction commands generalizing r with
  | nil => exact ⟨[], r, rfl, rfl, hr, (List.append_nil _).symm⟩
  | cons command commands ih =>
    have hfirst : x.host.Succeeds x.state
        (start x.host (.resolveCommand opts place source command) r).2.requests :=
      hok.of_prefix (requests_sweep_cons x.host rule true _ _ r)
    obtain ⟨output, r₁, hstart, hr₁, htalk₁⟩ := start_command command hr hfirst
    have hends : ends? rule true (.finished output) = none := rfl
    simp only [List.map_cons, sweep, hstart, hends, Strand.isFinished, Bool.and_true] at hok ⊢
    obtain ⟨runs, r₂, rfl, hsweep, hr₂, htalk₂⟩ := ih hr₁ hok
    refine ⟨(command, output) :: runs, r₂, rfl, ?_, hr₂, ?_⟩
    · rw [hsweep]
      rfl
    · rw [htalk₂, htalk₁, List.append_assoc]
      rfl

theorem start_commands {opts : Options} {place : Place} {source : Source} (text : Text) {r : Run σ}
    (hr : x.Bears r)
    (hok : x.host.Succeeds x.state (start x.host (.pass opts place source .command text
      fun _ command => .resolveCommand opts place source command) r).2.requests) :
    ∃ runs r', runs.map Prod.fst =
        (Segment.markers (Marker.scan .command text)).map Marker.payload ∧
      start x.host (.pass opts place source .command text
        fun _ command => .resolveCommand opts place source command) r =
        (.finished (Segment.splice (Marker.scan .command text) (runs.map Prod.snd)), r') ∧
      x.Bears r' ∧ x.talk r' = x.talk r ++ Exchange.ran place source.directory runs := by
  have hbranches : Plan.branches .command text
      (fun _ command => Plan.resolveCommand opts place source command) =
      ((Segment.markers (Marker.scan .command text)).map Marker.payload).map
        (Plan.resolveCommand opts place source) :=
    List.ext_getElem (by simp [Plan.branches]) (by simp [Plan.branches])
  rw [Plan.pass_eq, hbranches] at hok ⊢
  obtain ⟨r₁, hrequests, hhost, hstart⟩ := start_notes x.host place _ _ r
  rw [hstart, start_join] at hok ⊢
  obtain ⟨runs, r₂, hruns, hsweep, hr₂, htalk⟩ := sweep_commands _ _ (hr.of_eq hrequests hhost)
    (hok.of_prefix (requests_conclude x.host _ _ _))
  have htexts : Strand.texts? (runs.map fun run => .finished run.2) = some (runs.map Prod.snd) :=
    Strand.texts?_eq_some_iff.2 (by rw [List.map_map]; rfl)
  rw [hsweep]
  simp only [conclude, htexts, start]
  refine ⟨runs, r₂, hruns, rfl, hr₂, ?_⟩
  rw [htalk, talk, hrequests, talk]

theorem completes {opts : Options} {place : Place} {source : Source} {text t : Text} {r r' : Run σ}
    (hr : x.Bears r)
    (hstart : start x.host ((Plan.pass opts place source .command text fun _ command =>
      .resolveCommand opts place source command).bind fun text => .done text.closeLine) r =
      (.finished t, r'))
    (hok : x.host.Succeeds x.state r'.requests) :
    x.host.Completes x.state r'.requests place source text t := by
  obtain ⟨executed, r₁, hpass, hdone⟩ := exists_start_of_bind hstart
  cases hdone
  have hpassed : x.host.Succeeds x.state (start x.host (.pass opts place source .command text
      fun _ command => .resolveCommand opts place source command) r).2.requests := by
    rw [hpass]
    exact hok
  obtain ⟨runs, r₂, hruns, hpass', -, htalk⟩ := start_commands text hr hpassed
  cases hpass.symm.trans hpass'
  refine ⟨runs, hruns, rfl, ?_⟩
  rw [← talk, htalk]
  exact List.suffix_append _ _

end Side
end Inlay
