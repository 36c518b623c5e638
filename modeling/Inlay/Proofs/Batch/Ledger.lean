import Inlay.Batch
import Inlay.Proofs.Output.Sink
import Inlay.Proofs.Plan.Silence

/-!
What writing the documents of a batch in their order comes to. A ledger says of every document in
turn what has become of it, and a batch's report, its errors and all that it has written follow from
its ledger. What is written depends on the tree, the working directory and standard output alone.
-/
namespace Inlay

/-- What a write reads of the world and changes in it. -/
structure World.Outside where
  tree : Tree
  cwd : Location
  stdout : Bytes

def World.outside (w : World) : World.Outside := ⟨w.tree, w.cwd, w.stdout⟩

/-- What a write neither reads nor changes: the clock, the calls, and the rest of the world. -/
structure Run.Inside where
  now : Nat
  traffic : List Event.Stamped
  env : List (Text × Bytes)
  stdin : Bytes
  accountHome : Option Path

def Run.inside (r : Run World) : Run.Inside :=
  ⟨r.now, r.traffic, r.host.env, r.host.stdin, r.host.accountHome⟩

theorem Run.alike_iff {r r' : Run World} :
    r.Alike r' ↔ r.host.outside = r'.host.outside ∧ r.inside = r'.inside := by
  constructor
  · rintro ⟨hhost, hnow, htraffic⟩
    rw [inside, inside, hhost, hnow, htraffic]
    exact ⟨rfl, rfl⟩
  · obtain ⟨⟨tree, cwd, env, stdin, stdout, home⟩, now, past⟩ := r
    obtain ⟨⟨tree', cwd', env', stdin', stdout', home'⟩, now', past'⟩ := r'
    rintro ⟨houtside, hinside⟩
    simp only [World.outside, World.Outside.mk.injEq] at houtside
    simp only [inside, Inside.mk.injEq] at hinside
    obtain ⟨rfl, rfl, rfl⟩ := houtside
    obtain ⟨rfl, htraffic, rfl, rfl, rfl⟩ := hinside
    exact ⟨rfl, rfl, htraffic⟩

def Event.error? : Event → Option Text
  | said ⟨.error, message⟩ => some message
  | _ => none

def Run.errors {σ : Type} (r : Run σ) : List Text := r.events.filterMap Event.error?

namespace Run

variable {r : Run World} {level : Log.Level}

theorem events_say (r : Run World) (level : Log.Level) (message : Text) :
    (r.say level message).events = r.events ++ [.said ⟨level, message⟩] :=
  events_record r _

theorem alike_say (r : Run World) (level : Log.Level) (message : Text) :
    (r.say level message).Alike r := .of_record rfl r

theorem inside_say (r : Run World) (level : Log.Level) (message : Text) :
    (r.say level message).inside = r.inside := (Run.alike_iff.1 (r.alike_say level message)).2

theorem errors_say_of_ne (r : Run World) (h : level ≠ .error) (message : Text) :
    (r.say level message).errors = r.errors := by
  have hnone : Event.error? (.said ⟨level, message⟩) = none := by
    cases level <;> first | rfl | exact absurd rfl h
  simp [errors, events_say, hnone]

theorem errors_say_error (r : Run World) (message : Text) :
    (r.say .error message).errors = r.errors ++ [message] := by
  simp [errors, events_say, Event.error?]

end Run

namespace Output

/--
An action that depends on nothing but the outside of the world and changes nothing else, and says
nothing of errors.
-/
structure Plain {α : Type} (f : Run World → α × Run World) : Prop where
  congr : ∀ {r₁ r₂ : Run World}, r₁.host.outside = r₂.host.outside →
    (f r₁).1 = (f r₂).1 ∧ (f r₁).2.host.outside = (f r₂).2.host.outside
  errors : ∀ r, (f r).2.errors = r.errors
  inside : ∀ r, (f r).2.inside = r.inside

namespace Plain

variable {α β : Type}

theorem pure (a : α) : Plain fun r => (a, r) := ⟨fun h => ⟨rfl, h⟩, fun _ => rfl, fun _ => rfl⟩

theorem say (a : α) {level : Log.Level} (h : level ≠ .error) (message : Text) :
    Plain fun r => (a, r.say level message) :=
  ⟨fun h => ⟨rfl, h⟩, fun r => r.errors_say_of_ne h message, fun r => r.inside_say level message⟩

theorem bind {f : Run World → α × Run World} {g : α → Run World → β × Run World} (hf : Plain f)
    (hg : ∀ a, Plain (g a)) : Plain fun r => g (f r).1 (f r).2 := by
  constructor
  · intro r₁ r₂ h
    obtain ⟨hvalue, houtside⟩ := hf.congr h
    rw [hvalue]
    exact (hg _).congr houtside
  · intro r
    rw [(hg _).errors, hf.errors]
  · intro r
    rw [(hg _).inside, hf.inside]

theorem alike {f : Run World → α × Run World} (hf : Plain f) {r r' : Run World} (h : r.Alike r') :
    (f r).1 = (f r').1 ∧ (f r).2.Alike (f r').2 := by
  obtain ⟨houtside, hinside⟩ := Run.alike_iff.1 h
  obtain ⟨hvalue, hlater⟩ := hf.congr houtside
  refine ⟨hvalue, Run.alike_iff.2 ⟨hlater, ?_⟩⟩
  rw [hf.inside, hf.inside, hinside]

theorem branch {ε : Type} {f : Run World → Except ε α × Run World} {g : Run World → β × Run World}
    {good : α → Run World → β × Run World} {bad : ε → Run World → β × Run World} (hf : Plain f)
    (hgood : ∀ a, Plain (good a)) (hbad : ∀ e, Plain (bad e))
    (hg : ∀ r, (∃ a, (f r).1 = .ok a ∧ g r = good a (f r).2) ∨
      ∃ e, (f r).1 = .error e ∧ g r = bad e (f r).2) : Plain g := by
  constructor
  · intro r₁ r₂ h
    obtain ⟨hvalue, houtside⟩ := hf.congr h
    rcases hg r₁ with ⟨a, h₁, hg₁⟩ | ⟨e, h₁, hg₁⟩
    · rcases hg r₂ with ⟨a', h₂, hg₂⟩ | ⟨e', h₂, hg₂⟩
      · obtain rfl : a = a' := Except.ok.inj (h₁.symm.trans (hvalue.trans h₂))
        rw [hg₁, hg₂]
        exact (hgood a).congr houtside
      · cases h₁.symm.trans (hvalue.trans h₂)
    · rcases hg r₂ with ⟨a', h₂, hg₂⟩ | ⟨e', h₂, hg₂⟩
      · cases h₁.symm.trans (hvalue.trans h₂)
      · obtain rfl : e = e' := Except.error.inj (h₁.symm.trans (hvalue.trans h₂))
        rw [hg₁, hg₂]
        exact (hbad e).congr houtside
  · intro r
    rcases hg r with ⟨a, -, hr⟩ | ⟨e, -, hr⟩
    · rw [hr, (hgood a).errors, hf.errors]
    · rw [hr, (hbad e).errors, hf.errors]
  · intro r
    rcases hg r with ⟨a, -, hr⟩ | ⟨e, -, hr⟩
    · rw [hr, (hgood a).inside, hf.inside]
    · rw [hr, (hbad e).inside, hf.inside]

theorem andThen {first : Step α} {next : α → Step β} (hf : Plain first)
    (hn : ∀ a, Plain (next a)) : Plain (Step.andThen first next) := by
  refine branch hf hn (fun e => pure (.error e)) fun r => ?_
  rw [Step.andThen]
  rcases first r with ⟨e | a, r'⟩
  · exact .inr ⟨e, rfl, rfl⟩
  · exact .inl ⟨a, rfl, rfl⟩

theorem runOnTree (act : Location → Tree.Action α) : Plain fun r => r.onTree (act r.host.cwd) := by
  constructor
  · intro r₁ r₂ h
    rw [World.outside, World.outside, World.Outside.mk.injEq] at h
    obtain ⟨htree, hcwd, hstdout⟩ := h
    simp [Run.onTree_eq, World.outside, Run.withTree, htree, hcwd, hstdout]
  · exact fun r => rfl
  · exact fun r => rfl

theorem onTree (fails : Fault → Failure) (act : Location → Tree.Action α) :
    Plain (onTree fails act) :=
  bind (g := fun x r => (x.mapError fails, r)) (runOnTree act) fun _ => pure _

theorem makeRoom (path : Path) : Plain (makeRoom path) := by
  rw [Output.makeRoom.eq_def]
  split
  · exact onTree _ _
  · exact pure _

theorem writeDocument (path : Path) (content : Text) : Plain (writeDocument path content) :=
  andThen (makeRoom path) fun _ => andThen (onTree _ _) fun _ => andThen (onTree _ _) fun _ =>
    say _ (by decide) _

theorem create (path : Path) : Plain (Writer.create path) :=
  andThen (makeRoom path) fun _ => andThen (onTree _ _) fun _ => pure _

def Both (f : Run World → α × β × Run World) : Prop :=
  Plain fun r => (((f r).1, (f r).2.1), (f r).2.2)

theorem append (w : Writer) (text : Text) : Both (w.append text) := by
  have haccepted : ∀ w' : Writer, Plain fun r : Run World => ((Except.ok (ε := Failure) (), w'),
      r.say .debug (bytesNote "Output appended to file" (some w'.path) text)) :=
    fun w' => say _ (by decide) _
  by_cases htext : text = []
  · simpa only [Both, Writer.append, if_pos htext] using haccepted w
  · cases huntold : w.untold with
    | some fault => simpa only [Both, Writer.append, if_neg htext, huntold] using pure _
    | none =>
      refine branch (runOnTree fun _ => Tree.writeAt w.outlet (Text.encode text) w.position)
        (fun _ => haccepted { w with position := w.position + (Text.encode text).length })
        (fun fault => haccepted { w with untold := some fault }) fun r => ?_
      rw [Writer.append, if_neg htext, huntold]
      dsimp only
      rcases r.onTree (Tree.writeAt w.outlet (Text.encode text) w.position) with
        ⟨fault | done, r'⟩
      · exact .inr ⟨fault, rfl, rfl⟩
      · exact .inl ⟨done, rfl, rfl⟩

theorem createShared (t : Target) : Plain (Shared.create t) := by
  refine andThen ?_ fun s => say _ (by decide) _
  cases t with
  | combined path => exact andThen (create path) fun w => pure _
  | stdout => exact pure _
  | directory => exact pure _

theorem appendShared (s : Shared) (text : Text) : Both (s.append text) := by
  cases s with
  | stdout =>
    constructor
    · intro r₁ r₂ h
      rw [World.outside, World.outside, World.Outside.mk.injEq] at h
      obtain ⟨htree, hcwd, hstdout⟩ := h
      simp [Shared.append, World.outside, htree, hcwd, hstdout]
    · exact fun r => Run.errors_say_of_ne _ (by decide) _
    · exact fun r => Run.inside_say _ _ _
  | file w =>
    exact bind (g := fun x r => ((x.1, Shared.file x.2), r)) (append w text) fun _ => pure _

theorem opened (router : Router) : Plain router.opened := by
  cases hshared : router.shared with
  | some s =>
    have heq : router.opened = fun r => (.ok s, r) := by
      funext r
      rw [Router.opened, hshared]
    rw [heq]
    exact pure _
  | none =>
    have heq : router.opened = Shared.create router.target := by
      funext r
      rw [Router.opened, hshared]
    rw [heq]
    exact createShared router.target

theorem write (router : Router) (source : Source) (text : Text) :
    Both (router.write source text) := by
  cases hdestination : router.target.destination source with
  | file path =>
    have hplain := bind (g := fun x r => ((x, router), r)) (writeDocument path text) fun _ => pure _
    simpa only [Both, Router.write, hdestination] using hplain
  | shared =>
    have hgood : ∀ s : Shared, Plain fun r => (((s.append text r).1,
        ({ router with shared := some (s.append text r).2.1 } : Router)), (s.append text r).2.2) :=
      fun s => bind (g := fun x r => ((x.1, { router with shared := some x.2 }), r))
        (appendShared s text) fun _ => pure _
    refine branch (opened router) hgood (fun e => pure (.error e, router)) fun r => ?_
    rw [Router.write, hdestination]
    dsimp only
    rcases router.opened r with ⟨e | s, r'⟩
    · exact .inr ⟨e, rfl, rfl⟩
    · exact .inl ⟨s, rfl, rfl⟩

end Plain
end Output

namespace Batch

open Output

/-- What has become of a document in the end: its text in the output, or why there is none. -/
abbrev Verdict := Except Failure Text

abbrev Ledger := List (Source × Verdict)

def Ledger.texts (ledger : Ledger) : List Text := ledger.filterMap (·.2.toOption)

/-- The documents that are not in the output, in order, each with the reason. -/
def Ledger.failures (ledger : Ledger) : List (Source × Failure) :=
  ledger.filterMap fun entry =>
    match entry.2 with
    | .ok _ => none
    | .error failure => some (entry.1, failure)

/-- What is said about the documents that are not in the output. -/
def Ledger.errors (ledger : Ledger) : List Text :=
  ledger.failures.map fun entry => entry.1.display ++ ": ".toList ++ entry.2.message entry.1

/-- What happens to a document that has been rendered or has failed to be. -/
def post (router : Router) (source : Source) (outcome : Except Halt Text) (r : Run World) :
    Verdict × Router × Run World :=
  match outcome with
  | .error why => (.error (.ofHalt why), router, r)
  | .ok text =>
    match router.write source text (r.say .debug
      ("writing ".toList ++ router.target.describeFor source ++ "...".toList)) with
    | (.ok (), router, r) => (.ok text, router, r)
    | (.error e, router, r) => (.error (.unwritten e), router, r)

def postAll : Router → List (Source × Except Halt Text) → Run World → Ledger × Router × Run World
  | router, [], r => ([], router, r)
  | router, (source, outcome) :: rest, r =>
    let (verdict, router, r) := post router source outcome r
    let (ledger, router, r) := postAll router rest r
    ((source, verdict) :: ledger, router, r)

def Report.enter (report : Report) (ledger : Ledger) : Report :=
  ⟨report.processed + ledger.texts.length, report.failures ++ ledger.failures⟩

theorem Ledger.texts_append (ledger ledger' : Ledger) :
    texts (ledger ++ ledger') = ledger.texts ++ ledger'.texts := List.filterMap_append

theorem Ledger.failures_append (ledger ledger' : Ledger) :
    failures (ledger ++ ledger') = ledger.failures ++ ledger'.failures := List.filterMap_append

theorem Ledger.errors_append (ledger ledger' : Ledger) :
    errors (ledger ++ ledger') = ledger.errors ++ ledger'.errors := by
  rw [errors, failures_append, List.map_append, errors, errors]

theorem Ledger.errors_cons (entry : Source × Verdict) (ledger : Ledger) :
    errors (entry :: ledger) = errors [entry] ++ ledger.errors := errors_append [entry] ledger

theorem Report.enter_cons (report : Report) (entry : Source × Verdict) (ledger : Ledger) :
    report.enter (entry :: ledger) = (report.enter [entry]).enter ledger := by
  have htexts := Ledger.texts_append [entry] ledger
  have hfailures := Ledger.failures_append [entry] ledger
  rw [List.singleton_append] at htexts hfailures
  rw [enter, enter, enter, htexts, hfailures, List.length_append, Nat.add_assoc, List.append_assoc]

theorem plain_post (router : Router) (source : Source) (outcome : Except Halt Text) :
    Plain.Both (post router source outcome) := by
  cases outcome with
  | error why => exact Plain.pure ((.error (.ofHalt why) : Verdict), router)
  | ok text =>
    have hwrite := Plain.bind (g := fun _ r => (((router.write source text r).1,
        (router.write source text r).2.1), (router.write source text r).2.2))
      (Plain.say () (by decide : Log.Level.debug ≠ .error) ("writing ".toList ++
        router.target.describeFor source ++ "...".toList)) fun _ => Plain.write router source text
    have hplain := Plain.bind (g := fun x r =>
      (((x.1.map fun _ => text).mapError Failure.unwritten, x.2), r)) hwrite fun _ => Plain.pure _
    refine Eq.mp (congrArg Plain (funext fun r => ?_)) hplain
    rw [post]
    rcases router.write source text (r.say .debug
      ("writing ".toList ++ router.target.describeFor source ++ "...".toList)) with
      ⟨_ | _, _, _⟩ <;> rfl

theorem plain_postAll (router : Router) (documents : List (Source × Except Halt Text)) :
    Plain.Both (postAll router documents) := by
  induction documents generalizing router with
  | nil => exact Plain.pure (([] : Ledger), router)
  | cons document rest ih =>
    obtain ⟨source, outcome⟩ := document
    exact Plain.bind (g := fun x r => (((source, x.1) :: (postAll x.2 rest r).1,
        (postAll x.2 rest r).2.1), (postAll x.2 rest r).2.2))
      (plain_post router source outcome) fun x =>
        Plain.bind (g := fun y r => (((source, x.1) :: y.1, y.2), r)) (ih x.2) fun _ => Plain.pure _

theorem deliver_eq (d : Desk) (source : Source) (outcome : Except Halt Text) (r : Run World) :
    (d.deliver source outcome r).1 =
        ⟨(post d.router source outcome r).2.1,
          d.report.enter [(source, (post d.router source outcome r).1)]⟩ ∧
      (d.deliver source outcome r).2.Alike (post d.router source outcome r).2.2 ∧
      (d.deliver source outcome r).2.errors = r.errors ++
        Ledger.errors [(source, (post d.router source outcome r).1)] := by
  have hplain := (plain_post d.router source outcome).errors r
  have hfail : ∀ (d : Desk) (f : Failure) (r' : Run World), r'.errors = r.errors →
      (d.fail source f r').2.errors = r.errors ++ Ledger.errors [(source, .error f)] := by
    intro d f r' hr'
    rw [Desk.fail, Run.errors_say_error, hr']
    rfl
  cases outcome with
  | error why => exact ⟨rfl, r.alike_say _ _, hfail d _ r rfl⟩
  | ok text =>
    rw [Desk.deliver]
    rw [post] at hplain ⊢
    rcases hwrite : d.router.write source text (r.say .debug
      ("writing ".toList ++ d.router.target.describeFor source ++ "...".toList)) with
      ⟨e | _, router, r'⟩
    · simp only [hwrite] at hplain ⊢
      exact ⟨rfl, r'.alike_say _ _, hfail _ _ r' hplain⟩
    · simp only [hwrite] at hplain ⊢
      exact ⟨by simp [Desk.succeed, Report.enter, Ledger.texts, Ledger.failures, Except.toOption],
        .refl r', by simpa [Ledger.errors, Ledger.failures] using hplain⟩

theorem postAll_append (router : Router) (before after : List (Source × Except Halt Text))
    (r : Run World) :
    postAll router (before ++ after) r =
      ((postAll router before r).1 ++
          (postAll (postAll router before r).2.1 after (postAll router before r).2.2).1,
        (postAll (postAll router before r).2.1 after (postAll router before r).2.2).2) := by
  induction before generalizing router r with
  | nil => rfl
  | cons document before ih => simp [postAll, ih]

end Batch
end Inlay
