import Inlay.Proofs.Rendering.Prompt

/-!
Two runs side by side, on hosts without delay that differ in nothing but what their commands print.
The runs keep level while everything but commands is asked for alike and the commands of the
documents that are watched are the same. A document is watched only if the commands of whatever it
includes print the same on both sides, so that both sides know the same text when its own commands
come.
-/
namespace Inlay

variable {σ σ₁ σ₂ : Type}

def Call.isCommand : Call → Bool
  | .execute .. => true
  | _ => false

/--
The hosts know the same variables and files: after the same calls but for commands, they answer
every call but a command alike.
-/
def Host.Agrees (h₁ : Host σ₁) (s₁ : σ₁) (h₂ : Host σ₂) (s₂ : σ₂) : Prop :=
  ∀ cs₁ cs₂ : List Call, cs₁.filter (!·.isCommand) = cs₂.filter (!·.isCommand) →
    ∀ c : Call, c.isCommand = false →
      (h₁ c (h₁.after s₁ cs₁)).1.answer = (h₂ c (h₂.after s₂ cs₂)).1.answer

/-- The plan has not been halted by a command. -/
inductive Halt.AboutFiles : Halt → Prop
  | unreadable (path : Path) (cause : Fault) : AboutFiles (.failed (.unreadable path cause))
  | cycle (chain : List Path) : AboutFiles (.failed (.cycle chain))
  | tooDeep : AboutFiles .tooDeep

/-- Both strands have ended, with texts that are related or for the same reason. -/
inductive Strand.Tally (Q : Text → Text → Prop) : Strand → Strand → Prop
  | finished {t₁ t₂ : Text} : Q t₁ t₂ → Tally Q (.finished t₁) (.finished t₂)
  | halted {why : Halt} : why.AboutFiles → Tally Q (.halted why) (.halted why)

/-- Both sweeps have come to the end with texts that are related, or were cut short alike. -/
inductive Strand.TallyAll (Q : Text → Text → Prop) :
    Except Halt (List Strand) → Except Halt (List Strand) → Prop
  | ok {ts₁ ts₂ : List Text} : List.Forall₂ Q ts₁ ts₂ →
    TallyAll Q (.ok (ts₁.map .finished)) (.ok (ts₂.map .finished))
  | error {why : Halt} : why.AboutFiles → TallyAll Q (.error why) (.error why)

theorem Strand.TallyAll.cons {Q : Text → Text → Prop} {t₁ t₂ : Text} (ht : Q t₁ t₂)
    {x₁ x₂ : Except Halt (List Strand)} (h : TallyAll Q x₁ x₂) :
    TallyAll Q (x₁.map (.finished t₁ :: ·)) (x₂.map (.finished t₂ :: ·)) := by
  cases h with
  | ok hts => exact .ok (.cons ht hts)
  | error hwhy => exact .error hwhy

/-- Every command has succeeded, and those that are heard have printed what they are to print. -/
structure Side.Keeps (x : Side σ) (heard : Place → Bool) (outputs : List Text)
    (requests : List Request) : Prop where
  succeeds : x.host.Succeeds x.state requests
  printed : Exchange.printed heard (x.host.dialogue x.state requests) <+: outputs

theorem Side.Keeps.of_prefix {x : Side σ} {heard : Place → Bool} {outputs : List Text}
    {rs rs' : List Request} (hkeeps : x.Keeps heard outputs rs') (hrs : rs <+: rs') :
    x.Keeps heard outputs rs := by
  refine ⟨hkeeps.succeeds.of_prefix hrs, ?_⟩
  obtain ⟨more, rfl⟩ := hrs
  have hprinted := hkeeps.printed
  rw [Host.dialogue_append, Exchange.printed_append] at hprinted
  exact (List.prefix_append _ _).trans hprinted

/-- Two hosts that know the same variables and files, and what is compared of their runs. -/
structure Comparison (σ₁ σ₂ : Type) where
  left : Side σ₁
  right : Side σ₂
  agrees : left.host.Agrees left.state right.host right.state
  /-- The documents whose commands are to be the same. -/
  watched : Place → Bool
  /-- The documents whose commands print the same. -/
  heard : Place → Bool
  heard_append : ∀ place i, heard (place ++ [i]) = watched place
  watched_of_heard : ∀ {place}, heard place = true → watched place = true
  /-- What the commands print that are heard. -/
  outputs : List Text

namespace Comparison

open Schedule

variable (k : Comparison σ₁ σ₂)

/-- Whether a request is to be the same on both sides. -/
def sees (request : Request) : Bool := !request.2.isCommand || k.watched request.1

structure Level (r₁ : Run σ₁) (r₂ : Run σ₂) : Prop where
  left : k.left.Bears r₁
  right : k.right.Bears r₂
  requests : r₁.requests.filter k.sees = r₂.requests.filter k.sees
  printed : Exchange.printed k.heard (k.left.talk r₁) = Exchange.printed k.heard (k.right.talk r₂)

/--
Started on both sides, the plans come to the same kind of end and keep the runs level, as long as
their commands succeed and print what they are to print.
-/
def Parallels (Q : Text → Text → Prop) (p₁ p₂ : Plan) : Prop :=
  ∀ r₁ r₂, k.Level r₁ r₂ →
    k.left.Keeps k.heard k.outputs (start k.left.host p₁ r₁).2.requests →
    k.right.Keeps k.heard k.outputs (start k.right.host p₂ r₂).2.requests →
    Strand.Tally Q (start k.left.host p₁ r₁).1 (start k.right.host p₂ r₂).1 ∧
      k.Level (start k.left.host p₁ r₁).2 (start k.right.host p₂ r₂).2

theorem level_start : k.Level ⟨k.left.state, 0, []⟩ ⟨k.right.state, 0, []⟩ where
  left := rfl
  right := rfl
  requests := rfl
  printed := rfl

variable {k} {Q R : Text → Text → Prop}

namespace Level

variable {r₁ r₁' : Run σ₁} {r₂ r₂' : Run σ₂}

theorem of_eq (h : k.Level r₁ r₂) (hrequests₁ : r₁'.requests = r₁.requests)
    (hhost₁ : r₁'.host = r₁.host) (hrequests₂ : r₂'.requests = r₂.requests)
    (hhost₂ : r₂'.host = r₂.host) : k.Level r₁' r₂' := by
  refine ⟨h.left.of_eq hrequests₁ hhost₁, h.right.of_eq hrequests₂ hhost₂, ?_, ?_⟩
  · rw [hrequests₁, hrequests₂]
    exact h.requests
  · rw [Side.talk, Side.talk, hrequests₁, hrequests₂]
    exact h.printed

theorem filter_calls (h : k.Level r₁ r₂) :
    r₁.calls.filter (!·.isCommand) = r₂.calls.filter (!·.isCommand) := by
  -- Every request but a command is seen, and so is one of those that level runs share.
  have hcalls : ∀ requests : List Request, (requests.map (·.2)).filter (!·.isCommand) =
      ((requests.filter k.sees).filter fun request => !request.2.isCommand).map (·.2) := by
    intro requests
    rw [List.filter_filter, List.filter_map]
    congr 1
    refine List.filter_congr fun request _ => ?_
    cases hc : request.2.isCommand <;> simp [sees, hc]
  rw [← Run.map_requests, ← Run.map_requests, hcalls, hcalls, h.requests]

theorem filter_commands (h : k.Level r₁ r₂) :
    r₁.requests.filter (fun request => request.2.isCommand && k.watched request.1) =
      r₂.requests.filter (fun request => request.2.isCommand && k.watched request.1) := by
  have hcommands : ∀ requests : List Request,
      requests.filter (fun request => request.2.isCommand && k.watched request.1) =
        (requests.filter k.sees).filter fun request => request.2.isCommand := by
    intro requests
    rw [List.filter_filter]
    refine List.filter_congr fun request _ => ?_
    cases hc : request.2.isCommand <;> simp [sees, hc]
  rw [hcommands, hcommands, h.requests]

theorem answer_eq (h : k.Level r₁ r₂) {c : Call} (hc : c.isCommand = false) :
    (k.left.host c r₁.host).1.answer = (k.right.host c r₂.host).1.answer := by
  rw [h.left, h.right]
  exact k.agrees _ _ h.filter_calls c hc

theorem answered (h : k.Level r₁ r₂) (place : Place) {c : Call} (hc : c.isCommand = false) :
    k.Level (k.left.answered place c r₁) (k.right.answered place c r₂) := by
  have hprinted : ∀ answer, Exchange.printed k.heard [⟨place, c, answer⟩] = [] := by
    intro answer
    cases c <;> simp_all [Exchange.printed, Exchange.output?, Call.isCommand]
  refine ⟨h.left.answered place c, h.right.answered place c, ?_, ?_⟩
  · rw [Side.requests_answered, Side.requests_answered, List.filter_append, List.filter_append,
      h.requests]
  · rw [h.left.talk_answered, h.right.talk_answered, Exchange.printed_append,
      Exchange.printed_append, hprinted, hprinted, h.printed]

/-- Commands keep the runs level, the same ones if they are watched and with one output if heard. -/
theorem ran (h : k.Level r₁ r₂) {place : Place} {directory : Path}
    {runs₁ runs₂ : List (Text × Text)} (hr₁ : k.left.Bears r₁') (hr₂ : k.right.Bears r₂')
    (htalk₁ : k.left.talk r₁' = k.left.talk r₁ ++ Exchange.ran place directory runs₁)
    (htalk₂ : k.right.talk r₂' = k.right.talk r₂ ++ Exchange.ran place directory runs₂)
    (hcommands : k.watched place = true → runs₁.map Prod.fst = runs₂.map Prod.fst)
    (houtputs : k.heard place = true → runs₁.map Prod.snd = runs₂.map Prod.snd) :
    k.Level r₁' r₂' := by
  refine ⟨hr₁, hr₂, ?_, ?_⟩
  · rw [← k.left.map_talk, ← k.right.map_talk, htalk₁, htalk₂, List.map_append, List.map_append,
      Side.map_talk, Side.map_talk, List.filter_append, List.filter_append, h.requests,
      Exchange.map_request_ran, Exchange.map_request_ran]
    cases hwatched : k.watched place with
    | true => rw [hcommands hwatched]
    | false => simp [List.filter_map, sees, hwatched, Call.isCommand, Function.comp_def]
  · rw [htalk₁, htalk₂, Exchange.printed_append, Exchange.printed_append, Exchange.printed_ran,
      Exchange.printed_ran, h.printed]
    by_cases hheard : k.heard place = true
    · rw [houtputs hheard]
    · rw [if_neg hheard, if_neg hheard]

end Level

theorem eq_of_prefix {α : Type} {before as bs all : List α} (has : before ++ as <+: all)
    (hbs : before ++ bs <+: all) (hlength : as.length = bs.length) : as = bs := by
  have hle : (before ++ as).length ≤ (before ++ bs).length := by
    rw [List.length_append, List.length_append, hlength]
  have hprefix : before ++ as <+: before ++ bs := List.prefix_of_prefix_length_le has hbs hle
  exact (List.prefix_append_right_inj before |>.1 hprefix).eq_of_length hlength

namespace Parallels

theorem done {t₁ t₂ : Text} (h : Q t₁ t₂) : k.Parallels Q (.done t₁) (.done t₂) :=
  fun _ _ hlevel _ _ => ⟨.finished h, hlevel⟩

theorem halt {why : Halt} (h : why.AboutFiles) : k.Parallels Q (.halt why) (.halt why) :=
  fun _ _ hlevel _ _ => ⟨.halted h, hlevel⟩

theorem notes {place place' : Place} {ns ns' : List Notice} {p₁ p₂ : Plan}
    (hp : k.Parallels Q p₁ p₂) : k.Parallels Q (.notes place ns p₁) (.notes place' ns' p₂) := by
  intro r₁ r₂ hlevel hleft hright
  obtain ⟨r₁', hrequests₁, hhost₁, hstart₁⟩ := start_notes k.left.host place ns p₁ r₁
  obtain ⟨r₂', hrequests₂, hhost₂, hstart₂⟩ := start_notes k.right.host place' ns' p₂ r₂
  rw [hstart₁] at hleft ⊢
  rw [hstart₂] at hright ⊢
  exact hp _ _ (hlevel.of_eq hrequests₁ hhost₁ hrequests₂ hhost₂) hleft hright

theorem ask {place : Place} {c : Call} (hc : c.isCommand = false) {next₁ next₂ : c.Answer → Plan}
    (hnext : ∀ a, k.Parallels Q (next₁ a) (next₂ a)) :
    k.Parallels Q (.ask place c next₁) (.ask place c next₂) := by
  intro r₁ r₂ hlevel hleft hright
  rw [Side.start_ask] at hleft hright ⊢
  rw [Side.start_ask]
  rw [hlevel.answer_eq hc] at hleft ⊢
  exact hnext _ _ _ (hlevel.answered place hc) hleft hright

theorem bind {p₁ p₂ : Plan} {f₁ f₂ : Text → Plan} (hp : k.Parallels Q p₁ p₂)
    (hf : ∀ t₁ t₂, Q t₁ t₂ → k.Parallels R (f₁ t₁) (f₂ t₂)) :
    k.Parallels R (p₁.bind f₁) (p₂.bind f₂) := by
  intro r₁ r₂ hlevel hleft hright
  rw [start_bind] at hleft hright ⊢
  rw [start_bind]
  obtain ⟨htally, hlevel'⟩ := hp r₁ r₂ hlevel (hleft.of_prefix (requests_follow k.left.host _ _))
    (hright.of_prefix (requests_follow k.right.host _ _))
  revert hleft hright htally hlevel'
  obtain ⟨strand₁, r₁'⟩ := start k.left.host p₁ r₁
  obtain ⟨strand₂, r₂'⟩ := start k.right.host p₂ r₂
  intro hleft hright htally hlevel'
  cases htally with
  | finished ht => exact hf _ _ ht r₁' r₂' hlevel' hleft hright
  | halted hwhy => exact ⟨.halted hwhy, hlevel'⟩

theorem sweep {ps₁ ps₂ : List Plan} (hps : List.Forall₂ (k.Parallels Q) ps₁ ps₂) (rule : JoinRule)
    {r₁ : Run σ₁} {r₂ : Run σ₂} (hlevel : k.Level r₁ r₂)
    (hleft : k.left.Keeps k.heard k.outputs
      (Schedule.sweep (start k.left.host) rule true ps₁ r₁).2.requests)
    (hright : k.right.Keeps k.heard k.outputs
      (Schedule.sweep (start k.right.host) rule true ps₂ r₂).2.requests) :
    Strand.TallyAll Q (Schedule.sweep (start k.left.host) rule true ps₁ r₁).1
        (Schedule.sweep (start k.right.host) rule true ps₂ r₂).1 ∧
      k.Level (Schedule.sweep (start k.left.host) rule true ps₁ r₁).2
        (Schedule.sweep (start k.right.host) rule true ps₂ r₂).2 := by
  induction hps generalizing r₁ r₂ with
  | nil => exact ⟨.ok .nil, hlevel⟩
  | @cons p₁ p₂ ps₁ ps₂ hp _ ih =>
    obtain ⟨htally, hlevel'⟩ := hp r₁ r₂ hlevel
      (hleft.of_prefix (requests_sweep_cons k.left.host rule true p₁ ps₁ r₁))
      (hright.of_prefix (requests_sweep_cons k.right.host rule true p₂ ps₂ r₂))
    rw [Schedule.sweep] at hleft hright ⊢
    rw [Schedule.sweep]
    revert hleft hright htally hlevel'
    obtain ⟨strand₁, r₁'⟩ := start k.left.host p₁ r₁
    obtain ⟨strand₂, r₂'⟩ := start k.right.host p₂ r₂
    intro hleft hright htally hlevel'
    cases htally with
    | halted hwhy =>
      -- Every earlier branch has a text, so that the failure counts by either rule.
      have hends : ∀ why, ends? rule true (.halted why) = some why := by
        intro why
        cases rule <;> rfl
      rw [hends]
      exact ⟨.error hwhy, hlevel'⟩
    | finished ht =>
      have hends : ∀ t, ends? rule true (.finished t) = none := fun _ => rfl
      simp only [hends, Strand.isFinished, Bool.and_true] at hleft hright ⊢
      obtain ⟨htallies, hlevel''⟩ := ih hlevel' hleft hright
      exact ⟨htallies.cons ht, hlevel''⟩

theorem join {ps₁ ps₂ : List Plan} (hps : List.Forall₂ (k.Parallels Q) ps₁ ps₂) {rule : JoinRule}
    {next₁ next₂ : List Text → Plan}
    (hnext : ∀ ts₁ ts₂, List.Forall₂ Q ts₁ ts₂ → k.Parallels R (next₁ ts₁) (next₂ ts₂)) :
    k.Parallels R (.join rule ps₁ next₁) (.join rule ps₂ next₂) := by
  intro r₁ r₂ hlevel hleft hright
  rw [start_join] at hleft hright ⊢
  rw [start_join]
  obtain ⟨htallies, hlevel'⟩ := sweep hps rule hlevel
    (hleft.of_prefix (requests_conclude k.left.host _ _ _))
    (hright.of_prefix (requests_conclude k.right.host _ _ _))
  revert hleft hright htallies hlevel'
  obtain ⟨swept₁, r₁'⟩ := Schedule.sweep (start k.left.host) rule true ps₁ r₁
  obtain ⟨swept₂, r₂'⟩ := Schedule.sweep (start k.right.host) rule true ps₂ r₂
  intro hleft hright htallies hlevel'
  cases htallies with
  | ok hts =>
    have htexts : ∀ ts : List Text, Strand.texts? (ts.map .finished) = some ts :=
      fun ts => Strand.texts?_eq_some_iff.2 rfl
    simp only [conclude, htexts] at hleft hright ⊢
    exact hnext _ _ hts r₁' r₂' hlevel' hleft hright
  | error hwhy => exact ⟨.halted hwhy, hlevel'⟩

theorem noteIf {opts : Options} {place : Place} {n : Notice} {p₁ p₂ : Plan}
    (hp : k.Parallels Q p₁ p₂) :
    k.Parallels Q (.noteIf opts place n p₁) (.noteIf opts place n p₂) := by
  rw [Plan.noteIf_eq, Plan.noteIf_eq]
  exact .notes hp

theorem pass {opts : Options} {place : Place} {source : Source} {kind : Marker.Kind} {text : Text}
    {resolve resolve' : Nat → Text → Plan}
    (hresolve : ∀ i payload, k.Parallels Q (resolve i payload) (resolve' i payload))
    (hsplice : ∀ ts₁ ts₂, List.Forall₂ Q ts₁ ts₂ →
      R (Segment.splice (Marker.scan kind text) ts₁) (Segment.splice (Marker.scan kind text) ts₂)) :
    k.Parallels R (.pass opts place source kind text resolve)
      (.pass opts place source kind text resolve') := by
  rw [Plan.pass_eq, Plan.pass_eq]
  refine notes (join ?_ fun ts₁ ts₂ hts => done (hsplice ts₁ ts₂ hts))
  rw [Plan.branches, Plan.branches, List.forall₂_iff_get]
  exact ⟨by simp, fun i _ _ => by simpa using hresolve i _⟩

theorem readFile {opts : Options} {place : Place} {source : Source} {path : Path}
    {nested nested' : Text → Plan} (hn : ∀ text, k.Parallels Q (nested text) (nested' text)) :
    k.Parallels Q (.readFile opts place source path nested)
      (.readFile opts place source path nested') := by
  refine noteIf (ask rfl fun answer => ?_)
  rcases answer with cause | text
  · exact halt (.unreadable path cause)
  · exact hn text

/--
The commands of a document that is watched are the same on both sides, since its text is; the
commands of any other document pass without notice.
-/
theorem commands {opts : Options} {place : Place} {source : Source} {text₁ text₂ : Text}
    (htext : k.watched place = true → text₁ = text₂) :
    k.Parallels (fun t₁ t₂ => k.heard place = true → t₁ = t₂)
      (.pass opts place source .command text₁ fun _ command =>
        .resolveCommand opts place source command)
      (.pass opts place source .command text₂ fun _ command =>
        .resolveCommand opts place source command) := by
  intro r₁ r₂ hlevel hleft hright
  obtain ⟨runs₁, r₁', hruns₁, hstart₁, hr₁, htalk₁⟩ :=
    Side.start_commands text₁ hlevel.left hleft.succeeds
  obtain ⟨runs₂, r₂', hruns₂, hstart₂, hr₂, htalk₂⟩ :=
    Side.start_commands text₂ hlevel.right hright.succeeds
  rw [hstart₁] at hleft ⊢
  rw [hstart₂] at hright ⊢
  have hcommands : k.watched place = true → runs₁.map Prod.fst = runs₂.map Prod.fst := by
    intro hwatched
    rw [hruns₁, hruns₂, htext hwatched]
  have hprinted₁ := hleft.printed
  have hprinted₂ := hright.printed
  rw [← Side.talk, htalk₁, Exchange.printed_append, Exchange.printed_ran] at hprinted₁
  rw [← Side.talk, htalk₂, Exchange.printed_append, Exchange.printed_ran] at hprinted₂
  -- Both have printed the same so far, and both go on by equally many of the outputs to come.
  have houtputs : k.heard place = true → runs₁.map Prod.snd = runs₂.map Prod.snd := by
    intro hheard
    have hlength := congrArg List.length (hcommands (k.watched_of_heard hheard))
    rw [if_pos hheard, hlevel.printed] at hprinted₁
    rw [if_pos hheard] at hprinted₂
    exact eq_of_prefix hprinted₁ hprinted₂ (by simpa using hlength)
  refine ⟨.finished fun hheard => ?_, hlevel.ran hr₁ hr₂ htalk₁ htalk₂ hcommands houtputs⟩
  rw [houtputs hheard, htext (k.watched_of_heard hheard)]

theorem names (opts : Options) (place : Place) (source : Source) (text : Text) :
    k.Parallels Eq
      (.pass opts place source .lookup text fun _ name => .resolveName opts place source name)
      (.pass opts place source .lookup text fun _ name => .resolveName opts place source name) := by
  refine pass (Q := Eq) (fun _ _ => noteIf (ask rfl fun _ => done rfl)) fun ts₁ ts₂ hts => ?_
  rw [List.forall₂_eq_eq_eq] at hts
  rw [hts]

/-- The texts of the files that a document includes differ only where nobody watches. -/
theorem inclusions {opts : Options} {place : Place} {source : Source} {text : Text}
    {files files' : Nat → Text → Plan}
    (hfiles : ∀ i relative, k.Parallels (fun t₁ t₂ => k.watched place = true → t₁ = t₂)
      (files i relative) (files' i relative)) :
    k.Parallels (fun t₁ t₂ => k.watched place = true → t₁ = t₂)
      (.pass opts place source .inclusion text files)
      (.pass opts place source .inclusion text files') := by
  refine pass hfiles fun ts₁ ts₂ hts hwatched => ?_
  have heq : List.Forall₂ Eq ts₁ ts₂ := hts.imp fun _ _ ht => ht hwatched
  rw [List.forall₂_eq_eq_eq] at heq
  rw [heq]

/--
As documents, renderings are compared where they are heard. What a file comes to is heard just where
the document that includes it is watched.
-/
theorem related (k : Comparison σ₁ σ₂) (opts : Options) :
    Parts.Related (Plan.parts (.strays opts) opts) (Plan.parts (.strays opts) opts)
      (fun _ => False) (fun _ => False)
      (fun place place' p₁ p₂ => place = place' →
        k.Parallels (fun t₁ t₂ => k.watched place = true → t₁ = t₂) p₁ p₂)
      fun place place' p₁ p₂ => place = place' →
        k.Parallels (fun t₁ t₂ => k.heard place = true → t₁ = t₂) p₁ p₂ where
  document hfiles := by
    rintro rfl
    simp only [Parts.document, Plan.parts, ← Plan.pass_eq_passWith]
    refine bind (Q := Eq) (names opts _ _ _) ?_
    rintro named _ rfl
    refine bind (inclusions fun i relative => hfiles i relative rfl) fun u₁ u₂ hu => ?_
    refine bind (commands hu) fun t₁ t₂ ht => done fun hheard => ?_
    rw [ht hheard]
  inner {place _ i _ _} h := by
    rintro rfl
    rw [← k.heard_append place i]
    exact h rfl
  identify hnext hplace := by
    subst hplace
    exact ask rfl fun identity => hnext identity rfl
  opening hnext hplace := by
    subst hplace
    exact ask rfl fun identity => hnext identity rfl
  read hnext := by
    rintro rfl
    exact readFile fun text => hnext text rfl
  refused h _ := by
    cases h with
    | deep => exact halt .tooDeep
    | cycle chain => exact halt (.cycle _)
    | left h | right h => exact h.elim
  deep h _ := by
    cases h with
    | deep => exact halt .tooDeep
    | cycle chain => exact halt (.cycle _)
    | left h | right h => exact h.elim

theorem passes (opts : Options) (depth : Nat) (place : Place) (source : Source) (chain : List Path)
    (text : Text) :
    k.Parallels (fun t₁ t₂ => k.heard place = true → t₁ = t₂)
      (.passes opts depth place source chain text)
      (.passes opts depth place source chain text) := by
  rw [Plan.passes_eq_parts]
  exact (related k opts).passes (.refl _ _ depth chain) rfl

theorem included (opts : Options) (depth : Nat) (place : Place) (source : Source)
    (chain : List Path) (text : Text) :
    k.Parallels (fun t₁ t₂ => k.watched place = true → t₁ = t₂)
      (.included opts depth place source chain text)
      (.included opts depth place source chain text) := by
  refine bind (names opts place source text) ?_
  rintro named _ rfl
  refine inclusions fun i relative => ?_
  rw [Plan.resolveFile_eq_parts (.strays opts)]
  refine (related k opts).file (.refl _ _ depth chain) (fun path _ _ text hchains => ?_)
    opts.detectCycles source relative rfl
  rw [Plan.passes_eq_parts, Plan.passes_eq_parts]
  exact (related k opts).inner ((related k opts).passes hchains)

end Parallels

theorem Level.exists_start_render {r₁ : Run σ₁} {r₂ : Run σ₂} (hlevel : k.Level r₁ r₂)
    (opts : Options) (depth : Nat) (place : Place) (source : Source) (text : Text) :
    ∃ chain r₁' r₂', k.Level r₁' r₂' ∧
      start k.left.host (.render opts depth place source text) r₁ =
        start k.left.host (.passes opts depth place source chain text) r₁' ∧
      start k.right.host (.render opts depth place source text) r₂ =
        start k.right.host (.passes opts depth place source chain text) r₂' := by
  rw [Plan.render]
  cases opts.detectCycles with
  | false => exact ⟨[], r₁, r₂, hlevel, rfl, rfl⟩
  | true =>
    cases source with
    | stdin => exact ⟨[], r₁, r₂, hlevel, rfl, rfl⟩
    | file path =>
      have hcall : (Call.identify path).isCommand = false := rfl
      have hanswer := hlevel.answer_eq hcall
      refine ⟨[(k.left.host (.identify path) r₁.host).1.answer], _, _,
        hlevel.answered place hcall, ?_, ?_⟩
      · exact k.left.start_ask place (.identify path) _ r₁
      · rw [hanswer]
        exact k.right.start_ask place (.identify path) _ r₂

theorem Parallels.render (opts : Options) (depth : Nat) (place : Place) (source : Source)
    (text : Text) :
    k.Parallels (fun t₁ t₂ => k.heard place = true → t₁ = t₂)
      (.render opts depth place source text) (.render opts depth place source text) := by
  intro r₁ r₂ hlevel
  obtain ⟨chain, r₁', r₂', hlevel', hstart₁, hstart₂⟩ :=
    hlevel.exists_start_render opts depth place source text
  rw [hstart₁, hstart₂]
  exact passes opts depth place source chain text r₁' r₂' hlevel'

/--
Both sides come to their texts by the commands of the document. Where it is watched, these are the
markers of one text, and each side sets in their places what it has printed.
-/
theorem Level.exists_completes {r₁ r₁' : Run σ₁} {r₂ r₂' : Run σ₂} (hlevel : k.Level r₁ r₂)
    {opts : Options} {depth : Nat} {place : Place} {source : Source} {chain : List Path}
    {text t₁ t₂ : Text}
    (hstart₁ : start k.left.host (.passes opts depth place source chain text) r₁ =
      (.finished t₁, r₁'))
    (hstart₂ : start k.right.host (.passes opts depth place source chain text) r₂ =
      (.finished t₂, r₂'))
    (hleft : k.left.Keeps k.heard k.outputs r₁'.requests)
    (hright : k.right.Keeps k.heard k.outputs r₂'.requests) :
    ∃ u₁ u₂, (k.watched place = true → u₁ = u₂) ∧
      k.left.host.Completes k.left.state r₁'.requests place source u₁ t₁ ∧
      k.right.host.Completes k.right.state r₂'.requests place source u₂ t₂ := by
  obtain _ | depth := depth
  · cases hstart₁
  rw [Plan.passes_succ] at hstart₁ hstart₂
  obtain ⟨u₁, r₁'', hincluded₁, hcommands₁⟩ := exists_start_of_bind hstart₁
  obtain ⟨u₂, r₂'', hincluded₂, hcommands₂⟩ := exists_start_of_bind hstart₂
  have htally := Parallels.included opts depth place source chain text r₁ r₂ hlevel
  rw [hincluded₁, hincluded₂] at htally
  obtain ⟨htally, hlevel'⟩ := htally (hleft.of_prefix (requests_of_start hcommands₁))
    (hright.of_prefix (requests_of_start hcommands₂))
  cases htally with
  | finished hu =>
    exact ⟨u₁, u₂, hu, Side.completes hlevel'.left hcommands₁ hleft.succeeds,
      Side.completes hlevel'.right hcommands₂ hright.succeeds⟩

theorem Parallels.run {p₁ p₂ : Plan} (hp : k.Parallels Q p₁ p₂) {rounds₁ rounds₂ : Nat}
    {o₁ o₂ : Outcome} {r₁ : Run σ₁} {r₂ : Run σ₂}
    (hrun₁ : Schedule.run k.left.host rounds₁ p₁ ⟨k.left.state, 0, []⟩ = (o₁, r₁))
    (hrun₂ : Schedule.run k.right.host rounds₂ p₂ ⟨k.right.state, 0, []⟩ = (o₂, r₂))
    (hleft : k.left.Keeps k.heard k.outputs r₁.requests)
    (hright : k.right.Keeps k.heard k.outputs r₂.requests) :
    k.Level r₁ r₂ ∧
      ((∃ t₁ t₂, o₁ = .text t₁ ∧ o₂ = .text t₂ ∧
        start k.left.host p₁ ⟨k.left.state, 0, []⟩ = (.finished t₁, r₁) ∧
        start k.right.host p₂ ⟨k.right.state, 0, []⟩ = (.finished t₂, r₂)) ∨
      ∃ why : Halt, why.AboutFiles ∧ o₁ = .halted why ∧ o₂ = .halted why) := by
  obtain ⟨htally, hlevel⟩ := hp _ _ k.level_start (hleft.of_prefix (requests_of_run hrun₁))
    (hright.of_prefix (requests_of_run hrun₂))
  rcases hstart₁ : start k.left.host p₁ ⟨k.left.state, 0, []⟩ with ⟨strand₁, r₁'⟩
  rcases hstart₂ : start k.right.host p₂ ⟨k.right.state, 0, []⟩ with ⟨strand₂, r₂'⟩
  rw [run_of_start hstart₁] at hrun₁
  rw [run_of_start hstart₂] at hrun₂
  rw [hstart₁, hstart₂] at htally hlevel
  cases htally with
  | finished hQ =>
    rw [finish_finished] at hrun₁ hrun₂
    cases hrun₁
    cases hrun₂
    exact ⟨hlevel, .inl ⟨_, _, rfl, rfl, rfl, rfl⟩⟩
  | halted hwhy =>
    rw [finish_halted] at hrun₁ hrun₂
    cases hrun₁
    cases hrun₂
    exact ⟨hlevel, .inr ⟨_, hwhy, rfl, rfl⟩⟩

end Comparison
end Inlay
