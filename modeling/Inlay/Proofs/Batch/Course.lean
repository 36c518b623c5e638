import Inlay.Proofs.Batch.Ledger
import Inlay.World.Host
import Mathlib.Logic.Relation

/-!
The courses that a batch can take. Any of its documents may go on at any time, the clock may move to
any time, and the first document that is not written yet may be written once it is done. Whatever
the course, where the outcome of every document is a foregone conclusion, a batch that comes to its
end has written the documents one after the other in their order.
-/
namespace Inlay

variable {σ : Type} {h : Host σ}

def Host.Quiet (h : Host σ) : Prop := ∀ c s, ∀ line ∈ (h c s).1.remarks, line.level ≠ .error

/-- Nothing that is still to be said with an answer is an error. -/
inductive Strand.Quiet : Strand → Prop
  | finished (t : Text) : Quiet (.finished t)
  | halted (why : Halt) : Quiet (.halted why)
  | waiting {due : Nat} {place : Place} {c : Call} {remarks : List Log.Line} {rest : Plan} :
    (∀ line ∈ remarks, line.level ≠ .error) → Quiet (.waiting due place c remarks rest)
  | joining {rule : JoinRule} {strands : List Strand} {next : List Text → Plan} :
    (∀ s ∈ strands, Quiet s) → Quiet (.joining rule strands next)

namespace Run

theorem errors_record {r : Run σ} {e : Event} (he : e.error? = none) :
    (r.record e).errors = r.errors := by
  simp [errors, he]

theorem errors_begin (h : Host σ) (place : Place) (c : Call) (r : Run σ) :
    (r.begin h place c).2.errors = r.errors := by
  simp [errors, Event.error?]

theorem errors_arrive {place : Place} {c : Call} {remarks : List Log.Line}
    (hremarks : ∀ line ∈ remarks, line.level ≠ .error) (r : Run σ) :
    (r.arrive place c remarks).errors = r.errors := by
  have hnone : (remarks.map Event.said).filterMap Event.error? = [] := by
    rw [List.filterMap_map, List.filterMap_eq_nil_iff]
    rintro ⟨level, message⟩ hline
    have hlevel := hremarks _ hline
    cases level <;> first | rfl | exact absurd rfl hlevel
  rw [errors, events_arrive, List.filterMap_append, List.filterMap_cons, hnone]
  simp [errors, Event.error?]

end Run

namespace Schedule

/-- A strand that is quiet, after a run in which nothing was said of errors. -/
def QuietAfter (r : Run σ) (started : Strand × Run σ) : Prop :=
  started.1.Quiet ∧ started.2.errors = r.errors

theorem sweep_quiet {α : Type} {f : α → Run σ → Strand × Run σ} (rule : JoinRule) {as : List α}
    (hf : ∀ a ∈ as, ∀ r, QuietAfter r (f a r)) (clear : Bool) (r : Run σ) :
    (∀ ss, (sweep f rule clear as r).1 = .ok ss → ∀ s ∈ ss, s.Quiet) ∧
      (sweep f rule clear as r).2.errors = r.errors := by
  induction as generalizing clear r with
  | nil =>
    constructor
    · rintro ss ⟨⟩ s hs
      cases hs
    · rfl
  | cons a as ih =>
    -- The branches behind are started from the run that this one leaves.
    obtain ⟨hstrand, herrors⟩ := hf a (by simp) r
    obtain ⟨hrest, herrors'⟩ := ih (fun b hb => hf b (by simp [hb]))
      (clear && (f a r).1.isFinished) (f a r).2
    rw [sweep]
    cases ends? rule clear (f a r).1 with
    | some why => exact ⟨by simp, herrors⟩
    | none =>
      refine ⟨?_, herrors'.trans herrors⟩
      dsimp only
      cases hswept : (sweep f rule (clear && (f a r).1.isFinished) as (f a r).2).1 with
      | error why =>
        rintro ss ⟨⟩
      | ok rest =>
        rintro ss ⟨⟩ s hs
        rcases List.mem_cons.1 hs with rfl | hs
        · exact hstrand
        · exact hrest rest hswept s hs

theorem conclude_quiet (rule : JoinRule) {next : List Text → Plan}
    (hnext : ∀ ts r, QuietAfter r (start h (next ts) r))
    {x : Except Halt (List Strand) × Run σ} (hx : ∀ ss, x.1 = .ok ss → ∀ s ∈ ss, s.Quiet) :
    QuietAfter x.2 (conclude h rule next x) := by
  obtain ⟨why | strands, r⟩ := x
  · exact ⟨.halted why, rfl⟩
  · rw [conclude]
    cases Strand.texts? strands with
    | some texts => exact hnext texts r
    | none => exact ⟨.joining (hx strands rfl), rfl⟩

theorem start_quiet (hquiet : h.Quiet) (p : Plan) (r : Run σ) : QuietAfter r (start h p r) := by
  induction p generalizing r with
  | done t => exact ⟨.finished t, rfl⟩
  | halt why => exact ⟨.halted why, rfl⟩
  | note place n rest ih =>
    obtain ⟨hstrand, herrors⟩ := ih (r.record (.noted place n))
    rw [start]
    exact ⟨hstrand, herrors.trans (Run.errors_record rfl)⟩
  | ask place c next ih =>
    rw [start_ask]
    split
    · obtain ⟨hstrand, herrors⟩ := ih (h c r.host).1.answer
        ((r.begin h place c).2.arrive place c (h c r.host).1.remarks)
      exact ⟨hstrand, herrors.trans ((Run.errors_arrive (hquiet c r.host) _).trans
        (Run.errors_begin h place c r))⟩
    · exact ⟨.waiting (hquiet c r.host), Run.errors_begin h place c r⟩
  | join rule branches next ihb ihn =>
    obtain ⟨hstrands, herrors⟩ := sweep_quiet rule ihb true r
    obtain ⟨hstrand, herrors'⟩ := conclude_quiet rule ihn hstrands
    rw [start_join]
    exact ⟨hstrand, herrors'.trans herrors⟩

theorem resume_quiet (hquiet : h.Quiet) {s : Strand} (hs : s.Quiet) (r : Run σ) :
    QuietAfter r (resume h s r) := by
  induction hs generalizing r with
  | finished t => exact ⟨.finished t, rfl⟩
  | halted why => exact ⟨.halted why, rfl⟩
  | @waiting due place c remarks rest hremarks =>
    rw [resume]
    split
    · obtain ⟨hstrand, herrors⟩ := start_quiet hquiet rest (r.arrive place c remarks)
      exact ⟨hstrand, herrors.trans (Run.errors_arrive hremarks r)⟩
    · exact ⟨.waiting hremarks, rfl⟩
  | joining _ ih =>
    obtain ⟨hstrands, herrors⟩ := sweep_quiet _ (fun s hs r => ih s hs r) true r
    obtain ⟨hstrand, herrors'⟩ := conclude_quiet _ (fun ts r => start_quiet hquiet _ r) hstrands
    rw [resume_joining]
    exact ⟨hstrand, herrors'.trans herrors⟩

end Schedule

/-- With the answers of an oracle, the plan can come to no other end. -/
structure Plan.Ends (f : Oracle) (outcome : Except Halt Text) (p : Plan) : Prop where
  text : ∀ t cs, p.Yields f.only t cs → outcome = .ok t
  halt : p.Safe f.only (fun _ => True) (fun why => outcome = .error why)

theorem Plan.Ends.of_yields {f : Oracle} {p : Plan} {t : Text} {cs : Multiset Call}
    (h : p.Yields f.only t cs) : p.Ends f (.ok t) :=
  ⟨fun _ _ h' => congrArg Except.ok (h.unique h').1, h.safe fun _ => trivial⟩

theorem Task.Steps.ends {f : Oracle} {outcome : Except Halt Text} {n : Nat} {t u : Task}
    {es : List Event} (hsteps : Task.Steps f.only n t es u) (ht : t.residue.Ends f outcome) :
    u.residue.Ends f outcome :=
  ⟨fun x _ hx => ht.text x _ (hsteps.yields hx), (hsteps.safe ht.halt).1⟩

namespace Batch

namespace Progress

def task : Progress → Task
  | idle p => .plan p
  | under s => s.task

/-- Nothing that is still to be said for the document is an error. -/
def Quiet : Progress → Prop
  | idle _ => True
  | under s => s.Quiet

theorem step_advances (h : Host σ) (p : Progress) (r : Run σ) :
    Schedule.Advances h (∃ t, p.due = some t ∧ t ≤ r.now) p.task r (p.step h r).1.task
      (p.step h r).2 := by
  cases p with
  | idle p => exact (Schedule.start_advances h p r).mono (by simp [due])
  | under s => exact Schedule.resume_advances h s r

theorem step_quiet (hquiet : h.Quiet) {p : Progress} (hp : p.Quiet) (r : Run σ) :
    (p.step h r).1.Quiet ∧ (p.step h r).2.errors = r.errors := by
  cases p with
  | idle p => exact Schedule.start_quiet hquiet p r
  | under s => exact Schedule.resume_quiet hquiet hp r

theorem task_of_outcome? {p : Progress} {outcome : Except Halt Text}
    (hp : p.outcome? = some outcome) :
    p.task = .plan (match outcome with
      | .ok text => .done text
      | .error why => .halt why) := by
  rcases p with _ | _ | _ | _ | _ <;> cases hp <;> rfl

end Progress

/-- A batch under way, with the documents that are still to be written in their order. -/
structure Course where
  docs : Flight
  desk : Desk
  run : Run World

namespace Course

inductive Step (h : Host World) : Course → Course → Prop
  /-- Some document goes on as far as it can. -/
  | go (before after : Flight) (source : Source) (p : Progress) (desk : Desk) (r : Run World) :
    Step h ⟨before ++ (source, p) :: after, desk, r⟩
      ⟨before ++ (source, (p.step h r).1) :: after, desk, (p.step h r).2⟩
  | wait (docs : Flight) (desk : Desk) (r : Run World) (t : Nat) :
    Step h ⟨docs, desk, r⟩ ⟨docs, desk, { r with now := t }⟩
  /-- The first document is written, or the reason is told why it is not. -/
  | deliver {source : Source} {p : Progress} {outcome : Except Halt Text} (rest : Flight)
      (desk : Desk) (r : Run World) (hp : p.outcome? = some outcome) :
    Step h ⟨(source, p) :: rest, desk, r⟩
      ⟨rest, (desk.deliver source outcome r).1, (desk.deliver source outcome r).2⟩

/-- The second course is one in which the first can go on. -/
def Reaches (h : Host World) : Course → Course → Prop := Relation.ReflTransGen (Step h)

variable {h : Host World} {outcome : Source → Except Halt Text} {c c' : Course}

/--
What becomes of a document depends neither on the time at which anything happens nor on anything
that the batch writes: in every course that the batch can take, a document that is done has come to
the same outcome.
-/
def Foregone (h : Host World) (outcome : Source → Except Halt Text) (c : Course) : Prop :=
  ∀ c', Reaches h c c' → ∀ source p, (source, p) ∈ c'.docs → ∀ o, p.outcome? = some o →
    o = outcome source

/-- No rendering writes a file itself, nor to standard output, whatever course the batch takes. -/
def Harmless (h : Host World) (c : Course) : Prop :=
  ∀ c', Reaches h c c' → ∀ source p, (source, p) ∈ c'.docs →
    (p.step h c'.run).2.host.outside = c'.run.host.outside

theorem Foregone.reaches (hc : Foregone h outcome c) (hreach : Reaches h c c') :
    Foregone h outcome c' := fun c'' hreach' => hc c'' (hreach.trans hreach')

theorem Harmless.reaches (hc : Harmless h c) (hreach : Reaches h c c') : Harmless h c' :=
  fun c'' hreach' => hc c'' (hreach.trans hreach')

/-- The documents that are still to be written, with what becomes of them. -/
def conclusions (outcome : Source → Except Halt Text) (docs : Flight) :
    List (Source × Except Halt Text) := docs.map fun doc => (doc.1, outcome doc.1)

/-- Nothing that is still to be said is an error. -/
def Quiet (c : Course) : Prop := ∀ source p, (source, p) ∈ c.docs → p.Quiet

/--
The course has come to what the posting of documents comes to: their ledger is all that is added to
the report and, on a quiet host, to what has been said of errors.
-/
structure Records (h : Host World) (c : Course) (desk : Desk)
    (documents : List (Source × Except Halt Text)) (r : Run World) : Prop where
  desk_eq : c.desk = ⟨(postAll desk.router documents r).2.1,
    desk.report.enter (postAll desk.router documents r).1⟩
  outside_eq : c.run.host.outside = (postAll desk.router documents r).2.2.host.outside
  errors_eq : h.Quiet → c.run.errors = r.errors ++ (postAll desk.router documents r).1.errors

theorem Records.congr {desk : Desk} {documents : List (Source × Except Halt Text)}
    {r₁ r₂ : Run World} (hc : c.Records h desk documents r₁)
    (houtside : r₁.host.outside = r₂.host.outside) (herrors : h.Quiet → r₁.errors = r₂.errors) :
    c.Records h desk documents r₂ := by
  obtain ⟨hsame, hlast⟩ := (plain_postAll desk.router documents).congr houtside
  obtain ⟨hledger, hrouter⟩ := Prod.mk.inj hsame
  exact ⟨by rw [hc.desk_eq, hledger, hrouter], hc.outside_eq.trans hlast,
    fun hquiet => by rw [hc.errors_eq hquiet, herrors hquiet, hledger]⟩

/-- On the way from one course to another, a document is delivered with an outcome. -/
def Delivers (h : Host World) (c last : Course) (source : Source) (outcome : Except Halt Text) :
    Prop :=
  ∃ p rest desk r, p.outcome? = some outcome ∧ Reaches h c ⟨(source, p) :: rest, desk, r⟩ ∧
    Reaches h ⟨rest, (desk.deliver source outcome r).1, (desk.deliver source outcome r).2⟩ last

theorem Delivers.head {c last : Course} {source : Source} {o : Except Halt Text}
    (hstep : Step h c c') (hc' : Delivers h c' last source o) : Delivers h c last source o := by
  obtain ⟨p, rest, desk, r, hp, hbefore, hafter⟩ := hc'
  exact ⟨p, rest, desk, r, hp, .head hstep hbefore, hafter⟩

/-- A batch that comes to its end has posted its documents one after the other in their order. -/
theorem Reaches.exists_records (hreach : Reaches h c c') (hend : c'.docs = [])
    (hc : h.Quiet → c.Quiet) (hharmless : Harmless h c) :
    ∃ documents : List (Source × Except Halt Text),
      documents.map Prod.fst = c.docs.map Prod.fst ∧
      (∀ document ∈ documents, Delivers h c c' document.1 document.2) ∧
      c'.Records h c.desk documents c.run := by
  induction hreach using Relation.ReflTransGen.head_induction_on with
  | refl =>
    obtain ⟨docs, desk, r⟩ := c'
    subst hend
    exact ⟨[], rfl, by simp, by simp [postAll, Report.enter, Ledger.texts, Ledger.failures], rfl,
      by simp [postAll, Ledger.errors, Ledger.failures]⟩
  | head hstep hreach ih =>
    have hrest := fun hq => ih hq (hharmless.reaches (Relation.ReflTransGen.single hstep))
    cases hstep with
    | go before after source p desk r =>
      have hmem : (source, p) ∈ before ++ (source, p) :: after := by simp
      -- A step of a rendering posts nothing; it keeps the files and the errors as they are.
      obtain ⟨documents, hsources, hdelivers, hrecords⟩ := hrest fun hquiet source' p' hp' => by
        rcases List.mem_append.1 hp' with hp' | hp'
        · exact hc hquiet source' p' (by simp [hp'])
        · rcases List.mem_cons.1 hp' with heq | hp'
          · cases heq
            exact (p.step_quiet hquiet (hc hquiet source p hmem) r).1
          · exact hc hquiet source' p' (by simp [hp'])
      refine ⟨documents, by simpa using hsources,
        fun document hdocument => (hdelivers document hdocument).head (.go ..), ?_⟩
      exact hrecords.congr (hharmless _ .refl source p hmem) fun hquiet =>
        (p.step_quiet hquiet (hc hquiet source p hmem) r).2
    | wait docs desk r t =>
      obtain ⟨documents, hsources, hdelivers, hrecords⟩ := hrest hc
      exact ⟨documents, hsources,
        fun document hdocument => (hdelivers document hdocument).head (.wait ..),
        hrecords.congr rfl fun _ => rfl⟩
    | @deliver source p o rest desk r hp =>
      -- The document at the front is posted first, and the others find what it has left.
      obtain ⟨hdesk, hposted, herrors⟩ := deliver_eq desk source o r
      obtain ⟨documents, hsources, hdelivers, hrecords⟩ :=
        hrest fun hquiet source' p' hp' => hc hquiet source' p' (by simp [hp'])
      rw [hdesk] at hrecords
      obtain ⟨hsame, hlast⟩ := (plain_postAll (post desk.router source o r).2.1 documents).congr
        (congrArg World.outside hposted.host)
      obtain ⟨hledger, hrouter⟩ := Prod.mk.inj hsame
      refine ⟨(source, o) :: documents, congrArg (source :: ·) hsources, ?_, ?_, ?_, ?_⟩
      · intro document hdocument
        rcases List.mem_cons.1 hdocument with rfl | hdocument
        · exact ⟨p, rest, desk, r, hp, .refl, hreach⟩
        · exact (hdelivers document hdocument).head (.deliver rest desk r hp)
      · rw [hrecords.desk_eq, hledger, hrouter, ← Report.enter_cons]
        rfl
      · exact hrecords.outside_eq.trans hlast
      · intro hquiet
        rw [hrecords.errors_eq hquiet, herrors, hledger, List.append_assoc, ← Ledger.errors_cons]
        rfl

theorem Reaches.records (hreach : Reaches h c c') (hend : c'.docs = [])
    (hc : h.Quiet → c.Quiet) (hforegone : Foregone h outcome c) (hharmless : Harmless h c) :
    c'.Records h c.desk (conclusions outcome c.docs) c.run := by
  obtain ⟨documents, hsources, hdelivers, hrecords⟩ := hreach.exists_records hend hc hharmless
  have hdocuments : documents = conclusions outcome c.docs := by
    calc documents = documents.map fun document => (document.1, outcome document.1) := by
          refine (List.map_id documents).symm.trans (List.map_congr_left fun document hmem => ?_)
          obtain ⟨p, rest, desk, r, hp, hbefore, -⟩ := hdelivers document hmem
          have hout := hforegone _ hbefore document.1 p List.mem_cons_self document.2 hp
          rw [id, ← hout]
      _ = (documents.map Prod.fst).map fun source => (source, outcome source) := by simp
      _ = conclusions outcome c.docs := by 
          rw [hsources, conclusions, List.map_map]
          rfl
  rwa [← hdocuments]

theorem Reaches.forall_docs {P : Source → Progress → Prop}
    (hstep : ∀ source p r, P source p → P source (p.step h r).1)
    (hc : ∀ source p, (source, p) ∈ c.docs → P source p) (hreach : Reaches h c c') :
    ∀ source p, (source, p) ∈ c'.docs → P source p := by
  induction hreach with
  | refl => exact hc
  | tail _ hlast ih =>
    cases hlast with
    | go before after source p desk r =>
      intro source' p' hp'
      rcases List.mem_append.1 hp' with hp' | hp'
      · exact ih source' p' (by simp [hp'])
      · rcases List.mem_cons.1 hp' with heq | hp'
        · cases heq
          exact hstep source p r (ih source p (by simp))
        · exact ih source' p' (by simp [hp'])
    | wait => exact ih
    | deliver rest desk r hp => exact fun source' p' hp' => ih source' p' (by simp [hp'])

/-- With an oracle's answers, documents that can each end in one way only end in that way. -/
theorem foregone_of_follows {f : Oracle} (hf : h.Follows f)
    (hc : ∀ source p, (source, p) ∈ c.docs → p.task.residue.Ends f (outcome source)) :
    Foregone h outcome c := by
  intro c' hreach source p hp o ho
  have hends := hreach.forall_docs (fun source p r hp => ?_) hc source p hp
  · rw [Progress.task_of_outcome? ho] at hends
    cases o with
    | ok text => exact (hends.text text 0 (.done text)).symm
    | error why =>
      cases hends.halt with
      | halt hwhy => exact hwhy.symm
  · obtain ⟨n, es, hsteps, -⟩ := p.step_advances h r
    exact (hsteps.mono fun _ _ => hf.keeps.of_tells).ends hp

theorem harmless_of_host (hh : ∀ call w, (h call w).2.outside = w.outside) (c : Course) :
    Harmless h c := by
  have hafter : ∀ calls w, (h.after w calls).outside = w.outside := by
    intro calls
    induction calls with
    | nil => exact fun _ => rfl
    | cons call calls ih => exact fun w => (ih _).trans (hh call w)
  intro c' _ source p _
  obtain ⟨n, es, -, -, hhost, -⟩ := p.step_advances h c'.run
  rw [hhost, hafter]

end Course
end Batch
end Inlay
