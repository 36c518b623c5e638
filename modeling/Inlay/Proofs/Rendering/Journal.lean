import Inlay.Proofs.Rendering.Outline
import Inlay.Proofs.Rendering.Stages

namespace Inlay

def Marker.Kind.line (source : Source) (payload : Text) : Marker.Kind → Notice
  | .lookup => .resolvingName source payload
  | .inclusion => .resolvingFile source (source.resolve payload)
  | .command => .resolvingCommand source payload

/-- A pass over a text, as far as it has come, with what has been said about its markers. -/
structure Stage where
  kind : Marker.Kind
  text : Text
  lines : List Notice

namespace Stage

def outlined (source : Source) (b : Stage) : List Notice := .stray source b.kind b.text :: b.lines

def told (source : Source) (b : Stage) : List Notice :=
  Plan.strayNotices source b.kind b.text (Marker.scan b.kind b.text) ++ b.lines

def Keeps (source : Source) (b : Stage) : Prop :=
  ∀ n ∈ b.lines, ∃ m ∈ Segment.markers (Marker.scan b.kind b.text), n = b.kind.line source m.payload

end Stage

namespace Event

variable {place here : Place} {es es' : List Event}

def noticeAt? (place : Place) : Event → Option Notice
  | noted other n => if other = place then some n else none
  | _ => none

/-- What is said about the document at the place in the course of events. -/
def noticesAt (place : Place) (es : List Event) : List Notice := es.filterMap (noticeAt? place)

/-- The event says something about a document within the one at the place. -/
def speaks (place : Place) : Event → Bool
  | noted other _ => place.within other
  | _ => false

@[simp] theorem noticesAt_append (place : Place) (es es' : List Event) :
    noticesAt place (es ++ es') = noticesAt place es ++ noticesAt place es' :=
  List.filterMap_append

theorem mem_noticesAt {n : Notice} : n ∈ noticesAt place es ↔ .noted place n ∈ es := by
  unfold noticesAt
  rw [List.mem_filterMap]
  constructor
  · rintro ⟨e, he, hn⟩
    cases e with
    | noted other n' =>
      rw [noticeAt?, Option.ite_none_right_eq_some, Option.some.injEq] at hn
      obtain ⟨rfl, rfl⟩ := hn
      exact he
    | began | ended | said => cases hn
  · intro he
    exact ⟨_, he, if_pos rfl⟩

theorem noticesAt_filter (h : here.within place = true) (es : List Event) :
    noticesAt place (es.filter (speaks here)) = noticesAt place es := by
  unfold noticesAt
  rw [List.filterMap_filter]
  apply List.filterMap_congr
  intro e _
  cases e with
  | noted other n =>
    by_cases hother : other = place
    · simp [speaks, hother, h]
    · simp [noticeAt?, hother]
  | began | ended | said => rfl

end Event

namespace Plan

open Inlay.Task

variable {A : Answering} {opts : Options} {here : Place} {source : Source} {n : Nat} {u : Task}
  {es : List Event}

/-- Every notice that the plan can still give is one of these. -/
def Says (A : Answering) (Q : Place → Notice → Prop) (p : Plan) : Prop :=
  Safe A (fun e => ∀ place n, e = .noted place n → Q place n) (fun _ => True) p

namespace Says

variable {Q : Place → Notice → Prop} {p : Plan}

theorem note {line : Notice} (hline : Q here line) (hp : Says A Q p) :
    Says A Q (.note here line p) :=
  Safe.note (by rintro _ _ ⟨⟩; exact hline) hp

theorem ask {c : Call} {next : c.Answer → Plan} (hn : ∀ a, Says A Q (next a)) :
    Says A Q (.ask here c next) := Safe.ask (by rintro _ _ ⟨⟩) fun a _ => hn a

theorem halt (why : Halt) : Says A Q (.halt why) := Safe.halt trivial

theorem bind {f : Text → Plan} (hp : Says A Q p) (hf : ∀ t, Says A Q (f t)) :
    Says A Q (p.bind f) := Safe.bind hp fun t _ _ => hf t

theorem noteIf {line : Notice} (hline : Q here line) (hp : Says A Q p) :
    Says A Q (.noteIf opts here line p) := Safe.noteIf (by rintro _ _ ⟨⟩; exact hline) hp

theorem resolveName {name : Text} (hline : Q here (.resolvingName source name)) :
    Says A Q (.resolveName opts here source name) := noteIf hline (ask fun _ => Safe.done _)

theorem resolveCommand {command : Text} (hline : Q here (.resolvingCommand source command)) :
    Says A Q (.resolveCommand opts here source command) := by
  apply noteIf hline (ask _)
  intro answer
  cases answer with
  | ok output => exact Safe.done _
  | error failure => exact halt _

theorem resolveFile {chain : List Path} {nested : Path → List Path → Text → Plan} {relative : Text}
    (hline : Q here (.resolvingFile source (source.resolve relative)))
    (hn : ∀ path chain text, Says A Q (nested path chain text)) :
    Says A Q (.resolveFile opts here source chain nested relative) :=
  resolveFile_induct halt (fun _ => ask) (fun _ hnext => noteIf hline (ask hnext)) (hn _) chain

theorem branches {rule : JoinRule} {kind : Marker.Kind} {text : Text} {resolve : Nat → Text → Plan}
    {next : List Text → Text}
    (h : ∀ i m, (Segment.markers (Marker.scan kind text))[i]? = some m →
      Says A Q (resolve i m.payload)) :
    Says A Q (.join rule (Plan.branches kind text resolve) fun values => .done (next values)) := by
  apply Safe.join
  · intro p hp
    obtain ⟨i, m, hm, rfl⟩ := mem_branches.1 hp
    exact h i m hm
  · exact fun _ _ _ => Safe.done _

theorem passWith {kind : Marker.Kind} {text : Text} {resolve : Nat → Text → Plan}
    (hpass : Q here (.stray source kind text))
    (h : ∀ i m, (Segment.markers (Marker.scan kind text))[i]? = some m →
      Says A Q (resolve i m.payload)) :
    Says A Q (.passWith .whole here source kind text resolve) := note hpass (branches h)

theorem passesWith {depth : Nat} {chain : List Path} {text : Text}
    (hQ : ∀ place n, here.within place = true → Q place n) :
    Says A Q (.passesWith .whole opts depth here source chain text) := by
  refine Safe.mono (fun e he place n heq => hQ place n ?_) (fun _ => id) Safe.passesWith
  subst heq
  exact he

theorem of_mem (hp : Says A Q p) (h : Steps A n (.plan p) es u) {place : Place} {line : Notice}
    (hmem : .noted place line ∈ es) : Q place line :=
  (h.safe hp).2 _ hmem rfl place line rfl

theorem silent {place : Place} (hp : Says A Q p)
    (hQ : ∀ other n, Q other n → place.within other = false) :
    Silent A (Event.speaks place) (.plan p) := by
  intro n es u h
  apply List.filter_eq_nil_iff.2
  intro e he
  cases e with
  | noted other line => simpa [Event.speaks] using hQ other line (hp.of_mem h he)
  | began | ended | said => simp [Event.speaks]

end Says

/-- What the outline says about a document, pass after pass. -/
structure Recited (source : Source) (kinds : List Marker.Kind) (ns : List Notice)
    (stages : List Stage) : Prop where
  notices : ns = stages.flatMap (Stage.outlined source)
  keeps : ∀ b ∈ stages, b.Keeps source
  kinds : stages.map Stage.kind <+: kinds

/--
As far as the plan has come, what has been said about the document at the place is that of passes of
these kinds in their order, and of all of them once there is a text.
-/
def Recites (A : Answering) (here : Place) (source : Source) (kinds : List Marker.Kind)
    (p : Plan) : Prop :=
  ∀ n es u, Steps A n (.plan p) es u →
    ∃ stages, Recited source kinds (Event.noticesAt here es) stages ∧
      ∀ t, u = .plan (.done t) → stages.map Stage.kind = kinds

namespace Recites

variable {kinds kinds' : List Marker.Kind}

theorem done (t : Text) : Recites A here source [] (.done t) := by
  intro n es u h
  cases h with
  | refl => exact ⟨[], ⟨rfl, by simp, List.prefix_rfl⟩, fun _ _ => rfl⟩
  | head hs _ => cases hs

theorem halt (why : Halt) : Recites A here source kinds (.halt why) := by
  intro n es u h
  cases h with
  | refl => exact ⟨[], ⟨rfl, by simp, List.nil_prefix⟩, fun t ht => by cases ht⟩
  | head hs _ => cases hs

theorem bind {p : Plan} {f : Text → Plan} (hp : Recites A here source kinds p)
    (hf : ∀ t, Recites A here source kinds' (f t)) :
    Recites A here source (kinds ++ kinds') (p.bind f) := by
  have hboth : ∀ x m k es₁ es₂ u, Steps A m (.plan p) es₁ (.plan (.done x)) →
      Steps A k (.plan (f x)) es₂ u →
      ∃ stages, Recited source (kinds ++ kinds') (Event.noticesAt here (es₁ ++ es₂)) stages ∧
        ∀ t, u = .plan (.done t) → stages.map Stage.kind = kinds ++ kinds' := by
    intro x m k es₁ es₂ u h₁ h₂
    obtain ⟨stages, hstages, hall⟩ := hp _ _ _ h₁
    obtain ⟨stages', hstages', hall'⟩ := hf x _ _ _ h₂
    refine ⟨stages ++ stages', ⟨?_, ?_, ?_⟩, fun t ht => ?_⟩
    · rw [Event.noticesAt_append, hstages.notices, hstages'.notices, List.flatMap_append]
    · exact fun b hb => (List.mem_append.1 hb).elim (hstages.keeps b) (hstages'.keeps b)
    · rw [List.map_append, hall x rfl]
      exact (List.prefix_append_right_inj kinds).2 hstages'.kinds
    · rw [List.map_append, hall x rfl, hall' t ht]
  intro n es u h
  rcases Steps.of_bind (t := .plan p) h with ⟨t', ht', rfl⟩ | ⟨x, m, k, es₁, es₂, h₁, h₂, rfl⟩
  · by_cases hdone : ∃ x, t' = .plan (.done x)
    · obtain ⟨x, rfl⟩ := hdone
      rw [← List.append_nil es]
      exact hboth x n 0 es [] _ ht' (.refl _)
    · obtain ⟨stages, hstages, -⟩ := hp _ _ _ ht'
      refine ⟨stages, ⟨hstages.notices, hstages.keeps, ?_⟩, fun t ht => ?_⟩
      · exact hstages.kinds.trans (List.prefix_append kinds kinds')
      · exact absurd ht (bind_ne_done (fun x hx => hdone ⟨x, hx⟩) t)
  · exact hboth x m k es₁ es₂ u h₁ h₂

theorem passWith {kind : Marker.Kind} {text : Text} {resolve : Nat → Text → Plan}
    (hlines : ∀ i m, (Segment.markers (Marker.scan kind text))[i]? = some m →
      Says A (fun place n => place = here → n = kind.line source m.payload)
        (resolve i m.payload)) :
    Recites A here source [kind] (.passWith .whole here source kind text resolve) := by
  intro n es u h
  cases h with
  | refl => exact ⟨[], ⟨rfl, by simp, List.nil_prefix⟩, fun t ht => by cases ht⟩
  | @head _ _ _ _ _ es hs hrest =>
    cases hs
    refine ⟨[⟨kind, text, Event.noticesAt here es⟩], ⟨?_, ?_, List.prefix_rfl⟩, fun _ _ => rfl⟩
    · simp [Stage.outlined, Event.noticesAt, Event.noticeAt?]
    · intro b hb
      rw [List.mem_singleton.1 hb]
      intro line hline
      have hsays : Says A (fun place n => place = here →
          ∃ m ∈ Segment.markers (Marker.scan kind text), n = kind.line source m.payload)
          (.join (joinRule (Marker.scan kind text)) (branches kind text resolve) fun values =>
            .done (Segment.splice (Marker.scan kind text) values)) := by
        apply Says.branches
        intro i m hm
        exact Safe.mono (fun e he place n hn hplace =>
          ⟨m, List.mem_of_getElem? hm, he place n hn hplace⟩) (fun _ => id) (hlines i m hm)
      exact hsays.of_mem hrest (Event.mem_noticesAt.1 hline) rfl

theorem passesWith (depth : Nat) (chain : List Path) (text : Text) :
    Recites A here source Marker.Kind.passes
      (.passesWith .whole opts depth here source chain text) := by
  cases depth with
  | zero => exact halt _
  | succ depth =>
    show Recites A here source ([.lookup] ++ ([.inclusion] ++ ([.command] ++ []))) _
    apply bind (passWith fun i m _ => Says.resolveName fun _ => rfl)
    intro named
    apply bind (passWith fun i m _ => Says.resolveFile (fun _ => rfl) ?_)
    · intro included
      exact bind (passWith fun i m _ => Says.resolveCommand fun _ => rfl) fun _ => done _
    · intro path chain text
      apply Says.passesWith
      rintro place n hwithin rfl
      rw [Place.not_within_append] at hwithin
      cases hwithin

end Recites

/--
From one document to another within it: the file that the marker of a number names in the text over
which the pass of the inclusions is.
-/
inductive Stands (es : List Event) (here : Place) (source : Source) : Place → Source → Prop
  | refl : Stands es here source here source
  | step {place : Place} {source' : Source} {text : Text} {i : Nat} {m : Marker} :
    Stands es here source place source' → .noted place (.stray source' .inclusion text) ∈ es →
      (Segment.markers (Marker.scan .inclusion text))[i]? = some m →
      Stands es here source (place ++ [i]) (.file (source'.resolve m.payload))

namespace Stands

variable {place : Place} {source' : Source} {es' : List Event}

theorem within (h : Stands es here source place source') : here.within place = true := by
  induction h with
  | refl => exact Place.within_self here
  | step _ _ _ ih =>
    exact Place.within_trans ih (Place.within_iff.2 (List.prefix_append _ _))

theorem of_filter (h : Stands es here source place source')
    (heq : es.filter (Event.speaks here) = es'.filter (Event.speaks here)) :
    Stands es' here source place source' := by
  induction h with
  | refl => exact .refl
  | @step place source' text i m hstands hmem hm ih =>
    apply ih.step _ hm
    have hfilter : .noted place (.stray source' .inclusion text) ∈
        es.filter (Event.speaks here) := List.mem_filter.2 ⟨hmem, hstands.within⟩
    rw [heq] at hfilter
    exact List.mem_of_mem_filter hfilter

theorem head {text : Text} {i : Nat} {m : Marker}
    (hmem : .noted here (.stray source .inclusion text) ∈ es)
    (hm : (Segment.markers (Marker.scan .inclusion text))[i]? = some m)
    (h : Stands es (here ++ [i]) (.file (source.resolve m.payload)) place source') :
    Stands es here source place source' := by
  induction h with
  | refl => exact .step .refl hmem hm
  | step _ hmem' hm' ih => exact .step ih hmem' hm'

end Stands

/-- What is said about every document within the one at the place is said in its own name. -/
def Told (es : List Event) (here : Place) (source : Source) : Prop :=
  ∀ place, here.within place = true → ∃ source' stages,
    Recited source' Marker.Kind.passes (Event.noticesAt place es) stages ∧
      (stages ≠ [] → Stands es here source place source')

theorem Recited.of_silent {kinds : List Marker.Kind} {place : Place}
    (h : es.filter (Event.speaks here) = []) (hplace : here.within place = true) :
    Recited source kinds (Event.noticesAt place es) [] := by
  refine ⟨?_, by simp, List.nil_prefix⟩
  rw [← Event.noticesAt_filter hplace, h]
  rfl

namespace Told

theorem of_silent (h : es.filter (Event.speaks here) = []) : Told es here source :=
  fun _ hplace => ⟨source, [], .of_silent h hplace, fun hne => absurd rfl hne⟩

theorem of_filter {es' : List Event} (h : Told es here source)
    (heq : es.filter (Event.speaks here) = es'.filter (Event.speaks here)) :
    Told es' here source := by
  intro place hplace
  obtain ⟨source', stages, hrecited, hstands⟩ := h place hplace
  rw [← Event.noticesAt_filter hplace, heq, Event.noticesAt_filter hplace] at hrecited
  exact ⟨source', stages, hrecited, fun hne => (hstands hne).of_filter heq⟩

end Told

/-- However far the plan has come, what it has said is said in the documents' own names. -/
def Tells (A : Answering) (here : Place) (source : Source) (p : Plan) : Prop :=
  ∀ n es u, Steps A n (.plan p) es u → Told es here source

namespace Tells

variable {p : Plan}

theorem of_silent (hp : Silent A (Event.speaks here) (.plan p)) : Tells A here source p :=
  fun n es u h => .of_silent (hp n es u h)

theorem halt (why : Halt) : Tells A here source (.halt why) := of_silent (silent_halt _ why)

theorem note {outer : Place} {line : Notice} (houter : here.within outer = false)
    (hp : Tells A here source p) : Tells A here source (.note outer line p) := by
  intro n es u h
  cases h with
  | refl => exact .of_silent rfl
  | head hs hrest =>
    cases hs
    apply (hp _ _ _ hrest).of_filter
    simp [Event.speaks, houter]

theorem ask {place : Place} {c : Call} {next : c.Answer → Plan}
    (hn : ∀ a, Tells A here source (next a)) : Tells A here source (.ask place c next) := by
  intro n es u h
  rcases h.of_ask with rfl | rfl | ⟨a, remarks, k, es', -, hsteps, rfl⟩
  · exact .of_silent rfl
  · exact .of_silent rfl
  · apply (hn a _ _ _ hsteps).of_filter
    have hsaid : (remarks.map Event.said).filter (Event.speaks here) = [] := by
      simp [Event.speaks]
    simp [Event.speaks, hsaid]

theorem noteIf {outer : Place} {line : Notice} (houter : here.within outer = false)
    (hp : Tells A here source p) : Tells A here source (.noteIf opts outer line p) := by
  unfold Plan.noteIf
  split
  · exact note houter hp
  · exact hp

theorem resolveFile {outer : Place} {source' : Source} {chain : List Path}
    {nested : Path → List Path → Text → Plan} {relative : Text}
    (houter : here.within outer = false)
    (hn : ∀ chain text, Tells A here source (nested (source'.resolve relative) chain text)) :
    Tells A here source (.resolveFile opts outer source' chain nested relative) :=
  resolveFile_induct halt (fun _ => ask) (fun _ hnext => noteIf houter (ask hnext)) hn chain

/-- The pass over the inclusions, as far as the document that one of its markers names goes. -/
theorem of_inclusions {text : Text} {resolve : Nat → Text → Plan} {i : Nat}
    (hi : ∀ m, (Segment.markers (Marker.scan .inclusion text))[i]? = some m →
      Tells A (here ++ [i]) (.file (source.resolve m.payload)) (resolve i m.payload))
    (hother : ∀ j m, j ≠ i → (Segment.markers (Marker.scan .inclusion text))[j]? = some m →
      Says A (fun place _ => (here ++ [i]).within place = false) (resolve j m.payload))
    (h : Steps A n (.plan (.passWith .whole here source .inclusion text resolve)) es u) :
    es.filter (Event.speaks (here ++ [i])) = [] ∨
      ∃ m, (Segment.markers (Marker.scan .inclusion text))[i]? = some m ∧
        .noted here (.stray source .inclusion text) ∈ es ∧
        Told es (here ++ [i]) (.file (source.resolve m.payload)) := by
  cases h with
  | refl => exact .inl rfl
  | @head _ _ _ _ _ es hs hrest =>
    cases hs
    have hskip : ([Event.noted here (.stray source .inclusion text)] ++ es).filter
        (Event.speaks (here ++ [i])) = es.filter (Event.speaks (here ++ [i])) := by
      simp [Event.speaks, Place.not_within_append]
    rw [hskip]
    cases hm : (Segment.markers (Marker.scan .inclusion text))[i]? with
    | none =>
      -- Without such a marker, no branch speaks of a document there.
      have hall : Says A (fun place _ => (here ++ [i]).within place = false)
          (.join (joinRule (Marker.scan .inclusion text)) (branches .inclusion text resolve)
            fun values => .done (Segment.splice (Marker.scan .inclusion text) values)) := by
        apply Says.branches
        intro j m hj
        apply hother j m _ hj
        rintro rfl
        rw [hm] at hj
        cases hj
      exact .inl (hall.silent (fun _ _ => id) _ _ _ hrest)
    | some m =>
      obtain ⟨k, es', t', hsteps, heq⟩ := exists_steps_of_branches hm
        (fun j m' hj hm' => (hother j m' hj hm').silent fun _ _ => id) hrest
      have htold : Told es' (here ++ [i]) (.file (source.resolve m.payload)) :=
        hi m hm _ _ _ hsteps
      refine .inr ⟨m, rfl, List.mem_append_left _ (List.mem_singleton_self _), ?_⟩
      exact htold.of_filter (heq.symm.trans hskip.symm)

/--
Nothing is said about a document that another one includes but in the pass over the inclusions of
that other one.
-/
theorem exists_inclusions {depth i : Nat} {chain : List Path} {text : Text}
    (h : Steps A n (.plan (.passesWith .whole opts (depth + 1) here source chain text)) es u) :
    es.filter (Event.speaks (here ++ [i])) = [] ∨
      ∃ named k es' t', Steps A k (.plan (.passWith .whole here source .inclusion named
          fun i relative => Plan.resolveFile opts here source chain
            (fun path => Plan.passesWith .whole opts depth (here ++ [i]) (.file path)) relative))
          es' t' ∧
        es'.filter (Event.speaks (here ++ [i])) = es.filter (Event.speaks (here ++ [i])) ∧
        ∀ e ∈ es', e ∈ es := by
  have hself : ∀ place (line : Notice), place = here → (here ++ [i]).within place = false := by
    rintro _ _ rfl
    exact Place.not_within_append _ i
  have hnames : Silent A (Event.speaks (here ++ [i]))
      (.plan (.passWith .whole here source .lookup text fun _ name =>
        Plan.resolveName opts here source name)) := by
    apply Says.silent _ hself
    exact Says.passWith rfl fun _ _ _ => Says.resolveName rfl
  have hcommands : ∀ included, Silent A (Event.speaks (here ++ [i]))
      (.plan ((Plan.passWith .whole here source .command included fun _ command =>
        Plan.resolveCommand opts here source command).bind fun text => .done text.closeLine)) := by
    intro included
    apply Says.silent _ hself
    exact Says.bind (Says.passWith rfl fun _ _ _ => Says.resolveCommand rfl) fun _ => Safe.done _
  rcases Steps.of_bind (t := .plan _) h with ⟨t', h₁, -⟩ | ⟨named, m, k, es₁, es₂, h₁, hrest, rfl⟩
  · exact .inl (hnames _ _ _ h₁)
  · rcases Steps.of_bind (t := .plan _) hrest with ⟨t', h₂, -⟩ | ⟨_, m, k, es₂, es₃, h₂, h₃, rfl⟩
    · refine .inr ⟨named, _, es₂, t', h₂, ?_, fun e he => List.mem_append_right _ he⟩
      rw [List.filter_append, hnames _ _ _ h₁, List.nil_append]
    · refine .inr ⟨named, _, es₂, _, h₂, ?_, fun e he => ?_⟩
      · rw [List.filter_append, List.filter_append, hnames _ _ _ h₁, hcommands _ _ _ _ h₃,
          List.nil_append, List.append_nil]
      · exact List.mem_append_right _ (List.mem_append_left _ he)

theorem passesWith (depth : Nat) (here : Place) (source : Source) (chain : List Path)
    (text : Text) :
    Tells A here source (.passesWith .whole opts depth here source chain text) := by
  induction depth generalizing here source chain text with
  | zero => exact halt _
  | succ depth ih =>
    intro n es u h place hplace
    rcases Place.eq_or_within_append hplace with rfl | ⟨i, hi⟩
    · obtain ⟨stages, hrecited, -⟩ := Recites.passesWith (depth + 1) chain text n es u h
      exact ⟨source, stages, hrecited, fun _ => .refl⟩
    · -- The document is not the outermost one: only the pass over the inclusions speaks of it.
      have hnone : es.filter (Event.speaks (here ++ [i])) = [] → ∃ source' stages,
          Recited source' Marker.Kind.passes (Event.noticesAt place es) stages ∧
            (stages ≠ [] → Stands es here source place source') := fun hnone =>
        ⟨source, [], .of_silent hnone hi, fun hne => absurd rfl hne⟩
      rcases exists_inclusions h with hsilent | ⟨named, k, es', t', hsteps, heq, hmem⟩
      · exact hnone hsilent
      · have hinner : ∀ m, (Segment.markers (Marker.scan .inclusion named))[i]? = some m →
            Tells A (here ++ [i]) (.file (source.resolve m.payload))
              (.resolveFile opts here source chain
                (fun path => .passesWith .whole opts depth (here ++ [i]) (.file path)) m.payload) :=
          fun m _ => resolveFile (Place.not_within_append here i) fun chain text =>
            ih _ _ chain text
        have hother : ∀ j m, j ≠ i → (Segment.markers (Marker.scan .inclusion named))[j]? = some m →
            Says A (fun place _ => (here ++ [i]).within place = false)
              (.resolveFile opts here source chain
                (fun path => .passesWith .whole opts depth (here ++ [j]) (.file path))
                m.payload) := by
          intro j m hj _
          apply Says.resolveFile (Place.not_within_append here i)
          intro path chain text
          apply Says.passesWith
          intro other _ hother
          apply Bool.eq_false_iff.2
          exact fun hboth => hj (Place.eq_of_within_append hother hboth)
        rcases of_inclusions hinner hother hsteps with hsilent | ⟨m, hm, htoken, htold⟩
        · exact hnone (heq ▸ hsilent)
        · obtain ⟨source', stages, hrecited, hstands⟩ := (htold.of_filter heq) place hi
          exact ⟨source', stages, hrecited, fun hne => (hstands hne).head (hmem _ htoken) hm⟩

end Tells
end Plan

end Inlay
