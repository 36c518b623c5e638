import Inlay.Plan.Host
import Mathlib.Algebra.Order.Group.Multiset

/-!
What a plan can come to when nothing is said about when answers come. A plan yields a text together
with the calls made on the way, whatever their order; a plan is safe when every call and notice that
it can still come to, and every way in which it can halt, keeps to a rule.
-/
namespace Inlay

/-- Which answers a call may get. -/
abbrev Answering := (c : Call) → c.Answer → Prop

/-- One answer for every call, however often it is made. -/
abbrev Oracle := (c : Call) → c.Answer

def Oracle.only (f : Oracle) : Answering := fun c a => a = f c

namespace Host

variable {σ : Type}

/-- Every answer of the host is one that the call may get. -/
def Keeps (h : Host σ) (A : Answering) : Prop := ∀ c s, A c (h c s).1.answer

/-- The answers that the host gives in one state or another. -/
def Allows (h : Host σ) : Answering := fun c a => ∃ s, (h c s).1.answer = a

/-- The host's answers do not depend on its state; when they come may depend on it. -/
def Follows (h : Host σ) (f : Oracle) : Prop := ∀ c s, (h c s).1.answer = f c

theorem keeps_allows (h : Host σ) : h.Keeps h.Allows := fun _ s => ⟨s, rfl⟩

theorem Follows.keeps {h : Host σ} {f : Oracle} (hf : h.Follows f) : h.Keeps f.only := hf

end Host

def Event.calls (es : List Event) : Multiset Call := es.filterMap Event.call?

namespace Event

@[simp] theorem calls_nil : calls [] = 0 := rfl

@[simp] theorem calls_append (es es' : List Event) : calls (es ++ es') = calls es + calls es' := by
  simp [calls]

@[simp] theorem calls_began (place : Place) (c : Call) : calls [.began place c] = {c} := rfl

@[simp] theorem calls_noted (place : Place) (n : Notice) : calls [.noted place n] = 0 := rfl

@[simp] theorem calls_ended (place : Place) (c : Call) (remarks : List Log.Line) :
    calls (.ended place c :: remarks.map .said) = 0 := by
  simp [calls, Event.call?]

/-- Whether the plan brings the event about itself; answers and remarks come from the host. -/
def isOwn : Event → Bool
  | began .. | noted .. => true
  | ended .. | said _ => false

end Event

namespace Plan

mutual

/-- The plan may finish with the text, having made the calls. -/
inductive Yields (A : Answering) : Plan → Text → Multiset Call → Prop
  | done (t : Text) : Yields A (done t) t 0
  | note {place : Place} {n : Notice} {rest : Plan} {t : Text} {cs : Multiset Call} :
    Yields A rest t cs → Yields A (note place n rest) t cs
  | ask {place : Place} {c : Call} {next : c.Answer → Plan} {a : c.Answer} {t : Text}
      {cs : Multiset Call} :
    A c a → Yields A (next a) t cs → Yields A (ask place c next) t ({c} + cs)
  | join {rule : JoinRule} {branches : List Plan} {next : List Text → Plan} {ts : List Text}
      {t : Text} {cs cs' : Multiset Call} :
    YieldsAll A branches ts cs → Yields A (next ts) t cs' →
      Yields A (join rule branches next) t (cs + cs')

/-- Each plan may finish with the text at its place in the list. -/
inductive YieldsAll (A : Answering) : List Plan → List Text → Multiset Call → Prop
  | nil : YieldsAll A [] [] 0
  | cons {p : Plan} {ps : List Plan} {t : Text} {ts : List Text} {cs cs' : Multiset Call} :
    Yields A p t cs → YieldsAll A ps ts cs' → YieldsAll A (p :: ps) (t :: ts) (cs + cs')

end

/-- The events that the plan can still bring about itself keep to `E`, and its halts to `H`. -/
inductive Safe (A : Answering) (E : Event → Prop) (H : Halt → Prop) : Plan → Prop
  | done (t : Text) : Safe A E H (done t)
  | halt {why : Halt} : H why → Safe A E H (halt why)
  | note {place : Place} {n : Notice} {rest : Plan} :
    E (.noted place n) → Safe A E H rest → Safe A E H (note place n rest)
  | ask {place : Place} {c : Call} {next : c.Answer → Plan} :
    E (.began place c) → (∀ a, A c a → Safe A E H (next a)) → Safe A E H (ask place c next)
  | join {rule : JoinRule} {branches : List Plan} {next : List Text → Plan} :
    (∀ p ∈ branches, Safe A E H p) →
      (∀ ts cs, YieldsAll A branches ts cs → Safe A E H (next ts)) →
      Safe A E H (join rule branches next)

variable {A : Answering} {E : Event → Prop} {H : Halt → Prop}

theorem Yields.of_eq {p : Plan} {t : Text} {cs cs' : Multiset Call} (h : Yields A p t cs)
    (hcs : cs = cs') : Yields A p t cs' := hcs ▸ h

theorem YieldsAll.of_eq {ps : List Plan} {ts : List Text} {cs cs' : Multiset Call}
    (h : YieldsAll A ps ts cs) (hcs : cs = cs') : YieldsAll A ps ts cs' := hcs ▸ h

theorem YieldsAll.exists_getElem? {ps : List Plan} {ts : List Text} {cs : Multiset Call} {i : Nat}
    {p : Plan} (h : YieldsAll A ps ts cs) (hp : ps[i]? = some p) :
    ∃ t cs, ts[i]? = some t ∧ Yields A p t cs := by
  induction ps generalizing ts cs i with
  | nil => simp at hp
  | cons q ps ih =>
    cases h with
    | cons hq hps =>
      cases i with
      | zero =>
        obtain rfl : q = p := by simpa using hp
        exact ⟨_, _, rfl, hq⟩
      | succ i =>
        rw [List.getElem?_cons_succ] at hp ⊢
        exact ih hps hp

theorem YieldsAll.exists_of_mem {ps : List Plan} {ts : List Text} {cs : Multiset Call} {p : Plan}
    (h : YieldsAll A ps ts cs) (hp : p ∈ ps) : ∃ t cs, Yields A p t cs := by
  obtain ⟨i, hi⟩ := List.getElem?_of_mem hp
  obtain ⟨t, cs, -, ht⟩ := h.exists_getElem? hi
  exact ⟨t, cs, ht⟩

theorem YieldsAll.eq_map {α : Type} {g : α → Plan} {v : α → Text} {as : List α}
    (hg : ∀ a ∈ as, ∀ t cs, Yields A (g a) t cs → t = v a) {ts : List Text} {cs : Multiset Call}
    (h : YieldsAll A (as.map g) ts cs) : ts = as.map v := by
  induction as generalizing ts cs with
  | nil => cases h; rfl
  | cons a as ih =>
    cases h with
    | cons ha has =>
      rw [hg a List.mem_cons_self _ _ ha, ih (fun b hb => hg b (List.mem_cons_of_mem a hb)) has]
      rfl

theorem YieldsAll.replace {before after : List Plan} {p p' : Plan} {made : Multiset Call}
    (hp : ∀ t cs, Yields A p' t cs → Yields A p t (made + cs)) {ts : List Text}
    {cs : Multiset Call} (h : YieldsAll A (before ++ p' :: after) ts cs) :
    YieldsAll A (before ++ p :: after) ts (made + cs) := by
  induction before generalizing ts cs with
  | nil =>
    cases h with
    | cons h hs => exact (YieldsAll.cons (hp _ _ h) hs).of_eq (add_assoc ..)
  | cons q before ih =>
    cases h with
    | cons h hs => exact (YieldsAll.cons h (ih hs)).of_eq (add_left_comm ..)

theorem YieldsAll.advance {before after : List Plan} {p p' : Plan} {made : Multiset Call}
    (hp : ∀ t cs, Yields A p t cs → ∃ cs', Yields A p' t cs' ∧ cs = made + cs')
    {ts : List Text} {cs : Multiset Call} (h : YieldsAll A (before ++ p :: after) ts cs) :
    ∃ cs', YieldsAll A (before ++ p' :: after) ts cs' ∧ cs = made + cs' := by
  induction before generalizing ts cs with
  | nil =>
    cases h with
    | cons h hs =>
      obtain ⟨cs', h', rfl⟩ := hp _ _ h
      exact ⟨_, .cons h' hs, add_assoc ..⟩
  | cons q before ih =>
    cases h with
    | cons h hs =>
      obtain ⟨cs', hs', rfl⟩ := ih hs
      exact ⟨_, .cons h hs', add_left_comm ..⟩

theorem yields_bind_iff {p : Plan} {f : Text → Plan} {t : Text} {cs : Multiset Call} :
    Yields A (p.bind f) t cs ↔
      ∃ u cs₁ cs₂, Yields A p u cs₁ ∧ Yields A (f u) t cs₂ ∧ cs = cs₁ + cs₂ := by
  constructor
  · intro h
    induction p generalizing cs with
    | done u => exact ⟨u, 0, cs, .done u, h, by simp⟩
    | halt why => cases h
    | note place n rest ih =>
      obtain ⟨u, cs₁, cs₂, hp, hf, rfl⟩ := ih (by cases h; assumption)
      exact ⟨u, cs₁, cs₂, .note hp, hf, rfl⟩
    | ask place c next ih =>
      cases h with
      | ask ha h =>
        obtain ⟨u, cs₁, cs₂, hp, hf, rfl⟩ := ih _ h
        exact ⟨u, {c} + cs₁, cs₂, .ask ha hp, hf, by rw [add_assoc]⟩
    | join rule branches next _ ih =>
      cases h with
      | join hb h =>
        obtain ⟨u, cs₁, cs₂, hp, hf, rfl⟩ := ih _ h
        exact ⟨u, _, cs₂, .join hb hp, hf, by rw [add_assoc]⟩
  · rintro ⟨u, cs₁, cs₂, hp, hf, rfl⟩
    induction p generalizing cs₁ with
    | done => cases hp; exact hf.of_eq (zero_add _).symm
    | halt why => cases hp
    | note place n rest ih =>
      cases hp with
      | note hp => exact .note (ih _ hp)
    | ask place c next ih =>
      cases hp with
      | ask ha hp => exact (Yields.ask ha (ih _ _ hp)).of_eq (by rw [add_assoc])
    | join rule branches next _ ih =>
      cases hp with
      | join hb hp => exact (Yields.join hb (ih _ _ hp)).of_eq (by rw [add_assoc])

theorem YieldsAll.unique_of {f : Oracle} {ps : List Plan} {ts ts' : List Text}
    {cs cs' : Multiset Call}
    (ih : ∀ p ∈ ps, ∀ {t t' : Text} {cs cs' : Multiset Call},
      Yields f.only p t cs → Yields f.only p t' cs' → t = t' ∧ cs = cs')
    (h : YieldsAll f.only ps ts cs) (h' : YieldsAll f.only ps ts' cs') : ts = ts' ∧ cs = cs' := by
  induction ps generalizing ts ts' cs cs' with
  | nil => cases h; cases h'; exact ⟨rfl, rfl⟩
  | cons p ps ihs =>
    cases h with
    | cons hp hps => cases h' with
      | cons hp' hps' =>
        obtain ⟨rfl, rfl⟩ := ih p (by simp) hp hp'
        obtain ⟨rfl, rfl⟩ := ihs (fun q hq => ih q (by simp [hq])) hps hps'
        exact ⟨rfl, rfl⟩

theorem Yields.unique {f : Oracle} {p : Plan} {t t' : Text} {cs cs' : Multiset Call}
    (h : Yields f.only p t cs) (h' : Yields f.only p t' cs') : t = t' ∧ cs = cs' := by
  induction p generalizing t t' cs cs' with
  | done => cases h; cases h'; exact ⟨rfl, rfl⟩
  | halt => cases h
  | note place n rest ih =>
    cases h with
    | note h => cases h' with
      | note h' => exact ih h h'
  | ask place c next ih =>
    cases h with
    | ask ha h => cases h' with
      | ask ha' h' =>
        cases ha
        cases ha'
        obtain ⟨rfl, rfl⟩ := ih _ h h'
        exact ⟨rfl, rfl⟩
  | join rule branches next ihb ihn =>
    cases h with
    | join hb hn => cases h' with
      | join hb' hn' =>
        obtain ⟨rfl, rfl⟩ := hb.unique_of ihb hb'
        obtain ⟨rfl, rfl⟩ := ihn _ hn hn'
        exact ⟨rfl, rfl⟩

theorem YieldsAll.unique {f : Oracle} {ps : List Plan} {ts ts' : List Text}
    {cs cs' : Multiset Call} (h : YieldsAll f.only ps ts cs) (h' : YieldsAll f.only ps ts' cs') :
    ts = ts' ∧ cs = cs' := h.unique_of (fun _ _ _ _ _ _ => Yields.unique) h'

theorem Safe.bind {p : Plan} {f : Text → Plan} (hp : Safe A E H p)
    (hf : ∀ t cs, Yields A p t cs → Safe A E H (f t)) : Safe A E H (p.bind f) := by
  induction p with
  | done t => exact hf t 0 (.done t)
  | halt why => cases hp with | halt h => exact .halt h
  | note place n rest ih =>
    cases hp with
    | note hn hp => exact .note hn (ih hp fun t cs h => hf t cs (.note h))
  | ask place c next ih =>
    cases hp with
    | ask hc hp => exact .ask hc fun a ha => ih a (hp a ha) fun t cs h => hf t _ (.ask ha h)
  | join rule branches next _ ih =>
    cases hp with
    | join hb hp =>
      exact .join hb fun ts cs hts => ih ts (hp ts cs hts) fun t cs' h => hf t _ (.join hts h)

theorem Safe.mono {E' : Event → Prop} {H' : Halt → Prop} {p : Plan} (hE : ∀ e, E e → E' e)
    (hH : ∀ why, H why → H' why) (hp : Safe A E H p) : Safe A E' H' p := by
  induction hp with
  | done t => exact .done t
  | halt h => exact .halt (hH _ h)
  | note hn _ ih => exact .note (hE _ hn) ih
  | ask hc _ ih => exact .ask (hE _ hc) ih
  | join _ _ ihb ihn => exact .join ihb ihn

theorem Yields.safe {f : Oracle} {p : Plan} {t : Text} {cs : Multiset Call}
    (h : Yields f.only p t cs) (hE : ∀ e, E e) : Safe f.only E H p := by
  induction p generalizing t cs with
  | done => exact .done _
  | halt => cases h
  | note place n rest ih =>
    cases h with
    | note h => exact .note (hE _) (ih h)
  | ask place c next ih =>
    cases h with
    | ask ha h =>
      cases ha
      exact .ask (hE _) fun a ha => by cases ha; exact ih _ h
  | join rule branches next ihb ihn =>
    cases h with
    | join hb hn =>
      refine .join (fun p hp => ?_) fun ts cs hts => ?_
      · obtain ⟨t, cs, ht⟩ := hb.exists_of_mem hp
        exact ihb p hp ht
      · obtain ⟨rfl, -⟩ := hb.unique hts
        exact ihn _ hn

theorem bind_notes (place : Place) (ns : List Notice) (p : Plan) (g : Text → Plan) :
    (notes place ns p).bind g = notes place ns (p.bind g) := by
  induction ns with
  | nil => rfl
  | cons n ns ih => exact congrArg (note place n) ih

@[simp] theorem yields_notes_iff {place : Place} {ns : List Notice} {rest : Plan} {t : Text}
    {cs : Multiset Call} : Yields A (notes place ns rest) t cs ↔ Yields A rest t cs := by
  induction ns with
  | nil => rfl
  | cons n ns ih =>
    refine ⟨fun h => ih.1 ?_, fun h => .note (ih.2 h)⟩
    cases h with
    | note h => exact h

theorem Safe.notes {place : Place} {ns : List Notice} {rest : Plan}
    (hn : ∀ n ∈ ns, E (.noted place n)) (h : Safe A E H rest) :
    Safe A E H (notes place ns rest) := by
  induction ns with
  | nil => exact h
  | cons n ns ih =>
    exact .note (hn n (by simp)) (ih fun m hm => hn m (by simp [hm]))

end Plan
end Inlay
