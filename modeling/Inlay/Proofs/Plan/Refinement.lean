import Inlay.Proofs.Plan.Meaning
import Mathlib.GroupTheory.Congruence.Defs

/-!
Forward simulation between plans. One plan refines another when it may finish with no text that the
other may not finish with as well, by the same calls or by calls that count as the same.
-/
namespace Inlay.Plan

variable {A : Answering} {K : AddCon (Multiset Call)}

/--
Every text that the first plan may finish with the second may finish with as well, and the calls
differ no more than `K` lets them.
-/
def Refines (A : Answering) (K : AddCon (Multiset Call)) (p p' : Plan) : Prop :=
  ∀ t cs, Yields A p t cs → ∃ cs', Yields A p' t cs' ∧ K cs cs'

namespace Refines

@[refl] theorem refl (p : Plan) : Refines A K p p := fun _ cs h => ⟨cs, h, K.refl cs⟩

theorem halt (why : Halt) (p : Plan) : Refines A K (.halt why) p := fun _ _ h => by cases h

theorem bind {p p' : Plan} {f f' : Text → Plan} (hp : Refines A K p p')
    (hf : ∀ t cs, Yields A p t cs → Refines A K (f t) (f' t)) :
    Refines A K (p.bind f) (p'.bind f') := by
  intro t cs h
  obtain ⟨u, cs₁, cs₂, hu, ht, rfl⟩ := yields_bind_iff.1 h
  obtain ⟨cs₁', hu', h₁⟩ := hp u cs₁ hu
  obtain ⟨cs₂', ht', h₂⟩ := hf u cs₁ hu t cs₂ ht
  exact ⟨cs₁' + cs₂', yields_bind_iff.2 ⟨u, cs₁', cs₂', hu', ht', rfl⟩, K.add h₁ h₂⟩

theorem notes {place place' : Place} {ns ns' : List Notice} {p p' : Plan}
    (hp : Refines A K p p') : Refines A K (.notes place ns p) (.notes place' ns' p') := by
  intro t cs h
  obtain ⟨cs', h', hcs⟩ := hp t cs (yields_notes_iff.1 h)
  exact ⟨cs', yields_notes_iff.2 h', hcs⟩

theorem ask {place place' : Place} {c : Call} {next next' : c.Answer → Plan}
    (hn : ∀ a, A c a → Refines A K (next a) (next' a)) :
    Refines A K (.ask place c next) (.ask place' c next') := by
  intro t cs h
  cases h with
  | ask ha h =>
    obtain ⟨cs', h', hcs⟩ := hn _ ha t _ h
    exact ⟨{c} + cs', .ask ha h', K.add (K.refl _) hcs⟩

theorem ask_left {place : Place} {c : Call} {next : c.Answer → Plan} {p : Plan} (hc : K {c} 0)
    (hn : ∀ a, A c a → Refines A K (next a) p) : Refines A K (.ask place c next) p := by
  intro t cs h
  cases h with
  | ask ha h =>
    obtain ⟨cs', h', hcs⟩ := hn _ ha t _ h
    exact ⟨cs', h', by simpa using K.add hc hcs⟩

theorem ask_right {place : Place} {c : Call} {next : c.Answer → Plan} {p : Plan} (hc : K {c} 0)
    {a : c.Answer} (ha : A c a) (hn : Refines A K p (next a)) :
    Refines A K p (.ask place c next) := by
  intro t cs h
  obtain ⟨cs', h', hcs⟩ := hn t cs h
  exact ⟨{c} + cs', .ask ha h', by simpa using K.add (K.symm hc) hcs⟩

theorem yieldsAll {ps ps' : List Plan} (hps : List.Forall₂ (Refines A K) ps ps')
    {ts : List Text} {cs : Multiset Call} (h : YieldsAll A ps ts cs) :
    ∃ cs', YieldsAll A ps' ts cs' ∧ K cs cs' := by
  induction hps generalizing ts cs with
  | nil =>
    cases h
    exact ⟨0, .nil, K.refl 0⟩
  | cons hp _ ih =>
    cases h with
    | cons h hs =>
      obtain ⟨cs₁', h', h₁⟩ := hp _ _ h
      obtain ⟨cs₂', hs', h₂⟩ := ih hs
      exact ⟨cs₁' + cs₂', .cons h' hs', K.add h₁ h₂⟩

theorem join {rule rule' : JoinRule} {ps ps' : List Plan} {next next' : List Text → Plan}
    (hps : List.Forall₂ (Refines A K) ps ps') (hn : ∀ ts, Refines A K (next ts) (next' ts)) :
    Refines A K (.join rule ps next) (.join rule' ps' next') := by
  intro t cs h
  cases h with
  | join hb hnext =>
    obtain ⟨cs₁', hb', h₁⟩ := yieldsAll hps hb
    obtain ⟨cs₂', hnext', h₂⟩ := hn _ _ _ hnext
    exact ⟨cs₁' + cs₂', .join hb' hnext', K.add h₁ h₂⟩

end Refines
end Inlay.Plan
