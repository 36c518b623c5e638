import Inlay.Proofs.Plan.Dialogue
import Inlay.Proofs.Plan.Task
import Mathlib.Tactic.Abel

/-!
The events of a task, whichever way its branches go on. What a plan does that is followed by another
comes before what the other does; what happens at the places of one branch of a join is what that
branch does; and a plan that has come to a text has had an answer to everything that it asked for.
-/
namespace Inlay

namespace Event

def response? : Event → Option Request
  | ended place c => some (place, c)
  | _ => none

def responses (es : List Event) : List Request := es.filterMap response?

@[simp] theorem responses_nil : responses [] = [] := rfl

@[simp] theorem responses_append (es es' : List Event) :
    responses (es ++ es') = responses es ++ responses es' := by
  simp [responses]

@[simp] theorem responses_began (place : Place) (c : Call) : responses [.began place c] = [] := rfl

@[simp] theorem responses_noted (place : Place) (n : Notice) :
    responses [.noted place n] = [] := rfl

@[simp] theorem responses_ended (place : Place) (c : Call) (remarks : List Log.Line) :
    responses (.ended place c :: remarks.map .said) = [(place, c)] := by
  simp [responses, response?]

theorem mem_requests {es : List Event} {r : Request} :
    r ∈ requests es ↔ .began r.1 r.2 ∈ es := by
  simp only [requests, List.mem_filterMap]
  constructor
  · rintro ⟨e, he, hr⟩
    cases e with
    | began => cases hr; exact he
    | ended | noted | said => cases hr
  · exact fun h => ⟨_, h, rfl⟩

/-- The request has been answered as often as it has been made. -/
def Settles (es : List Event) (r : Request) : Prop := (requests es).count r = (responses es).count r

theorem requests_exchange (place : Place) (c : Call) (remarks : List Log.Line) :
    requests (.began place c :: .ended place c :: remarks.map .said) = [(place, c)] :=
  congrArg ((place, c) :: ·) (requests_ended place c remarks)

theorem settles_exchange (place : Place) (c : Call) (remarks : List Log.Line) (r : Request) :
    Settles (.began place c :: .ended place c :: remarks.map .said) r := by
  have hanswered : responses (.began place c :: .ended place c :: remarks.map .said) =
      [(place, c)] := responses_ended place c remarks
  rw [Settles, requests_exchange, hanswered]

theorem Settles.append {es es' : List Event} {r : Request} (h : Settles es r)
    (h' : Settles es' r) : Settles (es ++ es') r := by
  rw [Settles] at h h' ⊢
  rw [requests_append, responses_append, List.count_append, List.count_append, h, h']

end Event

namespace Task

variable {A : Answering}

/-- A task followed by a plan that goes on with its text. -/
def bind : Task → (Text → Plan) → Task
  | plan p, f => plan (p.bind f)
  | awaits place c rest, f => awaits place c (rest.bind f)
  | joined rule ts next, f => joined rule ts fun xs => (next xs).bind f

/-- A task that is not done with its text halts only by itself, whatever is to follow it. -/
theorem eq_halt_of_bind {t : Task} {f : Text → Plan} {why : Halt}
    (ht : t.bind f = plan (.halt why)) (hne : ∀ x, t ≠ plan (.done x)) :
    t = plan (.halt why) := by
  cases t with
  | plan p =>
    cases p with
    | done x => exact absurd rfl (hne x)
    | halt => exact ht
    | note | ask | join => cases ht
  | awaits | joined => cases ht

theorem bind_ne_done {t : Task} {f : Text → Plan} (hne : ∀ x, t ≠ plan (.done x)) (y : Text) :
    t.bind f ≠ plan (.done y) := by
  intro ht
  cases t with
  | plan p =>
    cases p with
    | done x => exact hne x rfl
    | halt | note | ask | join => cases ht
  | awaits | joined => cases ht

theorem Step.of_bind {t u : Task} {f : Text → Plan} {es : List Event} (h : Step A (t.bind f) es u) :
    (∃ t', Step A t es t' ∧ u = t'.bind f) ∨
      ∃ x, t = plan (.done x) ∧ Step A (plan (f x)) es u := by
  cases t with
  | plan p =>
    cases p with
    | done x => exact .inr ⟨x, rfl, h⟩
    | halt why => cases h
    | note place n rest =>
      cases h
      exact .inl ⟨_, .note place n rest, rfl⟩
    | ask place c next =>
      cases h with
      | ask _ _ _ ha => exact .inl ⟨_, .ask place c next ha, rfl⟩
    | join rule branches next =>
      cases h
      exact .inl ⟨_, .fork rule branches next, rfl⟩
  | awaits place c rest =>
    cases h with
    | arrive _ _ remarks => exact .inl ⟨_, .arrive place c remarks rest, rfl⟩
  | joined rule ts next =>
    cases h with
    | branch before after ht => exact .inl ⟨_, .branch before after ht, rfl⟩
    | meet _ xs => exact .inl ⟨_, .meet rule xs next, rfl⟩
    | fail before after why => exact .inl ⟨_, .fail before after why, rfl⟩

/--
Steps of a plan that is followed by another are steps of its own, and then steps of the other.
-/
theorem Steps.of_bind {n : Nat} {t u : Task} {f : Text → Plan} {es : List Event}
    (h : Steps A n (t.bind f) es u) :
    (∃ t', Steps A n t es t' ∧ u = t'.bind f) ∨
      ∃ x m k es₁ es₂, Steps A m t es₁ (plan (.done x)) ∧ Steps A k (plan (f x)) es₂ u ∧
        es = es₁ ++ es₂ := by
  generalize hb : t.bind f = b at h
  induction h generalizing t with
  | refl =>
    subst hb
    exact .inl ⟨t, .refl t, rfl⟩
  | @head n b c u es es' hs hrest ih =>
    subst hb
    rcases hs.of_bind with ⟨t', ht, rfl⟩ | ⟨x, rfl, hx⟩
    · rcases ih rfl with ⟨t'', ht'', rfl⟩ | ⟨x, m, k, es₁, es₂, h₁, h₂, rfl⟩
      · exact .inl ⟨t'', .head ht ht'', rfl⟩
      · exact .inr ⟨x, m + 1, k, es ++ es₁, es₂, .head ht h₁, h₂, (List.append_assoc ..).symm⟩
    · exact .inr ⟨x, 0, n + 1, [], es ++ es', .refl _, .head hx hrest, rfl⟩

/--
Steps of a plan that asks first: what has become of the call, and then what follows the answer.
-/
theorem Steps.of_ask {n : Nat} {place : Place} {c : Call} {next : c.Answer → Plan} {u : Task}
    {es : List Event} (h : Steps A n (plan (.ask place c next)) es u) :
    es = [] ∨ es = [.began place c] ∨
      ∃ (a : c.Answer) (remarks : List Log.Line) (k : Nat) (es' : List Event), A c a ∧
        Steps A k (plan (next a)) es' u ∧
        es = .began place c :: .ended place c :: remarks.map .said ++ es' := by
  cases h with
  | refl => exact .inl rfl
  | head hs h =>
    cases hs with
    | ask _ _ _ ha =>
      cases h with
      | refl => exact .inr (.inl rfl)
      | head hs h =>
        cases hs with
        | arrive _ _ remarks => exact .inr (.inr ⟨_, remarks, _, _, ha, h, rfl⟩)

mutual

def pending : Task → Multiset Request
  | plan _ => 0
  | awaits place c _ => {(place, c)}
  | joined _ ts _ => pendings ts

def pendings : List Task → Multiset Request
  | [] => 0
  | t :: ts => t.pending + pendings ts

end

@[simp] theorem pending_plan (p : Plan) : (plan p).pending = 0 := rfl

@[simp] theorem pendings_append (ts us : List Task) :
    pendings (ts ++ us) = pendings ts + pendings us := by
  induction ts with
  | nil => simp [pendings]
  | cons t ts ih => simp [pendings, ih, add_assoc]

@[simp] theorem pendings_map_plan (ps : List Plan) : pendings (ps.map plan) = 0 := by
  induction ps with
  | nil => rfl
  | cons p ps ih => simp [pendings, ih]

/--
A step loses no request on the way to a text: what was pending or is made is answered, or is pending
still. Where a join fails, what its other branches wait for is lost, and there is no text any more.
-/
theorem Step.exists_lost {t u : Task} {es : List Event} (h : Step A t es u) :
    ∃ lost, t.pending + Event.requests es = Event.responses es + (u.pending + lost) ∧
      ∀ x cs, u.residue.Yields A x cs → lost = 0 := by
  induction h with
  | note place n rest => exact ⟨0, by simp, fun _ _ _ => rfl⟩
  | ask place c next ha => exact ⟨0, by simp [pending], fun _ _ _ => rfl⟩
  | arrive place c remarks rest => exact ⟨0, by simp [pending], fun _ _ _ => rfl⟩
  | fork rule branches next => exact ⟨0, by simp [pending], fun _ _ _ => rfl⟩
  | @branch rule next before after t t' es _ ih =>
    -- What the other branches wait for is the same before and after.
    obtain ⟨lost, hlost, hzero⟩ := ih
    refine ⟨lost, ?_, fun x cs hx => ?_⟩
    · simp only [pending, pendings_append, pendings]
      calc pendings before + (t.pending + pendings after) + (Event.requests es : Multiset Request)
        _ = pendings before + pendings after + (t.pending + Event.requests es) := by abel
        _ = pendings before + pendings after + (Event.responses es + (t'.pending + lost)) := by
          rw [hlost]
        _ = Event.responses es + (pendings before + (t'.pending + pendings after) + lost) := by abel
    · simp only [residue, residues_append, residues] at hx
      cases hx with
      | join hts _ =>
        obtain ⟨t, cs', ht⟩ := hts.exists_of_mem (p := t'.residue) (by simp)
        exact hzero t cs' ht
  | meet rule ts next =>
    have hnone : pendings (ts.map fun t => plan (.done t)) = 0 := by
      rw [← pendings_map_plan (ts.map .done), List.map_map]
      rfl
    exact ⟨0, by simp [pending, hnone], fun _ _ _ => rfl⟩
  | @fail rule next before after why =>
    -- All that is pending is lost, and what is left of the task comes to no text.
    refine ⟨(joined rule (before ++ plan (.halt why) :: after) next).pending, by simp, ?_⟩
    intro x cs hx
    cases hx

theorem Steps.exists_lost {n : Nat} {t u : Task} {es : List Event} (h : Steps A n t es u) :
    ∃ lost, t.pending + Event.requests es = Event.responses es + (u.pending + lost) ∧
      ∀ x cs, u.residue.Yields A x cs → lost = 0 := by
  induction h with
  | refl t => exact ⟨0, by simp, fun _ _ _ => rfl⟩
  | @head n t u v es es' hs hrest ih =>
    obtain ⟨lost, hlost, hzero⟩ := hs.exists_lost
    obtain ⟨lost', hlost', hzero'⟩ := ih
    refine ⟨lost + lost', ?_, fun x cs hx => ?_⟩
    · rw [Event.requests_append, Event.responses_append, ← Multiset.coe_add, ← Multiset.coe_add]
      calc t.pending + (↑(Event.requests es) + ↑(Event.requests es'))
        _ = t.pending + ↑(Event.requests es) + ↑(Event.requests es') := (add_assoc ..).symm
        _ = ↑(Event.responses es) + lost + (u.pending + ↑(Event.requests es')) := by
          rw [hlost]
          abel
        _ = ↑(Event.responses es) + ↑(Event.responses es') + (v.pending + (lost + lost')) := by
          rw [hlost']
          abel
    · rw [hzero _ _ (hrest.yields hx), hzero' x cs hx, add_zero]

/--
A plan that has come to a text waits for nothing: all that it has asked for has been answered.
-/
theorem Steps.settles {n : Nat} {p : Plan} {x : Text} {es : List Event}
    (h : Steps A n (plan p) es (plan (.done x))) (r : Request) : Event.Settles es r := by
  obtain ⟨lost, hlost, hzero⟩ := h.exists_lost
  rw [hzero x 0 (.done x), pending_plan, pending_plan, zero_add, add_zero, add_zero] at hlost
  exact (Multiset.coe_eq_coe.1 hlost).count_eq r

theorem Steps.mem_requests {n : Nat} {p : Plan} {u : Task} {es : List Event}
    (h : Steps A n (plan p) es u) {r : Request} (hr : r ∈ Event.responses es) :
    r ∈ Event.requests es := by
  obtain ⟨lost, hlost, -⟩ := h.exists_lost
  rw [pending_plan, zero_add] at hlost
  rw [← Multiset.mem_coe, hlost]
  exact Multiset.mem_add.2 (.inl hr)

/-- No event that the task brings about is one of these. -/
def Silent (A : Answering) (P : Event → Bool) (t : Task) : Prop :=
  ∀ n es u, Steps A n t es u → es.filter P = []

theorem Silent.step {P : Event → Bool} {t u : Task} {es : List Event} (ht : Silent A P t)
    (h : Step A t es u) : es.filter P = [] ∧ Silent A P u := by
  refine ⟨by simpa using ht 1 _ _ (.single h), fun n es' v hv => ?_⟩
  have hall := ht (n + 1) _ _ (.head h hv)
  rw [List.filter_append, List.append_eq_nil_iff] at hall
  exact hall.2

theorem silent_halt (P : Event → Bool) (why : Halt) : Silent A P (plan (.halt why)) := by
  intro n es u h
  cases h with
  | refl => rfl
  | head hs _ => cases hs

theorem getElem?_branch {before after : List Task} {t t' : Task} {j : Nat}
    (hj : j ≠ before.length) : (before ++ t :: after)[j]? = (before ++ t' :: after)[j]? := by
  rcases Nat.lt_or_gt_of_ne hj with hlt | hgt
  · rw [List.getElem?_append_left hlt, List.getElem?_append_left hlt]
  · obtain ⟨k, rfl⟩ := Nat.exists_eq_add_of_lt hgt
    have hk : before.length + k + 1 - before.length = k + 1 := by omega
    rw [List.getElem?_append_right hgt.le, List.getElem?_append_right hgt.le, hk,
      List.getElem?_cons_succ, List.getElem?_cons_succ]

/-- Where all other branches of a join keep silent, one branch is all that is heard. -/
theorem Steps.exists_branch {P : Event → Bool} {rule : JoinRule} {next : List Text → Plan} {i : Nat}
    (hnext : ∀ xs, Silent A P (plan (next xs))) {n : Nat} {ts : List Task} {t u : Task}
    {es : List Event} (ht : ts[i]? = some t)
    (hother : ∀ j v, j ≠ i → ts[j]? = some v → Silent A P v)
    (h : Steps A n (joined rule ts next) es u) :
    ∃ m es' t', Steps A m t es' t' ∧ es.filter P = es'.filter P := by
  generalize hjoined : joined rule ts next = b at h
  induction h generalizing ts t with
  | refl => exact ⟨0, [], t, .refl t, rfl⟩
  | @head n b c u es es' hs hrest ih =>
    subst hjoined
    cases hs with
    | @branch _ _ before after v v' _ hv =>
      have hv? : (before ++ v :: after)[before.length]? = some v := by simp
      have hv'? : (before ++ v' :: after)[before.length]? = some v' := by simp
      by_cases hi : i = before.length
      · obtain rfl : v = t := by rwa [hi, hv?, Option.some.injEq] at ht
        have hsame : ∀ j w, j ≠ i → (before ++ v' :: after)[j]? = some w → Silent A P w := by
          intro j w hj hw
          rw [getElem?_branch (hi ▸ hj)] at hw
          exact hother j w hj hw
        obtain ⟨m, es'', t', hm, heq⟩ := ih (hi ▸ hv'?) hsame rfl
        refine ⟨m + 1, es ++ es'', t', .head hv hm, ?_⟩
        rw [List.filter_append, List.filter_append, heq]
      · obtain ⟨hnone, hv'⟩ := (hother before.length v (Ne.symm hi) hv?).step hv
        have hothers : ∀ j w, j ≠ i → (before ++ v' :: after)[j]? = some w → Silent A P w := by
          intro j w hj hw
          by_cases hjb : j = before.length
          · rw [hjb, hv'?, Option.some.injEq] at hw
            rwa [← hw]
          · rw [getElem?_branch hjb] at hw
            exact hother j w hj hw
        rw [getElem?_branch hi] at ht
        obtain ⟨m, es'', t', hm, heq⟩ := ih ht hothers rfl
        exact ⟨m, es'', t', hm, by rw [List.filter_append, hnone, heq, List.nil_append]⟩
    | meet _ xs =>
      -- From here on nothing is heard, neither of what comes after the join nor of its failure.
      have hnone := hnext xs _ _ _ hrest
      exact ⟨0, [], t, .refl t, by simpa using hnone⟩
    | fail before after why =>
      have hnone := silent_halt P why _ _ _ hrest
      exact ⟨0, [], t, .refl t, by simpa using hnone⟩

end Task
end Inlay
