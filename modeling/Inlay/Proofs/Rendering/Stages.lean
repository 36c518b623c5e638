import Inlay.Proofs.Plan.Schedule
import Inlay.Proofs.Plan.Trace
import Inlay.Proofs.Rendering.Outcome

namespace Inlay

namespace Place

theorem below_self (place : Place) : place.below place = false := by simp [below]

theorem within_self (place : Place) : place.within place = true := by simp [within]

theorem within_iff {place other : Place} : place.within other = true ↔ place <+: other :=
  List.isPrefixOf_iff_prefix

theorem below_of_within_append {place other : Place} {i : Nat}
    (h : (place ++ [i]).within other = true) : place.below other = true := by
  obtain ⟨more, rfl⟩ := within_iff.1 h
  have hprefix : place <+: place ++ [i] ++ more := ⟨[i] ++ more, (List.append_assoc ..).symm⟩
  have hne : place ++ [i] ++ more ≠ place := by
    intro heq
    have hlength := congrArg List.length heq
    simp at hlength
  rw [below, List.isPrefixOf_iff_prefix.2 hprefix, Bool.true_and, bne_iff_ne]
  exact hne

theorem ne_of_below {place other : Place} (h : place.below other = true) : other ≠ place :=
  bne_iff_ne.1 (Bool.and_eq_true_iff.1 h).2

theorem not_within_of_below {place other : Place} (h : place.below other = true) :
    other.within place = false := by
  refine Bool.eq_false_iff.2 fun hother => ne_of_below h ?_
  exact (within_iff.1 hother).eq_of_length_le (within_iff.1 (within_of_below h)).length_le

theorem not_within_append (place : Place) (i : Nat) : (place ++ [i]).within place = false :=
  not_within_of_below (below_of_within_append (within_self _))

theorem within_trans {place other inner : Place} (h : place.within other = true)
    (h' : other.within inner = true) : place.within inner = true :=
  within_iff.2 ((within_iff.1 h).trans (within_iff.1 h'))

theorem eq_of_within_append {place other : Place} {i j : Nat}
    (hi : (place ++ [i]).within other = true) (hj : (place ++ [j]).within other = true) :
    i = j := by
  have hlength : (place ++ [i]).length = (place ++ [j]).length := by simp
  obtain ⟨_, heq⟩ := within_iff.1 hi
  obtain ⟨_, heq'⟩ := within_iff.1 hj
  have hsame := (List.append_inj (heq.trans heq'.symm) hlength).1
  simpa using hsame

/--
A document that another one includes is that one itself, or stands in or under a marker of it.
-/
theorem eq_or_within_append {place other : Place} (h : place.within other = true) :
    other = place ∨ ∃ i, (place ++ [i]).within other = true := by
  obtain ⟨more, rfl⟩ := within_iff.1 h
  cases more with
  | nil => exact .inl (List.append_nil place)
  | cons i more => exact .inr ⟨i, within_iff.2 ⟨more, by simp⟩⟩

end Place

/-- Where the pass over the markers of a kind stands among the passes. -/
def Marker.Kind.rank (k : Marker.Kind) : Nat := Marker.Kind.passes.idxOf k

namespace Request

/--
The pass of the document at a place in which the request is made. Whatever is asked for on behalf of
a document that it includes, at any depth, belongs to its pass over the inclusions.
-/
def pass? (place : Place) (r : Request) : Option Marker.Kind :=
  if place.below r.1 then some .inclusion
  else if r.1 = place then
    match r.2 with
    | .lookup _ => some .lookup
    | .execute .. => some .command
    | _ => some .inclusion
  else none

/-- The first request belongs to an earlier pass of the document at the place than the second. -/
def Precedes (place : Place) (r r' : Request) : Prop :=
  ∃ k k', pass? place r = some k ∧ pass? place r' = some k' ∧ k.rank < k'.rank

theorem pass?_of_below {place : Place} {r : Request} (h : place.below r.1 = true) :
    pass? place r = some .inclusion := by
  rw [pass?, if_pos h]

theorem within_of_pass? {place : Place} {r : Request} {k : Marker.Kind}
    (h : pass? place r = some k) : place.within r.1 = true := by
  rw [pass?] at h
  split at h
  · rename_i hbelow
    exact Place.within_of_below hbelow
  · split at h
    · rename_i hplace
      rw [hplace]
      exact Place.within_self place
    · cases h

theorem place_eq_of_pass? {place : Place} {r : Request} {k : Marker.Kind}
    (h : pass? place r = some k) (hk : k ≠ .inclusion) : r.1 = place := by
  rw [pass?] at h
  split at h
  · cases h
    exact absurd rfl hk
  · split at h
    · assumption
    · cases h

theorem pass?_eq_none {place place' : Place} {r : Request} (hplace : r.1 = place)
    (hwithin : place.within place' = true) (hne : place' ≠ place) : pass? place' r = none := by
  have houter : ¬ place'.below r.1 = true := by
    intro hbelow
    have hextends := Place.within_iff.1 (Place.within_of_below hbelow)
    rw [hplace] at hextends
    exact hne (hextends.eq_of_length_le (Place.within_iff.1 hwithin).length_le)
  rw [pass?, if_neg houter, if_neg]
  rw [hplace]
  exact hne.symm

/--
The requests of two passes of one document keep their order for every document that it includes,
where they are not both requests of its pass over the inclusions.
-/
theorem not_precedes {place place' : Place} (hwithin : place.within place' = true) {r r' : Request}
    {k k' : Marker.Kind} (hr : pass? place r = some k) (hr' : pass? place r' = some k')
    (hk : k.rank ≤ k'.rank) (hown : place' = place ∨ k ≠ .inclusion ∨ k' ≠ .inclusion) :
    ¬ Precedes place' r' r := by
  rintro ⟨l', l, hl', hl, hlt⟩
  by_cases hne : place' = place
  · subst hne
    obtain rfl : k = l := Option.some.inj (hr.symm.trans hl)
    obtain rfl : k' = l' := Option.some.inj (hr'.symm.trans hl')
    omega
  · rcases hown.resolve_left hne with hk | hk'
    · rw [pass?_eq_none (place_eq_of_pass? hr hk) hwithin hne] at hl
      cases hl
    · rw [pass?_eq_none (place_eq_of_pass? hr' hk') hwithin hne] at hl'
      cases hl'

end Request

namespace Event

open Request

/--
The passes of the document at a place keep apart in the course of events: when a request of one pass
is made, every request of an earlier pass has been answered, and none is made any more.
-/
def Apart (place : Place) (es : List Event) : Prop :=
  ∀ before r' after, es = before ++ .began r'.1 r'.2 :: after →
    ∀ r, Precedes place r r' → Settles before r ∧ r ∉ requests after

/-- The event is a call, or the answer to one, at a place within the document at this one. -/
def concerns (place : Place) : Event → Bool
  | began other _ => place.within other
  | ended other _ => place.within other
  | _ => false

variable {place : Place} {es es' : List Event}

theorem requests_filter (place : Place) (es : List Event) :
    requests (es.filter (concerns place)) = (requests es).filter fun r => place.within r.1 := by
  rw [requests, requests, List.filterMap_filter, List.filter_filterMap]
  refine List.filterMap_congr fun e _ => ?_
  cases e with
  | began other c | ended other c =>
    cases h : place.within other <;> simp [concerns, request?, Option.filter, h]
  | noted | said => rfl

theorem responses_filter (place : Place) (es : List Event) :
    responses (es.filter (concerns place)) = (responses es).filter fun r => place.within r.1 := by
  rw [responses, responses, List.filterMap_filter, List.filter_filterMap]
  refine List.filterMap_congr fun e _ => ?_
  cases e with
  | began other c | ended other c =>
    cases h : place.within other <;> simp [concerns, response?, Option.filter, h]
  | noted | said => rfl

theorem mem_requests_filter {r : Request} (hr : place.within r.1 = true) :
    r ∈ requests (es.filter (concerns place)) ↔ r ∈ requests es := by
  rw [requests_filter, List.mem_filter, and_iff_left hr]

theorem settles_filter_iff {r : Request} (hr : place.within r.1 = true) :
    Settles (es.filter (concerns place)) r ↔ Settles es r := by
  have hcount : ∀ rs : List Request, (rs.filter fun r => place.within r.1).count r = rs.count r :=
    fun _ => List.count_filter hr
  rw [Settles, Settles, requests_filter, responses_filter, hcount, hcount]

theorem Apart.of_forall (h : ∀ r' ∈ requests es, ∀ r, ¬ Precedes place r r') : Apart place es := by
  rintro before r' after rfl r hr
  exact absurd hr (h r' (mem_requests.2 (by simp)) r)

/-- Whether its passes keep apart does not depend on what happens outside the document. -/
theorem apart_filter_iff : Apart place (es.filter (concerns place)) ↔ Apart place es := by
  constructor
  · rintro h before r' after rfl r hr
    obtain ⟨k, k', hk, hk', -⟩ := id hr
    have hheard : concerns place (.began r'.1 r'.2) = true := within_of_pass? hk'
    obtain ⟨hsettles, hlater⟩ := h (before.filter (concerns place)) r'
      (after.filter (concerns place)) (by simp [hheard]) r hr
    rw [settles_filter_iff (within_of_pass? hk)] at hsettles
    rw [mem_requests_filter (within_of_pass? hk)] at hlater
    exact ⟨hsettles, hlater⟩
  · rintro h before r' after heq r hr
    obtain ⟨k, k', hk, hk', -⟩ := id hr
    obtain ⟨front, tail, rfl, rfl, htail⟩ := List.filter_eq_append_iff.1 heq
    obtain ⟨skipped, back, rfl, hskipped, -, rfl⟩ := List.filter_eq_cons_iff.1 htail
    obtain ⟨hsettles, hlater⟩ := h (front ++ skipped) r' back (by simp) r hr
    rw [← settles_filter_iff (within_of_pass? hk), List.filter_append,
      List.filter_eq_nil_iff.2 hskipped, List.append_nil] at hsettles
    rw [← mem_requests_filter (within_of_pass? hk)] at hlater
    exact ⟨hsettles, hlater⟩

/-- What comes after events that have all been answered, and is of no earlier pass. -/
theorem Apart.append (h : Apart place es) (h' : Apart place es') (hsettles : ∀ r, Settles es r)
    (horder : ∀ r ∈ requests es, ∀ r' ∈ requests es', ¬ Precedes place r' r) :
    Apart place (es ++ es') := by
  rintro before r' after heq r hr
  rcases List.append_eq_append_iff.1 heq with ⟨more, rfl, hmore⟩ | ⟨more, rfl, hmore⟩
  · obtain ⟨hbefore, hlater⟩ := h' more r' after hmore r hr
    exact ⟨(hsettles r).append hbefore, hlater⟩
  · cases more with
    | nil =>
      obtain ⟨-, hlater⟩ := h' [] r' after hmore.symm r hr
      rw [List.append_nil] at hsettles
      exact ⟨hsettles r, hlater⟩
    | cons e more =>
      obtain ⟨rfl, rfl⟩ := List.cons.inj hmore
      obtain ⟨hbefore, hlater⟩ := h before r' more rfl r hr
      refine ⟨hbefore, ?_⟩
      change r ∉ requests (more ++ es')
      rw [requests_append, List.mem_append, not_or]
      exact ⟨hlater, fun hmem => horder r' (mem_requests.2 (by simp)) r hmem hr⟩

end Event

/-- The event is at a place within this one, if it is at any. -/
def Event.Within (here : Place) : Event → Prop
  | began place _ | ended place _ | noted place _ => here.within place = true
  | said _ => True

theorem Event.Within.outward {here : Place} {i : Nat} {e : Event} (h : e.Within (here ++ [i])) :
    e.Within here := by
  cases e with
  | began | ended | noted => exact Place.within_of_below (Place.below_of_within_append h)
  | said => trivial

namespace Plan

open Request Inlay.Task

variable {A : Answering} {Q : Request → Prop} {opts : Options} {place : Place} {source : Source}

/-- All that a document and those that it includes say and ask for is at places within its own. -/
theorem Safe.congruence (A : Answering) (tell : Telling) (opts : Options) :
    Parts.Congruence (parts tell opts) Parts.unit (fun _ => False) (fun _ => False)
      fun here _ p _ => Safe A (Event.Within here) (fun _ => True) p where
  done _ := .done _
  stops h := by
    cases h with
    | deep | cycle => exact .halt trivial
    | left h | right h => exact h.elim
  bind hp hf := .bind hp fun text _ _ => hf text
  pass hf := by
    refine .notes (fun _ _ => Place.within_self _) (.join (fun p hp => ?_) fun _ _ _ => .done _)
    obtain ⟨i, m, -, rfl⟩ := mem_branches.1 hp
    exact hf i m.payload
  name _ _ := .noteIf (Place.within_self _) (.ask (Place.within_self _) fun _ _ => .done _)
  command _ _ := by
    refine .noteIf (Place.within_self _) (.ask (Place.within_self _) fun answer _ => ?_)
    cases answer with
    | ok output => exact .done _
    | error failure => exact .halt trivial
  identify hnext := .ask (Place.within_self _) fun identity _ => hnext identity
  read hnext := by
    refine .noteIf (Place.within_self _) (.ask (Place.within_self _) fun answer _ => ?_)
    cases answer with
    | ok text => exact hnext text
    | error cause => exact .halt trivial
  inner h := .mono (fun _ => Event.Within.outward) (fun _ => id) h

theorem Safe.passesWith {tell : Telling} {depth : Nat} {chain : List Path} {text : Text} :
    Safe A (Event.Within place) (fun _ => True)
      (.passesWith tell opts depth place source chain text) := by
  rw [passesWith_eq_parts]
  apply (congruence A tell opts).related.passes (.refl _ _ depth chain)
  exact place

/-- Every request that the plan can still make is one of these. -/
def Asks (A : Answering) (Q : Request → Prop) (p : Plan) : Prop :=
  Safe A (fun e => ∀ r ∈ e.request?, Q r) (fun _ => True) p

namespace Asks

theorem ask {c : Call} {next : c.Answer → Plan} (hc : Q (place, c))
    (hn : ∀ a, A c a → Asks A Q (next a)) : Asks A Q (.ask place c next) :=
  Safe.ask (by rintro _ ⟨⟩; exact hc) hn

theorem halt (why : Halt) : Asks A Q (.halt why) := Safe.halt trivial

theorem mono {Q' : Request → Prop} {p : Plan} (hQ : ∀ r, Q r → Q' r) (h : Asks A Q p) :
    Asks A Q' p := Safe.mono (fun _ he r hr => hQ r (he r hr)) (fun _ => id) h

theorem noteIf {n : Notice} {rest : Plan} (h : Asks A Q rest) :
    Asks A Q (.noteIf opts place n rest) := Safe.noteIf (by rintro _ ⟨⟩) h

theorem pass {kind : Marker.Kind} {text : Text} {resolve : Nat → Text → Plan}
    (h : ∀ i m, (Segment.markers (Marker.scan kind text))[i]? = some m →
      Asks A Q (resolve i m.payload)) :
    Asks A Q (.pass opts place source kind text resolve) :=
  Safe.pass (fun _ => by rintro _ ⟨⟩) h

theorem bind {p : Plan} {f : Text → Plan} (hp : Asks A Q p) (hf : ∀ t, Asks A Q (f t)) :
    Asks A Q (p.bind f) := Safe.bind hp fun t _ _ => hf t

theorem names {text : Text} (hQ : ∀ name, Q (place, .lookup name)) :
    Asks A Q (.pass opts place source .lookup text fun _ name =>
      resolveName opts place source name) :=
  pass fun _ _ _ => noteIf (ask (hQ _) fun _ _ => Safe.done _)

theorem commands {text : Text} (hQ : ∀ command directory, Q (place, .execute command directory)) :
    Asks A Q ((Plan.pass opts place source .command text fun _ command =>
      resolveCommand opts place source command).bind fun text => .done text.closeLine) := by
  refine bind (pass fun _ _ _ => noteIf (ask (hQ _ _) fun answer _ => ?_)) fun _ => Safe.done _
  rcases answer with failure | output
  · exact halt _
  · exact Safe.done _

theorem resolveFile {chain : List Path} {nested : Path → List Path → Text → Plan} {relative : Text}
    (hidentify : ∀ path, Q (place, .identify path)) (hread : ∀ path, Q (place, .read path))
    (hn : ∀ path chain text, Asks A Q (nested path chain text)) :
    Asks A Q (.resolveFile opts place source chain nested relative) := by
  apply resolveFile_induct halt
  · exact fun next hnext => ask (hidentify _) fun identity _ => hnext identity
  · exact fun next hnext => noteIf (ask (hread _) fun answer _ => hnext answer)
  · exact hn _

/--
All requests of a document and of the documents that it includes are at places within its own.
-/
theorem passes {depth : Nat} {chain : List Path} {text : Text}
    (hQ : ∀ r : Request, place.within r.1 = true → Q r) :
    Asks A Q (.passes opts depth place source chain text) := by
  rw [passes_eq_parts, ← passesWith_eq_parts]
  refine Safe.mono (fun e he r hr => hQ r ?_) (fun _ => id) Safe.passesWith
  cases e with
  | began other c =>
    cases hr
    exact he
  | ended | noted | said => cases hr

variable {p : Plan} {n : Nat} {u : Task} {es : List Event}

theorem of_mem_requests (hp : Asks A Q p) (h : Steps A n (.plan p) es u) {r : Request}
    (hr : r ∈ Event.requests es) : Q r :=
  (h.safe hp).2 _ (Event.mem_requests.1 hr) rfl r rfl

theorem silent (hp : Asks A Q p) (hQ : ∀ r, Q r → place.within r.1 = false) :
    Silent A (Event.concerns place) (.plan p) := by
  intro n es u h
  have hrequests : ∀ r ∈ Event.requests es, place.within r.1 = false :=
    fun r hr => hQ r (hp.of_mem_requests h hr)
  refine List.filter_eq_nil_iff.2 fun e he => ?_
  cases e with
  | began other c => simpa [Event.concerns] using hrequests (other, c) (Event.mem_requests.2 he)
  | ended other c =>
    have hmem : (other, c) ∈ Event.responses es := List.mem_filterMap.2 ⟨_, he, rfl⟩
    simpa [Event.concerns] using hrequests (other, c) (h.mem_requests hmem)
  | noted | said => simp [Event.concerns]

end Asks

/--
Where all branches of a pass but one keep silent, the steps of this one are all that is heard.
-/
theorem exists_steps_of_branches {rule : JoinRule} {kind : Marker.Kind} {text : Text}
    {resolve : Nat → Text → Plan} {next : List Text → Text} {P : Event → Bool} {i : Nat}
    {m : Marker} (hm : (Segment.markers (Marker.scan kind text))[i]? = some m)
    (hother : ∀ j m', j ≠ i → (Segment.markers (Marker.scan kind text))[j]? = some m' →
      Silent A P (.plan (resolve j m'.payload)))
    {n : Nat} {es : List Event} {u : Task}
    (h : Steps A n (.plan (join rule (branches kind text resolve) fun values =>
      done (next values))) es u) :
    ∃ k es' t', Steps A k (.plan (resolve i m.payload)) es' t' ∧ es.filter P = es'.filter P := by
  have hdone : ∀ values, Silent A P (.plan (done (next values))) := by
    intro values n es u h
    cases h with
    | refl => rfl
    | head hs _ => cases hs
  have hbranch : ((branches kind text resolve).map Task.plan)[i]? =
      some (.plan (resolve i m.payload)) := by
    rw [List.getElem?_map, getElem?_branches hm]
    rfl
  have hsilent : ∀ j v, j ≠ i → ((branches kind text resolve).map Task.plan)[j]? = some v →
      Silent A P v := by
    intro j v hj hv
    rw [List.getElem?_map, Option.map_eq_some_iff] at hv
    obtain ⟨p, hp, rfl⟩ := hv
    rw [branches, List.getElem?_mapIdx, Option.map_eq_some_iff] at hp
    obtain ⟨m', hm', rfl⟩ := hp
    exact hother j m' hj hm'
  cases h with
  | refl => exact ⟨0, [], _, .refl _, rfl⟩
  | head hs hrest =>
    cases hs
    exact hrest.exists_branch hdone hbranch hsilent

/-- Whatever becomes of the plan, the passes of the document at the place keep apart. -/
def KeepsApart (A : Answering) (place : Place) (p : Plan) : Prop :=
  ∀ n es u, Steps A n (.plan p) es u → Event.Apart place es

namespace KeepsApart

variable {here : Place}

/-- A plan that makes requests of one pass only has none to keep apart. -/
theorem of_asks {p : Plan} (hp : Asks A Q p) (hQ : ∀ r r', Q r → Q r' → ¬ Precedes place r r') :
    KeepsApart A place p := by
  rintro n es u h before r' after heq r hr
  have hr' : Q r' := hp.of_mem_requests h (Event.mem_requests.2 (by simp [heq]))
  have hnone : r ∉ Event.requests es := fun hmem => hQ r r' (hp.of_mem_requests h hmem) hr' hr
  have hunanswered : r ∉ Event.responses es := fun hmem => hnone (h.mem_requests hmem)
  rw [heq, Event.requests_append, List.mem_append, not_or] at hnone
  rw [heq, Event.responses_append, List.mem_append, not_or] at hunanswered
  refine ⟨?_, fun hmem => hnone.2 ?_⟩
  · rw [Event.Settles, List.count_eq_zero.2 hnone.1, List.count_eq_zero.2 hunanswered.1]
  · exact Event.mem_requests.2 (List.mem_cons_of_mem _ (Event.mem_requests.1 hmem))

theorem nil : Event.Apart place [] := .of_forall (by simp)

theorem note {n : Notice} {rest : Plan} (h : KeepsApart A place rest) :
    KeepsApart A place (.note here n rest) := by
  rintro k es u hsteps
  cases hsteps with
  | refl => exact nil
  | head hs hrest =>
    cases hs
    exact Event.Apart.append (.of_forall (by simp)) (h _ _ _ hrest)
      (fun _ => rfl) (by simp)

theorem notes {ns : List Notice} {rest : Plan} (h : KeepsApart A place rest) :
    KeepsApart A place (.notes here ns rest) := by
  induction ns with
  | nil => exact h
  | cons n ns ih => exact note ih

theorem ask {c : Call} {next : c.Answer → Plan} (hc : pass? place (here, c) = none)
    (hn : ∀ a, A c a → KeepsApart A place (next a)) : KeepsApart A place (.ask here c next) := by
  have hother : ∀ r, ¬ Precedes place r (here, c) := by
    rintro r ⟨_, _, _, hk', _⟩
    rw [hc] at hk'
    cases hk'
  rintro n es u h
  rcases h.of_ask with rfl | rfl | ⟨a, remarks, k, es', ha, hsteps, rfl⟩
  · exact nil
  · exact .of_forall (by simpa using hother)
  · refine Event.Apart.append (.of_forall ?_) (hn a ha _ _ _ hsteps)
      (Event.settles_exchange here c remarks) ?_
    · simpa [Event.requests_exchange] using hother
    · simpa [Event.requests_exchange] using fun r _ => hother r

theorem bind {Q' : Request → Prop} {p : Plan} {f : Text → Plan} (hp : KeepsApart A place p)
    (hf : ∀ t, KeepsApart A place (f t)) (hQ : Asks A Q p) (hQ' : ∀ t, Asks A Q' (f t))
    (horder : ∀ r r', Q r → Q' r' → ¬ Precedes place r' r) : KeepsApart A place (p.bind f) := by
  rintro n es u h
  rcases Steps.of_bind (t := .plan p) h with ⟨t', ht', -⟩ | ⟨x, m, k, es₁, es₂, h₁, h₂, rfl⟩
  · exact hp _ _ _ ht'
  · exact (hp _ _ _ h₁).append (hf x _ _ _ h₂) h₁.settles fun r hr r' hr' =>
      horder r r' (hQ.of_mem_requests h₁ hr) ((hQ' x).of_mem_requests h₂ hr')

theorem pass {kind : Marker.Kind} {text : Text} {resolve : Nat → Text → Plan} {i : Nat}
    (hi : ∀ m, (Segment.markers (Marker.scan kind text))[i]? = some m →
      KeepsApart A place (resolve i m.payload))
    (hother : ∀ j m, j ≠ i → (Segment.markers (Marker.scan kind text))[j]? = some m →
      Asks A (fun r => place.within r.1 = false) (resolve j m.payload)) :
    KeepsApart A place (.pass opts here source kind text resolve) := by
  cases hm : (Segment.markers (Marker.scan kind text))[i]? with
  | none =>
    have hall : Asks A (fun r => place.within r.1 = false)
        (.pass opts here source kind text resolve) := by
      refine .pass fun j m hj => hother j m ?_ hj
      rintro rfl
      rw [hm] at hj
      cases hj
    refine of_asks hall fun r r' _ hr' => ?_
    rintro ⟨_, _, _, hk', _⟩
    rw [within_of_pass? hk'] at hr'
    cases hr'
  | some m =>
    rw [pass_eq]
    refine notes ?_
    rintro n es u h
    obtain ⟨k, es', t', hsteps, heq⟩ :=
      exists_steps_of_branches hm (fun j m' hj hm' => (hother j m' hj hm').silent fun _ => id) h
    rw [← Event.apart_filter_iff, heq, Event.apart_filter_iff]
    exact hi m hm _ _ _ hsteps

theorem noteIf {n : Notice} {rest : Plan} (h : KeepsApart A place rest) :
    KeepsApart A place (.noteIf opts here n rest) := by
  rw [noteIf_eq]
  exact notes h

theorem resolveFile {chain : List Path} {nested : Path → List Path → Text → Plan} {relative : Text}
    (hcalls : ∀ c, pass? place (here, c) = none)
    (hn : ∀ path chain text, KeepsApart A place (nested path chain text)) :
    KeepsApart A place (.resolveFile opts here source chain nested relative) := by
  apply resolveFile_induct
  · exact fun why => of_asks (Q := fun _ => False) (.halt why) fun _ _ => False.elim
  · exact fun next hnext => ask (hcalls _) fun identity _ => hnext identity
  · exact fun next hnext => noteIf (ask (hcalls _) fun answer _ => hnext answer)
  · exact hn _

theorem passes {depth : Nat} {chain : List Path} {text : Text}
    (hwithin : here.within place = true) :
    KeepsApart A place (.passes opts depth here source chain text) := by
  induction depth generalizing here source chain text with
  | zero => exact of_asks (Q := fun _ => False) (.halt _) fun _ _ => False.elim
  | succ depth ih =>
    have hlookup : ∀ name, pass? here (here, .lookup name) = some .lookup := by
      simp [pass?, Place.below_self]
    have hidentify : ∀ path, pass? here (here, .identify path) = some .inclusion := by
      simp [pass?, Place.below_self]
    have hread : ∀ path, pass? here (here, .read path) = some .inclusion := by
      simp [pass?, Place.below_self]
    have hexecute : ∀ command directory,
        pass? here (here, .execute command directory) = some .command := by
      simp [pass?, Place.below_self]
    have hnames : Asks A (fun r => pass? here r = some .lookup)
        (Plan.pass opts here source .lookup text fun _ name =>
          resolveName opts here source name) := .names hlookup
    have hincludes : ∀ named, Asks A (fun r => pass? here r = some .inclusion)
        (Plan.pass opts here source .inclusion named fun i relative =>
          Plan.resolveFile opts here source chain
            (fun path => Plan.passes opts depth (here ++ [i]) (.file path)) relative) := by
      intro named
      refine .pass fun i m _ => .resolveFile hidentify hread fun _ _ _ => .passes fun r hr => ?_
      exact pass?_of_below (Place.below_of_within_append hr)
    have hkeep : ∀ {k : Marker.Kind} {p : Plan}, Asks A (fun r => pass? here r = some k) p →
        place = here ∨ k ≠ .inclusion → KeepsApart A place p := fun hp hk =>
      of_asks hp fun r r' hr hr' => not_precedes hwithin hr' hr le_rfl (hk.imp_right .inl)
    have hinclusions : ∀ named, KeepsApart A place
        (Plan.pass opts here source .inclusion named fun i relative =>
          Plan.resolveFile opts here source chain
            (fun path => Plan.passes opts depth (here ++ [i]) (.file path)) relative) := by
      intro named
      -- The place is that of this document, or that of one below a single of its includes.
      rcases Place.eq_or_within_append hwithin with rfl | ⟨i, hi⟩
      · exact hkeep (hincludes named) (.inl rfl)
      · have hbelow := Place.below_of_within_append hi
        have hnone : ∀ c, pass? place (here, c) = none := fun c =>
          pass?_eq_none rfl hwithin (Place.ne_of_below hbelow)
        refine pass (fun m _ => resolveFile hnone fun _ _ _ => ih hi) fun j m hj _ => ?_
        have hself : place.within here = false := Place.not_within_of_below hbelow
        -- The other includes ask for nothing at the place.
        refine .resolveFile (fun _ => hself) (fun _ => hself) fun _ _ _ => .passes fun r hr => ?_
        refine Bool.eq_false_iff.2 fun hr' => hj (Place.eq_of_within_append hr ?_)
        exact Place.within_trans hi hr'
    have hearly : Asks A (fun r => pass? here r = some .lookup ∨ pass? here r = some .inclusion)
        (included opts depth here source chain text) :=
      .bind (hnames.mono fun _ => .inl) fun named => (hincludes named).mono fun _ => .inr
    have hlast : ∀ text, Asks A (fun r => pass? here r = some .command)
        ((Plan.pass opts here source .command text fun _ command =>
          resolveCommand opts here source command).bind fun text => .done text.closeLine) :=
      fun _ => .commands hexecute
    rw [passes_succ]
    refine bind (bind (hkeep hnames (.inr (by decide))) hinclusions hnames hincludes ?_)
      (fun text => hkeep (hlast text) (.inr (by decide))) hearly hlast ?_
    · exact fun r r' hr hr' => not_precedes hwithin hr hr' (by decide) (.inr (.inl (by decide)))
    · rintro r r' (hr | hr) hr'
      · exact not_precedes hwithin hr hr' (by decide) (.inr (.inl (by decide)))
      · exact not_precedes hwithin hr hr' (by decide) (.inr (.inr (by decide)))

end KeepsApart
end Plan

/-- What passes before the passes begin: with detection, a document that is a file is named. -/
def naming (opts : Options) (source : Source) : List Event :=
  match opts.detectCycles, source.path? with
  | true, some path => [.began [] (.identify path)]
  | _, _ => []

/-- Events that keep apart, after a front of which every request has been answered. -/
theorem Event.Apart.after_front {place : Place} {front opening es : List Event}
    (h : Apart place es) (hsettles : ∀ r, Settles front r)
    (hfront : requests front = requests opening)
    {before : List Event} {r' : Request} {after : List Event}
    (heq : front ++ es = before ++ .began r'.1 r'.2 :: after) (hopening : opening <+: before)
    {r : Request} (hr : Request.Precedes place r r') :
    Settles before r ∧ r ∉ requests after := by
  rcases List.append_eq_append_iff.1 heq with ⟨more, rfl, hmore⟩ | ⟨more, rfl, hmore⟩
  · obtain ⟨hbefore, hlater⟩ := h more r' after hmore r hr
    exact ⟨(hsettles r).append hbefore, hlater⟩
  · -- The front has no request beyond those of the opening, so that it ends where the rest begins.
    obtain ⟨tail, rfl⟩ := hopening
    cases more with
    | nil =>
      obtain ⟨-, hlater⟩ := h [] r' after hmore.symm r hr
      rw [List.append_nil] at hsettles
      exact ⟨hsettles r, hlater⟩
    | cons e more =>
      obtain ⟨rfl, rfl⟩ := List.cons.inj hmore
      have hlength := congrArg List.length hfront
      simp only [requests, List.filterMap_append, List.filterMap_cons, request?,
        List.length_append, List.length_cons] at hlength
      omega

theorem Task.Steps.render_apart {A : Answering} {opts : Options} {depth n : Nat} {source : Source}
    {text : Text} {es : List Event} {u : Task}
    (h : Steps A n (.plan (.render opts depth [] source text)) es u) {place : Place}
    {before : List Event} {r' : Request} {after : List Event}
    (heq : es = before ++ .began r'.1 r'.2 :: after) (hnaming : naming opts source <+: before)
    {r : Request} (hr : Request.Precedes place r r') :
    Event.Settles before r ∧ r ∉ Event.requests after := by
  have hpasses : ∀ {chain n es u},
      Steps A n (.plan (.passes opts depth [] source chain text)) es u → Event.Apart place es :=
    fun hsteps => Plan.KeepsApart.passes (Place.within_iff.2 List.nil_prefix) _ _ _ hsteps
  unfold Plan.render at h
  split at h
  · rename_i path hopts hpath
    have hone : naming opts source = [.began [] (.identify path)] := by rw [naming, hopts, hpath]
    rw [hone] at hnaming
    obtain ⟨more, rfl⟩ := hnaming
    rcases h.of_ask with rfl | rfl | ⟨a, remarks, k, es', -, hsteps, rfl⟩
    · simp at heq
    · simp at heq
    · exact (hpasses hsteps).after_front (Event.settles_exchange [] _ remarks)
        (Event.requests_exchange [] _ remarks) heq (List.prefix_append ..) hr
  · exact hpasses h before r' after heq r hr

variable {σ : Type}

theorem Schedule.asked_first (h : Host σ) (rounds : Nat) (place : Place) (c : Call)
    (next : c.Answer → Plan) (s : σ) :
    [.began place c] <+: (run h rounds (.ask place c next) ⟨s, 0, []⟩).2.events := by
  rcases hrun : run h rounds (.ask place c next) ⟨s, 0, []⟩ with ⟨o, r⟩
  have hasked : [(place, c)] <+: r.requests := by
    refine List.IsPrefix.trans ?_ (requests_of_run hrun)
    rw [start_ask]
    split
    · refine List.IsPrefix.trans ?_ (requests_start h _ _)
      simp [Run.requests, Event.requests_exchange]
    · simp [Run.requests]
  obtain ⟨n, es, u, hsteps, hes, -⟩ :=
    run_steps h.keeps_allows rounds (.ask place c next) ⟨s, 0, []⟩
  rw [hrun] at hes
  rw [Run.requests, hes] at hasked
  rw [hes]
  rcases hsteps.of_ask with rfl | rfl | ⟨a, remarks, k, es', -, -, rfl⟩
  · simp at hasked
  · exact List.prefix_rfl
  · exact List.prefix_append [_] _

/--
The passes of every document keep apart, in every run on every host. Once the document to be
rendered has been named, no request of a later pass of a document is made before every request of
its earlier passes has been answered, those made for the documents that it includes among them, and
none of these is made after it.
-/
theorem passes_apart (h : Host σ) (opts : Options) (depth rounds : Nat) (source : Source)
    (text : Text) (s : σ) :
    naming opts source <+:
        (Schedule.run h rounds (Plan.render opts depth [] source text) ⟨s, 0, []⟩).2.events ∧
      ∀ place before r' after,
        (Schedule.run h rounds (Plan.render opts depth [] source text) ⟨s, 0, []⟩).2.events =
            before ++ .began r'.1 r'.2 :: after →
          naming opts source <+: before → ∀ r, Request.Precedes place r r' →
            Event.Settles before r ∧ r ∉ Event.requests after := by
  constructor
  · cases hopts : opts.detectCycles with
    | false => simp [naming, hopts]
    | true =>
      cases hpath : source.path? with
      | none => simp [naming, hopts, hpath]
      | some path =>
        simp only [naming, Plan.render, hopts, hpath]
        exact Schedule.asked_first h rounds [] _ _ s
  · intro place before r' after heq hnaming r hr
    obtain ⟨n, es, u, hsteps, hes, -⟩ := Schedule.run_steps h.keeps_allows rounds
      (Plan.render opts depth [] source text) ⟨s, 0, []⟩
    rw [hes] at heq
    exact hsteps.render_apart heq hnaming hr

/-- The command of a document two levels down has ended before that of the outermost begins. -/
theorem passes_apart_late :
    ∃ before after,
      (Schedule.run (Oracle.nest.host fun n _ => 10 - n) 20
          (Plan.render {} 3 [] (.file ['m']) "$<<b>>$<<c>>$((y))".toList) ⟨0, 0, []⟩).2.events =
        before ++ .began [] (.execute ['y'] ['.']) :: after ∧
      naming {} (.file ['m']) <+: before ∧
      Request.Precedes [] ([1, 0], .execute ['x'] ['.']) ([], .execute ['y'] ['.']) ∧
      (Event.responses before).count ([1, 0], .execute ['x'] ['.']) = 1 ∧
      Event.Settles before ([1, 0], .execute ['x'] ['.']) ∧
      ([1, 0], .execute ['x'] ['.']) ∉ Event.requests after := by
  obtain ⟨hnaming, hapart⟩ := passes_apart (Oracle.nest.host fun n _ => 10 - n) {} 3 20
    (.file ['m']) "$<<b>>$<<c>>$((y))".toList 0
  have hbegan : (Schedule.run (Oracle.nest.host fun n _ => 10 - n) 20
      (Plan.render {} 3 [] (.file ['m']) "$<<b>>$<<c>>$((y))".toList) ⟨0, 0, []⟩).2.events =
        [.began [] (.identify ['m']), .ended [] (.identify ['m']), .began [] (.identify ['b']),
          .began [] (.identify ['c']), .ended [] (.identify ['c']), .began [] (.read ['c']),
          .ended [] (.identify ['b']), .began [] (.read ['b']), .ended [] (.read ['b']),
          .began [0] (.execute ['x'] ['.']), .ended [] (.read ['c']), .began [1] (.identify ['b']),
          .ended [1] (.identify ['b']), .began [1] (.read ['b']),
          .ended [0] (.execute ['x'] ['.']), .ended [1] (.read ['b']),
          .began [1, 0] (.execute ['x'] ['.']), .ended [1, 0] (.execute ['x'] ['.'])] ++
        .began [] (.execute ['y'] ['.']) :: [.ended [] (.execute ['y'] ['.'])] := by
    decide +kernel
  have hprecedes :
      Request.Precedes [] ([1, 0], .execute ['x'] ['.']) ([], .execute ['y'] ['.']) :=
    ⟨.inclusion, .command, rfl, rfl, by decide⟩
  have hfirst : naming {} (.file ['m']) = [.began [] (.identify ['m'])] := rfl
  refine ⟨_, _, hbegan, by rw [hfirst]; exact List.prefix_append [_] _, hprecedes, rfl, ?_⟩
  exact hapart [] _ ([], .execute ['y'] ['.']) _ hbegan
    (by rw [hfirst]; exact List.prefix_append [_] _) _ hprecedes

end Inlay
