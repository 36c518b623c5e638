import Inlay.Proofs.Plan.Meaning

/-!
What passes between a run and its host. A host sees calls in the order in which they are made,
whenever their answers come, so that the requests of a run tell every state of its host and every
answer that it was given.
-/
namespace Inlay

namespace Place

/-- The other place is that of this document or of one that it includes, however deeply. -/
def within (place other : Place) : Bool := place.isPrefixOf other

/-- The other place is that of a document that this one includes, however deeply. -/
def below (place other : Place) : Bool := place.isPrefixOf other && other != place

theorem below_append (place other : Place) (i : Nat) :
    place.below (other ++ [i]) = place.within other := by
  rw [Bool.eq_iff_iff, below, within, Bool.and_eq_true, List.isPrefixOf_iff_prefix,
    List.isPrefixOf_iff_prefix, List.prefix_concat_iff, bne_iff_ne]
  constructor
  · rintro ⟨heq | hprefix, hne⟩
    · exact absurd heq.symm hne
    · exact hprefix
  · intro hprefix
    refine ⟨.inr hprefix, fun heq => ?_⟩
    have hle := hprefix.length_le
    rw [← heq, List.length_append, List.length_singleton] at hle
    omega

theorem within_of_below {place other : Place} (h : place.below other = true) :
    place.within other = true := (Bool.and_eq_true_iff.1 h).1

end Place

/-- A call together with the place of the document that makes it. -/
abbrev Request := Place × Call

structure Exchange where
  place : Place
  call : Call
  answer : call.Answer

namespace Event

def request? : Event → Option Request
  | began place c => some (place, c)
  | _ => none

def requests (es : List Event) : List Request := es.filterMap request?

@[simp] theorem requests_nil : requests [] = [] := rfl

@[simp] theorem requests_append (es es' : List Event) :
    requests (es ++ es') = requests es ++ requests es' := by
  simp [requests]

@[simp] theorem requests_began (place : Place) (c : Call) :
    requests [.began place c] = [(place, c)] := rfl

@[simp] theorem requests_noted (place : Place) (n : Notice) : requests [.noted place n] = [] := rfl

@[simp] theorem requests_ended (place : Place) (c : Call) (remarks : List Log.Line) :
    requests (.ended place c :: remarks.map .said) = [] := by
  simp [requests, request?]

theorem map_requests (es : List Event) : (requests es).map (·.2) = es.filterMap call? := by
  rw [requests, List.map_filterMap]
  refine List.filterMap_congr fun e _ => ?_
  cases e <;> rfl

end Event

namespace Host

variable {σ : Type}

/-- The host's state after calls, made one after the other. -/
def after (h : Host σ) (s : σ) (cs : List Call) : σ := cs.foldl (fun s c => (h c s).2) s

/-- What passes in the course of requests, made one after the other. -/
def dialogue (h : Host σ) : σ → List Request → List Exchange
  | _, [] => []
  | s, (place, c) :: requests => ⟨place, c, (h c s).1.answer⟩ :: h.dialogue (h c s).2 requests

/-- The answers that calls were given in the course of requests. -/
def Tells (h : Host σ) (s : σ) (requests : List Request) : Answering :=
  fun c a => ∃ place, ⟨place, c, a⟩ ∈ h.dialogue s requests

variable (h : Host σ)

@[simp] theorem after_nil (s : σ) : h.after s [] = s := rfl

@[simp] theorem after_append (s : σ) (cs cs' : List Call) :
    h.after s (cs ++ cs') = h.after (h.after s cs) cs' := List.foldl_append

theorem dialogue_append (s : σ) (rs rs' : List Request) :
    h.dialogue s (rs ++ rs') = h.dialogue s rs ++ h.dialogue (h.after s (rs.map (·.2))) rs' := by
  induction rs generalizing s with
  | nil => rfl
  | cons r rs ih => exact congrArg (_ :: ·) (ih _)

theorem tells_append_left {s : σ} {rs : List Request} (rs' : List Request) {c : Call}
    {a : c.Answer} (ha : h.Tells s rs c a) : h.Tells s (rs ++ rs') c a := by
  obtain ⟨place, hmem⟩ := ha
  exact ⟨place, by rw [dialogue_append]; exact List.mem_append_left _ hmem⟩

theorem tells_append_right {s : σ} (rs : List Request) {rs' : List Request} {c : Call}
    {a : c.Answer} (ha : h.Tells (h.after s (rs.map (·.2))) rs' c a) :
    h.Tells s (rs ++ rs') c a := by
  obtain ⟨place, hmem⟩ := ha
  exact ⟨place, by rw [dialogue_append]; exact List.mem_append_right _ hmem⟩

/-- Whatever rule a host keeps to, its answers in a dialogue keep to it. -/
theorem Keeps.of_tells {h : Host σ} {A : Answering} (hA : h.Keeps A) {s : σ}
    {requests : List Request} {c : Call} {a : c.Answer} (ha : h.Tells s requests c a) : A c a := by
  obtain ⟨place, hmem⟩ := ha
  induction requests generalizing s with
  | nil => cases hmem
  | cons r requests ih =>
    rcases List.mem_cons.1 hmem with heq | hmem
    · cases heq
      exact hA _ s
    · exact ih hmem

end Host
end Inlay
