import Inlay.Proofs.Plan.Timing

/-!
Which failure ends a join, and when. Every branch of the join makes one call, whose answer is its
end. A join that takes the first failure in time ends with it; one that keeps to the order of its
branches ends with the first failure among them, as soon as every earlier branch has ended too.
-/
namespace Inlay

variable {σ : Type}

/-- How long the answers to calls take that are made one after the other. -/
def Host.delays (h : Host σ) : σ → List Call → List Nat
  | _, [] => []
  | s, c :: cs => (h c s).1.delay :: h.delays (h c s).2 cs

/-- When a branch comes to its end, and to which. -/
structure Fate where
  time : Nat
  result : Except Halt Text

def Plan.ended : Except Halt Text → Plan
  | .ok t => done t
  | .error why => halt why

/-- What a branch asks for, and the end to which the answer brings it. -/
structure Errand where
  place : Place
  notices : List Notice
  call : Call
  settle : call.Answer → Except Halt Text

namespace Errand

def plan (e : Errand) : Plan :=
  .notes e.place e.notices (.ask e.place e.call fun a => Plan.ended (e.settle a))

/-- The fates of errands that are begun one after the other at one time. -/
def fates (h : Host σ) (now : Nat) : σ → List Errand → List Fate
  | _, [] => []
  | s, e :: es =>
    ⟨now + (h e.call s).1.delay, e.settle (h e.call s).1.answer⟩ :: fates h now (h e.call s).2 es

end Errand

namespace Strand

/-- How the strand of a branch with this fate stands at a time. -/
inductive Faces (now : Nat) : Fate → Strand → Prop
  | finished {time : Nat} {t : Text} : time ≤ now → Faces now ⟨time, .ok t⟩ (finished t)
  | halted {time : Nat} {why : Halt} : time ≤ now → Faces now ⟨time, .error why⟩ (halted why)
  | waiting {time : Nat} {x : Except Halt Text} {place : Place} {c : Call}
      {remarks : List Log.Line} : now < time →
    Faces now ⟨time, x⟩ (waiting time place c remarks (Plan.ended x))

end Strand

theorem Host.length_delays (h : Host σ) (s : σ) (cs : List Call) :
    (h.delays s cs).length = cs.length := by
  induction cs generalizing s with
  | nil => rfl
  | cons c cs ih => exact congrArg (· + 1) (ih _)

namespace Schedule

open Strand

/-- The branch whose failure ends the join at a time, where all before it have a text if `clear`. -/
def stops (rule : JoinRule) (now : Nat) : (clear : Bool) → List Fate → Option Nat
  | _, [] => none
  | clear, fate :: fates =>
    if fate.time ≤ now then
      match fate.result with
      | .ok _ => (stops rule now clear fates).map (· + 1)
      | .error _ =>
        if rule.counts clear then some 0 else (stops rule now false fates).map (· + 1)
    else (stops rule now false fates).map (· + 1)

variable {rule : JoinRule} {now time : Nat} {clear : Bool} {fates : List Fate}

theorem stops_ok {t : Text} (htime : time ≤ now) :
    stops rule now clear (⟨time, .ok t⟩ :: fates) = (stops rule now clear fates).map (· + 1) :=
  if_pos htime

theorem stops_error {why : Halt} (htime : time ≤ now) :
    stops rule now clear (⟨time, .error why⟩ :: fates) =
      if rule.counts clear then some 0 else (stops rule now false fates).map (· + 1) :=
  if_pos htime

theorem stops_late (fate : Fate) (hlate : now < fate.time) :
    stops rule now clear (fate :: fates) = (stops rule now false fates).map (· + 1) :=
  if_neg (Nat.not_le.2 hlate)

theorem stops_congr {later : Nat} (h : ∀ fate ∈ fates, fate.time ≤ later ↔ fate.time ≤ now) :
    stops rule later clear fates = stops rule now clear fates := by
  induction fates generalizing clear with
  | nil => rfl
  | cons fate fates ih =>
    obtain ⟨hfate, hfates⟩ := List.forall_mem_cons.1 h
    have ih : ∀ clear, stops rule later clear fates = stops rule now clear fates :=
      fun _ => ih hfates
    simp only [stops, ih, hfate]

theorem exists_of_stops {i : Nat} (h : stops rule now clear fates = some i) :
    ∃ time why, fates[i]? = some ⟨time, .error why⟩ ∧ time ≤ now := by
  induction fates generalizing clear i with
  | nil => cases h
  | cons fate fates ih =>
    have hlater : ∀ clear, (stops rule now clear fates).map (· + 1) = some i →
        ∃ time why, (fate :: fates)[i]? = some ⟨time, .error why⟩ ∧ time ≤ now := by
      intro clear h
      obtain ⟨j, hj, rfl⟩ := Option.map_eq_some_iff.1 h
      exact ih hj
    rcases Nat.lt_or_ge now fate.time with hlate | htime
    · rw [stops_late _ hlate] at h
      exact hlater _ h
    · obtain ⟨time, why | t⟩ := fate
      · rw [stops_error htime] at h
        split at h
        · cases h
          exact ⟨time, why, rfl, htime⟩
        · exact hlater _ h
      · rw [stops_ok htime] at h
        exact hlater _ h

/-- When the first failure counts, a join ends with the first branch that has failed by now. -/
theorem stops_eager {i : Nat} {why : Halt} (hi : fates[i]? = some ⟨time, .error why⟩)
    (htime : time ≤ now)
    (hearlier : ∀ j < i, ∀ time why, fates[j]? = some ⟨time, .error why⟩ → now < time) :
    stops .eager now clear fates = some i := by
  induction fates generalizing clear i with
  | nil => cases hi
  | cons fate fates ih =>
    cases i with
    | zero =>
      cases hi
      rw [stops_error htime]
      rfl
    | succ i =>
      have hrest : ∀ clear, stops .eager now clear fates = some i := fun _ =>
        ih hi fun j hj => hearlier (j + 1) (Nat.succ_lt_succ hj)
      rcases Nat.lt_or_ge now fate.time with hlate | hfirst
      · rw [stops_late _ hlate, hrest, Option.map_some]
      · obtain ⟨time', why' | t⟩ := fate
        · have hlate : now < time' := hearlier 0 i.succ_pos time' why' rfl
          exact absurd hlate (Nat.not_lt.2 hfirst)
        · rw [stops_ok hfirst, hrest, Option.map_some]

theorem stops_eager_eq_none
    (h : ∀ (j : Nat) time why, fates[j]? = some ⟨time, .error why⟩ → now < time) :
    stops .eager now clear fates = none := by
  cases hstops : stops .eager now clear fates with
  | none => rfl
  | some i =>
    obtain ⟨time, why, hi, htime⟩ := exists_of_stops hstops
    exact absurd (h i time why hi) (Nat.not_lt.2 htime)

theorem stops_inOrder_false : stops .inOrder now false fates = none := by
  induction fates with
  | nil => rfl
  | cons fate fates ih =>
    obtain ⟨time, _ | _⟩ := fate <;> simp [stops, ih, JoinRule.counts]

/-- When the order counts, a join ends with its first failure once all before it have ended. -/
theorem stops_inOrder {i : Nat} {why : Halt} (hi : fates[i]? = some ⟨time, .error why⟩)
    (htime : time ≤ now)
    (hearlier : ∀ j < i, ∃ time t, fates[j]? = some ⟨time, .ok t⟩ ∧ time ≤ now) :
    stops .inOrder now true fates = some i := by
  induction fates generalizing i with
  | nil => cases hi
  | cons fate fates ih =>
    cases i with
    | zero =>
      cases hi
      rw [stops_error htime]
      rfl
    | succ i =>
      have hrest : stops .inOrder now true fates = some i :=
        ih hi fun j hj => hearlier (j + 1) (Nat.succ_lt_succ hj)
      obtain ⟨time', t, hfate, htime'⟩ := hearlier 0 i.succ_pos
      cases hfate
      rw [stops_ok htime', hrest, Option.map_some]

/-- A branch that has not ended keeps the failures behind it from counting. -/
theorem stops_inOrder_eq_none {i j : Nat} {fate : Fate}
    (hok : ∀ k < i, ∀ time why, fates[k]? ≠ some ⟨time, .error why⟩) (hj : j ≤ i)
    (hfate : fates[j]? = some fate) (hlate : now < fate.time) :
    stops .inOrder now true fates = none := by
  induction fates generalizing i j with
  | nil => rfl
  | cons first fates ih =>
    cases j with
    | zero =>
      cases hfate
      rw [stops_late _ hlate, stops_inOrder_false, Option.map_none]
    | succ j =>
      rcases Nat.lt_or_ge now first.time with hlate | htime
      · rw [stops_late _ hlate, stops_inOrder_false, Option.map_none]
      · obtain ⟨time, why | t⟩ := first
        · exact absurd rfl (hok 0 (Nat.lt_of_lt_of_le j.succ_pos hj) time why)
        · obtain ⟨i, rfl⟩ : ∃ k, i = k + 1 := ⟨i - 1, by omega⟩
          rw [stops_ok htime, ih (fun k hk => hok (k + 1) (Nat.succ_lt_succ hk))
            (Nat.le_of_succ_le_succ hj) hfate, Option.map_none]

theorem stops_of_faces {s : Strand} {fate : Fate} (hs : s.Faces now fate) :
    stops rule now clear (fate :: fates) =
      match ends? rule clear s with
      | some _ => some 0
      | none => (stops rule now (clear && s.isFinished) fates).map (· + 1) := by
  cases hs with
  | finished htime => simp only [stops_ok htime, ends?, isFinished, Bool.and_true]
  | halted htime =>
    simp only [stops_error htime, ends?, isFinished, Bool.and_false]
    cases rule.counts clear <;> rfl
  | waiting hlate => simp only [stops_late ⟨_, _⟩ hlate, ends?, isFinished, Bool.and_false]

/-- What a sweep comes to: to the failure that ends the join, or to strands that are under way. -/
inductive Comes (now : Nat) (fates : List Fate) : Option Nat → Except Halt (List Strand) → Prop
  | ended {i time : Nat} {why : Halt} :
    fates[i]? = some ⟨time, .error why⟩ → Comes now fates (some i) (.error why)
  | underway {ss : List Strand} :
    List.Forall₂ (Faces now) fates ss → Comes now fates none (.ok ss)

theorem Comes.cons {s : Strand} {fate : Fate} (hs : s.Faces now fate) {stopped : Option Nat}
    {x : Except Halt (List Strand)} (h : Comes now fates stopped x) :
    Comes now (fate :: fates) (stopped.map (· + 1)) (x.map (s :: ·)) := by
  cases h with
  | ended hi => exact .ended hi
  | underway hss => exact .underway (.cons hs hss)

/-- Branches before a host, one after the other, with their fates and the calls that they make. -/
inductive Prospects {α : Type} (h : Host σ) (P : α → σ → Fate → List Call → Prop) :
    List α → σ → List Fate → List (List Call) → Prop
  | nil {s : σ} : Prospects h P [] s [] []
  | cons {a : α} {as : List α} {s : σ} {fate : Fate} {fates : List Fate} {cs : List Call}
      {css : List (List Call)} :
    P a s fate cs → Prospects h P as (h.after s cs) fates css →
      Prospects h P (a :: as) s (fate :: fates) (cs :: css)

variable {h : Host σ}

theorem sweep_comes {α : Type} {g : α → Run σ → Strand × Run σ}
    {P : α → σ → Fate → List Call → Prop} (rule : JoinRule)
    (hg : ∀ a fate cs (r : Run σ), P a r.host fate cs → r.now = now → ∃ s r',
      g a r = (s, r') ∧ s.Faces now fate ∧ r'.now = now ∧ r'.host = h.after r.host cs ∧
        r'.calls = r.calls ++ cs)
    {as : List α} {css : List (List Call)} {r : Run σ} (has : Prospects h P as r.host fates css)
    (hr : r.now = now) (clear : Bool) :
    ∃ x r', sweep g rule clear as r = (x, r') ∧
      Comes now fates (stops rule now clear fates) x ∧ r'.now = now ∧
      r'.calls = r.calls ++
        (css.take ((stops rule now clear fates).elim css.length (· + 1))).flatten := by
  generalize hhost : r.host = host at has
  induction has generalizing r clear with
  | nil => exact ⟨.ok [], r, rfl, .underway .nil, hr, by simp⟩
  | @cons a as host fate fates cs css ha _ ih =>
    obtain ⟨s, r₁, hstep, hs, hnow, hhost₁, hcalls⟩ := hg a fate cs r (by rw [hhost]; exact ha) hr
    rw [sweep, hstep, stops_of_faces hs]
    cases hends : ends? rule clear s with
    | some why =>
      rw [ends?_eq_some hends] at hs
      cases hs
      exact ⟨.error why, r₁, rfl, .ended rfl, hnow, by simp [hcalls]⟩
    | none =>
      obtain ⟨x, r₂, hsweep, hx, hnow₂, hcalls₂⟩ :=
        ih hnow (clear && s.isFinished) (by rw [hhost₁, hhost])
      refine ⟨x.map (s :: ·), r₂, by dsimp only; rw [hsweep], hx.cons hs, hnow₂, ?_⟩
      rw [hcalls₂, hcalls]
      cases stops rule now (clear && s.isFinished) fates <;> simp

@[simp] theorem start_ended (h : Host σ) (x : Except Halt Text) (r : Run σ) :
    start h (.ended x) r = (.ended x, r) := by
  cases x <;> rfl

theorem faces_ended {x : Except Halt Text} (htime : time ≤ now) :
    (Strand.ended x).Faces now ⟨time, x⟩ := by
  cases x with
  | error why => exact .halted htime
  | ok t => exact .finished htime

theorem calls_start_notes (h : Host σ) (place : Place) (ns : List Notice) (p : Plan) (r : Run σ) :
    ∃ r' : Run σ, r'.now = r.now ∧ r'.host = r.host ∧ r'.calls = r.calls ∧
      start h (.notes place ns p) r = start h p r' := by
  refine ⟨_, Run.now_foldl_record r _, Run.host_foldl_record r _, ?_, start_notes_eq h place ns p r⟩
  simp [Run.calls_eq, Event.call?]

theorem start_errand (h : Host σ) (e : Errand) (r : Run σ) :
    ∃ s r', start h e.plan r = (s, r') ∧
      s.Faces r.now ⟨r.now + (h e.call r.host).1.delay, e.settle (h e.call r.host).1.answer⟩ ∧
      r'.now = r.now ∧ r'.host = h.after r.host [e.call] ∧ r'.calls = r.calls ++ [e.call] := by
  obtain ⟨r₁, hnow, hhost, hcalls, hstart⟩ := calls_start_notes h e.place e.notices
    (.ask e.place e.call fun a => .ended (e.settle a)) r
  have hbegin : (r₁.begin h e.place e.call).2.calls = r₁.calls ++ [e.call] := by
    simp [Run.calls_eq, Event.call?]
  have harrive : ∀ remarks, ((r₁.begin h e.place e.call).2.arrive e.place e.call remarks).calls =
      r₁.calls ++ [e.call] := by
    intro remarks
    simp [Run.calls_eq, Event.call?]
  rw [Errand.plan, hstart, start_ask, ← hhost, ← hnow, ← hcalls]
  split
  · rename_i hzero
    exact ⟨_, _, start_ended h _ _, faces_ended (by rw [hzero]; exact le_rfl), by simp [Run.begin,
      Run.record], by simp [Run.begin, Run.record, Host.after], harrive _⟩
  · rename_i hdelay
    exact ⟨_, _, rfl, .waiting (by omega), rfl, rfl, hbegin⟩

theorem sweep_errands (h : Host σ) (rule : JoinRule) (clear : Bool) (es : List Errand)
    (r : Run σ) :
    ∃ x r', sweep (start h) rule clear (es.map Errand.plan) r = (x, r') ∧
      Comes r.now (Errand.fates h r.now r.host es)
        (stops rule r.now clear (Errand.fates h r.now r.host es)) x ∧
      r'.now = r.now ∧
      r'.calls = r.calls ++ (es.map Errand.call).take
        ((stops rule r.now clear (Errand.fates h r.now r.host es)).elim es.length (· + 1)) := by
  have hprospects : Prospects h (fun p s fate cs => ∃ e : Errand, p = e.plan ∧ cs = [e.call] ∧
        fate = ⟨r.now + (h e.call s).1.delay, e.settle (h e.call s).1.answer⟩)
      (es.map Errand.plan) r.host (Errand.fates h r.now r.host es)
      (es.map fun e => [e.call]) := by
    generalize r.host = host
    induction es generalizing host with
    | nil => exact .nil
    | cons e es ih => exact .cons ⟨e, rfl, rfl, rfl⟩ (ih _)
  obtain ⟨x, r', hsweep, hx, hnow, hcalls⟩ := sweep_comes (g := start h) rule (by
    rintro p fate cs r₁ ⟨e, rfl, rfl, rfl⟩ hr₁
    rw [← hr₁]
    exact start_errand h e r₁) hprospects rfl clear
  refine ⟨x, r', hsweep, hx, hnow, ?_⟩
  rw [hcalls, List.length_map, ← List.map_take, ← List.map_take, ← List.flatMap_def,
    ← List.map_eq_flatMap]

theorem resume_faces (h : Host σ) {s : Strand} {fate : Fate} (hs : s.Faces now fate) {r : Run σ}
    (hr : now ≤ r.now) :
    ∃ s' r', resume h s r = (s', r') ∧ s'.Faces r.now fate ∧ r'.now = r.now ∧ r'.host = r.host ∧
      r'.calls = r.calls := by
  cases hs with
  | finished htime => exact ⟨_, r, rfl, .finished (htime.trans hr), rfl, rfl, rfl⟩
  | halted htime => exact ⟨_, r, rfl, .halted (htime.trans hr), rfl, rfl, rfl⟩
  | waiting =>
    rw [resume]
    split
    · rename_i hdue
      refine ⟨_, _, start_ended h _ _, faces_ended hdue, by simp, by simp, ?_⟩
      simp [Run.calls_eq, Event.call?]
    · rename_i hdue
      exact ⟨_, r, rfl, .waiting (Nat.lt_of_not_le hdue), rfl, rfl, rfl⟩

theorem sweep_faces (h : Host σ) (rule : JoinRule) (clear : Bool) {ss : List Strand}
    (hss : List.Forall₂ (Faces now) fates ss) {r : Run σ} (hr : now ≤ r.now) :
    ∃ x r', sweep (resume h) rule clear ss r = (x, r') ∧
      Comes r.now fates (stops rule r.now clear fates) x ∧ r'.now = r.now ∧
      r'.calls = r.calls := by
  have hprospects : ∀ host, Prospects h (fun s _ fate cs => s.Faces now fate ∧ cs = []) ss host
      fates (ss.map fun _ => []) := by
    induction hss with
    | nil => exact fun _ => .nil
    | cons hs _ ih => exact fun host => .cons ⟨hs, rfl⟩ (ih host)
  obtain ⟨x, r', hsweep, hx, hnow, hcalls⟩ := sweep_comes (g := resume h) rule (by
    rintro s fate cs r₁ ⟨hs, rfl⟩ hr₁
    obtain ⟨s', r₂, hresume, hs', hnow, hhost, hcalls⟩ := resume_faces h hs (hr₁ ▸ hr)
    rw [hr₁] at hs' hnow
    exact ⟨s', r₂, hresume, hs', hnow, hhost, by rw [hcalls, List.append_nil]⟩)
    (hprospects r.host) rfl clear
  refine ⟨x, r', hsweep, hx, hnow, ?_⟩
  rw [hcalls, ← List.map_take, ← List.flatMap_def]
  simp

theorem lt_of_due {ss : List Strand} (hss : List.Forall₂ (Faces now) fates ss) {d : Nat}
    (hd : dueAll ss = some d) : now < d := by
  induction hss generalizing d with
  | nil => cases hd
  | @cons _ _ _ ss hs _ ih =>
    cases hs with
    | finished | halted => exact ih hd
    | waiting hlate =>
      rw [dueAll, due] at hd
      cases hall : dueAll ss with
      | none =>
        rw [hall] at hd
        cases hd
        exact hlate
      | some b =>
        rw [hall] at hd
        cases hd
        exact lt_min hlate (ih hall)

theorem exists_due {ss : List Strand} (hss : List.Forall₂ (Faces now) fates ss) {fate : Fate}
    (hfate : fate ∈ fates) (hlate : now < fate.time) :
    ∃ d, dueAll ss = some d ∧ d ≤ fate.time := by
  induction hss with
  | nil => cases hfate
  | @cons _ s _ ss hs _ ih =>
    rw [dueAll]
    rcases List.mem_cons.1 hfate with rfl | hfate
    · cases hs with
      | finished htime | halted htime => exact absurd hlate (Nat.not_lt.2 htime)
      | waiting =>
        cases dueAll ss with
        | none => exact ⟨_, rfl, le_rfl⟩
        | some b => exact ⟨_, rfl, min_le_left ..⟩
    · obtain ⟨d, hd, hle⟩ := ih hfate
      rw [hd]
      cases due s with
      | none => exact ⟨d, rfl, hle⟩
      | some a => exact ⟨_, rfl, (min_le_right ..).trans hle⟩

theorem stops_eq_none_of_texts {ss : List Strand} (hss : List.Forall₂ (Faces now) fates ss)
    {ts : List Text} (hts : texts? ss = some ts) (later : Nat) :
    stops rule later clear fates = none := by
  obtain rfl := texts?_eq_some_iff.1 hts
  cases hstops : stops rule later clear fates with
  | none => rfl
  | some i =>
    obtain ⟨time, why, hi, -⟩ := exists_of_stops hstops
    obtain ⟨hlength, hfaces⟩ := List.forall₂_iff_get.1 hss
    obtain ⟨hi, hfate⟩ := List.getElem?_eq_some_iff.1 hi
    have hs := hfaces i hi (hlength ▸ hi)
    simp only [List.get_eq_getElem, hfate, List.getElem_map] at hs
    cases hs

/-- With one answer for every call, only the delays of errands depend on the host's state. -/
theorem getElem?_fates {f : Oracle} (hf : h.Follows f) {s : σ} {es : List Errand} {i : Nat}
    {fate : Fate} :
    (Errand.fates h now s es)[i]? = some fate ↔
      ∃ e d, es[i]? = some e ∧ (h.delays s (es.map Errand.call))[i]? = some d ∧
        fate = ⟨now + d, e.settle (f e.call)⟩ := by
  induction es generalizing s i with
  | nil => simp [Errand.fates]
  | cons e es ih =>
    rw [Errand.fates, List.map_cons, Host.delays, hf e.call s]
    cases i with
    | zero => simp [eq_comm]
    | succ i => exact ih

theorem finish_stops {next : List Text → Plan} {i later rounds : Nat} {ss : List Strand}
    {r : Run σ} (hss : List.Forall₂ (Faces r.now) fates ss) (hlater : r.now < later)
    (hbefore : ∀ t, r.now ≤ t → t < later → stops rule t true fates = none)
    (hstops : stops rule later true fates = some i)
    (hends : (finish h rounds (.joining rule ss next) r).1 ≠ .unfinished) :
    ∃ time why r', finish h rounds (.joining rule ss next) r = (.halted why, r') ∧
      fates[i]? = some ⟨time, .error why⟩ ∧ r'.now = later ∧ r'.calls = r.calls := by
  induction rounds generalizing ss r with
  | zero => exact absurd rfl hends
  | succ rounds ih =>
    rw [finish_succ] at hends ⊢
    cases hd : due (.joining rule ss next) with
    | none =>
      rw [hd] at hends
      exact absurd rfl hends
    | some d =>
      rw [hd] at hends
      dsimp only at hends ⊢
      rw [resume_joining] at hends ⊢
      have hnow : r.now < d := lt_of_due hss hd
      -- The next answer is due no later than the one that stops the join.
      have hle : d ≤ later := by
        by_contra hlate
        have hsame : stops rule later true fates = stops rule r.now true fates := by
          refine stops_congr fun fate hfate => ⟨fun htime => ?_, fun htime => htime.trans hlater.le⟩
          by_contra hfate'
          obtain ⟨d', hd', hdue⟩ := exists_due hss hfate (Nat.lt_of_not_le hfate')
          cases hd.symm.trans hd'
          omega
        rw [hbefore r.now le_rfl hlater, hstops] at hsame
        cases hsame
      obtain ⟨x, r', hsweep, hx, hnow', hcalls⟩ :=
        sweep_faces h rule true hss (r := { r with now := d }) hnow.le
      have hnow' : r'.now = d := hnow'
      rw [hsweep] at hends ⊢
      rcases hle.lt_or_eq with hlt | rfl
      · rw [hbefore d hnow.le hlt] at hx
        cases hx with
        | @underway ss' hss' =>
          have htexts : Strand.texts? ss' = none := by
            cases htexts : Strand.texts? ss' with
            | none => rfl
            | some ts =>
              rw [stops_eq_none_of_texts hss' htexts] at hstops
              cases hstops
          simp only [conclude, htexts] at hends ⊢
          have hss' : List.Forall₂ (Faces r'.now) fates ss' := by rwa [hnow']
          obtain ⟨time, why, r'', hfinish, hi, hlater', hcalls'⟩ :=
            ih hss' (by omega) (fun t ht => hbefore t (by omega)) hends
          exact ⟨time, why, r'', hfinish, hi, hlater', hcalls'.trans hcalls⟩
      · rw [hstops] at hx
        cases hx with
        | ended hi => exact ⟨_, _, r', finish_halted h rounds _ r', hi, hnow', hcalls⟩

theorem eq_of_faces_ok {ts : List Text} {ss : List Strand}
    (hss : List.Forall₂ (Faces now) (ts.map fun t => ⟨now, .ok t⟩) ss) :
    ss = ts.map .finished := by
  induction ts generalizing ss with
  | nil =>
    cases hss
    rfl
  | cons t ts ih =>
    cases hss with
    | cons hs hss =>
      cases hs with
      | finished => rw [ih hss, List.map_cons]
      | waiting hlate => exact absurd hlate (Nat.lt_irrefl now)

theorem start_errands (rule : JoinRule) (place : Place) (ns : List Notice)
    (next : List Text → Plan) {es : List Errand} {ts : List Text} {r : Run σ}
    (hfates : Errand.fates h r.now r.host es = ts.map fun t => ⟨r.now, .ok t⟩) :
    ∃ r', start h (.notes place ns (.join rule (es.map Errand.plan) next)) r =
        start h (next ts) r' ∧ r'.now = r.now ∧ r'.calls = r.calls ++ es.map Errand.call := by
  obtain ⟨r₁, hnow₁, hhost₁, hcalls₁, hstart⟩ :=
    calls_start_notes h place ns (.join rule (es.map Errand.plan) next) r
  obtain ⟨x, r₂, hsweep, hx, hnow₂, hcalls₂⟩ := sweep_errands h rule true es r₁
  rw [hnow₁, hhost₁, hfates] at hx hcalls₂
  have hnone : stops rule r.now true (ts.map fun t => ⟨r.now, .ok t⟩) = none := by
    cases hstops : stops rule r.now true (ts.map fun t => ⟨r.now, .ok t⟩) with
    | none => rfl
    | some i =>
      obtain ⟨time, why, hi, -⟩ := exists_of_stops hstops
      simp at hi
  rw [hnone] at hx hcalls₂
  cases hx with
  | underway hss =>
    obtain rfl := eq_of_faces_ok hss
    have htexts : texts? (ts.map .finished) = some ts := texts?_eq_some_iff.2 rfl
    refine ⟨r₂, ?_, hnow₂.trans hnow₁, ?_⟩
    · rw [hstart, start_join, hsweep]
      simp only [conclude, htexts]
    · rw [hcalls₂, hcalls₁, Option.elim_none, ← List.map_take, List.take_length]

theorem run_errands {place : Place} {ns : List Notice} {es : List Errand}
    {next : List Text → Plan} {i later rounds : Nat} {r : Run σ} (hlater : r.now ≤ later)
    (hbefore : ∀ t, r.now ≤ t → t < later →
      stops rule t true (Errand.fates h r.now r.host es) = none)
    (hstops : stops rule later true (Errand.fates h r.now r.host es) = some i)
    (hends : (run h rounds (.notes place ns (.join rule (es.map Errand.plan) next)) r).1 ≠
      .unfinished) :
    ∃ time why r', run h rounds (.notes place ns (.join rule (es.map Errand.plan) next)) r =
        (.halted why, r') ∧
      (Errand.fates h r.now r.host es)[i]? = some ⟨time, .error why⟩ ∧ r'.now = later ∧
      r'.calls = r.calls ++
        if later = r.now then (es.map Errand.call).take (i + 1) else es.map Errand.call := by
  obtain ⟨r₁, hnow₁, hhost₁, hcalls₁, hstart⟩ :=
    calls_start_notes h place ns (.join rule (es.map Errand.plan) next) r
  obtain ⟨x, r₂, hsweep, hx, hnow₂, hcalls₂⟩ := sweep_errands h rule true es r₁
  rw [hnow₁, hhost₁] at hx hcalls₂
  rw [hnow₁] at hnow₂
  rw [start_join, hsweep] at hstart
  -- Either the join stops while its branches are started, or it stops later, when all have been.
  rcases hlater.eq_or_lt with rfl | hlt
  · rw [hstops] at hx hcalls₂
    cases hx with
    | @ended _ time why hi =>
      refine ⟨time, why, r₂, ?_, hi, hnow₂, by rw [hcalls₂, hcalls₁, if_pos rfl]; rfl⟩
      rw [run_of_start hstart, finish_halted]
  · rw [hbefore r.now le_rfl hlt] at hx hcalls₂
    cases hx with
    | @underway ss hss =>
      have htexts : texts? ss = none := by
        cases htexts : texts? ss with
        | none => rfl
        | some ts =>
          rw [stops_eq_none_of_texts hss htexts] at hstops
          cases hstops
      simp only [conclude, htexts] at hstart
      rw [run_of_start hstart] at hends ⊢
      have hss' : List.Forall₂ (Faces r₂.now) (Errand.fates h r.now r.host es) ss := by
        rwa [hnow₂]
      obtain ⟨time, why, r', hfinish, hi, hlater', hcalls'⟩ :=
        finish_stops hss' (by rwa [hnow₂]) (by rwa [hnow₂]) hstops hends
      refine ⟨time, why, r', hfinish, hi, hlater', ?_⟩
      rw [hcalls', hcalls₂, hcalls₁, if_neg hlt.ne', Option.elim_none, ← List.map_take,
        List.take_length]

end Schedule
end Inlay
