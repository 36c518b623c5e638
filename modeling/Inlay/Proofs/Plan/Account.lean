import Inlay.Proofs.Plan.Schedule
import Inlay.Proofs.Plan.Trace

/-!
What a plan has asked and been answered on the way to where it is. In every run the account is
exact: each exchange between the run and its host belongs to one place in the plan, and the plan
went on there with the answer of this exchange and no other, however many branches asked for the
same.
-/
namespace Inlay

namespace Plan

open Inlay.Task

mutual

/-- By these exchanges the plan comes to be at the task. -/
inductive Account : Plan → Multiset Exchange → Task → Prop
  | start (p : Plan) : Account p 0 (.plan p)
  | note {place : Place} {n : Notice} {rest : Plan} {xs : Multiset Exchange} {u : Task} :
    Account rest xs u → Account (note place n rest) xs u
  | asked {place : Place} {c : Call} {next : c.Answer → Plan} (a : c.Answer) :
    Account (ask place c next) {⟨place, c, a⟩} (.awaits place c (next a))
  | answered {place : Place} {c : Call} {next : c.Answer → Plan} {a : c.Answer}
      {xs : Multiset Exchange} {u : Task} :
    Account (next a) xs u → Account (ask place c next) ({⟨place, c, a⟩} + xs) u
  | forked {rule : JoinRule} {branches : List Plan} {next : List Text → Plan}
      {xs : Multiset Exchange} {us : List Task} :
    Accounts branches xs us → Account (join rule branches next) xs (.joined rule us next)
  | met {rule : JoinRule} {branches : List Plan} {next : List Text → Plan} {ts : List Text}
      {xs ys : Multiset Exchange} {u : Task} :
    Accounts branches xs (ts.map fun t => .plan (done t)) → Account (next ts) ys u →
      Account (join rule branches next) (xs + ys) u
  | failed {rule : JoinRule} {branches : List Plan} {next : List Text → Plan}
      {xs : Multiset Exchange} {before after : List Task} {why : Halt} :
    Accounts branches xs (before ++ .plan (halt why) :: after) →
      Account (join rule branches next) xs (.plan (halt why))

/-- By these exchanges the plans come to be at the tasks. -/
inductive Accounts : List Plan → Multiset Exchange → List Task → Prop
  | nil : Accounts [] 0 []
  | cons {p : Plan} {ps : List Plan} {xs ys : Multiset Exchange} {u : Task} {us : List Task} :
    Account p xs u → Accounts ps ys us → Accounts (p :: ps) (xs + ys) (u :: us)

end

variable {σ : Type} {h : Host σ} {s : σ} {p : Plan} {xs ys : Multiset Exchange} {t u : Task}
  {es : List Event}

theorem Account.of_eq (hp : Account p xs u) (hxs : ys = xs) : Account p ys u := hxs ▸ hp

theorem accounts_start (ps : List Plan) : Accounts ps 0 (ps.map .plan) := by
  induction ps with
  | nil => exact .nil
  | cons p ps ih => simpa using Accounts.cons (.start p) ih

theorem Accounts.branch {ps : List Plan} {before after : List Task}
    (hps : Accounts ps xs (before ++ t :: after))
    (hstep : ∀ p ∈ ps, ∀ xs, Account p xs t → Account p (xs + ys) u) :
    Accounts ps (xs + ys) (before ++ u :: after) := by
  induction before generalizing ps xs with
  | nil =>
    cases hps with
    | @cons p ps xs₁ xs₂ _ _ hp hps =>
      rw [add_right_comm]
      exact .cons (hstep p List.mem_cons_self _ hp) hps
  | cons b before ih =>
    cases hps with
    | cons hp hps =>
      rw [add_assoc]
      exact .cons hp (ih hps fun q hq => hstep q (List.mem_cons_of_mem _ hq))

theorem Account.step (hp : Account p xs t) (hs : Step (h.Tells s (Event.requests es)) t es u) :
    Account p (xs + (h.dialogue s (Event.requests es) : Multiset Exchange)) u := by
  induction p generalizing xs t u with
  | done x =>
    cases hp
    cases hs
  | halt why =>
    cases hp
    cases hs
  | note place n rest ih =>
    cases hp with
    | start =>
      cases hs
      exact .note (.start rest)
    | note hp => exact .note (ih hp hs)
  | ask place c next ih =>
    cases hp with
    | start =>
      cases hs with
      | ask _ _ _ ha =>
        obtain ⟨place', hmem⟩ := ha
        cases List.mem_singleton.1 hmem
        exact .of_eq (.asked _) (zero_add _)
    | asked a =>
      cases hs with
      | arrive =>
        refine .of_eq (.answered (a := a) (.start (next a))) ?_
        rw [Event.requests_ended]
        rfl
    | @answered _ _ _ a _ _ hp => exact .of_eq (.answered (ih a hp hs)) (add_assoc ..)
  | join rule branches next ihb ihn =>
    cases hp with
    | start =>
      cases hs
      exact .forked (accounts_start branches)
    | forked hps =>
      cases hs with
      | branch before after ht =>
        exact .forked (hps.branch fun p hp xs hxs => ihb p hp hxs ht)
      | meet _ ts => exact .met hps (.start (next ts))
      | fail before after why => exact .of_eq (.failed hps) (add_zero _)
    | met hps hn => exact .of_eq (.met hps (ihn _ hn hs)) (add_assoc ..)
    | failed => cases hs

theorem Account.trail {n : Nat} (hp : Account p xs t) (ht : Trail h n t s es u) :
    Account p (xs + (h.dialogue s (Event.requests es) : Multiset Exchange)) u := by
  induction ht generalizing xs with
  | refl => exact .of_eq hp (add_zero xs)
  | head hs _ ih =>
    refine .of_eq (ih (hp.step hs)) ?_
    rw [Event.requests_append, Host.dialogue_append, ← Multiset.coe_add, add_assoc]

theorem Account.of_bind {g : Text → Plan} (h : Account (p.bind g) xs u) :
    (∃ v, Account p xs v ∧ u = v.bind g ∧ ∀ t, v ≠ .plan (done t)) ∨
      ∃ t xs₁ xs₂, Account p xs₁ (.plan (done t)) ∧ Account (g t) xs₂ u ∧ xs = xs₁ + xs₂ := by
  induction p generalizing xs with
  | done t => exact .inr ⟨t, 0, xs, .start _, h, (zero_add xs).symm⟩
  | halt why =>
    -- A plan that halts never comes to what follows it.
    cases h
    exact .inl ⟨_, .start _, rfl, by simp⟩
  | note place n rest ih =>
    cases h with
    | start => exact .inl ⟨_, .start _, rfl, by simp⟩
    | note h =>
      rcases ih h with ⟨v, hv, hu, hne⟩ | ⟨t, xs₁, xs₂, h₁, h₂, rfl⟩
      · exact .inl ⟨v, .note hv, hu, hne⟩
      · exact .inr ⟨t, xs₁, xs₂, .note h₁, h₂, rfl⟩
  | ask place c next ih =>
    cases h with
    | start => exact .inl ⟨_, .start _, rfl, by simp⟩
    | asked a => exact .inl ⟨_, .asked a, rfl, by simp⟩
    | @answered _ _ _ a _ _ h =>
      rcases ih a h with ⟨v, hv, hu, hne⟩ | ⟨t, xs₁, xs₂, h₁, h₂, rfl⟩
      · exact .inl ⟨v, .answered hv, hu, hne⟩
      · exact .inr ⟨t, _, xs₂, .answered h₁, h₂, (add_assoc ..).symm⟩
  | join rule branches next _ ih =>
    cases h with
    | start => exact .inl ⟨_, .start _, rfl, by simp⟩
    | forked hps => exact .inl ⟨_, .forked hps, rfl, by simp⟩
    | @met _ _ _ ts _ _ _ hps h =>
      rcases ih ts h with ⟨v, hv, hu, hne⟩ | ⟨t, xs₁, xs₂, h₁, h₂, rfl⟩
      · exact .inl ⟨v, .met hps hv, hu, hne⟩
      · exact .inr ⟨t, _, xs₂, .met hps h₁, h₂, (add_assoc ..).symm⟩
    | failed hps => exact .inl ⟨_, .failed hps, rfl, by simp⟩

/-- What is to be said of every account, and of one that has come to a halt. -/
structure Tally where
  any : Multiset Exchange → Prop
  blames : Multiset Exchange → Halt → Prop
  zero : any 0
  add : ∀ {xs ys}, any xs → any ys → any (xs + ys)
  blames_add : ∀ {xs ys why}, blames xs why → any ys → blames (xs + ys) why

/--
After these exchanges all accounts of the plan are as the tally says, and those by which it comes to
a text are whole.
-/
structure Tallies (k : Tally) (before : Multiset Exchange) (whole : Multiset Exchange → Prop)
    (p : Plan) : Prop where
  any : ∀ xs u, Account p xs u → k.any (before + xs)
  blames : ∀ xs why, Account p xs (.plan (halt why)) → k.blames (before + xs) why
  whole : ∀ xs t, Account p xs (.plan (done t)) → whole (before + xs)

namespace Tallies

variable {k : Tally} {before : Multiset Exchange} {W W' : Multiset Exchange → Prop}

theorem after {k' : Tally} (hp : Tallies k' 0 W p) (hany : ∀ xs, k'.any xs → k.any (before + xs))
    (hblames : ∀ xs why, k'.blames xs why → k.blames (before + xs) why)
    (hW : ∀ xs, W xs → W' (before + xs)) : Tallies k before W' p := by
  refine ⟨fun xs u h => hany xs ?_, fun xs why h => hblames xs why ?_, fun xs t h => hW xs ?_⟩
  · simpa using hp.any xs u h
  · simpa using hp.blames xs why h
  · simpa using hp.whole xs t h

theorem done (hany : k.any before) {t : Text} (hW : W before) : Tallies k before W (done t) := by
  refine ⟨fun xs u h => ?_, fun xs why h => ?_, fun xs u h => ?_⟩
  · cases h
    simpa using hany
  · cases h
  · cases h
    simpa using hW

theorem halt (hany : k.any before) {why : Halt} (hblames : k.blames before why) :
    Tallies k before W (halt why) := by
  refine ⟨fun xs u h => ?_, fun xs why h => ?_, fun xs u h => ?_⟩
  · cases h
    simpa using hany
  · cases h
    simpa using hblames
  · cases h

theorem note {place : Place} {n : Notice} (hany : k.any before) (hp : Tallies k before W p) :
    Tallies k before W (note place n p) := by
  refine ⟨fun xs u h => ?_, fun xs why h => ?_, fun xs u h => ?_⟩
  · cases h with
    | start => simpa using hany
    | note h => exact hp.any xs u h
  · cases h with
    | note h => exact hp.blames xs why h
  · cases h with
    | note h => exact hp.whole xs u h

theorem notes {place : Place} {ns : List Notice} (hany : k.any before)
    (hp : Tallies k before W p) : Tallies k before W (notes place ns p) := by
  induction ns with
  | nil => exact hp
  | cons n ns ih => exact note hany ih

theorem ask {place : Place} {c : Call} {next : c.Answer → Plan} (hany : k.any before)
    (hasked : ∀ a, k.any (before + {⟨place, c, a⟩}))
    (hn : ∀ a, Tallies k (before + {⟨place, c, a⟩}) W (next a)) :
    Tallies k before W (ask place c next) := by
  refine ⟨fun xs u h => ?_, fun xs why h => ?_, fun xs u h => ?_⟩
  · cases h with
    | start => simpa using hany
    | asked a => exact hasked a
    | answered h => simpa [add_assoc] using (hn _).any _ u h
  · cases h with
    | answered h => simpa [add_assoc] using (hn _).blames _ why h
  · cases h with
    | answered h => simpa [add_assoc] using (hn _).whole _ u h

theorem bind {g : Text → Plan} {W'' : Multiset Exchange → Prop} (hp : Tallies k 0 W p)
    (hg : ∀ t, Tallies k 0 W' (g t)) (hW : ∀ xs ys, W xs → W' ys → W'' (xs + ys)) :
    Tallies k 0 W'' (p.bind g) := by
  refine ⟨fun xs u h => ?_, fun xs why h => ?_, fun xs u h => ?_⟩ <;> rw [zero_add] <;>
    rcases h.of_bind with ⟨v, hv, hu, hne⟩ | ⟨t, xs₁, xs₂, h₁, h₂, rfl⟩
  · simpa using hp.any _ _ hv
  · exact k.add (by simpa using hp.any _ _ h₁) (by simpa using (hg t).any _ _ h₂)
  · obtain rfl := eq_halt_of_bind hu.symm hne
    simpa using hp.blames _ _ hv
  · rw [add_comm]
    exact k.blames_add (by simpa using (hg t).blames _ _ h₂) (by simpa using hp.any _ _ h₁)
  · exact absurd hu.symm (bind_ne_done hne u)
  · exact hW _ _ (by simpa using hp.whole _ _ h₁) (by simpa using (hg t).whole _ _ h₂)

/--
Branches that go on side by side. What each has done by itself is put together from the last branch
to the first, and a branch that comes to a halt is to blame for all.
-/
theorem of_branches {P U : Nat → Multiset Exchange → Prop} (hnil : ∀ i, U i 0)
    (hcons : ∀ i xs ys, P i xs → U (i + 1) ys → U i (xs + ys)) {ps : List Plan} {i : Nat}
    (hps : ∀ j p, ps[j]? = some p → Tallies k 0 (P (i + j)) p) {us : List Task}
    (h : Accounts ps xs us) :
    k.any xs ∧ (∀ why, .plan (.halt why) ∈ us → k.blames xs why) ∧
      ∀ ts : List Text, us = ts.map (fun t => .plan (.done t)) → U i xs := by
  induction ps generalizing i xs us with
  | nil =>
    cases h
    exact ⟨k.zero, by simp, fun _ _ => hnil i⟩
  | cons p ps ih =>
    cases h with
    | @cons _ _ ys zs u us hp h =>
      have hhead : Tallies k 0 (P i) p := hps 0 p rfl
      have htail : ∀ j q, ps[j]? = some q → Tallies k 0 (P (i + 1 + j)) q := by
        intro j q hq
        rw [Nat.add_right_comm]
        exact hps (j + 1) q hq
      obtain ⟨hany, hblames, hall⟩ := ih htail h
      have hself : k.any ys := by simpa using hhead.any _ _ hp
      refine ⟨k.add hself hany, fun why hmem => ?_, fun ts hts => ?_⟩
      · rcases List.mem_cons.1 hmem with rfl | hmem
        · exact k.blames_add (by simpa using hhead.blames _ _ hp) hany
        · rw [add_comm]
          exact k.blames_add (hblames why hmem) hself
      · cases ts with
        | nil => cases hts
        | cons t ts =>
          obtain ⟨rfl, rfl⟩ := List.cons.inj hts
          exact hcons i ys zs (by simpa using hhead.whole _ _ hp) (hall ts rfl)

theorem join {rule : JoinRule} {P U : Nat → Multiset Exchange → Prop} (hnil : ∀ i, U i 0)
    (hcons : ∀ i xs ys, P i xs → U (i + 1) ys → U i (xs + ys)) {ps : List Plan}
    {next : List Text → Text} (hps : ∀ i p, ps[i]? = some p → Tallies k 0 (P i) p) :
    Tallies k 0 (U 0) (join rule ps fun ts => .done (next ts)) := by
  have hzero : ∀ j p, ps[j]? = some p → Tallies k 0 (P (0 + j)) p := by simpa using hps
  refine ⟨fun xs u h => ?_, fun xs why h => ?_, fun xs u h => ?_⟩ <;> rw [zero_add]
  · cases h with
    | start => exact k.zero
    | forked h => exact (of_branches hnil hcons hzero h).1
    | met h hn =>
      cases hn
      simpa using (of_branches hnil hcons hzero h).1
    | failed h => exact (of_branches hnil hcons hzero h).1
  · cases h with
    | met _ hn => cases hn
    | failed h => exact (of_branches hnil hcons hzero h).2.1 why (by simp)
  · cases h with
    | met h hn =>
      cases hn
      simpa using (of_branches hnil hcons hzero h).2.2 _ rfl

end Tallies

end Plan

theorem Schedule.run_account {σ : Type} {h : Host σ} {rounds : Nat} {p : Plan} {s : σ}
    {o : Outcome} {r : Run σ} (hrun : run h rounds p ⟨s, 0, []⟩ = (o, r)) :
    ∃ u, p.Account (h.dialogue s r.requests) u ∧ o.Ends u := by
  obtain ⟨n, es, u, htrail, hes, -, hends⟩ := run_trail h rounds p ⟨s, 0, []⟩
  rw [hrun] at hes hends
  have hrequests : r.requests = Event.requests es := congrArg Event.requests hes
  rw [hrequests]
  exact ⟨u, .of_eq ((Plan.Account.start p).trail htrail) (zero_add _).symm, hends⟩

end Inlay
