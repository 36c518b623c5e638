import Inlay.Proofs.Plan.Account
import Inlay.Proofs.Rendering.Outcome
import Inlay.Proofs.Rendering.Prompt
import Mathlib.Algebra.Order.Group.Multiset

namespace Inlay

open Plan

namespace Exchange

/-- The exchange has given a variable or a command of the document its value. -/
inductive Fills (place : Place) : Exchange → Prop
  | lookup (name : Text) (value : Option Text) : Fills place ⟨place, .lookup name, value⟩
  | execute (command : Text) (directory : Path) (output : Text) :
    Fills place ⟨place, .execute command directory, .ok output⟩

inductive Succeeds : Exchange → Prop
  | lookup (place : Place) (name : Text) (value : Option Text) :
    Succeeds ⟨place, .lookup name, value⟩
  | identify (place : Place) (path identity : Path) : Succeeds ⟨place, .identify path, identity⟩
  | read (place : Place) (path : Path) (text : Text) : Succeeds ⟨place, .read path, .ok text⟩
  | execute (place : Place) (command : Text) (directory : Path) (output : Text) :
    Succeeds ⟨place, .execute command directory, .ok output⟩

theorem Fills.succeeds {place : Place} {e : Exchange} (h : e.Fills place) : e.Succeeds := by
  cases h with
  | lookup name value => exact .lookup place name value
  | execute command directory output => exact .execute place command directory output

def times (xs : Multiset Exchange) (place : Place) (c : Call) : Nat :=
  (xs.map request).count (place, c)

@[simp] theorem times_add (xs ys : Multiset Exchange) (place : Place) (c : Call) :
    times (xs + ys) place c = times xs place c + times ys place c := by
  simp [times]

@[simp] theorem times_singleton (e : Exchange) (place : Place) (c : Call) :
    times {e} place c = if e.request = (place, c) then 1 else 0 := by
  simp [times, Multiset.count_singleton, eq_comm]

end Exchange

open Exchange

mutual

/--
What passes on behalf of a document whose text is whole, and of those that it includes: none of them
is known by the name of one around it.
-/
inductive Unfolds (opts : Options) : Place → List Path → Multiset Exchange → Prop
  | intro {place : Place} {chain : List Path} {own nested : Multiset Exchange} :
    (∀ e ∈ own, e.Fills place) → UnfoldsFrom opts place chain 0 nested →
      Unfolds opts place chain (own + nested)

/-- What passes on behalf of the documents that it includes, from one number on. -/
inductive UnfoldsFrom (opts : Options) : Place → List Path → Nat → Multiset Exchange → Prop
  | nil (place : Place) (chain : List Path) (i : Nat) : UnfoldsFrom opts place chain i 0
  | cons {place : Place} {chain : List Path} {i : Nat} {xs ys : Multiset Exchange} :
    UnfoldsAt opts place chain i xs → UnfoldsFrom opts place chain (i + 1) ys →
      UnfoldsFrom opts place chain i (xs + ys)

/-- What passes on behalf of the document that it includes by the marker of a number. -/
inductive UnfoldsAt (opts : Options) : Place → List Path → Nat → Multiset Exchange → Prop
  | unchecked {place : Place} {chain : List Path} {i : Nat} {path : Path} {text : Text}
      {xs : Multiset Exchange} : opts.detectCycles = false →
      Unfolds opts (place ++ [i]) chain xs →
        UnfoldsAt opts place chain i ({⟨place, .read path, .ok text⟩} + xs)
  | checked {place : Place} {chain : List Path} {i : Nat} {path identity : Path} {text : Text}
      {xs : Multiset Exchange} : opts.detectCycles = true →
      chain.any (Path.same identity) = false →
      Unfolds opts (place ++ [i]) (chain ++ [identity]) xs →
        UnfoldsAt opts place chain i
          ({⟨place, .identify path, identity⟩} + {⟨place, .read path, .ok text⟩} + xs)

end

variable {opts : Options} {here : Place} {chain : List Path} {i : Nat} {xs ys : Multiset Exchange}

theorem forall_mem_add {P : Exchange → Prop} (hxs : ∀ e ∈ xs, P e) (hys : ∀ e ∈ ys, P e) :
    ∀ e ∈ xs + ys, P e :=
  fun e he => (Multiset.mem_add.1 he).elim (hxs e) (hys e)

theorem Unfolds.succeeds (h : Unfolds opts here chain xs) : ∀ e ∈ xs, e.Succeeds := by
  induction h using Unfolds.rec
    (motive_2 := fun _ _ _ xs _ => ∀ e ∈ xs, e.Succeeds)
    (motive_3 := fun _ _ _ xs _ => ∀ e ∈ xs, e.Succeeds) with
  | intro hown _ ih => exact forall_mem_add (fun e he => (hown e he).succeeds) ih
  | nil _ _ _ e he => exact absurd he (Multiset.notMem_zero e)
  | cons _ _ ih ih' e he => exact forall_mem_add ih ih' e he
  | unchecked _ _ ih e he =>
    refine forall_mem_add (fun e he => ?_) ih e he
    rw [Multiset.mem_singleton.1 he]
    exact .read ..
  | checked _ _ _ ih e he =>
    refine forall_mem_add (forall_mem_add (fun e he => ?_) fun e he => ?_) ih e he
    · rw [Multiset.mem_singleton.1 he]
      exact .identify ..
    · rw [Multiset.mem_singleton.1 he]
      exact .read ..

theorem Unfolds.prepend (hxs : ∀ e ∈ xs, e.Fills here) (h : Unfolds opts here chain ys) :
    Unfolds opts here chain (xs + ys) := by
  cases h with
  | intro hown hnested =>
    rw [← add_assoc]
    exact .intro (forall_mem_add hxs hown) hnested

theorem UnfoldsFrom.append (h : UnfoldsFrom opts here chain 0 xs) (hys : ∀ e ∈ ys, e.Fills here) :
    Unfolds opts here chain (xs + ys) := by
  rw [add_comm]
  exact .intro hys h

/-- From one document to another that it includes, by the names of those on the way. -/
inductive Inward (xs : Multiset Exchange) (here : Place) (chain : List Path) :
    Place → List Path → Prop
  | refl : Inward xs here chain here chain
  | step {place : Place} {longer : List Path} {i : Nat} {path identity : Path} :
    Inward xs here chain place longer → ⟨place, .identify path, identity⟩ ∈ xs →
      Inward xs here chain (place ++ [i]) (longer ++ [identity])

theorem Inward.mono {place : Place} {longer : List Path} (h : Inward xs here chain place longer)
    (hxs : xs ≤ ys) : Inward ys here chain place longer := by
  induction h with
  | refl => exact .refl
  | step _ hmem ih => exact .step ih (Multiset.mem_of_le hxs hmem)

theorem Inward.head {path identity : Path} {place : Place} {longer : List Path}
    (hmem : ⟨here, .identify path, identity⟩ ∈ xs)
    (h : Inward xs (here ++ [i]) (chain ++ [identity]) place longer) :
    Inward xs here chain place longer := by
  induction h with
  | refl => exact .step .refl hmem
  | step _ hmem' ih => exact .step ih hmem'

/-- The failure is that of one of the exchanges, at whichever place. -/
inductive Blames (opts : Options) (here : Place) (chain : List Path) (xs : Multiset Exchange) :
    Failure → Prop
  | unreadable {place : Place} {path : Path} {cause : Fault} :
    ⟨place, .read path, .error cause⟩ ∈ xs → Blames opts here chain xs (.unreadable path cause)
  | command {place : Place} {command : Text} {directory : Path} {failure : Failure} :
    ⟨place, .execute command directory, .error failure⟩ ∈ xs → Blames opts here chain xs failure
  /-- The file has the name of one around it, and has not been read by this include. -/
  | cycle {place : Place} {longer : List Path} {path identity : Path} :
    opts.detectCycles = true → Inward xs here chain place longer →
      ⟨place, .identify path, identity⟩ ∈ xs → longer.any (Path.same identity) = true →
      times xs place (.read path) < times xs place (.identify path) →
      Blames opts here chain xs (.cycle (longer ++ [identity]))

/-- With detection, no document reads a file more often than it has asked for its name. -/
def Named (opts : Options) (xs : Multiset Exchange) : Prop :=
  opts.detectCycles = true →
    ∀ place path, times xs place (.read path) ≤ times xs place (.identify path)

theorem Named.add (hxs : Named opts xs) (hys : Named opts ys) : Named opts (xs + ys) := by
  intro hopts place path
  rw [times_add, times_add]
  exact Nat.add_le_add (hxs hopts place path) (hys hopts place path)

theorem Blames.add {failure : Failure} (h : Blames opts here chain xs failure)
    (hys : Named opts ys) : Blames opts here chain (xs + ys) failure := by
  cases h with
  | unreadable hmem => exact .unreadable (Multiset.mem_add.2 (.inl hmem))
  | command hmem => exact .command (Multiset.mem_add.2 (.inl hmem))
  | cycle hopts hinward hmem hany hless =>
    refine .cycle hopts (hinward.mono (Multiset.le_add_right ..)) (Multiset.mem_add.2 (.inl hmem))
      hany ?_
    rw [times_add, times_add]
    exact Nat.add_lt_add_of_lt_of_le hless (hys hopts _ _)

/-- A failure of an included document is one of the including document, and stays as it is. -/
theorem Blames.outward {longer : List Path} {failure : Failure} (hxs : Named opts xs)
    (hlonger : opts.detectCycles = true → ∃ path, ∃ identity : Path,
      ⟨here, .identify path, identity⟩ ∈ xs ∧ longer = chain ++ [identity])
    (h : Blames opts (here ++ [i]) longer ys failure) :
    Blames opts here chain (xs + ys) failure := by
  rw [add_comm]
  cases h.add hxs with
  | unreadable hmem => exact .unreadable hmem
  | command hmem => exact .command hmem
  | cycle hopts hinward hmem hany hless =>
    obtain ⟨path, identity, hself, rfl⟩ := hlonger hopts
    exact .cycle hopts (hinward.head (Multiset.mem_add.2 (.inr hself))) hmem hany hless

/-- Halts for the failure of an exchange, or for want of depth. -/
def blame (opts : Options) (here : Place) (chain : List Path) : Tally where
  any := Named opts
  blames xs why :=
    why = .tooDeep ∨ ∃ failure, why = .failed failure ∧ Blames opts here chain xs failure
  zero := fun _ _ _ => le_rfl
  add := Named.add
  blames_add := by
    rintro xs ys why (rfl | ⟨failure, rfl, h⟩) hys
    · exact .inl rfl
    · exact .inr ⟨failure, rfl, h.add hys⟩

namespace Plan.Tallies

variable {source : Source} {before : Multiset Exchange} {W : Multiset Exchange → Prop} {p : Plan}

theorem noteIf {k : Tally} {n : Notice} (hany : k.any before) (hp : Tallies k before W p) :
    Tallies k before W (.noteIf opts here n p) := by
  rw [noteIf_eq]
  exact notes hany hp

theorem pass {k : Tally} {kind : Marker.Kind} {text : Text} {resolve : Nat → Text → Plan}
    {P U : Nat → Multiset Exchange → Prop} (hnil : ∀ i, U i 0)
    (hcons : ∀ i xs ys, P i xs → U (i + 1) ys → U i (xs + ys))
    (hresolve : ∀ i payload, Tallies k 0 (P i) (resolve i payload)) :
    Tallies k 0 (U 0) (.pass opts here source kind text resolve) := by
  rw [pass_eq]
  refine notes k.zero (join hnil hcons fun i p hp => ?_)
  rw [branches, List.getElem?_mapIdx, Option.map_eq_some_iff] at hp
  obtain ⟨m, -, rfl⟩ := hp
  exact hresolve i m.payload

theorem fill {k : Tally} {kind : Marker.Kind} {text : Text} {resolve : Text → Plan}
    (hresolve : ∀ payload, Tallies k 0 (fun xs => ∀ e ∈ xs, e.Fills here) (resolve payload)) :
    Tallies k 0 (fun xs => ∀ e ∈ xs, e.Fills here)
      (.pass opts here source kind text fun _ => resolve) :=
  pass (P := fun _ xs => ∀ e ∈ xs, e.Fills here) (U := fun _ xs => ∀ e ∈ xs, e.Fills here)
    (fun _ e he => absurd he (Multiset.notMem_zero e)) (fun _ _ _ => forall_mem_add)
    fun _ => hresolve

theorem named_singleton {c : Call} (hread : ∀ path, c ≠ .read path) (a : c.Answer) :
    Named opts {⟨here, c, a⟩} := by
  intro _ place path
  rw [times_singleton, if_neg]
  · exact Nat.zero_le _
  · intro heq
    exact hread path (congrArg Prod.snd heq)

theorem resolveName (name : Text) :
    Tallies (blame opts here chain) 0 (fun xs => ∀ e ∈ xs, e.Fills here)
      (.resolveName opts here source name) := by
  refine noteIf (Tally.zero _) (ask (Tally.zero _) (fun a => ?_) fun value => ?_) <;>
    rw [zero_add]
  · exact named_singleton (by simp) a
  · refine done (named_singleton (by simp) value) fun e he => ?_
    rw [Multiset.mem_singleton.1 he]
    exact .lookup name value

theorem resolveCommand (command : Text) :
    Tallies (blame opts here chain) 0 (fun xs => ∀ e ∈ xs, e.Fills here)
      (.resolveCommand opts here source command) := by
  refine noteIf (Tally.zero _) (ask (Tally.zero _) (fun a => ?_) fun answer => ?_) <;>
    rw [zero_add]
  · exact named_singleton (by simp) a
  · have hnamed : Named opts {⟨here, .execute command source.directory, answer⟩} :=
      named_singleton (by simp) answer
    rcases answer with failure | output
    · exact halt hnamed (.inr ⟨failure, rfl, .command (Multiset.mem_singleton_self _)⟩)
    · refine done hnamed fun e he => ?_
      rw [Multiset.mem_singleton.1 he]
      exact .execute command source.directory output

theorem readFile {path : Path} {longer : List Path} {nested : Text → Plan}
    (hbefore : Named opts before)
    (hread : ∀ answer, Named opts (before + {⟨here, .read path, answer⟩}))
    (hlonger : opts.detectCycles = true → ∃ path, ∃ identity : Path,
      ⟨here, .identify path, identity⟩ ∈ before ∧ longer = chain ++ [identity])
    (hW : ∀ text xs, Unfolds opts (here ++ [i]) longer xs →
      W (before + {⟨here, .read path, .ok text⟩} + xs))
    (hn : ∀ text, Tallies (blame opts (here ++ [i]) longer) 0 (Unfolds opts (here ++ [i]) longer)
      (nested text)) :
    Tallies (blame opts here chain) before W (.readFile opts here source path nested) := by
  refine noteIf hbefore (ask hbefore hread fun answer => ?_)
  rcases answer with cause | text
  · exact halt (hread _) (.inr ⟨_, rfl, .unreadable (Multiset.mem_add.2 (.inr
      (Multiset.mem_singleton_self _)))⟩)
  · refine (hn text).after (fun xs hxs => (hread _).add hxs) ?_ (hW text)
    rintro xs why (rfl | ⟨failure, rfl, h⟩)
    · exact .inl rfl
    · refine .inr ⟨failure, rfl, h.outward (hread _) fun hopts => ?_⟩
      obtain ⟨path, identity, hmem, hchain⟩ := hlonger hopts
      exact ⟨path, identity, Multiset.mem_add.2 (.inl hmem), hchain⟩

theorem resolveFile {nested : Path → List Path → Text → Plan} {relative : Text}
    (hn : ∀ path longer text, Tallies (blame opts (here ++ [i]) longer) 0
      (Unfolds opts (here ++ [i]) longer) (nested path longer text)) :
    Tallies (blame opts here chain) 0 (UnfoldsAt opts here chain i)
      (.resolveFile opts here source chain nested relative) := by
  cases hopts : opts.detectCycles with
  | false =>
    have hall : ∀ xs, Named opts xs := fun xs hon => by simp [hopts] at hon
    rw [resolveFile_unchecked hopts]
    refine readFile (hall _) (fun _ => hall _) (by simp [hopts]) (fun text xs hxs => ?_) (hn _ _)
    rw [zero_add]
    exact .unchecked hopts hxs
  | true =>
    have hidentify : ∀ identity : Path,
        Named opts {⟨here, .identify (source.resolve relative), identity⟩} :=
      fun identity => named_singleton (c := .identify (source.resolve relative)) (by simp) identity
    rw [resolveFile_checked hopts]
    refine ask (Tally.zero _) (fun a => ?_) fun identity => ?_ <;> rw [zero_add]
    · exact hidentify a
    · split
      · rename_i hany
        refine halt (hidentify identity) (.inr ⟨_, rfl, .cycle hopts .refl
          (Multiset.mem_singleton_self _) hany ?_⟩)
        simp [request]
      · rename_i hany
        refine readFile (hidentify identity) (fun answer _ place path => ?_)
          (fun _ => ⟨_, identity, Multiset.mem_singleton_self _, rfl⟩) (fun text xs hxs => ?_)
          (hn _ _)
        · rw [times_add, times_add]
          simp only [times_singleton, request, Prod.mk.injEq, reduceCtorEq, and_false, if_false,
            Call.read.injEq, Call.identify.injEq, Nat.zero_add, Nat.add_zero, le_refl]
        · exact .checked hopts (Bool.eq_false_iff.2 hany) hxs

theorem passes (depth : Nat) (place : Place) (source : Source) (chain : List Path) (text : Text) :
    Tallies (blame opts place chain) 0 (Unfolds opts place chain)
      (.passes opts depth place source chain text) := by
  induction depth generalizing place source chain text with
  | zero => exact halt (Tally.zero _) (.inl rfl)
  | succ depth ih =>
    have hincludes : ∀ named, Tallies (blame opts place chain) 0 (UnfoldsFrom opts place chain 0)
        (.pass opts place source .inclusion named fun i relative =>
          .resolveFile opts place source chain
            (fun path => .passes opts depth (place ++ [i]) (.file path)) relative) := by
      intro named
      refine pass (.nil place chain) (fun _ _ _ => .cons) fun i relative => ?_
      exact resolveFile fun path longer text => ih (place ++ [i]) (.file path) longer text
    have hcommands : ∀ included, Tallies (blame opts place chain) 0
        (fun xs => ∀ e ∈ xs, e.Fills place)
        ((Plan.pass opts place source .command included fun _ command =>
          .resolveCommand opts place source command).bind fun text => .done text.closeLine) := by
      intro included
      have hdone : ∀ text : Text, Tallies (blame opts place chain) 0 (· = 0)
          (.done text.closeLine) := fun _ => done (Tally.zero _) rfl
      refine bind (fill resolveCommand) hdone ?_
      rintro xs _ hxs rfl
      rwa [add_zero]
    exact bind (fill resolveName)
      (fun named => bind (hincludes named) hcommands fun _ _ => UnfoldsFrom.append)
      fun _ _ => Unfolds.prepend

end Plan.Tallies

/-- What passes before the passes over a document begin, and the chain with which they begin. -/
inductive Opens (opts : Options) (source : Source) : List Path → Multiset Exchange → Prop
  | named {path identity : Path} : opts.naming source = [.identify path] →
    Opens opts source [identity] {⟨[], .identify path, identity⟩}
  | unnamed : opts.naming source = [] → Opens opts source [] 0

theorem Opens.succeeds {source : Source} (h : Opens opts source chain xs) :
    ∀ e ∈ xs, e.Succeeds := by
  cases h with
  | named =>
    intro e he
    rw [Multiset.mem_singleton.1 he]
    exact .identify ..
  | unnamed => exact fun e he => absurd he (Multiset.notMem_zero e)

theorem Plan.Account.of_render {depth : Nat} {source : Source} {text : Text} {p : Plan}
    (h : Account (.render opts depth [] source text) xs (.plan p))
    (hp : (∃ t, p = .done t) ∨ ∃ why, p = .halt why) :
    ∃ chain opening ys, Opens opts source chain opening ∧ xs = opening + ys ∧
      Account (.passes opts depth [] source chain text) ys (.plan p) := by
  rcases render_cases opts source with ⟨path, hnaming, hrender⟩ | ⟨hnaming, hrender⟩
  · rw [hrender] at h
    cases h with
    | start => simp at hp
    | answered h => exact ⟨_, _, _, .named hnaming, rfl, h⟩
  · rw [hrender] at h
    exact ⟨[], 0, xs, .unnamed hnaming, (zero_add xs).symm, h⟩

/--
No failure is lost on its way out of a rendering, and none is changed. Where there is a text, every
file has been read, every command has succeeded, and no document includes one that is known by the
name of a document around it. Where there is none, the failure is that of one exchange between the
run and its host, or tells of an include that was not read for its name.
-/
theorem fails_by_exchange {σ : Type} (h : Host σ) (opts : Options) (depth rounds : Nat)
    (source : Source) (text : Text) (s : σ) :
    let run := Schedule.run h rounds (Plan.render opts depth [] source text) ⟨s, 0, []⟩
    (∀ t, run.1 = .text t →
      (∀ e ∈ h.dialogue s run.2.requests, e.Succeeds) ∧
      ∃ chain opening xs, Opens opts source chain opening ∧
        (h.dialogue s run.2.requests : Multiset Exchange) = opening + xs ∧
        Unfolds opts [] chain xs) ∧
    ∀ why, run.1 = .halted why → why = .tooDeep ∨
      ∃ failure chain opening xs, why = .failed failure ∧ Opens opts source chain opening ∧
        (h.dialogue s run.2.requests : Multiset Exchange) = opening + xs ∧
        Blames opts [] chain xs failure := by
  intro run
  obtain ⟨u, haccount, hends⟩ : ∃ u, (Plan.render opts depth [] source text).Account
      (h.dialogue s run.2.requests) u ∧ run.1.Ends u := Schedule.run_account rfl
  generalize (h.dialogue s run.2.requests) = dialogue at *
  constructor
  · intro t ht
    rw [ht] at hends
    cases hends
    obtain ⟨chain, opening, xs, hopens, heq, hpasses⟩ := haccount.of_render (.inl ⟨t, rfl⟩)
    have hunfolds : Unfolds opts [] chain xs := by
      simpa using (Tallies.passes depth [] source chain text).whole xs t hpasses
    -- Every exchange belongs to the opening or to one document of the tree.
    have hall : ∀ e ∈ opening + xs, e.Succeeds :=
      forall_mem_add hopens.succeeds hunfolds.succeeds
    refine ⟨fun e he => hall e ?_, chain, opening, xs, hopens, heq, hunfolds⟩
    rw [← heq]
    exact Multiset.mem_coe.2 he
  · intro why hwhy
    rw [hwhy] at hends
    cases hends
    obtain ⟨chain, opening, xs, hopens, heq, hpasses⟩ := haccount.of_render (.inr ⟨why, rfl⟩)
    have hblames := (Tallies.passes depth [] source chain text).blames xs why hpasses
    rw [zero_add] at hblames
    exact hblames.imp_right fun ⟨failure, hfailed, h⟩ =>
      ⟨failure, chain, opening, xs, hfailed, hopens, heq, h⟩

/-- The documents of the nest, where every command fails. -/
def Oracle.ruin : Oracle
  | .execute command _ => .error (.commandFailed command "exit status: 1".toList [])
  | c => nest c

/-- The failure of a command two levels down is that of the whole rendering. -/
theorem fails_by_exchange_ruin :
    let run := Schedule.run (Oracle.ruin.host fun n _ => 10 - n) 20
      (Plan.render {} 3 [] .stdin "1$<<c>>2$((y))".toList) ⟨0, 0, []⟩
    let failure := Failure.commandFailed ['x'] "exit status: 1".toList []
    run.1 = .halted (.failed failure) ∧
      ∃ place command directory, ⟨place, .execute command directory, .error failure⟩ ∈
        (Oracle.ruin.host fun n _ => 10 - n).dialogue 0 run.2.requests := by
  intro run failure
  have hrun : run.1 = .halted (.failed failure) := by decide +kernel
  obtain ⟨-, hhalted⟩ := fails_by_exchange (Oracle.ruin.host fun n _ => 10 - n) {} 3 20 .stdin
    "1$<<c>>2$((y))".toList 0
  refine ⟨hrun, ?_⟩
  rcases hhalted _ hrun with hdeep | ⟨_, chain, opening, xs, hfailure, -, heq, hblames⟩
  · cases hdeep
  · cases hfailure
    have hcommand : Blames {} [] chain xs (.commandFailed ['x'] "exit status: 1".toList []) :=
      hblames
    cases hcommand with
    | @command place command directory _ hmem =>
      refine ⟨place, command, directory, Multiset.mem_coe.1 ?_⟩
      rw [heq]
      exact Multiset.mem_add.2 (.inr hmem)

end Inlay
