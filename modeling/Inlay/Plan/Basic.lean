import Inlay.Failure
import Inlay.Marker.Basic
import Inlay.Source

/-!
Plans: a rendering as data. A plan says what to ask of the world and how to go on with each answer,
and where several branches may go on side by side; it does not say when the answers come.
-/
namespace Inlay

/-- What a rendering asks of the world. -/
inductive Call where
  /-- The value of a variable. -/
  | lookup (name : Text)
  /-- The name under which the world knows a file, whatever path leads to it. -/
  | identify (path : Path)
  | read (path : Path)
  /-- The rest of standard input. -/
  | readStdin
  /-- The output of a shell command run in a directory. -/
  | execute (command : Text) (directory : Path)
  deriving DecidableEq, Repr

/-- What the world answers to a call. -/
def Call.Answer : Call → Type
  | .lookup _ => Option Text
  | .identify _ => Path
  | .read _ => Except Fault Text
  | .readStdin => Except Fault Text
  | .execute .. => Except Failure Text

/-- What a rendering says about its work as it goes along. -/
inductive Notice where
  | reading (source : Source)
  | templating (source : Source)
  | stray (source : Source) (kind : Marker.Kind) (snippet : Text)
  | resolvingName (source : Source) (name : Text)
  | resolvingFile (source : Source) (path : Path)
  | resolvingCommand (source : Source) (command : Text)
  deriving DecidableEq, Repr

/-- Why a plan ends without a text. -/
inductive Halt where
  | failed (failure : Failure)
  /-- The document itself cannot be read. -/
  | unread (cause : Fault)
  /--
  Documents include one another more deeply than the plan was made for. No program gives up there:
  the bound is what makes a plan a finite tree.
  -/
  | tooDeep
  deriving DecidableEq, Repr

/--
A document within a rendering: which marker of which document it stands for, from the outermost
document inwards.
-/
abbrev Place := List Nat

/-- How a join treats a branch that fails while an earlier one is still under way. -/
inductive JoinRule where
  /-- The first failure in time ends the join. -/
  | eager
  /-- A failure counts only once every earlier branch has a text. -/
  | inOrder
  deriving DecidableEq, Repr

inductive Plan where
  | done (text : Text)
  | halt (why : Halt)
  | note (place : Place) (notice : Notice) (rest : Plan)
  | ask (place : Place) (call : Call) (next : call.Answer → Plan)
  /-- All branches side by side, and then what follows from their texts in order. -/
  | join (rule : JoinRule) (branches : List Plan) (next : List Text → Plan)

namespace Plan

/-- Induction on a plan, with its hypothesis for every branch of a join. -/
@[induction_eliminator]
theorem induct {motive : Plan → Prop} (done : ∀ t, motive (.done t))
    (halt : ∀ why, motive (.halt why))
    (note : ∀ place n rest, motive rest → motive (.note place n rest))
    (ask : ∀ place c next, (∀ a, motive (next a)) → motive (.ask place c next))
    (join : ∀ rule branches next, (∀ p ∈ branches, motive p) → (∀ ts, motive (next ts)) →
      motive (.join rule branches next)) (p : Plan) : motive p :=
  Plan.rec (motive_1 := motive) (motive_2 := fun ps => ∀ p ∈ ps, motive p)
    done halt note ask join (by simp) (fun p ps hp hps => by simpa using ⟨hp, hps⟩) p

/-- A plan followed by another that goes on with its text. -/
def bind : Plan → (Text → Plan) → Plan
  | done t, f => f t
  | halt why, _ => halt why
  | note place n rest, f => note place n (rest.bind f)
  | ask place c next, f => ask place c fun a => (next a).bind f
  | join rule branches next, f => join rule branches fun ts => (next ts).bind f

@[simp] theorem bind_done (p : Plan) : p.bind done = p := by
  induction p with
  | done | halt => rfl
  | note place n rest ih => simp [bind, ih]
  | ask place c next ih => simp [bind, ih]
  | join rule branches next _ ih => simp [bind, ih]

theorem bind_assoc (p : Plan) (f g : Text → Plan) :
    (p.bind f).bind g = p.bind fun t => (f t).bind g := by
  induction p with
  | done | halt => rfl
  | note place n rest ih => simp [bind, ih]
  | ask place c next ih => simp [bind, ih]
  | join rule branches next _ ih => simp [bind, ih]

def notes (place : Place) (ns : List Notice) (rest : Plan) : Plan :=
  ns.foldr (note place) rest

end Plan
end Inlay
