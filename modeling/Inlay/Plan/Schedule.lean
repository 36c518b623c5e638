import Inlay.Plan.Host

/-!
Running a plan in virtual time. A strand is a plan that has been started and went on until it had
to wait. Branches of a join start in their order; when nothing can go on, the clock moves to the
next answer that is due and every strand that waited for it goes on, again in their order.
-/
namespace Inlay

inductive Strand where
  | finished (text : Text)
  | halted (why : Halt)
  /-- The answer to a call is known but arrives only at a later time. -/
  | waiting (due : Nat) (place : Place) (call : Call) (remarks : List Log.Line) (rest : Plan)
  | joining (rule : JoinRule) (strands : List Strand) (next : List Text → Plan)

namespace Strand

def isFinished : Strand → Bool
  | finished _ => true
  | _ => false

def text? : Strand → Option Text
  | finished t => some t
  | _ => none

def texts? (ss : List Strand) : Option (List Text) := ss.mapM text?

end Strand

/--
Whether a failure ends its join at once, `clear` saying that every earlier branch has a text.
-/
def JoinRule.counts : JoinRule → (clear : Bool) → Bool
  | eager, _ => true
  | inOrder, clear => clear

namespace Schedule

variable {σ : Type}

mutual

def start (h : Host σ) : Plan → Run σ → Strand × Run σ
  | .done t, r => (.finished t, r)
  | .halt why, r => (.halted why, r)
  | .note place n rest, r => start h rest (r.record (.noted place n))
  | .ask place c next, r =>
    let (reply, r) := r.begin h place c
    -- What the host does it does at once, and only the answer takes its time.
    if reply.delay = 0 then start h (next reply.answer) (r.arrive place c reply.remarks)
    else (.waiting (r.now + reply.delay) place c reply.remarks (next reply.answer), r)
  | .join rule branches next, r =>
    match startAll h rule true branches r with
    | (.error why, r) => (.halted why, r)
    | (.ok strands, r) =>
      match Strand.texts? strands with
      | some texts => start h (next texts) r
      | none => (.joining rule strands next, r)

/-- Starts branches in order, up to the first whose failure ends the join. -/
def startAll (h : Host σ) (rule : JoinRule) :
    (clear : Bool) → List Plan → Run σ → Except Halt (List Strand) × Run σ
  | _, [], r => (.ok [], r)
  | clear, p :: ps, r =>
    match start h p r with
    | (.halted why, r) =>
      -- A failure that does not count yet is kept, and the branches behind it start all the same.
      if rule.counts clear then (.error why, r)
      else
        let (rest, r) := startAll h rule false ps r
        (rest.map (.halted why :: ·), r)
    | (s, r) =>
      let (rest, r) := startAll h rule (clear && s.isFinished) ps r
      (rest.map (s :: ·), r)

end

mutual

/-- Goes on with a strand as far as the answers that have arrived by now allow. -/
def resume (h : Host σ) : Strand → Run σ → Strand × Run σ
  | .finished t, r => (.finished t, r)
  | .halted why, r => (.halted why, r)
  | .waiting due place c remarks rest, r =>
    if due ≤ r.now then start h rest (r.arrive place c remarks)
    else (.waiting due place c remarks rest, r)
  | .joining rule strands next, r =>
    match resumeAll h rule true strands r with
    | (.error why, r) => (.halted why, r)
    | (.ok strands, r) =>
      match Strand.texts? strands with
      | some texts => start h (next texts) r
      | none => (.joining rule strands next, r)

/-- Goes on with strands in order, up to the first whose failure ends the join. -/
def resumeAll (h : Host σ) (rule : JoinRule) :
    (clear : Bool) → List Strand → Run σ → Except Halt (List Strand) × Run σ
  | _, [], r => (.ok [], r)
  | clear, s :: ss, r =>
    match resume h s r with
    | (.halted why, r) =>
      if rule.counts clear then (.error why, r)
      else
        let (rest, r) := resumeAll h rule false ss r
        (rest.map (.halted why :: ·), r)
    | (s, r) =>
      let (rest, r) := resumeAll h rule (clear && s.isFinished) ss r
      (rest.map (s :: ·), r)

end

/-- The earlier of two times, where either may be missing. -/
def sooner : Option Nat → Option Nat → Option Nat
  | none, t => t
  | t, none => t
  | some a, some b => some (min a b)

mutual

/-- The next time at which an answer arrives that the strand waits for. -/
def due : Strand → Option Nat
  | .finished _ => none
  | .halted _ => none
  | .waiting t .. => some t
  | .joining _ strands _ => dueAll strands

def dueAll : List Strand → Option Nat
  | [] => none
  | s :: ss => sooner (due s) (dueAll ss)

end

inductive Outcome where
  | text (t : Text)
  | halted (why : Halt)
  /-- The rounds that were allowed did not suffice. -/
  | unfinished
  deriving DecidableEq, Repr

/-- Goes on with a strand to its end, moving the clock at most `rounds` times. -/
def finish (h : Host σ) : (rounds : Nat) → Strand → Run σ → Outcome × Run σ
  | _, .finished t, r => (.text t, r)
  | _, .halted why, r => (.halted why, r)
  | 0, _, r => (.unfinished, r)
  | rounds + 1, s, r =>
    match due s with
    | none => (.unfinished, r)
    | some t =>
      let (s, r) := resume h s { r with now := t }
      finish h rounds s r

def run (h : Host σ) (rounds : Nat) (p : Plan) (r : Run σ) : Outcome × Run σ :=
  let (s, r) := start h p r
  finish h rounds s r

end Schedule
end Inlay
