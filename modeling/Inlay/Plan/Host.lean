import Inlay.Log
import Inlay.Plan.Basic

namespace Inlay

/-- A host's answer to a call, when it comes after the call, and what the host says by then. -/
structure Reply (α : Type) where
  answer : α
  delay : Nat := 0
  remarks : List Log.Line := []

abbrev Host (σ : Type) := (c : Call) → σ → Reply c.Answer × σ

inductive Event where
  | began (place : Place) (call : Call)
  | ended (place : Place) (call : Call)
  | noted (place : Place) (notice : Notice)
  | said (line : Log.Line)
  deriving DecidableEq, Repr

structure Event.Stamped where
  time : Nat
  event : Event
  deriving DecidableEq, Repr

/--
A rendering under way: the host's state, the clock, and the journal with its last entry first.
-/
structure Run (σ : Type) where
  host : σ
  now : Nat := 0
  past : List Event.Stamped := []

namespace Run

variable {σ : Type}

def record (r : Run σ) (e : Event) : Run σ := { r with past := ⟨r.now, e⟩ :: r.past }

def journal (r : Run σ) : List Event.Stamped := r.past.reverse

/-- A call is made: the host sees it now, whenever its answer comes. -/
def begin (h : Host σ) (place : Place) (c : Call) (r : Run σ) : Reply c.Answer × Run σ :=
  let (reply, host) := h c r.host
  (reply, { r with host := host }.record (.began place c))

/-- The answer to a call arrives, with what the host says about it. -/
def arrive (place : Place) (c : Call) (remarks : List Log.Line) (r : Run σ) : Run σ :=
  (remarks.map Event.said).foldl record (r.record (.ended place c))

end Run

namespace Event

def call? : Event → Option Call
  | .began _ c => some c
  | _ => none

/-- How the number of running commands changes. -/
def running (n : Nat) : Event → Nat
  | .began _ (.execute ..) => n + 1
  | .ended _ (.execute ..) => n - 1
  | _ => n

end Event

namespace Run

variable {σ : Type}

def calls (r : Run σ) : List Call := r.journal.filterMap (·.event.call?)

def parallel (r : Run σ) : Nat :=
  (r.journal.foldl (fun (now, most) e =>
    let now := e.event.running now
    (now, max most now)) (0, 0)).2

end Run
end Inlay
