import Inlay.Text.Utf8

/-!
Patterns of file names and words: a star for any bytes, a question mark for any one byte, and
brackets for one byte out of a set. A quoted byte stands for itself.
-/
namespace Inlay.Shell

inductive Pattern.Item where
  | one (b : UInt8)
  | anyOne
  | anyRun
  | oneOf (negated : Bool) (runs : List (UInt8 × UInt8))
  deriving DecidableEq, Repr

abbrev Pattern := List Pattern.Item

namespace Pattern

abbrev Marked := List (UInt8 × Bool)

/-- The runs of a bracket up to its end, and what follows it. -/
def runs : (limit : Nat) → (first : Bool) → Marked → Option (List (UInt8 × UInt8) × Marked)
  | 0, _, _ => none
  | _, _, [] => none
  | limit + 1, first, (b, q) :: rest =>
    if b = 93 && !q && !first then some ([], rest)
    else match rest with
      | (45, false) :: (c, q') :: rest' =>
        if c = 93 && !q' then (runs limit false rest).map fun (rs, r) => ((b, b) :: rs, r)
        else (runs limit false rest').map fun (rs, r) => ((b, c) :: rs, r)
      | _ => (runs limit false rest).map fun (rs, r) => ((b, b) :: rs, r)

def parse : (limit : Nat) → Marked → Pattern
  | 0, _ => []
  | _, [] => []
  | limit + 1, (b, quoted) :: rest =>
    if quoted then .one b :: parse limit rest
    else if b = 42 then .anyRun :: parse limit rest
    else if b = 63 then .anyOne :: parse limit rest
    else if b = 91 then
      let (negated, body) := match rest with
        | (33, false) :: body => (true, body)
        | (94, false) :: body => (true, body)
        | _ => (false, rest)
      match runs (body.length + 1) true body with
      | some (rs, after) => .oneOf negated rs :: parse limit after
      | none => .one b :: parse limit rest
    else .one b :: parse limit rest

def ofMarked (m : Marked) : Pattern := parse (m.length + 1) m

def isPattern (m : Marked) : Bool :=
  m.any fun (b, quoted) => !quoted && (b = 42 || b = 63 || b = 91)

def Item.fits (b : UInt8) : Item → Bool
  | one c => b = c
  | anyOne => true
  | anyRun => true
  | oneOf negated rs => (rs.any fun (lo, hi) => lo ≤ b && b ≤ hi) != negated

/-- Whether the whole of a byte sequence fits the pattern. -/
def fits : Pattern → Bytes → Bool
  | [], [] => true
  | [], _ :: _ => false
  | .anyRun :: ps, [] => fits ps []
  | _ :: _, [] => false
  | .anyRun :: ps, b :: bs => fits ps (b :: bs) || fits (.anyRun :: ps) bs
  | p :: ps, b :: bs => p.fits b && fits ps bs
termination_by p b => p.length + b.length

end Pattern
end Inlay.Shell
