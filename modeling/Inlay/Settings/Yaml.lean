import Inlay.Settings.Layer
import Inlay.Yaml.Node

namespace Inlay.Yaml

namespace Scalar

def isTagged (s : Scalar) (kind : String) : Bool :=
  s.tag = some (Text.encode ("tag:yaml.org,2002:".toList ++ kind.toList))

/--
Whether a value of a kind may be read off the text: it is not quoted, or is tagged by the kind.
-/
def isBare (s : Scalar) (kind : String) : Bool :=
  s.style = .plain || (s.style = .literal && s.isTagged kind)

/-- The value of the digits of a base, if it is one of a machine word. -/
def digits? (base : Nat) (t : Text) : Option Nat := do
  let ds ← t.mapM fun c => (hexDigit? c).filter (· < base)
  if ds = [] then none
  else (some (ds.foldl (fun n d => n * base + d) 0)).filter (· ≤ Text.wordLimit)

/-- Whether a decimal number begins with a zero that it does not need. -/
def isPadded (t : Text) : Bool :=
  match t with
  | '0' :: c :: rest => (c :: rest).all Char.isDigit
  | _ => false

/-- A number without a sign: decimal, or in another base after a mark of it. -/
def unsigned? (t : Text) : Option Nat :=
  match t with
  | '0' :: 'x' :: rest => digits? 16 rest
  | '0' :: 'o' :: rest => digits? 8 rest
  | '0' :: 'b' :: rest => digits? 2 rest
  | t => if isPadded t then none else digits? 10 t

def number? (s : Scalar) : Option Nat :=
  if s.isBare "int" then unsigned? ((Text.after? ['+'] s.text).getD s.text) else none

theorem digits?_le {base k : Nat} {t : Text} (h : digits? base t = some k) :
    k ≤ Text.wordLimit := by
  simp only [digits?, Option.bind_eq_bind, Option.bind_eq_some_iff] at h
  obtain ⟨ds, -, h⟩ := h
  split at h
  · cases h
  · exact of_decide_eq_true (Option.filter_eq_some_iff.1 h).2

theorem number?_le {s : Scalar} {k : Nat} (h : s.number? = some k) : k ≤ Text.wordLimit := by
  simp only [number?, unsigned?] at h
  repeat' split at h
  all_goals first | exact digits?_le h | cases h

def bool? (s : Scalar) : Option Bool :=
  if !s.isBare "bool" then none
  else if ["true", "True", "TRUE"].any (·.toList = s.text) then some true
  else if ["false", "False", "FALSE"].any (·.toList = s.text) then some false
  else none

/-- A text, or no value; one that is tagged as no value has to say so too. -/
def optionalText? (s : Scalar) : Option (Option Text) :=
  let isNull := ["~", "null", "Null", "NULL"].any (·.toList = s.text)
  if s.style ≠ .plain then some (some s.text)
  else if s.isTagged "null" then (if isNull then some none else none)
  else if s.tag = none && (isNull || s.text = []) then some none
  else some (some s.text)

end Scalar

namespace Document

def part (d : Document) (n : Node) : Document := { d with node := n }

def scalar? (d : Document) : Option Scalar :=
  match d.target with
  | .scalar s => some s
  | _ => none

/-- The entries of a mapping whose keys are scalars; a mapping may be left out. -/
def entries? (d : Document) : Option (List (Text × Document)) :=
  match d.target with
  | .mapping es => es.mapM fun (k, v) => (d.part k).scalar?.map fun s => (s.text, d.part v)
  | .scalar s => if s.style = .plain && s.text = [] then some [] else none
  | _ => none

end Document

def decoder : Settings.Decoder where
  Node := Document
  document? := read
  entries? := Document.entries?
  text? d := d.scalar?.map (·.text)
  optionalText? d := d.scalar?.bind Scalar.optionalText?
  bool? d := d.scalar?.bind Scalar.bool?
  number? d := d.scalar?.bind Scalar.number?
  number?_le h := by
    obtain ⟨s, -, hs⟩ := Option.bind_eq_some_iff.1 h
    exact Scalar.number?_le hs

end Inlay.Yaml
