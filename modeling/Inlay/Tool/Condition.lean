import Inlay.Tool.Basic

namespace Inlay.Tool

def signed? (b : Bytes) : Option Int :=
  match (string b).toList with
  | '-' :: t => (decimal? (String.ofList t)).map fun n => -(n : Int)
  | '+' :: t => (decimal? (String.ofList t)).map fun n => (n : Int)
  | t => (decimal? (String.ofList t)).map fun n => (n : Int)

/-- A condition with one operand; `none` for an operator that there is not. -/
def unary? (c : Context) (operator : String) (arg : Bytes) : Option Bool :=
  let path := Text.decodeLossy arg
  let node : Option Node := match c.tree.find c.cwd path with
    | .ok (_, n) => some n
    | .error _ => none
  match operator with
  | "-n" => some (arg ≠ [])
  | "-z" => some (arg = [])
  | "-e" => some node.isSome
  | "-r" => some node.isSome
  | "-w" => some node.isSome
  | "-x" => some (match node with
    | some .directory => true
    | some (.program _) => true
    | _ => false)
  | "-f" => some (match node with
    | some (.file _) => true
    | some (.program _) => true
    | _ => false)
  | "-d" => some (node = some .directory)
  | "-s" => some (match node with
    | some (.file content) => content ≠ []
    | some .directory => true
    | _ => false)
  | "-c" => some (match node with
    | some (.device _) => true
    | _ => false)
  | "-L" => some (isLink path)
  | "-h" => some (isLink path)
  | _ => none
where
  isLink (path : Path) : Bool := match c.tree.locate c.cwd path false with
    | .ok (.node _ (.link _)) => true
    | _ => false

/-- A condition with two operands; an operand that is no number is an error. -/
def binary? (a : Bytes) (operator : String) (b : Bytes) : Option (Except String Bool) :=
  let compare (p : Int → Int → Bool) : Option (Except String Bool) :=
    match signed? a, signed? b with
    | some m, some n => some (.ok (p m n))
    | none, _ => some (.error s!"Illegal number: {string a}")
    | _, none => some (.error s!"Illegal number: {string b}")
  match operator with
  | "=" => some (.ok (a = b))
  | "==" => some (.ok (a = b))
  | "!=" => some (.ok (a ≠ b))
  | "-eq" => compare (· = ·)
  | "-ne" => compare (· ≠ ·)
  | "-lt" => compare (· < ·)
  | "-le" => compare (· ≤ ·)
  | "-gt" => compare (· > ·)
  | "-ge" => compare (· ≥ ·)
  | _ => none

def condition (c : Context) : (limit : Nat) → List Bytes → Except String Bool
  | 0, _ => .error "too many arguments"
  | _, [] => .ok false
  | _, [a] => .ok (a ≠ [])
  | limit + 1, [a, b] =>
    if string a = "!" then do return !(← condition c limit [b])
    else match unary? c (string a) b with
      | some v => .ok v
      | none => .error s!"{string a}: unexpected operator"
  | limit + 1, [a, operator, b] =>
    match binary? a (string operator) b with
    | some v => v
    | none =>
      if string operator = "-a" then .ok (a ≠ [] && b ≠ [])
      else if string operator = "-o" then .ok (a ≠ [] || b ≠ [])
      else if string a = "!" then do return !(← condition c limit [operator, b])
      else .error s!"{string a}: unexpected operator"
  | limit + 1, args =>
    let splitAtWord (w : String) : Option (List Bytes × List Bytes) :=
      match args.findIdx? (string · = w) with
      | some i => some (args.take i, args.drop (i + 1))
      | none => none
    match splitAtWord "-o", splitAtWord "-a" with
    | some (l, r), _ => do return (← condition c limit l) || (← condition c limit r)
    | none, some (l, r) => do return (← condition c limit l) && (← condition c limit r)
    | none, none =>
      match args with
      | first :: rest =>
        if string first = "!" then do return !(← condition c limit rest)
        else .error "too many arguments"
      | [] => .ok false

end Inlay.Tool
