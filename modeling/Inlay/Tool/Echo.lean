import Inlay.Tool.Basic

namespace Inlay.Tool

def spaced (args : List Bytes) : Bytes := (args.intersperse [32]).flatten

/-- Text with its escapes replaced, and whether an escape has ended all output. -/
def unescape : (limit : Nat) → Text → Bytes × Bool
  | 0, _ => ([], false)
  | _, [] => ([], false)
  | limit + 1, '\\' :: c :: t =>
    if c = 'c' then ([], true)
    else if c = '0' then
      let (n, rest) := octal 3 t
      let (bytes, ended) := unescape limit rest
      (UInt8.ofNat n :: bytes, ended)
    else match letterEscape? c with
      | some b =>
        let (bytes, ended) := unescape limit t
        (b :: bytes, ended)
      | none =>
        let (bytes, ended) := unescape limit (c :: t)
        (92 :: bytes, ended)
  | limit + 1, c :: t =>
    let (bytes, ended) := unescape limit t
    (Text.encode [c] ++ bytes, ended)

/-- The escapes of bytes, which keep those that are no text as they are. -/
def unescapeBytes (b : Bytes) : Bytes × Bool :=
  if 92 ∈ b then
    let t := Text.decodeLossy b
    unescape (t.length + 1) t
  else (b, false)

def echoEscaped (args : List Bytes) : Result :=
  let (quiet, args) := match args with
    | first :: rest => if string first = "-n" then (true, rest) else (false, args)
    | [] => (false, [])
  let (bytes, ended) := unescapeBytes (spaced args)
  .out ⟨bytes ++ (if quiet || ended then [] else [10]), []⟩

/-- Writes the arguments as they are, unless an option asks for escapes. -/
def echoPlain (args : List Bytes) : Result :=
  let isOption (a : Bytes) : Bool := match a with
    | 45 :: c :: cs => (c :: cs).all fun b => b = 110 || b = 101 || b = 69
    | _ => false
  let opts := (args.takeWhile isOption).flatMap (·.drop 1)
  let words := args.dropWhile isOption
  let escapes : Bool := match (opts.filter (· ≠ 110)).getLast? with
    | some b => b = 101
    | none => false
  let (bytes, ended) := match escapes with
    | true => unescapeBytes (spaced words)
    | false => (spaced words, false)
  .out ⟨bytes ++ (if 110 ∈ opts || ended then [] else [10]), []⟩

inductive Directive where
  | verbatim (bytes : Bytes)
  /-- A conversion with its flags, width and precision. -/
  | convert (flags : List Char) (width : Nat) (precision : Option Nat) (kind : Char)
  | stop

def formatEscape (t : Text) : Directive × Text :=
  match t with
  | [] => (.verbatim [92], [])
  | c :: rest =>
    if (octalDigit? c).isSome then
      let (n, rest) := octal 3 t
      (.verbatim [UInt8.ofNat n], rest)
    else if c = 'c' then (.stop, [])
    else if c = '"' then (.verbatim [34], rest)
    else match letterEscape? c with
      | some b => (.verbatim [b], rest)
      | none => (.verbatim (Text.encode ['\\', c]), rest)

def number (t : Text) : Nat × Text :=
  let digits := t.takeWhile Char.isDigit
  (digits.foldl (fun n c => n * 10 + (c.toNat - '0'.toNat)) 0, t.drop digits.length)

def directives : (limit : Nat) → Text → List Directive
  | 0, _ => []
  | _, [] => []
  | limit + 1, '\\' :: t =>
    let (d, rest) := formatEscape t
    d :: directives limit rest
  | limit + 1, '%' :: '%' :: t => .verbatim [37] :: directives limit t
  | limit + 1, '%' :: t =>
    let isFlag (c : Char) : Bool := c ∈ ['-', '+', ' ', '0', '#']
    let (width, t') := number (t.dropWhile isFlag)
    let (precision, t') := match t' with
      | '.' :: t'' =>
        let (p, t'') := number t''
        (some p, t'')
      | _ => (none, t')
    match t' with
    | kind :: rest => .convert (t.takeWhile isFlag) width precision kind :: directives limit rest
    | [] => []
  | limit + 1, c :: t => .verbatim (Text.encode [c]) :: directives limit t

/-- Bytes filled up to a width, on the left unless a flag says otherwise. -/
def pad (flags : List Char) (width : Nat) (zeros : Bool) (b : Bytes) : Bytes :=
  let fill := width - b.length
  if '-' ∈ flags then b ++ List.replicate fill 32
  else if zeros then match b with
    | 45 :: digits => 45 :: (List.replicate fill 48 ++ digits)
    | _ => List.replicate fill 48 ++ b
  else List.replicate fill 32 ++ b

def digitsIn (base : Nat) (n : Nat) : Bytes := Text.encode (Nat.toDigits base n)

/-- An argument as a number; a quote before a character gives the number of that character. -/
def integer? (arg : Bytes) : Option Int :=
  let parse (t : Text) : Option Int :=
    match t with
    | '0' :: 'x' :: hex =>
      if hex ≠ [] && hex.all (fun c => c.isDigit || ('a' ≤ c.toLower && c.toLower ≤ 'f')) then
        some (hex.foldl (fun (n : Int) c =>
          n * 16 + (if c.isDigit then c.toNat - 48 else c.toLower.toNat - 87 : Nat)) 0)
      else none
    | '0' :: d :: ds =>
      if (octal ((d :: ds).length) (d :: ds)).2 = [] then
        some ((octal ((d :: ds).length) (d :: ds)).1 : Int)
      else none
    | _ => (decimal? (String.ofList t)).map (fun n => (n : Int))
  match Text.decodeLossy arg with
  | [] => some 0
  | '\'' :: c :: _ => some (c.toNat : Int)
  | '"' :: c :: _ => some (c.toNat : Int)
  | '-' :: t => (parse t).map (fun n => -n)
  | '+' :: t => parse t
  | t => parse t

/-- One conversion of one argument: the bytes, whether the argument would not do, and an end. -/
def convert (flags : List Char) (width : Nat) (precision : Option Nat) (kind : Char) (arg : Bytes) :
    Bytes × Bool × Bool :=
  let zeros := '0' ∈ flags && '-' ∉ flags
  let whole (digits : Nat → Bytes) : Bytes × Bool × Bool :=
    let n := (integer? arg).getD 0
    let body := digits n.natAbs
    let body := List.replicate (precision.getD 0 - body.length) 48 ++ body
    let sign : Bytes := if n < 0 then [45] else if '+' ∈ flags then [43]
      else if ' ' ∈ flags then [32] else []
    (pad flags width (zeros && precision.isNone) (sign ++ body), (integer? arg).isNone, false)
  match kind with
  | 's' => (pad flags width false (precision.elim arg arg.take), false, false)
  | 'b' =>
    let (bytes, ended) := unescapeBytes arg
    (pad flags width false (precision.elim bytes bytes.take), false, ended)
  | 'c' => (pad flags width false (arg.take 1), false, false)
  | 'd' => whole (digitsIn 10)
  | 'i' => whole (digitsIn 10)
  | 'u' => whole (digitsIn 10)
  | 'o' => whole (digitsIn 8)
  | 'x' => whole fun n => (if '#' ∈ flags && n ≠ 0 then [48, 120] else []) ++ digitsIn 16 n
  | 'X' => whole fun n => (digitsIn 16 n).map fun b => if 97 ≤ b then b - 32 else b
  | _ => ([], false, false)

structure Printing where
  bytes : Bytes := []
  args : List Bytes
  /-- Arguments that are no numbers where numbers are wanted. -/
  bad : List Bytes := []
  ended : Bool := false
  /-- Whether the format has taken up an argument. -/
  used : Bool := false

def printOne (p : Printing) (d : Directive) : Printing :=
  if p.ended then p
  else match d with
  | .verbatim bytes => { p with bytes := p.bytes ++ bytes }
  | .stop => { p with ended := true }
  | .convert flags width precision kind =>
    let arg := p.args.headD []
    let (bytes, bad, ended) := convert flags width precision kind arg
    { bytes := p.bytes ++ bytes
      args := p.args.drop 1
      bad := if bad then p.bad ++ [arg] else p.bad
      ended := ended
      used := true }

/-- Writes the format, again and again as long as arguments are left that it takes up. -/
def printAll (ds : List Directive) : (limit : Nat) → Printing → Printing
  | 0, p => p
  | limit + 1, p =>
    let p := ds.foldl printOne p
    if p.ended || p.args = [] || !p.used then p else printAll ds limit p

def printf (blame : String) (args : List Bytes) : Result :=
  match (if (args.head?.map string) = some "--" then args.drop 1 else args) with
  | [] => .complain 2 s!"{blame}printf: usage: printf format [arg ...]"
  | format :: args =>
    let t := Text.decodeLossy format
    let p := printAll (directives (t.length + 1) t) (args.length + 1) { args := args }
    let complaints := p.bad.map fun b =>
      (Channel.err, Stream.ofString s!"{blame}printf: {string b}: expected numeric value\n")
    { writes := complaints ++ [(.out, ⟨p.bytes, []⟩)], status := if p.bad = [] then 0 else 1 }

end Inlay.Tool
