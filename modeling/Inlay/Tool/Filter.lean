import Inlay.Tool.Basic

namespace Inlay.Tool

def aboutFile (tool : String) (name : Bytes) (fault : Fault) : Result :=
  .complain 1 s!"{tool}: {string name}: {describe fault}"

def operands (args : List Bytes) : List Bytes :=
  args.filter fun a => string a ≠ "--"

def isOption (a : Bytes) : Bool :=
  match a with
  | 45 :: _ :: _ => true
  | _ => false

/-- The lines of a byte sequence, each after its number in a column of its own. -/
def numbered (first : Nat) (b : Bytes) : Bytes :=
  ((Stream.lines b).zipIdx first).flatMap fun (line, n) =>
    let digits := (toString n).toList
    Text.encode (List.replicate (6 - digits.length) ' ' ++ digits ++ ['\t']) ++ line

def cat (c : Context) (args : List Bytes) : Result :=
  let isOurs (a : Bytes) : Bool := string a ∈ ["-u", "-n"]
  match args.find? fun a => isOption a && string a ≠ "--" && !isOurs a with
  | some a => invalidOption "cat" ((string a).toList.getD 1 ' ')
  | none =>
    let files := (operands args).filter fun a => !isOurs a
    let files : List Bytes := if files = [] then [[45]] else files
    let counts := args.any fun a => string a = "-n"
    let (_, results) := files.foldl (fun (next, results) f =>
      match c.open f with
      | .ok s =>
        let shown := if counts then { s with head := numbered next s.head } else s
        (next + (Stream.lines s.head).length, results ++ [.out shown])
      | .error fault => (next, results ++ [aboutFile "cat" f fault])) (1, [])
    { Result.all results with readsInput := true }

/-- How much of each stream `head` shows. -/
inductive Amount where
  | lines (n : Nat)
  | bytes (n : Nat)
  | allButLines (n : Nat)
  | allButBytes (n : Nat)

def Amount.take (s : Stream) : Amount → Bytes
  | lines n => s.takeLines n
  | bytes n => s.takeBytes n
  | allButLines n =>
    let ls := Stream.lines s.head
    (ls.take (ls.length - n)).flatten
  | allButBytes n => s.head.take (s.head.length - n)

def amount? (unit : Char) (t : Text) : Option Amount :=
  match t with
  | '-' :: t => (decimal? (String.ofList t)).map fun n =>
      if unit = 'c' then .allButBytes n else .allButLines n
  | t => (decimal? (String.ofList t)).map fun n =>
      if unit = 'c' then .bytes n else .lines n

structure HeadOptions where
  amount : Amount := .lines 10
  files : List Bytes := []

def headOptions : List Text → HeadOptions → Except String HeadOptions
  | [], o => .ok o
  | ['-', '-'] :: rest, o => .ok { o with files := o.files ++ rest.map Text.encode }
  | ('-' :: unit :: t) :: rest, o =>
    let set (t : Text) : Except String HeadOptions :=
      match amount? unit t with
      | some a => .ok { o with amount := a }
      | none =>
        let units := if unit = 'c' then "bytes" else "lines"
        .error s!"head: invalid number of {units}: '{String.ofList t}'"
    if unit = 'n' || unit = 'c' then
      match t, rest with
      | [], [] => .error (s!"head: option requires an argument -- '{unit}'" ++ tryHelp "head")
      | [], value :: rest => do headOptions rest (← set value)
      | value, rest => do headOptions rest (← set value)
    else if unit.isDigit then
      match amount? 'n' (unit :: t) with
      | some a => headOptions rest { o with amount := a }
      | none =>
        let bad := t.getD 0 ' '
        .error (s!"head: invalid trailing option -- {bad}" ++ tryHelp "head")
    else .error (s!"head: invalid option -- '{unit}'" ++ tryHelp "head")
  | file :: rest, o => headOptions rest { o with files := o.files ++ [Text.encode file] }

def head (c : Context) (args : List Bytes) : Result :=
  match headOptions (args.map Text.decodeLossy) {} with
  | .error message => .complain 1 message
  | .ok o =>
    let files : List Bytes := if o.files = [] then [[45]] else o.files
    let show_ (i : Nat) (f : Bytes) : Result :=
      match c.open f with
      | .error (.system .isDirectory) =>
        .complain 1 s!"head: error reading '{string f}': Is a directory"
      | .error fault => .complain 1 s!"head: cannot open '{string f}' for reading: {describe fault}"
      | .ok s =>
        let name := if f = [45] then "standard input" else string f
        let title := if files.length ≤ 1 then ""
          else (if i = 0 then "" else "\n") ++ s!"==> {name} <==\n"
        .out ((Stream.ofString title).append ⟨o.amount.take s, []⟩)
    { Result.all (files.mapIdx show_) with readsInput := true }

structure Counts where
  lines : Nat := 0
  words : Nat := 0
  bytes : Nat := 0

def Counts.add (a b : Counts) : Counts :=
  ⟨a.lines + b.lines, a.words + b.words, a.bytes + b.bytes⟩

def isSpace (b : UInt8) : Bool := b = 32 || (9 ≤ b && b ≤ 13)

def Counts.ofBytes (b : Bytes) : Counts :=
  let (lines, words, _) := b.foldl (fun (lines, words, inWord) c =>
    let lines := if c = 10 then lines + 1 else lines
    if isSpace c then (lines, words, false)
    else (lines, if inWord then words else words + 1, true)) (0, 0, false)
  ⟨lines, words, b.length⟩

def padLeft (width : Nat) (n : Nat) : String :=
  let s := toString n
  String.ofList (List.replicate (width - s.length) ' ') ++ s

def wc (c : Context) (args : List Bytes) : Result :=
  let opts := (args.filter isOption).flatMap fun a => ((string a).toList.drop 1).filter (· ≠ '-')
  match opts.find? (· ∉ ['l', 'w', 'c', 'm']) with
  | some bad => invalidOption "wc" bad
  | none =>
    let opts := if opts = [] then ['l', 'w', 'c'] else opts
    let files := operands (args.filter fun a => !isOption a)
    let single := (['l', 'w', 'c', 'm'].filter (· ∈ opts)).length = 1 && files.length ≤ 1
    let opened : List (Bytes × Except Fault Stream) :=
      (if files = [] then [[45]] else files).map fun f => (f, c.open f)
    let regular (f : Bytes) (s : Except Fault Stream) : Nat := match s with
      | .ok s => if f = [45] then 0 else s.head.length
      | .error _ => 0
    let total := (opened.map fun (f, s) => regular f s).foldl (· + ·) 0
    let piped := opened.any fun (f, s) => f = [45] || (match s with
      | .error (.system .isDirectory) => true
      | _ => false)
    let width := if single then 1 else max (toString total).length (if piped then 7 else 1)
    let row (n : Counts) (name : String) : String :=
      let columns := (if 'l' ∈ opts then [padLeft width n.lines] else []) ++
        (if 'w' ∈ opts then [padLeft width n.words] else []) ++
        (if 'm' ∈ opts then [padLeft width n.bytes] else []) ++
        (if 'c' ∈ opts then [padLeft width n.bytes] else [])
      " ".intercalate columns ++ name ++ "\n"
    let named (f : Bytes) : String := if files = [] then "" else " " ++ string f
    let results : List (Counts × Result) := opened.map fun (f, s) =>
      match s with
      | .ok s => (Counts.ofBytes s.head, .out (.ofString (row (Counts.ofBytes s.head) (named f))))
      | .error (.system .isDirectory) =>
        ({}, (aboutFile "wc" f (.system .isDirectory)).andThen
          (.out (.ofString (row {} (named f)))))
      | .error fault => ({}, aboutFile "wc" f fault)
    let sum := results.foldl (fun n r => n.add r.1) {}
    let rows := results.map (·.2) ++
      (if files.length ≤ 1 then [] else [.out (.ofString (row sum " total"))])
    { Result.all rows with readsInput := true }

def classOf? (name : String) : Option (UInt8 → Bool) :=
  let lower (b : UInt8) : Bool := 97 ≤ b && b ≤ 122
  let upper (b : UInt8) : Bool := 65 ≤ b && b ≤ 90
  let digit (b : UInt8) : Bool := 48 ≤ b && b ≤ 57
  match name with
  | "lower" => some lower
  | "upper" => some upper
  | "digit" => some digit
  | "alpha" => some fun b => lower b || upper b
  | "alnum" => some fun b => lower b || upper b || digit b
  | "space" => some isSpace
  | "blank" => some fun b => b = 32 || b = 9
  | "punct" => some fun b => 33 ≤ b && b ≤ 126 && !(lower b || upper b || digit b)
  | "print" => some fun b => 32 ≤ b && b ≤ 126
  | "graph" => some fun b => 33 ≤ b && b ≤ 126
  | "cntrl" => some fun b => b < 32 || b = 127
  | "xdigit" => some fun b => digit b || (97 ≤ b && b ≤ 102) || (65 ≤ b && b ≤ 70)
  | _ => none

def everyByte : Bytes := (List.range 256).map UInt8.ofNat

/-- The bytes of a set before its ranges are filled in, each with whether it was escaped. -/
def setItems : (limit : Nat) → Text → List (UInt8 × Bool)
  | 0, _ => []
  | _, [] => []
  | limit + 1, '\\' :: c :: t =>
    if (octalDigit? c).isSome then
      let (n, rest) := octal 3 (c :: t)
      (UInt8.ofNat n, true) :: setItems limit rest
    else ((letterEscape? c).getD (UInt8.ofNat c.toNat), true) :: setItems limit t
  | limit + 1, '[' :: ':' :: t =>
    let name := t.takeWhile (· ≠ ':')
    match classOf? (String.ofList name), t.drop name.length with
    | some p, ':' :: ']' :: rest => (everyByte.filter p).map (·, true) ++ setItems limit rest
    | _, _ => (91, false) :: (58, false) :: setItems limit t
  | limit + 1, c :: t => (Text.encode [c]).map (·, false) ++ setItems limit t

/-- The set with every range `a-z` filled in. -/
def setRanges : List (UInt8 × Bool) → Bytes
  | (a, _) :: (45, false) :: (b, _) :: rest =>
    ((List.range (b.toNat + 1)).drop a.toNat).map UInt8.ofNat ++ setRanges rest
  | (a, _) :: rest => a :: setRanges rest
  | [] => []

def setOf (t : Text) : Bytes := setRanges (setItems (t.length + 1) t)

/-- Runs of one byte of a set made into one byte each. -/
def squeeze (set : Bytes) (b : Bytes) : Bytes :=
  (b.foldl (fun (acc : Bytes) c =>
    if acc.head? = some c && c ∈ set then acc else c :: acc) []).reverse

def translate (source target : Bytes) (b : UInt8) : UInt8 :=
  match source.idxOf? b with
  | none => b
  | some i => (target[i]?).getD (target.getLast?.getD b)

def tr (c : Context) (args : List Bytes) : Result :=
  let words := args.map Text.decodeLossy
  let isFlag (t : Text) : Bool := match t with
    | '-' :: _ :: _ => true
    | _ => false
  let flags := (words.takeWhile isFlag).flatMap (·.drop 1)
  let sets := words.dropWhile isFlag
  let has (f : Char) : Bool := f ∈ flags
  match flags.find? (· ∉ ['c', 'C', 'd', 's', 't', '-']), sets with
  | some bad, _ => invalidOption "tr" bad
  | none, [] => .complain 1 ("tr: missing operand" ++ tryHelp "tr")
  | none, first :: rest =>
    let source := setOf first
    let source := if has 'c' || has 'C' then everyByte.filter (· ∉ source) else source
    match has 'd', rest with
    | true, [] => { Result.out (c.input.filter (· ∉ source)) with readsInput := true }
    | true, second :: _ =>
      if has 's' then
        { Result.out ⟨squeeze (setOf second) (c.input.filter (· ∉ source)).head, []⟩ with
          readsInput := true }
      else .complain 1 (s!"tr: extra operand '{String.ofList second}'\n" ++
        "Only one string may be given when deleting without squeezing repeats." ++ tryHelp "tr")
    | false, [] =>
      if has 's' then { Result.out ⟨squeeze source c.input.head, []⟩ with readsInput := true }
      else .complain 1 (s!"tr: missing operand after '{String.ofList first}'\n" ++
        "Two strings must be given when translating." ++ tryHelp "tr")
    | false, second :: _ =>
      let target := setOf second
      let moved := c.input.map (translate source target)
      let out := if has 's' then ⟨squeeze target moved.head, []⟩ else moved
      { Result.out out with readsInput := true }

def yes (args : List Bytes) : Result :=
  let line := if args = [] then [121] else (args.intersperse [32]).flatten
  .out ⟨[], line ++ [10]⟩

end Inlay.Tool
