import Inlay.Shell.Lexer

/-!
Reading commands. A script is read line by line: a line's commands are known before any of them
runs, and a fault in a later line does not keep the earlier ones from running.
-/
namespace Inlay.Shell

open Reading

def keywords : List String :=
  ["if", "then", "else", "elif", "fi", "while", "until", "do", "done", "for", "in", "case", "esac",
    "\x7b", "\x7d", "!"]

/-- The keyword that a token is where a command may begin. -/
def Token.keyword? : Token → Option String
  | .word w => (Word.plain? w).bind fun t =>
      let s := String.ofList t
      if s ∈ keywords then some s else none
  | _ => none

def Token.name (t : Token) : String :=
  match t.keyword? with
  | some k => s!"\"{k}\""
  | none => t.describe

def nextToken : Reading Token := do token ((← get).rest.length + 1)

def peekToken : Reading Token := do
  let c ← get
  let t ← nextToken
  set c
  return t

def unexpected {α : Type} (t : Token) (expected : Option String) : Reading α :=
  fail (.unexpected t.name expected)

def expectKeyword (k : String) : Reading Unit := do
  let t ← nextToken
  if t.keyword? = some k then return else unexpected t (some s!"\"{k}\"")

def expectOperator (o : String) : Reading Unit := do
  let t ← nextToken
  match t with
  | .operator p => if p = o then return else unexpected t (some s!"\"{o}\"")
  | _ => unexpected t (some s!"\"{o}\"")

def skipNewlines : (limit : Nat) → Reading Unit
  | 0 => return
  | limit + 1 => do
    match ← peekToken with
    | .newline => do
      let _ ← nextToken
      skipNewlines limit
    | _ => return

def Token.endsList (t : Token) : Bool :=
  match t with
  | .eof => true
  | .operator o => o = ")" || o = ";;"
  | _ => match t.keyword? with
    | some k => k ∈ ["then", "else", "elif", "fi", "do", "done", "esac", "\x7d"]
    | none => false

def assignment? (w : Word) : Option (Text × Word) :=
  match w with
  | .literal t false :: rest =>
    let name := t.takeWhile isNameChar
    match name, t.drop name.length with
    | c :: _, '=' :: value =>
      if isNameStart c then
        some (name, (if value = [] then [] else [.literal value false]) ++ rest)
      else none
    | _, _ => none
  | _ => none

/-- The text of a word without regard to its quotes. -/
def bareText (w : Word) : Text :=
  w.flatMap fun
    | .literal t _ => t
    | _ => []

/--
The text between the end of this line and the line that holds only the delimiter, or the end of the
script; it is taken, and the rest of this line stays.
-/
def hereText (delimiter : Text) (stripTabs : Bool) : Reading Text := do
  let c ← get
  let line := c.rest.takeWhile (· ≠ '\n')
  let strip (t : Text) : Text := if stripTabs then t.dropWhile (· = '\t') else t
  let below := (Text.cutAt '\n' (c.rest.drop (line.length + 1))).map strip
  let body := below.takeWhile (· ≠ delimiter)
  let after := below.drop (body.length + 1)
  set { c with rest := line ++ (if after = [] then [] else '\n' :: Text.joinWith ['\n'] after) }
  return if delimiter ∈ below then body.flatMap (· ++ ['\n']) else Text.joinWith ['\n'] body

def redirection (descriptor : Option Nat) (operator : String) : Reading Redirection := do
  let t ← nextToken
  match t with
  | .word w =>
    match operator with
    | "<" => return ⟨descriptor.getD 0, .input, w⟩
    | "<>" => return ⟨descriptor.getD 0, .both, w⟩
    | "<&" => return ⟨descriptor.getD 0, .copy, w⟩
    | ">" => return ⟨descriptor.getD 1, .output, w⟩
    | ">|" => return ⟨descriptor.getD 1, .output, w⟩
    | ">>" => return ⟨descriptor.getD 1, .append, w⟩
    | ">&" => return ⟨descriptor.getD 1, .copy, w⟩
    | _ =>
      let body ← hereText (bareText w) (operator = "<<-")
      if (Word.plain? w).isSome then
        match (pieces (body.length + 1) .brace true).run ⟨body ++ ['\x7d'], 1⟩ with
        | .ok (inner, _) => return ⟨descriptor.getD 0, .here, inner⟩
        | .error e => throw e
      else return ⟨descriptor.getD 0, .here, [.literal body true]⟩
  | _ => fail (.unexpected t.describe none)

def redirections : (limit : Nat) → Reading (List Redirection)
  | 0 => return []
  | limit + 1 => do
    match ← peekToken with
    | .redirect d o => do
      let _ ← nextToken
      let r ← redirection d o
      return r :: (← redirections limit)
    | _ => return []

structure SimpleParts where
  assignments : List (Text × Word) := []
  words : List Word := []
  redirections : List Redirection := []

/-- The rest of a simple command; a parenthesis after its first word makes it a definition. -/
def simpleParts : (limit : Nat) → SimpleParts → Reading (SimpleParts × Bool)
  | 0, p => return (p, false)
  | limit + 1, p => do
    match ← peekToken with
    | .word w => do
      let _ ← nextToken
      match (if p.words.isEmpty then assignment? w else none) with
      | some a => simpleParts limit { p with assignments := p.assignments ++ [a] }
      | none => simpleParts limit { p with words := p.words ++ [w] }
    | .redirect d o => do
      let _ ← nextToken
      let r ← redirection d o
      simpleParts limit { p with redirections := p.redirections ++ [r] }
    | .operator "(" =>
      if p.words.length = 1 && p.assignments.isEmpty && p.redirections.isEmpty then do
        let _ ← nextToken
        expectOperator ")"
        return (p, true)
      else return (p, false)
    | _ => return (p, false)

def wordList : (limit : Nat) → Reading (List Word)
  | 0 => return []
  | limit + 1 => do
    match ← peekToken with
    | .word w => do
      let _ ← nextToken
      return w :: (← wordList limit)
    | _ => return []

/-- The patterns of a branch, up to the closing parenthesis. -/
def patterns : (limit : Nat) → Reading (List Word)
  | 0 => return []
  | limit + 1 => do
    let t ← nextToken
    match t with
    | .word w => do
      let sep ← nextToken
      match sep with
      | .operator "|" => return w :: (← patterns limit)
      | .operator ")" => return [w]
      | _ => unexpected sep (some "\")\"")
    | _ => unexpected t none

def wrap (redirections : List Redirection) (c : Command) : Command :=
  if redirections.isEmpty then c else .group c redirections

mutual

def command : (limit : Nat) → Reading Command
  | 0 => fail (.unexpected "end of file" none)
  | limit + 1 => do
    let line := (← get).line
    let t ← peekToken
    match t.keyword?, t with
    | some "if", _ => do
      let _ ← nextToken
      let c ← ifRest limit
      return wrap (← redirections limit) c
    | some "while", _ => do
      let _ ← nextToken
      let test ← list limit
      let body ← doBody limit
      return wrap (← redirections limit) (.loop false test body)
    | some "until", _ => do
      let _ ← nextToken
      let test ← list limit
      let body ← doBody limit
      return wrap (← redirections limit) (.loop true test body)
    | some "for", _ => do
      let _ ← nextToken
      let c ← forRest limit
      return wrap (← redirections limit) c
    | some "case", _ => do
      let _ ← nextToken
      let c ← caseRest limit
      return wrap (← redirections limit) c
    | some "\x7b", _ => do
      let _ ← nextToken
      let body ← list limit
      expectKeyword "\x7d"
      return .group body (← redirections limit)
    | some _, _ => unexpected t none
    | none, .operator "(" => do
      let _ ← nextToken
      let body ← list limit
      expectOperator ")"
      return .subshell body (← redirections limit)
    | none, .word _ => simple limit line
    | none, .redirect .. => simple limit line
    | none, _ => unexpected t none

def simple : (limit : Nat) → (line : Nat) → Reading Command
  | 0, _ => fail (.unexpected "end of file" none)
  | limit + 1, line => do
    let (p, defines) ← simpleParts ((← get).rest.length + 1) {}
    if defines then do
      skipNewlines limit
      return .define (bareText (p.words.headD [])) (← command limit)
    else return .simple line p.assignments p.words p.redirections

def ifRest : (limit : Nat) → Reading Command
  | 0 => fail (.unexpected "end of file" none)
  | limit + 1 => do
    let test ← list limit
    expectKeyword "then"
    let yes ← list limit
    let t ← nextToken
    match t.keyword? with
    | some "fi" => return .conditional test yes none
    | some "else" => do
      let no ← list limit
      expectKeyword "fi"
      return .conditional test yes (some no)
    | some "elif" => return .conditional test yes (some (← ifRest limit))
    | _ => unexpected t (some "\"fi\"")

def doBody : (limit : Nat) → Reading Command
  | 0 => fail (.unexpected "end of file" none)
  | limit + 1 => do
    expectKeyword "do"
    let body ← list limit
    expectKeyword "done"
    return body

def forRest : (limit : Nat) → Reading Command
  | 0 => fail (.unexpected "end of file" none)
  | limit + 1 => do
    let t ← nextToken
    match t with
    | .word w => do
      skipNewlines limit
      let words ← do
        if (← peekToken).keyword? = some "in" then do
          let _ ← nextToken
          wordList ((← get).rest.length + 1)
        else pure []
      match ← peekToken with
      | .operator ";" => do
        let _ ← nextToken
        skipNewlines limit
      | _ => skipNewlines limit
      return .forEach (bareText w) words (← doBody limit)
    | _ => unexpected t none

def caseRest : (limit : Nat) → Reading Command
  | 0 => fail (.unexpected "end of file" none)
  | limit + 1 => do
    let t ← nextToken
    match t with
    | .word w => do
      skipNewlines limit
      expectKeyword "in"
      return .case w (← branches limit)
    | _ => unexpected t none

def branches : (limit : Nat) → Reading (List (List Word × Option Command))
  | 0 => fail (.unexpected "end of file" none)
  | limit + 1 => do
    skipNewlines limit
    let t ← peekToken
    if t.keyword? = some "esac" then do
      let _ ← nextToken
      return []
    else do
      match t with
      | .operator "(" => do
        let _ ← nextToken
      | _ => pure ()
      let ps ← patterns limit
      skipNewlines limit
      let body ← do
        if (← peekToken).endsList then pure none else (do return some (← list limit))
      let sep ← nextToken
      match sep with
      | .operator ";;" => return (ps, body) :: (← branches limit)
      | _ =>
        if sep.keyword? = some "esac" then return [(ps, body)]
        else unexpected sep (some "\";;\"")

def pipeline : (limit : Nat) → Reading Command
  | 0 => fail (.unexpected "end of file" none)
  | limit + 1 => do
    if (← peekToken).keyword? = some "!" then do
      let _ ← nextToken
      return .negated (← pipeline limit)
    else do
      let first ← command limit
      let rest ← stages limit
      return if rest.isEmpty then first else .pipeline (first :: rest)

def stages : (limit : Nat) → Reading (List Command)
  | 0 => return []
  | limit + 1 => do
    match ← peekToken with
    | .operator "|" => do
      let _ ← nextToken
      skipNewlines limit
      let c ← command limit
      return c :: (← stages limit)
    | _ => return []

def andOr : (limit : Nat) → Reading Command
  | 0 => fail (.unexpected "end of file" none)
  | limit + 1 => do
    let first ← pipeline limit
    andOrRest limit first

def andOrRest : (limit : Nat) → Command → Reading Command
  | 0, first => return first
  | limit + 1, first => do
    match ← peekToken with
    | .operator "&&" => do
      let _ ← nextToken
      skipNewlines limit
      let second ← pipeline limit
      andOrRest limit (.both first second)
    | .operator "||" => do
      let _ ← nextToken
      skipNewlines limit
      let second ← pipeline limit
      andOrRest limit (.either first second)
    | _ => return first

/-- One or more commands, up to a token that ends a list. -/
def list : (limit : Nat) → Reading Command
  | 0 => fail (.unexpected "end of file" none)
  | limit + 1 => do
    skipNewlines limit
    let first ← andOr limit
    listRest limit first

def listRest : (limit : Nat) → Command → Reading Command
  | 0, first => return first
  | limit + 1, first => do
    let t ← peekToken
    match t with
    | .operator ";" => more limit first
    | .operator "&" => more limit first
    | .newline => more limit first
    | _ => return first

/-- What follows a separator in a list. -/
def more : (limit : Nat) → Command → Reading Command
  | 0, first => return first
  | limit + 1, first => do
    let _ ← nextToken
    skipNewlines limit
    if (← peekToken).endsList then return first
    else do
      let second ← andOr limit
      listRest limit (.sequence first second)

end

/-- The commands up to the end of the line, after those before it. -/
def lineRest : (limit : Nat) → Command → Reading Command
  | 0, first => return first
  | limit + 1, first => do
    let t ← nextToken
    let goOn : Reading Command := do
      match ← peekToken with
      | .newline => do
        let _ ← nextToken
        return first
      | .eof => return first
      | _ => do
        let second ← andOr limit
        lineRest limit (.sequence first second)
    match t with
    | .newline => return first
    | .eof => return first
    | .operator ";" => goOn
    | .operator "&" => goOn
    | _ => unexpected t none

/-- The commands of the next line that has any; there are none at the end of the script. -/
def commandLine : Reading (Option Command) := do
  let limit := 4 * (← get).rest.length + 16
  skipNewlines limit
  match ← peekToken with
  | .eof => return none
  | _ => do
    let first ← andOr limit
    return some (← lineRest limit first)

end Inlay.Shell
