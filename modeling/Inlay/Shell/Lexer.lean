import Inlay.Shell.Syntax

/-!
Reading the tokens of a script. Every function takes a bound on its steps, which the length of the
script always meets.
-/
namespace Inlay.Shell

/-- What is left of a script, and the number of the line that it begins in. -/
structure Cursor where
  rest : Text
  line : Nat := 1

abbrev Reading (α : Type) := StateT Cursor (Except SyntaxError) α

namespace Reading

def fail {α : Type} (p : Problem) : Reading α := do
  throw ⟨(← get).line, p⟩

def peek : Reading (Option Char) := return (← get).rest.head?

def next : Reading (Option Char) := do
  let c ← get
  match c.rest with
  | [] => return none
  | '\n' :: t => do
    set { c with rest := t, line := c.line + 1 }
    return some '\n'
  | x :: t => do
    set { c with rest := t }
    return some x

def skip (n : Nat) : Reading Unit := modify fun c =>
  { c with rest := c.rest.drop n, line := c.line + (c.rest.take n).count '\n' }

/-- Characters of a class at the cursor, which are taken. -/
def takeWhile (p : Char → Bool) : Reading Text := do
  let t := (← get).rest.takeWhile p
  skip t.length
  return t

def startsWith (s : Text) : Reading Bool := return s.isPrefixOf (← get).rest

end Reading

open Reading

def isNameStart (c : Char) : Bool := c.isAlpha || c = '_'

def isNameChar (c : Char) : Bool := c.isAlphanum || c = '_'

def isSpecial (c : Char) : Bool := c ∈ ['?', '$', '!', '#', '@', '*', '-']

/-- The characters that end a word unless they are quoted. -/
def endsWord (c : Char) : Bool := c ∈ [' ', '\t', '\n', ';', '&', '|', '<', '>', '(', ')']

/--
Text up to the parenthesis that closes one already open, quotes and inner parentheses kept whole.
-/
def untilParen : (limit : Nat) → (depth : Nat) → (seen : Text) → Reading Text
  | 0, _, _ => fail (.unexpected "end of file" (some "\")\""))
  | limit + 1, depth, seen => do
    match ← next with
    | none => fail (.unexpected "end of file" (some "\")\""))
    | some ')' =>
      if depth = 0 then return seen.reverse else untilParen limit (depth - 1) (')' :: seen)
    | some '(' => untilParen limit (depth + 1) ('(' :: seen)
    | some '\\' => do
      match ← next with
      | none => untilParen limit depth ('\\' :: seen)
      | some c => untilParen limit depth (c :: '\\' :: seen)
    | some '\'' => do
      let inner ← takeWhile (· ≠ '\'')
      if (← next).isNone then fail .unterminatedQuote
      untilParen limit depth ('\'' :: inner.reverse ++ '\'' :: seen)
    | some '"' => do
      let inner ← quoted limit []
      untilParen limit depth ('"' :: inner ++ '"' :: seen)
    | some c => untilParen limit depth (c :: seen)
where
  /-- Text up to a closing double quote, last character first. -/
  quoted : (limit : Nat) → Text → Reading Text
    | 0, _ => fail .unterminatedQuote
    | limit + 1, seen => do
      match ← next with
      | none => fail .unterminatedQuote
      | some '"' => return seen
      | some '\\' => do
        match ← next with
        | none => fail .unterminatedQuote
        | some c => quoted limit (c :: '\\' :: seen)
      | some c => quoted limit (c :: seen)

/-- The expression of an arithmetic expansion, up to its two closing parentheses. -/
def untilArithmeticEnd : (limit : Nat) → (depth : Nat) → (seen : Text) → Reading Text
  | 0, _, _ => fail .missingArithmeticEnd
  | limit + 1, depth, seen => do
    match ← next with
    | none => fail .missingArithmeticEnd
    | some ')' =>
      if depth = 0 then do
        match ← next with
        | some ')' => return seen.reverse
        | _ => fail .missingArithmeticEnd
      else untilArithmeticEnd limit (depth - 1) (')' :: seen)
    | some '(' => untilArithmeticEnd limit (depth + 1) ('(' :: seen)
    | some c => untilArithmeticEnd limit depth (c :: seen)

/-- A script in backquotes, with the escapes that they need taken away. -/
def untilBackquote : (limit : Nat) → (seen : Text) → Reading Text
  | 0, _ => fail .unterminatedBackquote
  | limit + 1, seen => do
    match ← next with
    | none => fail .unterminatedBackquote
    | some '\x60' => return seen.reverse
    | some '\\' => do
      match ← next with
      | none => fail .unterminatedBackquote
      | some c =>
        if c ∈ ['\\', '$', '\x60'] then untilBackquote limit (c :: seen)
        else untilBackquote limit (c :: '\\' :: seen)
    | some c => untilBackquote limit (c :: seen)

/-- The operators after a parameter's name in braces, longer ones first. -/
def parameterOperators : List Text :=
  [":-", ":=", ":+", ":?", "##", "%%", "-", "=", "+", "?", "#", "%"].map String.toList

inductive Ending where
  | delimiter
  | doubleQuote
  | brace
  deriving DecidableEq

/-- Whether the text in braces asks for the length of a parameter. -/
def asksLength : Text → Bool
  | '#' :: c :: _ => isNameStart c
  | _ => false

def parameterName : Reading Text := do
  match ← peek with
  | none => fail .missingBrace
  | some c =>
    if isNameStart c then takeWhile isNameChar
    else if c.isDigit then takeWhile Char.isDigit
    else if isSpecial c then do
      skip 1
      return [c]
    else fail .badSubstitution

mutual

def dollar : (limit : Nat) → (quoted : Bool) → Reading Piece
  | 0, quoted => return .literal ['$'] quoted
  | limit + 1, quoted => do
    -- Two parentheses are arithmetic and never a subshell in an expansion.
    if ← startsWith ['(', '('] then
      skip 2
      return .arithmetic (← untilArithmeticEnd (limit + 1) 0 []) quoted
    else if ← startsWith ['('] then
      skip 1
      return .output (← untilParen (limit + 1) 0 []) quoted
    else if ← startsWith ['\x7b'] then
      skip 1
      braced limit quoted
    else
      match ← peek with
      | none => return .literal ['$'] quoted
      | some c =>
        if isNameStart c then return .parameter (← takeWhile isNameChar) [] [] quoted
        else if isSpecial c || c.isDigit then do
          skip 1
          return .parameter [c] [] [] quoted
        else return .literal ['$'] quoted

def braced : (limit : Nat) → (quoted : Bool) → Reading Piece
  | 0, _ => fail .missingBrace
  | limit + 1, quoted => do
    let sized := asksLength (← get).rest
    if sized then skip 1
    let name ← parameterName
    let rest := (← get).rest
    if rest.head? = some '\x7d' then do
      skip 1
      return .parameter name (if sized then "length".toList else []) [] quoted
    else
      match parameterOperators.find? (·.isPrefixOf rest) with
      | none => if rest = [] then fail .missingBrace else fail .badSubstitution
      | some operator => do
        skip operator.length
        return .parameter name operator (← pieces limit .brace quoted) quoted

/-- The pieces of a word up to its end; a closing quote or brace is taken. -/
def pieces : (limit : Nat) → Ending → (quoted : Bool) → Reading Word
  | 0, _, _ => return []
  | limit + 1, ending, quoted => do
    match ← peek with
    | none =>
      match ending with
      | .delimiter => return []
      | .doubleQuote => fail .unterminatedQuote
      | .brace => fail .missingBrace
    | some c =>
      if ending = .delimiter && endsWord c then return []
      else if ending = .doubleQuote && c = '"' then do
        skip 1
        return []
      else if ending = .brace && c = '\x7d' then do
        skip 1
        return []
      else if c = '\'' && ending ≠ .doubleQuote && !quoted then do
        skip 1
        let inner ← takeWhile (· ≠ '\'')
        if (← next).isNone then fail .unterminatedQuote
        return .literal inner true :: (← pieces limit ending quoted)
      else if c = '"' then do
        skip 1
        let inner ← pieces limit .doubleQuote true
        -- Empty quotes are a field with nothing in it.
        let inner := if inner.isEmpty then [.literal [] true] else inner
        return inner ++ (← pieces limit ending quoted)
      else if c = '\\' then do
        skip 1
        match ← next with
        | none => return [.literal ['\\'] quoted]
        -- A line that goes on behind its end leaves no trace.
        | some '\n' => pieces limit ending quoted
        | some d =>
          let special := ending ≠ .doubleQuote && !quoted ||
            d ∈ ['$', '\x60', '"', '\\'] || (ending = .brace && d = '\x7d')
          let text := if special then [d] else ['\\', d]
          return .literal text true :: (← pieces limit ending quoted)
      else if c = '$' then do
        skip 1
        let p ← dollar limit quoted
        return p :: (← pieces limit ending quoted)
      else if c = '\x60' then do
        skip 1
        let script ← untilBackquote limit []
        return .output script quoted :: (← pieces limit ending quoted)
      else do
        let _ ← next
        let rest ← pieces limit ending quoted
        match rest with
        | .literal t q :: more =>
          if q = quoted then return .literal (c :: t) q :: more
          else return .literal [c] quoted :: rest
        | _ => return .literal [c] quoted :: rest

end

inductive Token where
  | eof
  | newline
  /-- One of the operators of lists, pipelines and groups. -/
  | operator (text : String)
  | redirect (descriptor : Option Nat) (operator : String)
  | word (w : Word)
  deriving Repr

def Token.describe : Token → String
  | eof => "end of file"
  | newline => "newline"
  | operator text => s!"\"{text}\""
  | redirect .. => "redirection"
  | word _ => "word"

def operators : List String := ["&&", "||", ";;", ";", "&", "|", "(", ")"]

def redirectOperators : List String := ["<<-", "<<", "<&", "<>", "<", ">>", ">&", ">|", ">"]

/-- The next token, which is taken together with the blanks and comments before it. -/
def token : (limit : Nat) → Reading Token
  | 0 => return .eof
  | limit + 1 => do
    let _ ← takeWhile fun c => c = ' ' || c = '\t'
    let rest := (← get).rest
    match rest with
    | [] => return .eof
    | '#' :: _ => do
      let _ ← takeWhile (· ≠ '\n')
      token limit
    | '\\' :: '\n' :: _ => do
      skip 2
      token limit
    | '\n' :: _ => do
      skip 1
      return .newline
    | _ =>
      -- Digits belong to a redirection only where one follows them directly.
      let digits := rest.takeWhile Char.isDigit
      let after := rest.drop digits.length
      match redirectOperators.find? fun o => o.toList.isPrefixOf after with
      | some o => do
        skip (digits.length + o.length)
        let descriptor := if digits = [] then none
          else some (digits.foldl (fun n c => n * 10 + (c.toNat - '0'.toNat)) 0)
        return .redirect descriptor o
      | none =>
        match operators.find? fun o => o.toList.isPrefixOf rest with
        | some o => do
          skip o.length
          return .operator o
        | none => return .word (← pieces (rest.length + 1) .delimiter false)

end Inlay.Shell
