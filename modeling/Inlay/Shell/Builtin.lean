import Inlay.Shell.Descriptor
import Inlay.Shell.Parameter
import Inlay.Tool.Program

namespace Inlay.Shell

def number? (b : Bytes) : Option Nat := Tool.decimal? (Tool.string b)

def changeDirectory (args : List Bytes) : Session Flow := do
  let s ← get
  let args := args.filter fun a =>
    Tool.string a ≠ "-P" && Tool.string a ≠ "-L" && Tool.string a ≠ "--"
  let back := (args.head?.map Tool.string) = some "-"
  let target : Text := match args with
    | a :: _ => Text.decodeLossy (if back then (s.lookup "OLDPWD".toList).getD [] else a)
    | [] => Text.decodeLossy ((s.lookup "HOME".toList).getD [])
  let walked := Path.ofComponents (Path.normalize
    (if Path.isRooted target then Path.components target
      else Path.components s.pwd ++ Path.components target))
  match s.tree.find s.cwd target with
  | .ok (l, .directory) => do
    let s' := s.assign "OLDPWD".toList (Text.encode s.pwd) false
    set { s' with cwd := l, pwd := walked, status := 0 }
    if back then do
      let _ ← emit 1 (.ofText (walked ++ ['\n']))
    return .next
  | result => do
    if s.dialect = .extended then
      let words := match result with
        | .ok _ => "Not a directory"
        | .error fault => Tool.describe fault
      complain 1 s!"cd: {String.ofList target}: {words}"
    else complain 2 s!"cd: can't cd to {String.ofList target}"
    return .next

def leave (args : List Bytes) : Session Flow := do
  match args with
  | [] => return .exit
  | a :: _ => do
    match number? a with
    | some n => setStatus (n % 256)
    | none => complain 2 s!"exit: Illegal number: {Tool.string a}"
    return .exit

def exportVariables (args : List Bytes) : Session Flow := do
  for a in args do
    let t := Text.decodeLossy a
    let name := t.takeWhile (· ≠ '=')
    if name.length < t.length then
      modify fun s => s.assign name (a.drop (Text.size name + 1)) true
    else modify fun s => s.assign name ((s.lookup name).getD []) true
  setStatus 0
  return .next

def unsetVariables (args : List Bytes) : Session Flow := do
  modify fun s => { s with
    vars := s.vars.filter fun v => Text.encode v.1 ∉ args
    functions := s.functions.filter fun f => Text.encode f.1 ∉ args
    status := 0 }
  return .next

/-- Reads one line of standard input into variables, the last of which takes what is left. -/
def readLine (args : List Bytes) : Session Flow := do
  let s ← get
  let names := (args.filter fun a => !Tool.isOption a).map Text.decodeLossy
  let input := s.input 0
  let line := input.takeLines 1
  drop line.length
  let ended := line.getLast? = some 10
  let body := if ended then line.dropLast else line
  let blanks := separators s
  let isBlank (b : UInt8) : Bool := b ∈ blanks
  let trimEnd (b : Bytes) : Bytes := (b.reverse.dropWhile isBlank).reverse
  let _ ← names.foldlM (fun (state : Bytes × Nat) name => do
    let rest := state.1.dropWhile isBlank
    let word := if state.2 = 1 then trimEnd rest else rest.takeWhile fun b => !isBlank b
    modify fun s => s.assign name word false
    return (rest.drop word.length, state.2 - 1)) (body, names.length)
  setStatus (if ended then 0 else 1)
  return .next
where
  drop (n : Nat) : Session Unit := modify fun s =>
    match s.channel? 0 with
    | some (i, .feed stream) => s.setChannel i (.feed { stream with head := stream.head.drop n })
    | _ => s

def killUsage : String :=
  "kill: Usage: kill [-s sigspec | -signum | -sigspec] [pid | job]... or\nkill -l [exitstatus]"

def killProcess (args : List Bytes) : Session Flow := do
  let words := args.map Tool.string
  if words.head? = some "-l" && words.length = 2 then
    match Tool.signals.find? fun e => toString e.2 = words.getD 1 "" with
    | some (name, _) => do
      let _ ← emit 1 (.ofString (name ++ "\n"))
      setStatus 0
      return .next
    | none => pure ()
  let first := words.headD ""
  let (signal, pids) := match words with
    | "-s" :: name :: rest => (Tool.signal? name, rest)
    | "-n" :: name :: rest => (Tool.signal? name, rest)
    | "--" :: rest => (some 15, rest)
    | first :: rest =>
      match first.toList with
      | '-' :: name => (Tool.signal? (String.ofList name), rest)
      | _ => (some 15, words)
    | [] => (some 15, [])
  match signal with
  | none => do
    complain 2 s!"kill: invalid signal number or name: {first}"
    return .next
  | some n =>
    if (toString processNumber) ∈ pids then
      if n ∈ Tool.harmless then do
        setStatus 0
        return .next
      else return .killed n
    else do
      match pids, pids.find? fun p => (Tool.decimal? p).isNone with
      | [], _ => complain 2 killUsage
      | _, some p => complain 2 s!"kill: Illegal number: {p}"
      | _, none => complain 1 "kill: No such process"
      return .next

/-- The commands that the shell does by itself, however it finds others. -/
def controlNames : List String :=
  [":", ".", "cd", "exit", "export", "readonly", "unset", "read", "kill", "break", "continue",
    "return", "eval", "set", "shift", "exec", "command", "wait", "trap", "umask", "local"]

def builtinTools : List String := ["echo", "printf", "true", "false", "pwd", "test", "["]

def builtinTool (s : State) (name : String) (args : List Bytes) : Tool.Result :=
  match name with
  | "echo" => if s.dialect = .posix then Tool.echoEscaped args else Tool.echoPlain args
  | "printf" => Tool.printf s.blame args
  | "pwd" =>
    let physical := args.any fun a => Tool.string a = "-P"
    .out (.ofText ((if physical then Location.path s.cwd else s.pwd) ++ ['\n']))
  | "test" => blamed (Tool.run (context s) name args)
  | "[" =>
    if (args.getLast?.map Tool.string) = some "]" then blamed (Tool.run (context s) name args)
    else .complain 2 s!"{s.blame}[: missing ]"
  | _ => Tool.run (context s) name args
where
  blamed (r : Tool.Result) : Tool.Result :=
    { r with writes := r.writes.map fun (c, out) =>
        if c = .err then (c, (Stream.ofString s.blame).append out) else (c, out) }

def loopDepth (args : List Bytes) : Nat := ((args.head?.bind number?).getD 1) - 1

end Inlay.Shell
