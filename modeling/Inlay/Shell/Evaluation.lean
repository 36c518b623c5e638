import Inlay.Shell.Arithmetic
import Inlay.Shell.Builtin
import Inlay.Shell.Reader
import Inlay.Shell.Search

/-!
Running scripts. Every function takes a bound on how deeply commands, expansions and loops may
nest; a script that reaches it stops.
-/
namespace Inlay.Shell

/-- Makes the state that of a shell that has just been called. -/
def prepare (program name : String) (args : List Bytes) : Session Unit := modify fun s =>
  { s with
    name := (args.head?.map Tool.string).getD name
    dialect := if program = "bash" then .extended else .posix
    vars := s.vars.filter (·.2.exported)
    functions := []
    arguments := args.drop 1
    status := 0
    line := 1
    strict := false }

/-- Whether a command fails by itself and not because a command in it has failed. -/
def failsAlone : Command → Bool
  | .simple .. => true
  | .pipeline _ => true
  | .subshell .. => true
  | _ => false

mutual

/-- The items of one piece; a whole one is not split. -/
def pieceItems : (limit : Nat) → (whole : Bool) → Piece → Session (List Item)
  | 0, _, _ => return []
  | limit + 1, whole, piece => do
    let s ← get
    match piece with
    | .literal t quoted =>
      return if quoted then quotedItems (Text.encode t)
        else (Text.encode t).map (.byte · false)
    | .arithmetic expression quoted => do
      let t ← innerText limit expression
      match Arithmetic.value? (arithmeticValue s) t with
      | some n => return valueItems s (whole || quoted) (Text.encode (toString n).toList)
      | none => do
        complain 2 s!"arithmetic expression: expecting primary: \"{String.ofList t}\""
        modify fun s => { s with broken := true }
        return []
    | .output script quoted => do
      let (out, flow) ← capture (scriptLines limit ⟨script, s.line⟩)
      if flow ≠ .next then modify fun s => { s with broken := true }
      -- Line ends at the end of the output are dropped, all of them, and so are zero octets.
      let bytes := (out.head.reverse.dropWhile (· = Stream.newline)).reverse
      return valueItems s (whole || quoted) (bytes.filter (· ≠ 0))
    | .parameter name operator word quoted => do
      let value := parameterValue s name
      let whole' := whole || quoted
      -- Only this one gives several fields where it is quoted.
      if name = ['@'] && quoted && operator = [] then return argumentItems s.arguments
      let (orEmpty, operator) := match operator with
        | ':' :: operator => (true, operator)
        | operator => (false, operator)
      let present := if orEmpty then value.any (· ≠ []) else value.isSome
      let own := valueItems s whole' (value.getD [])
      match String.ofList operator with
      | "" => return own
      | "length" => return valueItems s whole' (decimalBytes (value.getD []).length)
      | "-" =>
        if present then return own
        else return standInItems s quoted whole (← wordItems limit whole word)
      | "+" =>
        if present then return standInItems s quoted whole (← wordItems limit whole word)
        else return if quoted then [.mark] else []
      | "=" =>
        if present then return own
        else assignDefault limit name whole' word
      | "?" =>
        if present then return own
        else missingParameter limit name word
      | operator => do
        let items ← wordItems limit true word
        let p := Pattern.ofMarked (markedBytes items)
        let v := value.getD []
        return valueItems s whole' <| match operator with
          | "#" => withoutHead p false v
          | "##" => withoutHead p true v
          | "%" => withoutTail p false v
          | _ => withoutTail p true v

def assignDefault : (limit : Nat) → Text → (whole : Bool) → Word → Session (List Item)
  | 0, _, _, _ => return []
  | limit + 1, name, whole, word => do
    let value := flatBytes (← wordItems limit true word)
    modify fun s => s.assign name value false
    return valueItems (← get) whole value

def missingParameter : (limit : Nat) → Text → Word → Session (List Item)
  | 0, _, _ => return []
  | limit + 1, name, word => do
    let message := Tool.string (flatBytes (← wordItems limit true word))
    let message := if message = "" then "parameter not set" else message
    complain 2 s!"{String.ofList name}: {message}"
    modify fun s => { s with broken := true }
    return []

/-- The text of an arithmetic expression with its own expansions done. -/
def innerText : (limit : Nat) → Text → Session Text
  | 0, t => return t
  | limit + 1, t => do
    match (pieces (t.length + 2) .brace true).run ⟨t ++ ['\x7d'], 1⟩ with
    | .ok (word, _) => return Text.decodeLossy (flatBytes (← wordItems limit true word))
    | .error _ => return t

def wordItems : (limit : Nat) → (whole : Bool) → Word → Session (List Item)
  | 0, _, _ => return []
  | limit + 1, whole, word => do
    let s ← get
    pieceSequence limit whole (withHome s word)

def pieceSequence : (limit : Nat) → (whole : Bool) → Word → Session (List Item)
  | 0, _, _ => return []
  | _, _, [] => return []
  | limit + 1, whole, p :: rest => do
    let first ← pieceItems limit whole p
    return first ++ (← pieceSequence limit whole rest)

def flatWord : (limit : Nat) → Word → Session Bytes
  | 0, _ => return []
  | limit + 1, word => return flatBytes (← wordItems limit true word)

def fieldsOf : (limit : Nat) → List Word → Session (List Bytes)
  | 0, _ => return []
  | _, [] => return []
  | limit + 1, w :: rest => do
    let items ← wordItems limit false w
    let s ← get
    let fields := (Fields.ofItems items).flatMap (expandField s)
    return fields ++ (← fieldsOf limit rest)

/-- Redirections in order; an error stops them and is complained of. -/
def redirectAll : (limit : Nat) → List Redirection → Session Bool
  | 0, _ => return true
  | _, [] => return true
  | limit + 1, r :: rest => do
    let target ← flatWord limit r.target
    match ← redirect r.descriptor r.direction target with
    | .ok () => redirectAll limit rest
    | .error message => do
      complain (if (← get).dialect = .extended then 1 else 2) message
      return false

def assignAll : (limit : Nat) → (exported : Bool) → List (Text × Word) → Session Unit
  | 0, _, _ => return
  | _, _, [] => return
  | limit + 1, exported, (name, word) :: rest => do
    let value ← flatWord limit word
    modify fun s => s.assign name value exported
    assignAll limit exported rest

/-- The lines of a script, each read when the ones before it have run. -/
def scriptLines : (limit : Nat) → Cursor → Session Flow
  | 0, _ => return .exit
  | limit + 1, cursor => do
    match commandLine.run cursor with
    | .error e => do
      -- The lines before the malformed one have run.
      modify fun s => { s with line := e.line }
      complain 2 e.problem.message
      return .exit
    | .ok (none, _) => return .next
    | .ok (some c, cursor) => do
      match ← run limit c with
      | .next => scriptLines limit cursor
      | flow => return flow

def run : (limit : Nat) → Command → Session Flow
  | 0, _ => return .exit
  | limit + 1, c => do
    let flow ← perform limit c
    let s ← get
    return if s.strict && s.status ≠ 0 && flow = .next && failsAlone c then .exit else flow

/-- Runs a command whose failure does not end the script. -/
def probe : (limit : Nat) → Command → Session Flow
  | 0, _ => return .exit
  | limit + 1, c => do
    let was := (← get).strict
    modify fun s => { s with strict := false }
    let flow ← run limit c
    modify fun s => { s with strict := was }
    return flow

def perform : (limit : Nat) → Command → Session Flow
  | 0, _ => return .exit
  | limit + 1, c => do
    match c with
    | .simple line assignments words redirections => do
      modify fun s => { s with line := line }
      let fields ← fieldsOf limit words
      if (← get).broken then return .exit
      let before ← get
      match fields with
      | [] => do
        -- Without a name, assignments hold on in the shell itself and redirections are only tried.
        if assignments.isEmpty && words.isEmpty then setStatus 0
        let ok ← redirectAll limit redirections
        modify fun s => { s with descriptors := before.descriptors }
        assignAll limit false assignments
        if ok && words.isEmpty && !(assignments.any fun a => a.2.any fun
            | .output .. => true
            | _ => false) then setStatus 0
        return if (← get).broken then .exit else .next
      | name :: args => do
        let ok ← redirectAll limit redirections
        if !ok then do
          modify fun s => { s with descriptors := before.descriptors }
          return .next
        assignAll limit true assignments
        let flow ← dispatch limit (Tool.string name) args
        -- Of all that stands around a command, only the redirections of exec outlast it.
        let keeps := Tool.string name = "exec"
        modify fun s =>
          let s := if keeps then s else { s with descriptors := before.descriptors }
          assignments.foldl (fun s a =>
            match before.vars.find? (·.1 = a.1) with
            | some (_, v) => { s with vars := s.vars.filter (·.1 ≠ a.1) ++ [(a.1, v)] }
            | none => { s with vars := s.vars.filter (·.1 ≠ a.1) }) s
        return flow
    | .pipeline stages => do
      let started := (← get).elapsed
      runStages limit started started none stages
    | .negated c => do
      let flow ← probe limit c
      modify fun s => { s with status := if s.status = 0 then 1 else 0 }
      return flow
    | .sequence first second => do
      match ← run limit first with
      | .next => run limit second
      | flow => return flow
    | .both first second => do
      match ← probe limit first with
      | .next => if (← get).status = 0 then run limit second else return .next
      | flow => return flow
    | .either first second => do
      match ← probe limit first with
      | .next => if (← get).status = 0 then return .next else run limit second
      | flow => return flow
    | .group body redirections => do
      let before ← get
      if ← redirectAll limit redirections then do
        let flow ← run limit body
        modify fun s => { s with descriptors := before.descriptors }
        return flow
      else do
        modify fun s => { s with descriptors := before.descriptors }
        return .next
    | .subshell body redirections =>
      inSubshell do
        if ← redirectAll limit redirections then run limit body else return .next
    | .conditional test yes no => do
      match ← probe limit test with
      | .next =>
        if (← get).status = 0 then run limit yes
        else match no with
          | some no => run limit no
          | none => do
            setStatus 0
            return .next
      | flow => return flow
    | .loop until_ test body => runLoop limit until_ test body 0
    | .forEach name words body => do
      let fields ← fieldsOf limit words
      setStatus 0
      runEach limit name fields body
    | .case word branches => do
      let value ← flatWord limit word
      setStatus 0
      runCase limit value branches
    | .define name body => do
      modify fun s => { s with
        functions := s.functions.filter (·.1 ≠ name) ++ [(name, body)], status := 0 }
      return .next

/-- The stages of a pipeline, each fed by the one before it; they run at the same time. -/
def runStages : (limit : Nat) → (started : Nat) → (latest : Nat) → Option Stream →
    List Command → Session Flow
  | 0, _, _, _, _ => return .exit
  | _, _, latest, _, [] => do
    modify fun s => { s with elapsed := latest }
    return .next
  | limit + 1, started, latest, input, c :: rest => do
    let fed : Session Flow := do
      match input with
      | some stream => modify fun s => s.connect 0 (.feed stream)
      | none => pure ()
      run limit c
    -- A stage begins with the pipeline and not when the stage before it ends.
    modify fun s => { s with elapsed := started }
    let (out, flow) ← match rest with
      | [] => do
        let flow ← inSubshell fed
        pure ({}, flow)
      | _ => capture fed
    match flow with
    | .next => runStages limit started (max latest (← get).elapsed) (some out) rest
    | flow => return flow

def runLoop : (limit : Nat) → (until_ : Bool) → Command → Command → (last : Nat) → Session Flow
  | 0, _, _, _, _ => return .exit
  | limit + 1, until_, test, body, last => do
    match ← probe limit test with
    | .next =>
      -- The status of a loop is that of its body, and not that of the test that ends it.
      if ((← get).status = 0) = until_ then do
        setStatus last
        return .next
      else do
        match ← run limit body with
        | .next => runLoop limit until_ test body (← get).status
        | .repeatLoop 0 => runLoop limit until_ test body (← get).status
        | .leaveLoop 0 => return .next
        | .repeatLoop (n + 1) => return .repeatLoop n
        | .leaveLoop (n + 1) => return .leaveLoop n
        | flow => return flow
    | .leaveLoop 0 => return .next
    | flow => return flow

def runEach : (limit : Nat) → Text → List Bytes → Command → Session Flow
  | 0, _, _, _ => return .exit
  | _, _, [], _ => return .next
  | limit + 1, name, value :: rest, body => do
    modify fun s => s.assign name value false
    match ← run limit body with
    | .next => runEach limit name rest body
    | .repeatLoop 0 => runEach limit name rest body
    | .leaveLoop 0 => return .next
    | .repeatLoop (n + 1) => return .repeatLoop n
    | .leaveLoop (n + 1) => return .leaveLoop n
    | flow => return flow

def runCase : (limit : Nat) → Bytes → List (List Word × Option Command) → Session Flow
  | 0, _, _ => return .exit
  | _, _, [] => return .next
  | limit + 1, value, (words, body) :: rest => do
    if ← fitsAny limit value words then
      match body with
      | some c => run limit c
      | none => return .next
    else runCase limit value rest

def fitsAny : (limit : Nat) → Bytes → List Word → Session Bool
  | 0, _, _ => return false
  | _, _, [] => return false
  | limit + 1, value, w :: rest => do
    let items ← wordItems limit true w
    if (Pattern.ofMarked (markedBytes items)).fits value then return true
    else fitsAny limit value rest

/-- Runs a command by its name: the shell's own, a function, or a program. -/
def dispatch : (limit : Nat) → String → List Bytes → Session Flow
  | 0, _, _ => return .exit
  | limit + 1, name, args => do
    let s ← get
    if name ∈ controlNames then control limit name args
    else match s.functions.find? (·.1 = name.toList) with
      | some (_, body) => do
        -- A function has arguments of its own and shares everything else.
        set { s with arguments := args }
        let flow ← run limit body
        modify fun s' => { s' with arguments := s.arguments }
        return if flow = .leaveFunction then .next else flow
      | none =>
        if name ∈ builtinTools then carryOut name (builtinTool s name args)
        else program limit name args

def control : (limit : Nat) → String → List Bytes → Session Flow
  | 0, _, _ => return .exit
  | limit + 1, name, args => do
    match name with
    | "cd" => changeDirectory args
    | "exit" => leave args
    | "export" => exportVariables args
    | "readonly" => exportVariables args
    | "local" => exportVariables args
    | "unset" => unsetVariables args
    | "read" => readLine args
    | "kill" => killProcess args
    | "break" => return .leaveLoop (loopDepth args)
    | "continue" => return .repeatLoop (loopDepth args)
    | "return" => do
      match args.head?.bind number? with
      | some n => setStatus (n % 256)
      | none => pure ()
      return .leaveFunction
    | "." => do
      let file := args.headD []
      match (context (← get)).open file with
      | .ok source => do
        setStatus 0
        let line := (← get).line
        let flow ← scriptLines limit ⟨Text.decodeLossy source.head, 1⟩
        modify fun s => { s with line := line }
        return if flow = .leaveFunction then .next else flow
      | .error _ => do
        complain 2 s!".: {Tool.string file}: not found"
        return .exit
    | "eval" => do
      setStatus 0
      scriptLines limit ⟨Text.decodeLossy (Tool.spaced args), (← get).line⟩
    | "set" => do
      match args.head?.map Tool.string with
      | none => pure ()
      | some "--" => modify fun s => { s with arguments := args.drop 1 }
      | some "-e" => modify fun s => { s with strict := true }
      | some "+e" => modify fun s => { s with strict := false }
      | some word =>
        if word.toList.head? ≠ some '-' && word.toList.head? ≠ some '+' then
          modify fun s => { s with arguments := args }
      setStatus 0
      return .next
    | "shift" => do
      modify fun s => { s with
        arguments := s.arguments.drop ((args.head?.bind number?).getD 1), status := 0 }
      return .next
    | "exec" =>
      match args with
      | [] => do
        setStatus 0
        return .next
      | word :: args => do
        match ← program limit (Tool.string word) args with
        | .next => return .exit
        | flow => return flow
    | "command" =>
      match args with
      | [] => do
        setStatus 0
        return .next
      | word :: args =>
        if Tool.string word = "-v" then do
          let s ← get
          let wanted := Tool.string (args.headD [])
          let known := wanted ∈ controlNames || wanted ∈ builtinTools
          match findProgram s.tree s.cwd (searchPath s) wanted.toList with
          | .program p => do
            let line := if known then wanted else s!"/usr/bin/{p}"
            let _ ← emit 1 (.ofString (line ++ "\n"))
            setStatus 0
          | _ =>
            if known then do
              let _ ← emit 1 (.ofString (wanted ++ "\n"))
              setStatus 0
            else setStatus 127
          return .next
        else dispatch limit (Tool.string word) args
    | _ => do
      setStatus 0
      return .next

def program : (limit : Nat) → String → List Bytes → Session Flow
  | 0, _, _ => return .exit
  | limit + 1, name, args => do
    let s ← get
    match findProgram s.tree s.cwd (searchPath s) name.toList with
    | .program p =>
      if p ∈ Tool.shells then do
        let flow ← inSubshell (innerShell limit p name args)
        match flow with
        | .killed n => do
          setStatus (128 + n)
          return .next
        | flow => return flow
      else carryOut p (Tool.run (context s) p args)
    | .denied => do
      complain 126 s!"{name}: Permission denied"
      return .next
    | .missing => do
      let words := if s.dialect = .posix then "not found"
        else if '/' ∈ name.toList then "No such file or directory" else "command not found"
      complain 127 s!"{name}: {words}"
      return .next

def innerShell : (limit : Nat) → (program : String) → (name : String) → List Bytes → Session Flow
  | 0, _, _, _ => return .exit
  | limit + 1, program, name, args => do
    match args with
    | [] => do
      -- Without arguments the script is what stands on standard input.
      let source := (← get).input 0
      drainInput
      prepare program name []
      scriptLines limit ⟨Text.decodeLossy source.head, 1⟩
    | file :: rest => do
      let s ← get
      prepare program name []
      if Tool.string file ≠ "-c" then do
        match (context s).open file with
        | .ok source => do
          prepare program name (file :: rest)
          scriptLines limit ⟨Text.decodeLossy source.head, 1⟩
        | .error _ => do
          modify fun s => { s with line := 0 }
          complain 2 s!"cannot open {Tool.string file}: No such file"
          return .exit
      else match rest with
        | [] => do
          modify fun s => { s with line := 0 }
          complain 2 "-c requires an argument"
          return .exit
        | script :: rest => do
          prepare program name rest
          scriptLines limit ⟨Text.decodeLossy script, 1⟩

end

end Inlay.Shell
