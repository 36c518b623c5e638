import Inlay.Tool.Condition
import Inlay.Tool.Echo
import Inlay.Tool.Filter
import Inlay.Tool.Signal

namespace Inlay.Tool

def shells : List String := ["sh", "dash", "bash"]

def programs : List String :=
  shells ++ ["echo", "printf", "cat", "pwd", "head", "tr", "wc", "yes", "sleep", "true", "false",
    "kill", "test", "["]

def run (c : Context) (program : String) (args : List Bytes) : Result :=
  match program with
  | "echo" => echoPlain args
  | "printf" => printf "" args
  | "cat" => cat c args
  | "pwd" => .out (.ofText (Location.path c.cwd ++ ['\n']))
  | "head" => head c args
  | "tr" => tr c args
  | "wc" => wc c args
  | "yes" => yes args
  | "sleep" => sleep args
  | "false" => { status := 1 }
  | "test" => judge args
  | "[" => judge args.dropLast
  | _ => {}
where
  judge (args : List Bytes) : Result :=
    match condition c (args.length + 4) args with
    | .ok b => { status := if b then 0 else 1 }
    | .error message => .complain 2 s!"{program}: {message}"

end Inlay.Tool
