import Inlay.Tool.Basic

namespace Inlay.Tool

def signals : List (String × Nat) :=
  [("HUP", 1), ("INT", 2), ("QUIT", 3), ("ILL", 4), ("TRAP", 5), ("ABRT", 6), ("BUS", 7),
    ("FPE", 8), ("KILL", 9), ("USR1", 10), ("SEGV", 11), ("USR2", 12), ("PIPE", 13), ("ALRM", 14),
    ("TERM", 15), ("STKFLT", 16), ("CHLD", 17), ("CONT", 18), ("STOP", 19), ("TSTP", 20),
    ("TTIN", 21), ("TTOU", 22), ("URG", 23), ("XCPU", 24), ("XFSZ", 25), ("VTALRM", 26),
    ("PROF", 27), ("WINCH", 28), ("IO", 29), ("PWR", 30), ("SYS", 31)]

def harmless : List Nat := [0, 17, 18, 23, 28]

def signal? (s : String) : Option Nat :=
  match decimal? s with
  | some n => some n
  | none =>
    let upper := (s.toList.map Char.toUpper)
    let name := match upper with
      | 'S' :: 'I' :: 'G' :: rest => rest
      | _ => upper
    (signals.find? (·.1.toList = name)).map (·.2)

/-- A time in decimals, with a unit after it, in microseconds. -/
def duration? (s : String) : Option Nat :=
  let t := s.toList
  let whole := t.takeWhile Char.isDigit
  let rest := t.drop whole.length
  let (fraction, rest) := match rest with
    | '.' :: r => (r.takeWhile Char.isDigit, r.dropWhile Char.isDigit)
    | _ => ([], rest)
  let unit := match rest with
    | [] => some 1
    | ['s'] => some 1
    | ['m'] => some 60
    | ['h'] => some 3600
    | ['d'] => some 86400
    | _ => none
  let digits := whole ++ (fraction ++ List.replicate 6 '0').take 6
  if whole = [] && fraction = [] then none
  else unit.bind fun u => (decimal? (String.ofList digits)).map (· * u)

def sleep (args : List Bytes) : Result :=
  if args = [] then .complain 1 ("sleep: missing operand" ++ tryHelp "sleep")
  else match args.find? fun a => (duration? (string a)).isNone with
    | some bad =>
      if bad.head? = some 45 then invalidOption "sleep" ((string bad).toList.getD 1 ' ')
      else .complain 1 (s!"sleep: invalid time interval '{string bad}'" ++ tryHelp "sleep")
    | none => { slept := (args.filterMap fun a => duration? (string a)).foldl (· + ·) 0 }

end Inlay.Tool
