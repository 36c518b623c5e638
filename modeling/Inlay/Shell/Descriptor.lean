import Inlay.Shell.State

namespace Inlay.Shell

/-- A body that leaves variables, directory and descriptors as they were. -/
def inSubshell (body : Session Flow) : Session Flow := do
  let before ← get
  let flow ← body
  modify fun s => { before with
    tree := s.tree, channels := s.channels, elapsed := s.elapsed, status := s.status }
  match flow with
  | .killed n => return .killed n
  | _ => return .next

/-- What a body writes to standard output. -/
def capture (body : Session Flow) : Session (Stream × Flow) := do
  let before ← get
  set (before.connect 1 (.kept {}))
  let flow ← inSubshell body
  let s ← get
  set { s with descriptors := before.descriptors }
  match s.channels[before.channels.length]? with
  | some (.kept out) => return (out, flow)
  | _ => return ({}, flow)

def drainInput : Session Unit := modify fun s =>
  match s.channel? 0 with
  | some (i, .feed _) => s.setChannel i (.feed {})
  | _ => s

def carryOut (name : String) (r : Tool.Result) : Session Flow := do
  if r.readsInput then drainInput
  let took ← r.writes.foldlM (fun (took : Bool) (write : Tool.Channel × Stream) => do
    let ok ← emit (if write.1 = .out then 1 else 2) write.2
    return took && (ok || write.2.head = [])) true
  setStatus r.status
  modify fun s => { s with elapsed := s.elapsed + r.slept }
  if !took && r.status = 0 then complain 1 s!"{name}: {name}: I/O error"
  return .next

def context (s : State) : Tool.Context := ⟨s.tree, s.cwd, s.input 0⟩

def openingWords (missing : String) : Fault → String
  | .system .noEntry => missing
  | .system .notDirectory => missing
  | fault => Tool.describe fault

/-- Does one redirection whose target is known; an error is what to complain of. -/
def redirect (descriptor : Nat) (direction : Direction) (target : Bytes) :
    Session (Except String Unit) := do
  let s ← get
  let path := Text.decodeLossy target
  let name := String.ofList path
  let extended := s.dialect = .extended
  let write (fresh : Bool) : Session (Except String Unit) := do
    match Tree.openOutlet s.cwd path fresh s.tree with
    | (.ok outlet, tree) => do
      set ({ s with tree := tree }.connect descriptor (.file outlet 0 (!fresh)))
      return .ok ()
    | (.error fault, _) =>
      if extended then return .error s!"{name}: {Tool.describe fault}"
      else
        let words := openingWords "Directory nonexistent" fault
        return .error s!"cannot create {name}: {words}"
  match direction with
  | .input =>
    match (context s).open target with
    | .ok stream => do
      set (s.connect descriptor (.feed stream))
      return .ok ()
    | .error (.system .isDirectory) => do
      set (s.connect descriptor (.feed {}))
      return .ok ()
    | .error fault =>
      if extended then return .error s!"{name}: {Tool.describe fault}"
      else
        let words := openingWords "No such file" fault
        return .error s!"cannot open {name}: {words}"
  | .output => write true
  | .both => write false
  | .append => write false
  | .here => do
    set (s.connect descriptor (.feed ⟨target, []⟩))
    return .ok ()
  | .copy =>
    if name = "-" then do
      set (s.close descriptor)
      return .ok ()
    else match (Tool.decimal? name).bind fun n => s.descriptors.find? (·.1 = n) with
      | some (_, i) => do
        set (s.share descriptor i)
        return .ok ()
      | none => return .error s!"{name}: Bad file descriptor"

end Inlay.Shell
