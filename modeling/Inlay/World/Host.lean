import Inlay.World.Command

namespace Inlay.World

/-- How long a file operation takes, in microseconds. -/
def fileTime : Nat := 100

/-- How long it takes to start a program and to see its end, in microseconds. -/
def startTime : Nat := 2000

def defaultShell : Text := ['s', 'h']

/-- What a command that has ended answers, and what is said about it. -/
def commandReply (command : Text) (f : Finished) : Reply (Except Failure Text) :=
  let stderr := Text.decodeLossy f.err
  let delay := startTime + f.elapsed
  if f.ending = .exited 0 then
    let remark : Log.Line := ⟨.debug, "Command '".toList ++ command ++
      "' wrote to stderr: ".toList ++ stderr.trimEnd Text.isBlank⟩
    ⟨.ok (Text.decodeLossy f.out), delay, if stderr = [] then [] else [remark]⟩
  else ⟨.error (.commandFailed command f.ending.describe stderr), delay, []⟩

/-- The path under which a file is known: the real one, or the path itself if there is none. -/
def identify (w : World) (p : Path) : Path :=
  match w.tree.realPath w.cwd p with
  | .ok real => real
  | .error _ => p

def host (shell : Text) : Host World
  | .lookup name, w => (⟨w.envText? name, 0, []⟩, w)
  | .identify path, w => (⟨w.identify path, fileTime, []⟩, w)
  | .read path, w => (⟨w.readText path, fileTime, []⟩, w)
  | .readStdin, w => (⟨.ok (Text.decodeLossy w.stdin), fileTime, []⟩, { w with stdin := [] })
  | .execute command directory, w =>
    match w.runCommand shell command directory with
    | .error fault => (⟨.error (.unstartable command fault), 0, []⟩, w)
    | .ok f => (commandReply command f, { w with tree := f.tree })

/-- The files that are there before any others: devices and programs. -/
def systemTree : Tree :=
  let tree : Tree := {}
  let tree := tree.plant ["dev".toList, "null".toList] (.device .null)
  let tree := tree.plant ["dev".toList, "zero".toList] (.device .zero)
  let tree := tree.plant ["dev".toList, "full".toList] (.device .full)
  let tree := tree.plant ["bin".toList] (.link "usr/bin".toList)
  Tool.programs.foldl (fun tree p =>
    tree.plant ["usr".toList, "bin".toList, p.toList] (.program p.toList)) tree

end Inlay.World
