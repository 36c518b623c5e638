import Inlay.Program
import Inlay.Settings.Yaml

namespace Inlay

def Location.ofPath (p : Path) : Location := (Text.cutAt '/' p).filter (· ≠ [])

/-- The variables of an environment that is given as entries with a zero byte after each. -/
def environment (bytes : Bytes) : List (Text × Bytes) :=
  (bytes.splitOn 0).filterMap fun entry =>
    match entry.dropWhile (· ≠ CommandLine.equals) with
    | [] => none
    | _ :: value => some (Text.decodeLossy (entry.takeWhile (· ≠ CommandLine.equals)), value)

/-- The home directory that a list of accounts gives to the user of a process with this status. -/
def accountHome? (accounts status : Text) : Option Path :=
  let user? := (Text.cutAt '\n' status).findSome? fun line =>
    match Text.cutAt '\t' line with
    | label :: user :: _ => if label = "Uid:".toList then some user else none
    | _ => none
  (Text.cutAt '\n' accounts).findSome? fun line =>
    match Text.cutAt ':' line with
    | _ :: _ :: user :: _ :: _ :: home :: _ => if some user = user? then some home else none
    | _ => none

/-- A tree with the files below a directory of the disk. -/
partial def World.collect (directory : String) (tree : Tree) : IO Tree := do
  let here ← IO.FS.realPath directory
  let mut tree := tree
  for entry in ← here.readDir do
    let path := entry.path.toString
    let place := Location.ofPath path.toList
    if ← entry.path.isDir then
      tree ← World.collect path (tree.plant place .directory)
    else
      let content ← IO.FS.readBinFile path
      tree := tree.plant place (.file content.data.toList)
  return tree

/-- A tree with one more file of the disk, if it is there. -/
def World.fetch (tree : Tree) (path : String) : IO Tree := do
  try
    let real ← IO.FS.realPath path
    let content ← IO.FS.readBinFile real
    return tree.plant (Location.ofPath real.toString.toList) (.file content.data.toList)
  catch _ => return tree

partial def World.drain (stream : IO.FS.Stream) (before : Bytes) : IO Bytes := do
  let chunk ← stream.read 65536
  if chunk.isEmpty then return before
  else World.drain stream (before ++ chunk.data.toList)

def World.around (words : List Bytes) : IO World := do
  let cwd := (← IO.currentDir).toString
  let entries ← try
      pure (environment (← IO.FS.readBinFile "/proc/self/environ").data.toList)
    catch _ => pure []
  let accountHome ← try
      let accounts ← IO.FS.readBinFile "/etc/passwd"
      let status ← IO.FS.readFile "/proc/self/status"
      pure (accountHome? (Text.decodeLossy accounts.data.toList) status.toList)
    catch _ => pure none
  let base : World :=
    { tree := World.systemTree.plant (Location.ofPath cwd.toList) .directory
      cwd := Location.ofPath cwd.toList
      env := entries
      accountHome := accountHome }
  let arguments := (CommandLine.Arguments.read words).toOption
  let named := arguments.elim [] fun a => a.files ++ (a.config.map Path.ofBytes).toList
  let home := ((Settings.home? base).map Settings.homePlace).toList
  let mut tree ← World.collect cwd base.tree
  for path in named ++ home do
    tree ← World.fetch tree (String.ofList path)
  let reads := arguments.any fun a => .stdin ∈ a.sources
  let stdin ← if reads then World.drain (← IO.getStdin) [] else pure []
  return { base with tree := tree, stdin := stdin }

def World.settle (before after : World) : IO Unit := do
  for (place, node) in Tree.changes [] before.tree after.tree do
    let path := String.ofList (Location.path place)
    match node with
    | .directory => IO.FS.createDirAll path
    | .file content => IO.FS.writeBinFile path ⟨content.toArray⟩
    | _ => pure ()

end Inlay

open Inlay

def main (args : List String) : IO UInt32 := do
  let words := args.map fun word => Text.encode word.toList
  let world ← World.around words
  let result := Program.run Yaml.decoder words world
  World.settle world result.world
  let stamp := s!"{← IO.monoMsNow}"
  (← IO.getStdout).write ⟨result.world.stdout.toArray⟩
  (← IO.getStderr).putStr (String.ofList (result.stderr stamp.toList))
  return result.ending.code.toUInt32
