import RouteLens.Command.Run
import Std.Time.DateTime.Timestamp

/-!
# The program

Reads the files that a command line is about, runs it, and puts its results in place.
-/

namespace RouteLens

variable {edition : Nat} [CharacterNames edition]

/-- A disk with a file or with everything below a folder. -/
partial def addEntry (d : Disk) (e : IO.FS.DirEntry) : IO Disk := do
  let path := Path.ofText e.path.toString
  if ← e.path.isDir then
    (← e.path.readDir).foldlM addEntry { d with folders := path.parts :: d.folders }
  else
    try
      return d.write path (← IO.FS.readBinFile e.path).toList
    catch _ => return d

/-- A disk with what a path leads to. -/
def addPath (d : Disk) (path : Path) : IO Disk := do
  try
    let target ← IO.FS.realPath path.toText
    if ← target.isDir then
      (← target.readDir).foldlM addEntry { d with folders := path.parts :: d.folders }
    else if ← target.pathExists then
      return d.write path (← IO.FS.readBinFile target).toList
    else return d
  catch _ => return d

/-- A disk with a path, if it leads to a folder, and with the folder above it. -/
def addFolders (d : Disk) (path : Path) : IO Disk := do
  let folders ← [path, ⟨path.anchor, path.parts.dropLast⟩].filterM fun p => do
    try
      (← IO.FS.realPath p.toText).isDir
    catch _ => return false
  return { d with folders := folders.map Path.parts ++ d.folders }

/-- What a disk needs for a command line: the project, the settings, and the folder of the
output. -/
def diskFor (directory : Path) (arguments : List String) : IO Disk := do
  let start := Disk.withFolder directory
  match Command.read arguments with
  | .error _ => return start
  | .ok i =>
    let resolved (s : Option String) : List Path :=
      s.toList.map fun s => Path.resolve directory (.ofText s)
    let d ← (resolved (i.request.map Request.root) ++ resolved i.config).foldlM addPath start
    (resolved i.output).foldlM addFolders d

/-- The setting in which a command line runs. -/
def settingFor (arguments : List String) : IO Setting := do
  let directory := Path.ofText (← IO.currentDir).toString
  let disk ← diskFor directory arguments
  let nanoseconds := (← Std.Time.Timestamp.now).toNanosecondsSinceUnixEpoch.toInt.toNat
  let time := (Timestamp.ofMicroseconds (nanoseconds / 1000)).toText
  return ⟨directory, disk, .ofRatio false (← IO.monoMsNow) 1000, time⟩

/-- Writes the files that differ between two disks. -/
def writeChanges (before after : Disk) : IO Unit :=
  for (parts, bytes) in after.files do
    if before.files.lookup parts != some bytes then
      IO.FS.writeBinFile (Path.mk "/" parts).toText ⟨bytes.toArray⟩

/-- How a fault that ends the program is reported. -/
def Fault.report (f : Fault) : String :=
  Command.program ++ ": " ++ (f.message?.getD "the request cannot be answered") ++ "\n"

end RouteLens

open RouteLens in
/-- Runs a command line. -/
def main (arguments : List String) : IO UInt32 := do
  let setting ← settingFor arguments
  match Command.run setting arguments with
  | .error f =>
    (← IO.getStderr).putStr f.report
    return 1
  | .ok o =>
    writeChanges setting.disk o.disk
    (← IO.getStderr).putStr o.stderr
    (← IO.getStdout).putStr o.stdout
    return o.exit.toUInt32
