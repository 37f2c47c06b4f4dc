import Harvest.Command.Reach
import Harvest.Command.Run

/-!
# The program

Carries out the command that its arguments give.  What the command may look at is brought in from
the disk, the command is carried out on it, and what it has changed is written back.  No address can
be reached.
-/

namespace Harvest.Program

/-- The path of a place on the disk. -/
def diskPath (place : Place) : String := "/" ++ String.intercalate "/" place

/-- Brings in what is at a place, with everything below it if asked for, and with the content of
files if asked for. -/
partial def bring (deep contents : Bool) (fs : FileSystem) (place : Place) : IO FileSystem := do
  try
    let path ← IO.FS.realPath (diskPath place)
    if ← path.isDir then
      let mut fs := fs.put place .directory
      if deep then
        for entry in ← path.readDir do
          fs ← bring deep contents fs (place ++ [entry.fileName])
      return fs
    else if contents then return fs.put place (.file (← IO.FS.readBinFile path))
    else return fs.put place (.file ByteArray.empty)
  catch _ => return fs

/-- Brings in a path, with all that leads to it. -/
def bringPath (deep contents : Bool) (fs : FileSystem) (path : String) : IO FileSystem := do
  let place := Path.resolveFrom fs.here (Path.ofString path)
  let mut fs := fs
  for n in List.range place.length do
    if (fs.at? (place.take n)).isNone then fs ← bring false false fs (place.take n)
  bring deep contents fs place

/-- Brings in what a command looks at. -/
def bringReach (fs : FileSystem) (r : Reach) : IO FileSystem := do
  let fs ← r.directories.foldlM (bringPath true false) fs
  r.files.foldlM (bringPath false true) fs

/-- Writes what is new or changed at a place. -/
def writeBack (place : Place) : Stored → IO Unit
  | .directory => IO.FS.createDirAll (diskPath place)
  | .file content => IO.FS.writeBinFile (diskPath place) content

/-- The entries of a file system that another one has not, directories first. -/
def changes (before after : FileSystem) : List (Place × Stored) :=
  let new := after.entries.filter fun e => !(before.at? e.1).any e.2.same
  new.filter (·.2.isDirectory) ++ new.filter (!·.2.isDirectory)

def systemHomes : IO Homes := do
  let own := (← IO.getEnv "HOME").getD "/"
  let accounts ← try IO.FS.readFile "/etc/passwd" catch _ => pure ""
  return Homes.ofAccounts own accounts

/-- The rest of a stream. -/
partial def readAll (stream : IO.FS.Stream) (before : ByteArray) : IO ByteArray := do
  let more ← stream.read 65536
  if more.isEmpty then return before
  readAll stream (before ++ more)

/-- What is on the standard input, for a command that reads it. -/
def readInput : Command → IO String
  | .document r => do
    if r.document == "-" then
      return Text.unifyLines (Text.readLossy (← readAll (← IO.getStdin) ByteArray.empty))
    else return ""
  | _ => return ""

/-- The word for the weight of an event. -/
def weightWord : Weight → String
  | .info => "INFO"
  | .warning => "WARNING"
  | .error => "ERROR"

/-- Carries out a command on the disk. -/
def carryOut (command : Command) : IO UInt32 := do
  let homes ← systemHomes
  let input ← readInput command
  let here := (Path.ofString (← IO.currentDir).toString).parts
  let mut fs ← bringReach (FileSystem.bare here) command.argumentReach
  for reach in command.laterReaches homes do
    fs ← bringReach fs (reach fs)
  let (r, w) := (command.run homes Batch.oneByOne input).run { files := fs }
  for (place, s) in changes fs w.files do
    writeBack place s
  for e in w.journal do
    IO.eprintln (weightWord e.weight ++ " - " ++ e.message)
  match r with
  | .ok ending =>
    IO.print ending.printed
    return ending.status.toUInt32
  | .error e =>
    IO.eprintln e.message
    return 1

end Harvest.Program

def main (args : List String) : IO UInt32 :=
  Harvest.Program.carryOut (Harvest.Command.ofArguments args)
