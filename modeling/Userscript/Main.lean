import Userscript.Command.Lookup
import Userscript.Command.Run

/-! The program. It looks at the files that a command is about, runs the
command on the tree of what it saw, and stores what has changed. -/

namespace Userscript

def lookAt (place : Place) : IO (Option Entry) := do
  let path := (← IO.currentDir) / FileTree.placeText place
  if ← path.isDir then return some .directory
  try return some (.file (← IO.FS.readBinFile path))
  catch _ => return none

def learn (t : FileTree) (path : String) : IO FileTree := do
  let (start, pieces) := t.origin path
  let mut place := start
  let mut t := t
  for piece in pieces do
    if piece = ".." then place := place.tail
    else if !isIdlePiece piece then
      place := piece :: place
      match ← lookAt place with
      | some entry => t := t.put place entry
      | none => return t
  return t

/-- Writes a file that is not there yet, and says whether it could. -/
def writeNew (path : String) (contents : ByteArray) : IO Bool := do
  try
    let handle ← IO.FS.Handle.mk path .writeNew
    handle.write contents
    handle.flush
    return true
  catch _ => return false

def replaceFile (place : Place) (contents : ByteArray) : IO Unit := do
  for n in List.range 1000 do
    let temporary := FileTree.placeText (FileTree.temporaryName n :: place.tail)
    if ← writeNew temporary contents then
      try IO.FS.rename temporary (FileTree.placeText place)
      catch e =>
        IO.FS.removeFile temporary
        throw e
      return
  throw (IO.userError "no temporary file")

def store (before after : FileTree) : IO Unit := do
  for (place, entry) in after.entries.reverse do
    if before.entryAt place ≠ some entry then
      match entry with
      | .directory => IO.FS.createDirAll (FileTree.placeText place)
      | .file contents => replaceFile place contents

def usage : String :=
  "usage: userscript-meta generate --meta FILE [--out FILE]\n" ++
  "       userscript-meta check --meta FILE --script FILE\n" ++
  "both take [--config FILE] [--comment-style block|slashes|none] [--no-block]\n"

def runProgram (command : Command) : IO Outcome := do
  let environment ← IO.getEnv configVariable
  let here := (← IO.currentDir).toString
  let mut t := FileTree.ofDirectory ((pathPieces here).filter fun p => !isIdlePiece p).reverse
  for path in command.paths environment do
    t ← learn t path
  for path in command.request.hashedPaths environment t do
    t ← learn t path
  let (result, after) := command.run t environment
  try store t after
  catch e => return ⟨1, "", "io error: " ++ toString e ++ "\n"⟩
  return Outcome.ofResult result

end Userscript

open Userscript in
def main (args : List String) : IO UInt32 := do
  match Command.parse? args with
  | none =>
    IO.eprint usage
    return 2
  | some command =>
    let outcome ← runProgram command
    IO.print outcome.output
    IO.eprint outcome.errors
    return outcome.exit
