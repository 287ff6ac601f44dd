import Userscript.FileTree.Walk

/-! Changing a tree: directories are made with those above them, and a file is
replaced by way of a temporary one that takes its place at the end. Which name
the temporary file has, and whether it can be made and filled, is up to the
party that makes temporary files. -/

namespace Userscript

/-- A name in a directory, and whether slashes follow it in the path. -/
structure Target where
  directory : Place
  name : String
  slashed : Bool

/-- Whether the last piece of a path names an entry of the directory before it. -/
def Target.isNamed (target : Target) : Bool :=
  !isIdlePiece target.name && target.name ≠ ".."

def Target.place (target : Target) : Place := target.name :: target.directory

namespace FileTree

/-- Where a path leads but for its last name. -/
def target (t : FileTree) (path : String) : Except FileError Target := do
  checkPath path
  let (start, pieces) := t.origin path
  match pieces.reverse.dropWhile (· = "") with
  | [] => .ok ⟨start, "", true⟩
  | name :: before =>
    let directory ← before.reverse.foldlM t.step start
    if t.isDirectory directory then .ok ⟨directory, name, pieces.getLast? = some ""⟩
    else .error .notDirectory

def makeDirectory (t : FileTree) (path : String) : Except FileError FileTree := do
  let target ← t.target path
  if !target.isNamed then .error .alreadyExists
  else if maxNameSize < target.name.utf8ByteSize then .error .nameTooLong
  else if (t.entryAt target.place).isSome then .error .alreadyExists
  else .ok (t.put target.place .directory)

/-- What the tree becomes, together with the error if there is one. -/
abbrev Change := Except FileError Unit × FileTree

/-- Makes a directory that may be there already. -/
def ensureDirectory (t : FileTree) (path : String) : Change :=
  match t.makeDirectory path with
  | .ok t => (.ok (), t)
  | .error e => (if t.leadsToDirectory path then .ok () else .error e, t)

/-- Makes the first directory; the others are those above it, which are made
where they are missing. -/
def ensureDirectories (t : FileTree) : List String → Change
  | [] => (.ok (), t)
  | path :: above =>
    match t.makeDirectory path with
    | .error .notFound =>
      match t.ensureDirectories above with
      | (.ok (), t) => t.ensureDirectory path
      | failure => failure
    | _ => t.ensureDirectory path

/-- Gives an entry a new place, which a file may have had. -/
def move (t : FileTree) (place : Place) (path : String) : Except FileError FileTree := do
  let target ← t.target path
  if !target.isNamed then .error .busy
  else if maxNameSize < target.name.utf8ByteSize then .error .nameTooLong
  else if target.slashed then .error .notDirectory
  else if t.isDirectory target.place then .error .isDirectory
  else
    match t.entryAt place with
    | some entry => .ok ((t.remove place).put target.place entry)
    | none => .error .notFound

def temporaryName (n : Nat) : String :=
  ".userscript-meta-" ++ String.ofList (Nat.toDigits 10 (1000000 + n)).tail ++ ".tmp"

def freshName? (t : FileTree) (directory : Place) : Option String :=
  ((List.range (t.entries.length + 1)).map temporaryName).find? fun name =>
    (t.entryAt (name :: directory)).isNone

def placeText (place : Place) : String := "/" ++ joinText '/' place.reverse

end FileTree

/-- The party that makes temporary files: it chooses their names, fills them, or
says why it cannot. -/
structure TemporaryFiles where
  /-- a name for a new file in a directory -/
  name : FileTree → Place → Except FileError String
  /-- what comes of storing contents in the file at a place -/
  fill : FileTree → Place → ByteArray → Except FileError Unit
  name_fresh : ∀ t directory chosen, name t directory = .ok chosen →
    t.entryAt (chosen :: directory) = none

/-- Temporary files with numbered names, which can always be filled. -/
def TemporaryFiles.numbered : TemporaryFiles where
  name t directory :=
    match t.freshName? directory with
    | none => .error .alreadyExists
    | some chosen => .ok chosen
  fill _ _ _ := .ok ()
  name_fresh t directory chosen h := by
    cases hfresh : t.freshName? directory with
    | none => simp [hfresh] at h
    | some name =>
      obtain rfl : name = chosen := by simpa [hfresh] using h
      simpa using List.find?_some hfresh

inductive WriteError where
  /-- the temporary file could not be made or filled -/
  | preparing (e : FileError)
  /-- the temporary file could not take the place of the file -/
  | replacing (path : String) (e : FileError)
  deriving DecidableEq, Repr

def WriteError.message : WriteError → String
  | preparing e => e.message
  | replacing path e => path ++ ": " ++ e.message

namespace FileTree

def makeTemporary (files : TemporaryFiles) (t : FileTree) (directory : String) :
    Except FileError (Place × FileTree) := do
  let place ← t.find directory
  let name ← files.name t place
  checkPath (pathFrom (pathFrom (placeText t.workingPlace) directory) name)
  if t.isDirectory place then .ok (name :: place, t.put (name :: place) (.file ByteArray.empty))
  else .error .notDirectory

/-- Replaces the contents of a file, or makes it. The directories that are made
on the way stay also if it fails; the temporary file does not. -/
def writeWith (files : TemporaryFiles) (t : FileTree) (path : String) (contents : ByteArray) :
    Except WriteError Unit × FileTree :=
  let above := pathsAbove path
  match t.ensureDirectories above with
  | (.error e, t) => (.error (.preparing e), t)
  | (.ok (), t) =>
    match t.makeTemporary files (above.headD ".") with
    | .error e => (.error (.preparing e), t)
    | .ok (temporary, t) =>
      match files.fill t temporary contents with
      | .error e => (.error (.preparing e), t.remove temporary)
      | .ok () =>
        match (t.put temporary (.file contents)).move temporary path with
        | .ok t => (.ok (), t)
        | .error e => (.error (.replacing path e), t.remove temporary)

def write (t : FileTree) (path : String) (contents : ByteArray) :
    Except WriteError Unit × FileTree :=
  t.writeWith .numbered path contents

end FileTree

end Userscript
