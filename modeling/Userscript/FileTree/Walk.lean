import Userscript.FileTree.Basic
import Userscript.Path

/-! Following paths. A path is followed piece by piece, each time from a
directory, and `..` leads up. -/

namespace Userscript

inductive FileError where
  | notFound
  | busy
  | alreadyExists
  | notDirectory
  | isDirectory
  | nameTooLong
  | nulByte
  | invalidText
  deriving DecidableEq, Repr

def FileError.message : FileError → String
  | notFound => "No such file or directory (os error 2)"
  | busy => "Device or resource busy (os error 16)"
  | alreadyExists => "File exists (os error 17)"
  | notDirectory => "Not a directory (os error 20)"
  | isDirectory => "Is a directory (os error 21)"
  | nameTooLong => "File name too long (os error 36)"
  | nulByte => "file name contained an unexpected NUL byte"
  | invalidText => "stream did not contain valid UTF-8"

/-- A path is shorter than this, counted in bytes. -/
def maxPathSize : Nat := 4096

/-- A name is at most this long, counted in bytes. -/
def maxNameSize : Nat := 255

/-- What a path must meet before it is followed. -/
def checkPath (path : String) : Except FileError Unit :=
  if path.toList.contains '\x00' then .error .nulByte
  else if maxPathSize ≤ path.utf8ByteSize then .error .nameTooLong
  else if path.isEmpty then .error .notFound
  else .ok ()

namespace FileTree

def step (t : FileTree) (place : Place) (piece : String) : Except FileError Place :=
  if !t.isDirectory place then .error .notDirectory
  else if isIdlePiece piece then .ok place
  else if piece = ".." then .ok place.tail
  else if maxNameSize < piece.utf8ByteSize then .error .nameTooLong
  else if (t.entryAt (piece :: place)).isNone then .error .notFound
  else .ok (piece :: place)

def origin (t : FileTree) (path : String) : Place × List String :=
  match pathPieces path with
  | "" :: rest => ([], rest)
  | pieces => (t.workingPlace, pieces)

def find (t : FileTree) (path : String) : Except FileError Place := do
  checkPath path
  (t.origin path).2.foldlM t.step (t.origin path).1

def leadsToDirectory (t : FileTree) (path : String) : Bool :=
  match t.find path with
  | .ok place => t.isDirectory place
  | .error _ => false

def contains (t : FileTree) (path : String) : Bool :=
  (t.find path).toOption.isSome

def read (t : FileTree) (path : String) : Except FileError ByteArray := do
  match t.entryAt (← t.find path) with
  | some (.file contents) => .ok contents
  | _ => .error .isDirectory

def readText (t : FileTree) (path : String) : Except FileError String := do
  match String.fromUTF8? (← t.read path) with
  | some text => .ok text
  | none => .error .invalidText

end FileTree

end Userscript
