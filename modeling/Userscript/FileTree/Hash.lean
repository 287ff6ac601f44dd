import Userscript.Digest.Stream
import Userscript.Expansion.ResourceUrl
import Userscript.FileTree.Write

/-! Hashing the files of a tree. -/

namespace Userscript

namespace FileTree

def digestFile (t : FileTree) (path : String) (algorithm : HashAlgorithm) :
    Except HashFailure String :=
  match t.read path with
  | .error e => .error (.unreadable path e.message)
  | .ok contents =>
    match algorithm.digestReads (fileReads contents.data.toList) with
    | .error reason => .error (.unreadable path reason)
    | .ok digest => .ok digest

/-- Locales in their canonical spelling, and files from the tree. -/
def collaborators (t : FileTree) : Collaborators :=
  ⟨LocaleRule.bestFit, t.digestFile, .ok (placeText t.workingPlace)⟩

end FileTree

end Userscript
