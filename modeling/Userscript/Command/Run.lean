import Userscript.Command.Arguments

/-! Running a command on a tree of files. -/

namespace Userscript

namespace Command

/-- Runs a command. It gives what is printed, or an error, and the tree that it
leaves. -/
def runWith (files : TemporaryFiles) (t : FileTree) (environment : Option String) :
    Command → Except CommandError String × FileTree
  | generate request out =>
    match makeHeader t environment request, out with
    | .error e, _ => (.error e, t)
    | .ok header, none => (.ok (header ++ "\n"), t)
    | .ok header, some path =>
      match t.writeWith files path (header ++ "\n").toUTF8 with
      | (.ok (), t) => (.ok "", t)
      | (.error e, t) => (.error (.writing e), t)
  | check request script =>
    match makeHeader t environment request with
    | .error e => (.error e, t)
    | .ok header => ((verifyScript t script header).map fun () => "", t)

def run (t : FileTree) (environment : Option String) (command : Command) :
    Except CommandError String × FileTree :=
  command.runWith .numbered t environment

end Command

/-- What a caller sees of a command: the exit code and the two outputs. -/
structure Outcome where
  exit : UInt32
  output : String := ""
  errors : String := ""

/-- An error is reported on a line of its own. -/
def Outcome.ofResult : Except CommandError String → Outcome
  | .ok output => ⟨0, output, ""⟩
  | .error e => ⟨1, "", e.message ++ "\n"⟩

end Userscript
