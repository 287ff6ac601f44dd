import Userscript.Command.Arguments

/-! The files that a command looks at. -/

namespace Userscript

namespace HeaderRequest

def inputPaths (request : HeaderRequest) (environment : Option String) : List String :=
  [request.recordPath, (request.configPath <|> environment).getD defaultConfigPath]

/-- The files that are hashed. They follow from the record and the
configuration alone, since no digest changes what is hashed next. -/
def hashedPaths (request : HeaderRequest) (environment : Option String) (t : FileTree) :
    List String :=
  match loadRecord t request.recordPath,
      Config.loadOptional t request.configPath environment with
  | .ok record, .ok config =>
    let collaborators := { t.collaborators with digestFile := fun _ _ => .ok "" }
    let (_, draft) := draftHeader config.options collaborators record
    draft.calls.toList.filterMap fun
      | .hash path _ => some path
      | _ => none
  | _, _ => []

end HeaderRequest

namespace Command

def request : Command → HeaderRequest
  | generate request _ => request
  | check request _ => request

/-- The files that a command reads or replaces besides those it hashes. -/
def paths (command : Command) (environment : Option String) : List String :=
  command.request.inputPaths environment ++
    match command with
    | generate _ out => out.toList
    | check _ script => [script]

end Command

end Userscript
