import Userscript.Config.Load
import Userscript.FileTree.Hash
import Userscript.Header.Generate
import Userscript.Record.Decode

/-! Headers from files: a record and a configuration are read, the header is
made, and a script is checked for beginning with it. -/

namespace Userscript

inductive RecordError where
  | tooLarge
  | invalidText
  | malformed
  deriving DecidableEq, Repr

def RecordError.message : RecordError → String
  | tooLarge => "metadata file exceeds size limit"
  | invalidText => "metadata file must be utf-8"
  | malformed => "not a metadata record"

inductive CommandError where
  | reading (path : String) (e : FileError)
  | writing (e : WriteError)
  | record (e : RecordError)
  | config (e : ConfigError)
  | header (e : HeaderError)
  | drift (script : String)
  deriving DecidableEq, Repr

def CommandError.message : CommandError → String
  | reading path e => "io error: " ++ path ++ ": " ++ e.message
  | writing e => "io error: " ++ e.message
  | record e => "metadata error: " ++ e.message
  | config e => e.message
  | header e => "generation failed: " ++ e.message
  | drift script =>
    "header drift detected in " ++ script ++ ". Run userscript-meta generate."

def maxRecordSize : Nat := 1048576

def Record.ofBytes (bytes : ByteArray) : Except RecordError Record :=
  if maxRecordSize < bytes.size then .error .tooLarge
  else
    match String.fromUTF8? bytes with
    | none => .error .invalidText
    | some text =>
      match Record.ofText? text with
      | some record => .ok record
      | none => .error .malformed

def loadRecord (t : FileTree) (path : String) : Except CommandError Record :=
  match t.read path with
  | .error e => .error (.reading path e)
  | .ok bytes =>
    match Record.ofBytes bytes with
    | .ok record => .ok record
    | .error e => .error (.record e)

/-- What is asked for instead of what the configuration says. -/
structure Overrides where
  style : Option CommentStyle := none
  noBlock : Bool := false
  deriving DecidableEq, Repr

def Overrides.apply (overrides : Overrides) (options : Options) : Options :=
  { options with
    style := overrides.style.getD options.style
    includeBlock := options.includeBlock && !overrides.noBlock }

structure HeaderRequest where
  recordPath : String
  configPath : Option String := none
  overrides : Overrides := {}
  deriving DecidableEq, Repr

/-- The header for a request; `environment` is the path of the configuration
that the environment names. -/
def makeHeader (t : FileTree) (environment : Option String) (request : HeaderRequest) :
    Except CommandError String := do
  let record ← loadRecord t request.recordPath
  let config ← match Config.loadOptional t request.configPath environment with
    | .ok config => .ok config
    | .error e => .error (.config e)
  match headerText (request.overrides.apply config.options) t.collaborators record with
  | .ok header => .ok header
  | .error e => .error (.header e)

/-- Whether a script begins with a header that nothing but the end of a line or
of the script follows. -/
def beginsWithHeader (header script : List Char) : Bool :=
  header.isPrefixOf script &&
    match script.drop header.length with
    | [] => true
    | c :: _ => c = '\n' || c = '\x0d'

def verifyScript (t : FileTree) (script header : String) : Except CommandError Unit :=
  match t.readText script with
  | .error e => .error (.reading script e)
  | .ok text =>
    if beginsWithHeader header.toList text.toList then .ok () else .error (.drift script)

end Userscript
