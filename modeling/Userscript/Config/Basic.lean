import Userscript.Template
import Userscript.Expansion.ResourceUrl
import Userscript.FileTree.Walk

/-! Configurations: how headers are written, and templates for the source files
and URLs of resources that name none. -/

namespace Userscript

structure Config where
  includeBlock : Bool := true
  style : CommentStyle := .block
  sourceTemplate : Option String := none
  urlTemplate : Option String := none
  deriving DecidableEq, Repr

/-- What a configuration, or the file that holds it, must not be. -/
inductive ConfigProblem where
  | blank (field : String)
  | templateTooLong (field : String)
  | severalLines (field : String)
  | noPlaceholder (field : String)
  | pathTooLong (field : String)
  | segmentTooLong (field : String)
  | fileTooLarge
  | invalidText
  deriving DecidableEq, Repr

def ConfigProblem.message : ConfigProblem → String
  | blank field => field ++ " must be non-empty"
  | templateTooLong field => field ++ " exceeds max length"
  | severalLines field => field ++ " must be a single line"
  | noPlaceholder field => field ++ " must contain \x7bid\x7d"
  | pathTooLong field => field ++ " is longer than 4096 bytes"
  | segmentTooLong field => field ++ " has a segment longer than 255 bytes"
  | fileTooLarge => "config file exceeds size limit"
  | invalidText => "config file must be utf-8"

inductive ConfigError where
  | file (e : FileError)
  /-- the text is no TOML, or says something else than a configuration does -/
  | malformed
  | invalid (p : ConfigProblem)
  deriving DecidableEq, Repr

def ConfigError.message : ConfigError → String
  | file e => "config io error: " ++ e.message
  | malformed => "config parse error: not a configuration"
  | invalid p => "invalid config: " ++ p.message

/-- A path and each of its components must fit the limits of file systems. -/
def checkPathSize (field path : String) : Except ConfigProblem Unit :=
  if maxPathSize < path.utf8ByteSize then .error (.pathTooLong field)
  else if (pathComponents path).any fun c => maxNameSize < c.utf8ByteSize then
    .error (.segmentTooLong field)
  else .ok ()

def maxTemplateSize : Nat := 2048

/-- A template is one line, not too long, in which the placeholder occurs. -/
def checkTemplate (field template : String) : Except ConfigProblem Unit :=
  if (trim template).isEmpty then .error (.blank field)
  else if maxTemplateSize < template.utf8ByteSize then .error (.templateTooLong field)
  else if template.toList.any fun c => c = '\n' || c = '\x0d' then .error (.severalLines field)
  else if !hasPlaceholder template.toList then .error (.noPlaceholder field)
  else .ok ()

namespace Config

def checkSourceTemplate (template : String) : Except ConfigProblem Unit := do
  checkTemplate "resources.src_template" template
  checkPathSize "resources.src_template" (trim template)

def check (config : Config) : Except ConfigProblem Unit := do
  config.sourceTemplate.forM checkSourceTemplate
  config.urlTemplate.forM (checkTemplate "resources.url_template")

/-- Templates become resolvers, which expand them with the identifier. -/
def options (config : Config) : Options where
  includeBlock := config.includeBlock
  style := config.style
  sourceOf := config.sourceTemplate.map fun template r => some (fillTemplate template r.id)
  urlOf := config.urlTemplate.map fun template r => some (fillTemplate template r.id)

end Config

end Userscript
