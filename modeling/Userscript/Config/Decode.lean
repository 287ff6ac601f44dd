import Userscript.Config.Basic
import Userscript.Toml.Reader

/-! Decoding a configuration from TOML. A section is a table, or an array that
gives its settings in order. Keys that nobody knows are refused. -/

namespace Userscript

namespace Toml

def string? : Toml → Option String
  | string s => some s
  | _ => none

def boolean? : Toml → Option Bool
  | boolean b => some b
  | _ => none

/-- The label of a style, or a table whose only key is the label and whose
value is empty. -/
def style? : Toml → Option CommentStyle
  | string s => CommentStyle.ofLabel? s
  | table _ [(key, table _ [])] => CommentStyle.ofLabel? key
  | table _ [(key, array [])] => CommentStyle.ofLabel? key
  | _ => none

/-- The settings of a section that may be absent. Of an array, items beyond the
last setting do not count. -/
def settings? (names : List String) : Option Toml → Option Entries
  | none => some []
  | some (table _ entries) => if entries.all fun e => e.1 ∈ names then some entries else none
  | some (array items) => some (names.zip items)
  | some _ => none

def setting? {α : Type} (item : Toml → Option α) (name : String) (settings : Entries) :
    Option (Option α) :=
  match settings.lookup name with
  | none => some none
  | some v => (item v).map some

end Toml

namespace Config

def ofEntries? (root : Toml.Entries) : Option Config := do
  let sections ← Toml.settings? ["output", "resources"] (some (.table .header root))
  let output ← Toml.settings? ["include_block", "comment_style"] (sections.lookup "output")
  let resources ← Toml.settings? ["src_template", "url_template"] (sections.lookup "resources")
  let includeBlock ← Toml.setting? Toml.boolean? "include_block" output
  let style ← Toml.setting? Toml.style? "comment_style" output
  let sourceTemplate ← Toml.setting? Toml.string? "src_template" resources
  let urlTemplate ← Toml.setting? Toml.string? "url_template" resources
  return ⟨includeBlock.getD true, style.getD .block, sourceTemplate, urlTemplate⟩

def ofText (text : String) : Except ConfigError Config :=
  match (Toml.read text).bind ofEntries? with
  | none => .error .malformed
  | some config =>
    match config.check with
    | .ok () => .ok config
    | .error p => .error (.invalid p)

end Config

end Userscript
