import Userscript.Json.Basic
import Userscript.Record.Descriptor

/-! The metadata record of a userscript. -/

namespace Userscript

/-- All that a header can say. Every field may be absent. -/
structure Record where
  name : Option (OneOrMany LocalizedText) := none
  scriptNamespace : Option String := none
  version : Option String := none
  author : Option (TextOr User) := none
  contributors : Option (OneOrMany (TextOr User)) := none
  description : Option (OneOrMany LocalizedText) := none
  homepage : Option String := none
  license : Option String := none
  icon : Option (TextOr Icon) := none
  updateUrl : Option String := none
  downloadUrl : Option String := none
  supportUrl : Option String := none
  includes : Option (OneOrMany (TextOr Pattern)) := none
  matching : Option (OneOrMany String) := none
  excludes : Option (OneOrMany (TextOr Pattern)) := none
  requires : Option (OneOrMany (TextOr Resource)) := none
  resources : Option (OneOrMany (TextOr Resource)) := none
  connect : Option (OneOrMany String) := none
  runAt : Option String := none
  grants : Option (OneOrMany String) := none
  antiFeatures : Option (OneOrMany (TextOr AntiFeature)) := none
  noFrames : Option Bool := none
  noCompat : Option (OneOrMany String) := none
  injectInto : Option String := none
  customTags : Option (Dict Json) := none

def Record.ofRequired (name version author : String) : Record :=
  { name := some (.one (.plain name))
    version := some version
    author := some (.text author) }

end Userscript
