import Userscript.Header.Field

/-! Headers: the lines of all fields, between two markers if the options say
so, as script text in a comment style. -/

namespace Userscript

open Expansion

def blockStart : String := "==UserScript=="

def blockEnd : String := "==/UserScript=="

def expandRecord (options : Options) (collaborators : Collaborators) (record : Record) :
    Expansion Unit := do
  if options.includeBlock then emit blockStart
  headerFields.forM (Field.expand options collaborators record)
  if options.includeBlock then emit blockEnd

/-- What comes of making a header, and the draft it leaves. -/
def draftHeader (options : Options) (collaborators : Collaborators) (record : Record) :
    Except HeaderError Unit × Draft :=
  (expandRecord options collaborators record).on {}

def headerText (options : Options) (collaborators : Collaborators) (record : Record) :
    Except HeaderError String :=
  match draftHeader options collaborators record with
  | (.ok (), draft) => .ok (options.style.render draft.lines.toList)
  | (.error e, _) => .error e

end Userscript
