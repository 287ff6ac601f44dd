import Userscript.Locale.Canonical

/-! Rules that turn the locale key of a translation into the locale that stands
in the header. A change of spelling is never silent. -/

namespace Userscript

/-- The locale for a key, and the warnings given on the way, also when there is
no such locale. -/
abbrev LocaleRule := String → Except LocaleError String × List String

def respelledWarning (key locale : String) : String :=
  "Locale \"" ++ key ++ "\" has been resolved to \"" ++ locale ++ "\"."

namespace LocaleRule

/-- Puts the canonical spelling in the place of the key. -/
def bestFit : LocaleRule := fun key =>
  match canonicalLocale key with
  | .error e => (.error e, [])
  | .ok locale =>
    if locale = key then (.ok key, []) else (.ok locale, [respelledWarning key locale])

/-- Keeps each valid key as it is written. -/
def exact : LocaleRule := fun key =>
  match canonicalLocale key with
  | .error e => (.error e, [])
  | .ok _ => (.ok key, [])

end LocaleRule

end Userscript
