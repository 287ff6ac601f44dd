import Userscript.Expansion.Tag

/-! Tags with translations: a line for the base text, then a line for each
translation under the tag with its locale. -/

namespace Userscript

open Expansion

structure LocalizedOptions where
  checkNull : Bool := true
  /-- whether an array of values is expanded value by value -/
  allowMultiple : Bool := false
  /-- applied to the base text and to every translation -/
  transform : String → String := id

def resolveLocale (locales : LocaleRule) (key : String) : Expansion String := do
  note (.locale key)
  warn (locales key).2
  match (locales key).1 with
  | .ok locale => pure locale
  | .error e => throw (.locale e)

def localeTag (tag locale : String) : String := tag ++ ":" ++ locale

/-- Expands translations in order. No two of them may be for one locale;
`included` holds the locales so far. -/
def expandTranslations (locales : LocaleRule) (tag : String) (transform : String → String)
    (included : List String) : List (String × String) → Expansion Unit
  | [] => pure ()
  | (key, text) :: rest => do
    let locale ← resolveLocale locales key
    if locale ∈ included then throw (.repeatedLocale tag locale)
    expandText (localeTag tag locale) (some (transform text))
    expandTranslations locales tag transform (included ++ [locale]) rest

/-- Expands one value; a plain text stands as it is. -/
def expandLocalizedText (locales : LocaleRule) (tag : String) (value : LocalizedText)
    (transform : String → String := id) : Expansion Unit :=
  match value with
  | .plain text => expandText tag (some text)
  | .translated t => do
    expandText tag (some (transform t.base))
    expandTranslations locales tag transform [] t.locales.entries

def expandLocalizedTexts (locales : LocaleRule) (tag : String)
    (value : Option (OneOrMany LocalizedText)) (options : LocalizedOptions := {}) :
    Expansion Unit := do
  checkTagName tag
  match value with
  | none => expandText tag none options.checkNull
  | some (.one v) => expandLocalizedText locales tag v options.transform
  | some (.many vs) =>
    if options.allowMultiple then
      vs.forM fun v => expandLocalizedText locales tag v options.transform
    else throw (.severalValues tag)

end Userscript
