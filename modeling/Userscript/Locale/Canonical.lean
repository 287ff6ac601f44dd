import Userscript.Locale.Subtag

/-! The canonical casing of a locale tag. The classes of subtags follow one
another in a fixed order, and each is taken as long as it lasts. -/

namespace Userscript

inductive LocaleError where
  | empty
  | invalid (tag : String)
  deriving DecidableEq, Repr

def LocaleError.message : LocaleError → String
  | empty => "Locale tag is empty."
  | invalid tag => "Locale \"" ++ tag ++ "\" is not a valid locale."

/-- Extensions and private use: a single character and the subtags that belong
to it, of which there is at least one. Private use takes all that is left. -/
def canonicalExtensions : List Subtag → Option (List Subtag)
  | [] => some []
  | s :: rest =>
    if s.isSingleton then
      if rest.takeWhile s.takes = [] then none
      else
        (canonicalExtensions (rest.dropWhile s.takes)).map fun more =>
          s.lower :: (rest.takeWhile s.takes).map Subtag.lower ++ more
    else none
  termination_by subtags => subtags.length
  decreasing_by
    exact Nat.lt_succ_of_le (List.dropWhile_suffix s.takes).length_le

def canonicalVariants (rest : List Subtag) : Option (List Subtag) :=
  (canonicalExtensions (rest.dropWhile Subtag.isVariant)).map fun more =>
    (rest.takeWhile Subtag.isVariant).map Subtag.lower ++ more

def canonicalRegion : List Subtag → Option (List Subtag)
  | s :: rest =>
    if s.isRegion then (canonicalVariants rest).map (s.upper :: ·)
    else canonicalVariants (s :: rest)
  | [] => canonicalVariants []

def canonicalScript : List Subtag → Option (List Subtag)
  | s :: rest =>
    if s.isScript then (canonicalRegion rest).map (s.title :: ·)
    else canonicalRegion (s :: rest)
  | [] => canonicalRegion []

/-- At most `limit` extended languages come before the script. -/
def canonicalExtlangs : Nat → List Subtag → Option (List Subtag)
  | limit + 1, s :: rest =>
    if s.isExtlang then (canonicalExtlangs limit rest).map (s.lower :: ·)
    else canonicalScript (s :: rest)
  | _, rest => canonicalScript rest

/-- Only a language of two or three letters may be followed by extended
languages, of which there are at most three. -/
def canonicalSubtags : List Subtag → Option (List Subtag)
  | [] => none
  | s :: rest =>
    if s.isLanguage then
      (canonicalExtlangs (if s.length ≤ 3 then 3 else 0) rest).map (s.lower :: ·)
    else none

def canonicalLocale (tag : String) : Except LocaleError String :=
  if tag.isEmpty then .error .empty
  else
    let subtags := splitChars '-' tag.toList
    if subtags.all Subtag.wellFormed then
      match canonicalSubtags subtags with
      | some canonical => .ok (String.ofList (joinChars '-' canonical))
      | none => .error (.invalid tag)
    else .error (.invalid tag)

end Userscript
