import Userscript.Text

/-! Subtags, the parts of a locale tag between its hyphens. Each class of
subtag has a length, a set of characters and a canonical casing. -/

namespace Userscript

abbrev Subtag := List Char

namespace Subtag

/-- One to eight ASCII letters and digits. -/
def wellFormed (s : Subtag) : Bool :=
  1 ≤ s.length && s.length ≤ 8 && s.all Char.isAlphanum

def letters (s : Subtag) : Bool := s.all Char.isAlpha

def digits (s : Subtag) : Bool := s.all Char.isDigit

def isLanguage (s : Subtag) : Bool :=
  s.letters && ((2 ≤ s.length && s.length ≤ 3) || (5 ≤ s.length && s.length ≤ 8))

def isExtlang (s : Subtag) : Bool := s.length = 3 && s.letters

def isScript (s : Subtag) : Bool := s.length = 4 && s.letters

def isRegion (s : Subtag) : Bool :=
  (s.length = 2 && s.letters) || (s.length = 3 && s.digits)

/-- Five to eight characters, or four of which the first is a digit. -/
def isVariant (s : Subtag) : Bool :=
  (5 ≤ s.length && s.length ≤ 8) || (s.length = 4 && (s.head?.any Char.isDigit))

/-- Announces an extension, or private use if it is the letter x. -/
def isSingleton (s : Subtag) : Bool := s.length = 1

def lower (s : Subtag) : Subtag := s.map Char.toLower

def upper (s : Subtag) : Subtag := s.map Char.toUpper

def title : Subtag → Subtag
  | [] => []
  | c :: cs => c.toUpper :: lower cs

def isPrivate (s : Subtag) : Bool := s.lower = ['x']

/-- Whether a subtag that follows the singleton `s` belongs to it. -/
def takes (s part : Subtag) : Bool := s.isPrivate || 2 ≤ part.length

end Subtag

end Userscript
