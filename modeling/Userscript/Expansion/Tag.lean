import Userscript.Json.Basic
import Userscript.Text
import Userscript.Expansion.Draft

/-! Tags with a single value for each line. The name of a tag is checked before
anything else, so a bad name leaves the draft as it was. -/

namespace Userscript

open Expansion

def isTagChar (c : Char) : Bool :=
  c.isAlphanum || c = ':' || c = '-' || c = '_'

/-- Not empty, and only ASCII letters, digits, colons, hyphens and underscores. -/
def isTagName (name : String) : Bool :=
  !name.toList.isEmpty && name.toList.all isTagChar

def bareLine (tag : String) : String := "@" ++ tag

def tagLine (tag value : String) : String := "@" ++ tag ++ " " ++ value

def checkTagName (tag : String) : Expansion Unit :=
  if isTagName tag then pure () else throw (.badTagName tag)

/-- A tag for which there may be no value; without one the tag stands alone,
unless `checkNull` forbids it. -/
def expandText (tag : String) (value : Option String) (checkNull : Bool := true) :
    Expansion Unit := do
  checkTagName tag
  match value with
  | none => if checkNull then throw (.missingValue tag) else emit (bareLine tag)
  | some v => if hasLineFeed v then throw (.brokenLine tag v) else emit (tagLine tag v)

def expandFlag (tag : String) (condition : Bool) : Expansion Unit := do
  checkTagName tag
  if condition then emit (bareLine tag)

def expandTexts (tag : String) (values : OneOrMany String) : Expansion Unit := do
  checkTagName tag
  values.toList.forM fun v => expandText tag (some v)

def expandScalar (tag : String) (value : Json) : Expansion Unit := do
  checkTagName tag
  match value with
  | .null => expandText tag none
  | .bool b => expandText tag (some (if b then "true" else "false"))
  | .number n => expandText tag (some n.text)
  | .string s => expandText tag (some s)
  | .array _ => throw (.arrayValue tag)
  | .object _ => throw (.objectValue tag)

end Userscript
