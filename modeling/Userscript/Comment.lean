import Userscript.Text

/-! Comment styles. A block comment must hold no closing mark of its own, so
each one inside a line is broken up before the lines are put together. -/

namespace Userscript

inductive CommentStyle where
  | block
  | slashes
  | plain
  deriving DecidableEq, Repr, Inhabited

namespace CommentStyle

def label : CommentStyle → String
  | block => "block"
  | slashes => "slashes"
  | plain => "none"

/-- The style of a label, or what is said of a label that names none. -/
def ofLabel : String → Except String CommentStyle
  | "block" => .ok block
  | "slashes" => .ok slashes
  | "none" => .ok plain
  | label => .error ("unknown comment style \"" ++ label ++ "\" (expected block, slashes, or none)")

def ofLabel? (label : String) : Option CommentStyle := (ofLabel label).toOption

end CommentStyle

/-- Puts a backslash between the star and the slash of each closing mark. -/
def escapeClosing (cs : List Char) : List Char :=
  cs.foldr (fun c out =>
    if c = '*' ∧ out.head? = some '/' then '*' :: '\\' :: out else c :: out) []

def blockLine (line : String) : String :=
  String.ofList (trimChars (escapeClosing line.toList))

/-- The lines between the marks of one block comment; a single line stays on
the line of the marks. -/
def blockComment : List String → String
  | [] => "/*  */"
  | [line] => "/* " ++ blockLine line ++ " */"
  | lines => "/*\n" ++ joinText '\n' (lines.map blockLine) ++ "\n*/"

def commentLine (line : String) : String :=
  "// " ++ trim line

def lineComments (lines : List String) : String :=
  joinText '\n' (lines.map commentLine)

namespace CommentStyle

def render : CommentStyle → List String → String
  | block => blockComment
  | slashes => lineComments
  | plain => joinText '\n'

end CommentStyle

end Userscript
