import Userscript.Hex
import Userscript.Toml.Basic
import Userscript.Toml.Scalar

/-! The tokens of a TOML text: what stands between values, strings, the parts
of keys, and values without parts. -/

namespace Userscript

/-- Tab, and all characters that are not control characters. -/
def isTomlChar (c : Char) : Bool :=
  c = '\t' || (0x20 ≤ c.toNat && c.toNat ≠ 0x7F)

def isTomlSpace (c : Char) : Bool := c = ' ' || c = '\t'

def skipTomlSpace (cs : List Char) : List Char := cs.dropWhile isTomlSpace

/-- Whether a line ends between `c` and what follows, or with `c`. -/
def endsLine (c : Char) (rest : List Char) : Bool :=
  c = '\n' || (c = '\x0d' && rest.head? = some '\n')

def afterLine? : List Char → Option (List Char)
  | [] => some []
  | '\n' :: rest => some rest
  | '\x0d' :: '\n' :: rest => some rest
  | _ => none

def skipLineEnd (cs : List Char) : Option (List Char) :=
  match skipTomlSpace cs with
  | '#' :: rest => afterLine? (rest.dropWhile isTomlChar)
  | cs => afterLine? cs

/-- Skips spaces, ends of lines and comments; none for a character that may not
stand in a comment. -/
def skipFiller (comment : Bool) : List Char → Option (List Char)
  | [] => some []
  | c :: rest =>
    if endsLine c rest then skipFiller (comment && c ≠ '\n') rest
    else if comment then if isTomlChar c then skipFiller true rest else none
    else if c = '#' then skipFiller true rest
    else if isTomlSpace c then skipFiller false rest
    else some (c :: rest)

/-- Where the next character of a string stands. -/
inductive EscapeState where
  | outside
  | started
  /-- in a character number of which some digits are still to come -/
  | digits (left : Nat) (value : Nat)
  /-- in the space between a backslash and the end of its line -/
  | lineEnd
  /-- in the space that is left out after such a line -/
  | indent

def tomlEscape? : Char → Option Char
  | 'b' => some '\x08'
  | 't' => some '\t'
  | 'n' => some '\n'
  | 'f' => some '\x0c'
  | 'r' => some '\x0d'
  | 'e' => some '\x1b'
  | '"' => some '"'
  | '\\' => some '\\'
  | _ => none

def escapeDigits? : Char → Option Nat
  | 'x' => some 2
  | 'u' => some 4
  | 'U' => some 8
  | _ => none

/-- The quotes that end a string of several lines may follow two of its own. -/
def closeLines (quote : Char) (out : List Char) (rest : List Char) : String × List Char :=
  let more := (rest.take 2).takeWhile (· = quote)
  (String.ofList (more ++ out).reverse, rest.drop more.length)

/-- The rest of a string in which backslashes have a meaning; `lines` says
whether it may hold several lines. -/
def scanBasic (lines : Bool) (state : EscapeState) (out : List Char) :
    List Char → Option (String × List Char)
  | [] => none
  | c :: rest =>
    let filler := isTomlSpace c || endsLine c rest
    let next := if c = '\n' then EscapeState.indent else .lineEnd
    match state with
    | .started =>
      match tomlEscape? c, escapeDigits? c with
      | some d, _ => scanBasic lines .outside (d :: out) rest
      | none, some left => scanBasic lines (.digits left 0) out rest
      | none, none => if lines && filler then scanBasic lines next out rest else none
    | .digits left value =>
      match hexDigit? c with
      | none => none
      | some d =>
        let value := value * 16 + d
        if 1 < left then scanBasic lines (.digits (left - 1) value) out rest
        else if value.isValidChar then scanBasic lines .outside (Char.ofNat value :: out) rest
        else none
    | .lineEnd => if filler then scanBasic lines next out rest else none
    | state =>
      if state matches .indent && filler then scanBasic lines .indent out rest
      else if c = '\\' then scanBasic lines .started out rest
      else if c = '"' then
        if !lines then some (String.ofList out.reverse, rest)
        else if rest.take 2 = ['"', '"'] then some (closeLines '"' out (rest.drop 2))
        else scanBasic lines .outside (c :: out) rest
      else if isTomlChar c || (lines && endsLine c rest) then
        scanBasic lines .outside (c :: out) rest
      else none

/-- The rest of a string in which every character stands for itself. -/
def scanLiteral (lines : Bool) (out : List Char) : List Char → Option (String × List Char)
  | [] => none
  | c :: rest =>
    if c = '\x27' then
      if !lines then some (String.ofList out.reverse, rest)
      else if rest.take 2 = ['\x27', '\x27'] then some (closeLines '\x27' out (rest.drop 2))
      else scanLiteral lines (c :: out) rest
    else if isTomlChar c || (lines && endsLine c rest) then scanLiteral lines (c :: out) rest
    else none

/-- The end of a line right after the opening quotes does not count. -/
def skipFirstLine (cs : List Char) : List Char :=
  match cs with
  | '\n' :: rest => rest
  | '\x0d' :: '\n' :: rest => rest
  | cs => cs

def isBareKeyChar (c : Char) : Bool := c.isAlphanum || c = '_' || c = '-'

def scanKeyPart (cs : List Char) : Option (String × List Char) :=
  match cs with
  | '"' :: rest => scanBasic false .outside [] rest
  | '\x27' :: rest => scanLiteral false [] rest
  | cs =>
    let bare := cs.takeWhile isBareKeyChar
    if bare.isEmpty then none else some (String.ofList bare, cs.dropWhile isBareKeyChar)

/-- Whether `c` neither stands between values nor ends one. -/
def isScalarChar (c : Char) : Bool :=
  !(isTomlSpace c || c = '\n' || c = '\x0d' || c = '#' || c = '=' || c = ',' ||
    c = '[' || c = ']' || c = '\x7b' || c = '\x7d')

/-- The characters of a word, number, date or time. A time may follow its date
after a space. -/
def scanScalarText (cs : List Char) : List Char × List Char :=
  let text := cs.takeWhile isScalarChar
  match afterDate? text, cs.dropWhile isScalarChar with
  | some [], ' ' :: c :: rest =>
    if c.isDigit then
      (text ++ ' ' :: (c :: rest).takeWhile isScalarChar, (c :: rest).dropWhile isScalarChar)
    else (text, ' ' :: c :: rest)
  | _, rest => (text, rest)

def scanTomlScalar (cs : List Char) : Option (Toml × List Char) :=
  match cs with
  | '"' :: '"' :: '"' :: rest =>
    (scanBasic true .outside [] (skipFirstLine rest)).map fun (s, rest) => (.string s, rest)
  | '\x27' :: '\x27' :: '\x27' :: rest =>
    (scanLiteral true [] (skipFirstLine rest)).map fun (s, rest) => (.string s, rest)
  | '"' :: rest => (scanBasic false .outside [] rest).map fun (s, rest) => (.string s, rest)
  | '\x27' :: rest => (scanLiteral false [] rest).map fun (s, rest) => (.string s, rest)
  | cs =>
    let (text, rest) := scanScalarText cs
    if text = ['t', 'r', 'u', 'e'] then some (.boolean true, rest)
    else if text = ['f', 'a', 'l', 's', 'e'] then some (.boolean false, rest)
    else if isTomlNumber text || isMoment text then some (.scalar (String.ofList text), rest)
    else none

end Userscript
