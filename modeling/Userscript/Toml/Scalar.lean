/-! Numbers, dates and times as TOML writes them. -/

namespace Userscript

/-- Digits, at least one, with single underscores between them. -/
def isDigitRun (isDigit : Char → Bool) : List Char → Bool
  | [] => false
  | [c] => isDigit c
  | c :: '_' :: rest => isDigit c && isDigitRun isDigit rest
  | c :: rest => isDigit c && isDigitRun isDigit rest

def dropSign : List Char → List Char
  | '+' :: rest => rest
  | '-' :: rest => rest
  | cs => cs

/-- A whole part begins with a zero only if it is zero. -/
def isWholePart (cs : List Char) : Bool :=
  cs = ['0'] || (isDigitRun Char.isDigit cs && cs.head? ≠ some '0')

def isExponentMark (c : Char) : Bool := c = 'e' || c = 'E'

/-- Nothing, or a mark and an exponent. -/
def isExponentPart : List Char → Bool
  | [] => true
  | c :: rest => isExponentMark c && isDigitRun Char.isDigit (dropSign rest)

def isDecimal (cs : List Char) : Bool :=
  let whole := cs.takeWhile fun c => c ≠ '.' && !isExponentMark c
  isWholePart whole &&
    match cs.drop whole.length with
    | '.' :: rest =>
      isDigitRun Char.isDigit (rest.takeWhile fun c => !isExponentMark c) &&
        isExponentPart (rest.dropWhile fun c => !isExponentMark c)
    | rest => isExponentPart rest

def isHexDigit (c : Char) : Bool :=
  c.isDigit || ('a' ≤ c && c ≤ 'f') || ('A' ≤ c && c ≤ 'F')

/-- The digits of a number with a base; there may be none. -/
def isBasedPart (isDigit : Char → Bool) (cs : List Char) : Bool :=
  cs.isEmpty || isDigitRun isDigit cs

/-- Every underscore stands between two digits of some base. -/
def groupsDigits (before : Char) : List Char → Bool
  | [] => true
  | c :: rest =>
    (c ≠ '_' || (isHexDigit before && rest.head?.any isHexDigit)) && groupsDigits c rest

/-- A whole number whose leading digits an underscore ends. Values of numbers are not
wanted here, so all that counts is that its underscores are in place and nothing makes
it a fraction or a power of ten. -/
def isGroupedWhole (cs : List Char) : Bool :=
  let rest := cs.dropWhile Char.isDigit
  cs.head?.any (fun c => c.isDigit && c ≠ '0') && rest.head? = some '_' &&
    !rest.any (fun c => c = '.' || isExponentMark c) && groupsDigits '0' cs

def isTomlNumber (cs : List Char) : Bool :=
  match cs with
  | '0' :: 'x' :: rest => isBasedPart isHexDigit rest
  | '0' :: 'o' :: rest => isBasedPart (fun c => '0' ≤ c && c ≤ '7') rest
  | '0' :: 'b' :: rest => isBasedPart (fun c => c = '0' || c = '1') rest
  | cs =>
    let magnitude := dropSign cs
    magnitude = ['i', 'n', 'f'] || magnitude = ['n', 'a', 'n'] || isDecimal magnitude ||
      isGroupedWhole magnitude

def twoDigits? (a b : Char) : Option Nat :=
  if a.isDigit && b.isDigit then some ((a.toNat - 48) * 10 + (b.toNat - 48)) else none

def isBetween (low high : Nat) (n : Option Nat) : Bool :=
  n.any fun n => low ≤ n && n ≤ high

def daysOfMonth (year month : Nat) : Nat :=
  if month = 2 then
    if year % 4 = 0 && (year % 100 ≠ 0 || year % 400 = 0) then 29 else 28
  else if month = 4 || month = 6 || month = 9 || month = 11 then 30
  else 31

def afterDate? : List Char → Option (List Char)
  | a :: b :: c :: d :: '-' :: e :: f :: '-' :: g :: h :: rest => do
    let year := (← twoDigits? a b) * 100 + (← twoDigits? c d)
    let month ← twoDigits? e f
    if isBetween 1 12 (some month) && isBetween 1 (daysOfMonth year month) (twoDigits? g h) then
      some rest
    else none
  | _ => none

def afterFraction? : List Char → Option (List Char)
  | '.' :: rest =>
    if rest.head?.any Char.isDigit then some (rest.dropWhile Char.isDigit) else none
  | rest => some rest

/-- The characters after a time of the day; the seconds may be left out. -/
def afterTime? : List Char → Option (List Char)
  | a :: b :: ':' :: c :: d :: rest =>
    if isBetween 0 23 (twoDigits? a b) && isBetween 0 59 (twoDigits? c d) then
      match rest with
      | ':' :: e :: f :: rest =>
        if isBetween 0 60 (twoDigits? e f) then afterFraction? rest else none
      | rest => some rest
    else none
  | _ => none

def isOffset : List Char → Bool
  | [] => true
  | ['Z'] => true
  | ['z'] => true
  | [sign, a, b, ':', c, d] =>
    (sign = '+' || sign = '-') && isBetween 0 23 (twoDigits? a b) &&
      isBetween 0 59 (twoDigits? c d)
  | _ => false

def isMoment (cs : List Char) : Bool :=
  match afterDate? cs with
  | some [] => true
  | some (c :: rest) => (c = 'T' || c = 't' || c = ' ') && (afterTime? rest).any isOffset
  | none => afterTime? cs = some []

end Userscript
