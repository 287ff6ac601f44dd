import Userscript.Decimal.Shortest

/-! The text of a decimal. Where the leading digit stands decides between
positional digits and an exponent. -/

namespace Userscript

/-- Exponents of the leading digit from `plainFrom` up to, but not including,
`plainBelow` are written positionally; `plus` marks a positive exponent. -/
structure NumberLayout where
  plainFrom : Int
  plainBelow : Int
  plus : Bool
  deriving DecidableEq, Repr

/-- The digits of a number without the zeros at the end of it. -/
def significantDigits (n : Nat) : List Char :=
  let digits := (Nat.toDigits 10 n).reverse.dropWhile (· = '0')
  if digits.isEmpty then ['0'] else digits.reverse

namespace NumberLayout

def exponentText (layout : NumberLayout) (e : Int) : List Char :=
  if e < 0 then '-' :: Nat.toDigits 10 e.natAbs
  else if layout.plus then '+' :: Nat.toDigits 10 e.natAbs
  else Nat.toDigits 10 e.natAbs

/-- Lays out `digits`, of which the first has the place `10 ^ e`. A positional
number has at least one digit after its point. -/
def layOut (layout : NumberLayout) (digits : List Char) (e : Int) : List Char :=
  if layout.plainFrom ≤ e ∧ e < layout.plainBelow then
    if e < 0 then '0' :: '.' :: (List.replicate (e.natAbs - 1) '0' ++ digits)
    else
      let whole := digits.take (e.toNat + 1)
      let fraction := digits.drop (e.toNat + 1)
      whole ++ List.replicate (e.toNat + 1 - whole.length) '0' ++
        '.' :: (if fraction.isEmpty then ['0'] else fraction)
  else
    match digits with
    | [] => []
    | [d] => d :: 'e' :: layout.exponentText e
    | d :: ds => d :: '.' :: (ds ++ 'e' :: layout.exponentText e)

def text (layout : NumberLayout) (x : Float) : List Char :=
  let magnitude := Binary.ofBits x.toBits
  let sign := if x.toBits >>> 63 = 1 then ['-'] else []
  if magnitude.significand = 0 then sign ++ ['0', '.', '0']
  else
    let d := magnitude.shortest
    let places : Int := (Nat.toDigits 10 d.digits).length
    sign ++ layout.layOut (significantDigits d.digits) (d.scale + places - 1)

end NumberLayout

end Userscript
