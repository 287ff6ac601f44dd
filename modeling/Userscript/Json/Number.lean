import Userscript.Json.Basic

/-! Reading numbers. A number without fraction and exponent stays an integer
where 64 bits hold it; all others become the nearest binary64 number, and a
number beyond the largest one has no value. -/

namespace Userscript

structure Numeral where
  negative : Bool
  whole : List Char
  fraction : List Char
  /-- the exponent, with its sign; none where none is written -/
  exponent : Option (Bool × List Char)

/-- The value of decimal digits, at most `limit`. -/
def digitsValue (limit : Nat) (digits : List Char) : Nat :=
  digits.foldl (fun n c => min (10 * n + (c.toNat - 48)) limit) 0

def digitsNat (digits : List Char) : Nat :=
  digits.foldl (fun n c => 10 * n + (c.toNat - 48)) 0

/-- No midpoint between binary64 numbers has more significant digits. -/
def decisiveDigits : Nat := 800

/-- The binary64 number nearest to the digits times a power of ten; none
beyond the largest one. Digits after the decisive ones matter only by whether
one of them is not zero. -/
def nearestDouble (negative : Bool) (digits : List Char) (scale : Int) : Option Float :=
  let digits := digits.dropWhile (· = '0')
  let leading := scale + digits.length
  let signed := fun x : Float => if negative then -x else x
  if digits.isEmpty || leading < -400 then some (signed 0.0)
  else if 400 < leading then none
  else
    let kept := digits.take decisiveDigits
    let dropped := digits.drop decisiveDigits
    let kept := if dropped.all (· = '0') then kept else kept ++ ['1']
    let scale := leading - kept.length
    let x := Float.ofScientific (digitsNat kept) (scale < 0) scale.natAbs
    if x.isFinite then some (signed x) else none

/-- The written exponent; beyond a thousand million all are alike. -/
def Numeral.power (n : Numeral) : Int :=
  match n.exponent with
  | none => 0
  | some (negative, digits) =>
    let e : Int := digitsValue 1000000000 digits
    if negative then -e else e

/-- The number that is written, unless it is beyond the largest one. -/
def Numeral.value? (n : Numeral) : Option JsonNumber :=
  let double := (nearestDouble n.negative (n.whole ++ n.fraction)
    (n.power - n.fraction.length)).map JsonNumber.double
  if n.fraction.isEmpty && n.exponent.isNone && n.whole.length ≤ 20 then
    let m := digitsNat n.whole
    if n.negative then
      if 0 < m && 2 * m ≤ UInt64.size then some (.integer (-m)) else double
    else if m < UInt64.size then some (.integer m) else double
  else double

end Userscript
