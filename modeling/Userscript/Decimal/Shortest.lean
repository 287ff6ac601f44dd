/-! The shortest decimal of a binary64 value: of all decimals that read back
as the value, one with the fewest digits, and of those the nearest. All
comparisons are between natural numbers, so nothing is rounded on the way. -/

namespace Userscript

/-- The positive value `significand * 2 ^ scale`. The gap to the next smaller
value is half the gap to the next larger one where `narrowBelow` holds. -/
structure Binary where
  significand : Nat
  scale : Int
  narrowBelow : Bool
  deriving DecidableEq, Repr

/-- The value `digits * 10 ^ scale`. -/
structure Decimal where
  digits : Nat
  scale : Int
  deriving DecidableEq, Repr

/-- The magnitude of a finite value, read off its bits. -/
def Binary.ofBits (bits : UInt64) : Binary :=
  let exponent := ((bits >>> 52) &&& 0x7FF).toNat
  let fraction := (bits &&& 0xFFFFFFFFFFFFF).toNat
  if exponent = 0 then ⟨fraction, -1074, false⟩
  else ⟨Nat.pow 2 52 + fraction, exponent - 1075, fraction = 0 && 1 < exponent⟩

/-- A power of two; one for a negative exponent. -/
def powTwo (k : Int) : Nat := Nat.pow 2 k.toNat

/-- A power of ten; one for a negative exponent. -/
def powTen (k : Int) : Nat := Nat.pow 10 k.toNat

/-- Compares `a * 10 ^ i` with `b * 2 ^ j`. -/
def compareScaled (a : Nat) (i : Int) (b : Nat) (j : Int) : Ordering :=
  compare (a * powTen i * powTwo (-j)) (b * powTwo j * powTen (-i))

namespace Binary

/-- Whether the decimal lies between the midpoints to the neighbouring values;
the midpoints themselves belong to the value with an even significand. -/
def readsBack (x : Binary) (d : Decimal) : Bool :=
  let below := 4 * x.significand - (if x.narrowBelow then 1 else 2)
  let above := 4 * x.significand + 2
  let low := compareScaled d.digits d.scale below (x.scale - 2)
  let high := compareScaled d.digits d.scale above (x.scale - 2)
  if x.significand % 2 = 0 then low != .lt && high != .gt
  else low == .gt && high == .lt

def units (x : Binary) (k : Int) : Nat :=
  (x.significand * powTwo x.scale * powTen (-k)) / (powTwo (-x.scale) * powTen k)

def leading (x : Binary) : Int :=
  let estimate : Int := (x.significand.log2 + x.scale) * 30103 / 100000
  if x.units (estimate + 1) ≠ 0 then estimate + 1
  else if x.units estimate ≠ 0 then estimate
  else estimate - 1

/-- Of the two neighbours of the value among the multiples of `10 ^ k`, the
nearer one that reads back; of two equally near ones the even one. -/
def nearestAt (x : Binary) (k : Int) : Option Decimal :=
  let floor := x.units k
  let down : Decimal := ⟨floor, k⟩
  let up : Decimal := ⟨floor + 1, k⟩
  match x.readsBack down, x.readsBack up with
  | false, false => none
  | true, false => some down
  | false, true => some up
  | true, true =>
    match compareScaled (2 * floor + 1) k (2 * x.significand) x.scale with
    | .gt => some down
    | .lt => some up
    | .eq => some (if floor % 2 = 0 then down else up)

def exactDecimal (x : Binary) : Decimal :=
  if x.scale < 0 then ⟨x.significand * Nat.pow 5 (-x.scale).toNat, x.scale⟩
  else ⟨x.significand * powTwo x.scale, 0⟩

/-- Tries one digit, then two, and so on; seventeen are always enough. -/
def shortest (x : Binary) : Decimal :=
  ((List.range 17).findSome? fun (n : Nat) => x.nearestAt (x.leading - n)).getD x.exactDecimal

end Binary

end Userscript
