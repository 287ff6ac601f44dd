/-! Hexadecimal digits, read in either case and written in lower case. -/

namespace Userscript

def hexDigit? (c : Char) : Option Nat :=
  if c.isDigit then some (c.toNat - 48)
  else if 'a' ≤ c ∧ c ≤ 'f' then some (c.toNat - 87)
  else if 'A' ≤ c ∧ c ≤ 'F' then some (c.toNat - 55)
  else none

def hexDigit (n : UInt8) : Char :=
  if n < 10 then Char.ofNat (48 + n.toNat) else Char.ofNat (87 + n.toNat)

def hexChars (bytes : List UInt8) : List Char :=
  bytes.flatMap fun (b : UInt8) => [hexDigit (b >>> 4), hexDigit (b &&& 15)]

theorem hexDigit?_hexDigit (n : UInt8) (h : n < 16) : hexDigit? (hexDigit n) = some n.toNat := by
  have all : ∀ k : Fin 256, k < 16 →
      hexDigit? (hexDigit (UInt8.ofFin k)) = some (UInt8.ofFin k).toNat := by decide +kernel
  exact all n.toFin h

end Userscript
