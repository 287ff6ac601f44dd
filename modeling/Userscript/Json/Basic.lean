import Userscript.Decimal.Layout

/-! JSON values. An object keeps its members in the order of the text, and a
number is an integer of 64 bits or a binary64 number. -/

namespace Userscript

inductive JsonNumber where
  | integer (n : Int)
  | double (x : Float)

inductive Json where
  | null
  | bool (b : Bool)
  | number (n : JsonNumber)
  | string (s : String)
  | array (items : List Json)
  | object (members : List (String × Json))

/-- Magnitudes from 1e-5 up to 1e16 are written positionally, others with a
signed exponent. -/
def jsonLayout : NumberLayout := ⟨-5, 16, true⟩

def JsonNumber.chars : JsonNumber → List Char
  | integer n => (if n < 0 then ['-'] else []) ++ Nat.toDigits 10 n.natAbs
  | double x => jsonLayout.text x

def JsonNumber.text (n : JsonNumber) : String :=
  String.ofList n.chars

end Userscript
