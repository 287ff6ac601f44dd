/-! Words of thirty-two bits and the bytes that they are made of, in either
order. -/

namespace Userscript

def rotateLeft (w n : UInt32) : UInt32 :=
  (w <<< n) ||| (w >>> (32 - n))

def rotateRight (w n : UInt32) : UInt32 :=
  (w >>> n) ||| (w <<< (32 - n))

/-- The least significant byte first. -/
def bytesUp (w : UInt32) : List UInt8 :=
  [w.toUInt8, (w >>> 8).toUInt8, (w >>> 16).toUInt8, (w >>> 24).toUInt8]

/-- The most significant byte first. -/
def bytesDown (w : UInt32) : List UInt8 :=
  [(w >>> 24).toUInt8, (w >>> 16).toUInt8, (w >>> 8).toUInt8, w.toUInt8]

def wordsUp : List UInt8 → List UInt32
  | a :: b :: c :: d :: rest =>
    (a.toUInt32 ||| (b.toUInt32 <<< 8) ||| (c.toUInt32 <<< 16) ||| (d.toUInt32 <<< 24))
      :: wordsUp rest
  | _ => []

def wordsDown : List UInt8 → List UInt32
  | a :: b :: c :: d :: rest =>
    ((a.toUInt32 <<< 24) ||| (b.toUInt32 <<< 16) ||| (c.toUInt32 <<< 8) ||| d.toUInt32)
      :: wordsDown rest
  | _ => []

/-- The number of bits in that many bytes, as two words, the lower one first. -/
def bitCount (length : Nat) : UInt32 × UInt32 :=
  let bits := UInt64.ofNat (8 * length)
  (bits.toUInt32, (bits >>> 32).toUInt32)

end Userscript
