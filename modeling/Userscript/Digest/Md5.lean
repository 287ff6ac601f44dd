import Userscript.Digest.Block
import Userscript.Digest.Word

/-! The hash MD5: four rounds of sixteen steps for each block. -/

namespace Userscript

structure Md5State where
  a : UInt32
  b : UInt32
  c : UInt32
  d : UInt32

/-- One step of a round: how it mixes three words of the state, which word of
the block it adds, with which constant, and how far it turns the sum. -/
structure Md5Step where
  mix : UInt32 → UInt32 → UInt32 → UInt32
  word : Nat
  constant : UInt32
  turn : UInt32

/-- The integer parts of the sines of 1, 2, … 64, times 2 ^ 32, without sign. -/
def md5Constants : List UInt32 := [
  0xd76aa478, 0xe8c7b756, 0x242070db, 0xc1bdceee, 0xf57c0faf, 0x4787c62a,
  0xa8304613, 0xfd469501, 0x698098d8, 0x8b44f7af, 0xffff5bb1, 0x895cd7be,
  0x6b901122, 0xfd987193, 0xa679438e, 0x49b40821, 0xf61e2562, 0xc040b340,
  0x265e5a51, 0xe9b6c7aa, 0xd62f105d, 0x02441453, 0xd8a1e681, 0xe7d3fbc8,
  0x21e1cde6, 0xc33707d6, 0xf4d50d87, 0x455a14ed, 0xa9e3e905, 0xfcefa3f8,
  0x676f02d9, 0x8d2a4c8a, 0xfffa3942, 0x8771f681, 0x6d9d6122, 0xfde5380c,
  0xa4beea44, 0x4bdecfa9, 0xf6bb4b60, 0xbebfbc70, 0x289b7ec6, 0xeaa127fa,
  0xd4ef3085, 0x04881d05, 0xd9d4d039, 0xe6db99e5, 0x1fa27cf8, 0xc4ac5665,
  0xf4292244, 0x432aff97, 0xab9423a7, 0xfc93a039, 0x655b59c3, 0x8f0ccc92,
  0xffeff47d, 0x85845dd1, 0x6fa87e4f, 0xfe2ce6e0, 0xa3014314, 0x4e0811a1,
  0xf7537e82, 0xbd3af235, 0x2ad7d2bb, 0xeb86d391]

def md5Steps : List Md5Step :=
  let rounds : List ((UInt32 → UInt32 → UInt32 → UInt32) × (Nat → Nat) × List UInt32) := [
    (fun b c d => (b &&& c) ||| (~~~b &&& d), fun i => i, [7, 12, 17, 22]),
    (fun b c d => (d &&& b) ||| (~~~d &&& c), fun i => 5 * i + 1, [5, 9, 14, 20]),
    (fun b c d => b ^^^ c ^^^ d, fun i => 3 * i + 5, [4, 11, 16, 23]),
    (fun b c d => c ^^^ (b ||| ~~~d), fun i => 7 * i, [6, 10, 15, 21])]
  let steps := rounds.flatMap fun (mix, word, turns) =>
    (List.range 16).zipWith (fun i turn => (mix, word i % 16, turn))
      (turns ++ turns ++ turns ++ turns)
  steps.zipWith (fun (mix, word, turn) constant => ⟨mix, word, constant, turn⟩) md5Constants

def Md5State.step (words : Array UInt32) (s : Md5State) (step : Md5Step) : Md5State :=
  let sum := s.a + step.mix s.b s.c s.d + step.constant + words.getD step.word 0
  ⟨s.d, s.b + rotateLeft sum step.turn, s.b, s.c⟩

def Md5State.add (s t : Md5State) : Md5State :=
  ⟨s.a + t.a, s.b + t.b, s.c + t.c, s.d + t.d⟩

def md5Hash : BlockHash where
  State := Md5State
  initial := ⟨0x67452301, 0xefcdab89, 0x98badcfe, 0x10325476⟩
  compress := fun s block => s.add (md5Steps.foldl (Md5State.step (wordsUp block).toArray) s)
  lengthField := fun length => bytesUp (bitCount length).1 ++ bytesUp (bitCount length).2
  output := fun s => bytesUp s.a ++ bytesUp s.b ++ bytesUp s.c ++ bytesUp s.d

end Userscript
