/-! Hashes that work through a message in blocks of sixty-four bytes. The
message is padded to whole blocks with a mark, zeros and its length. A message
that comes in pieces has the digest that it has in one. -/

namespace Userscript

/-- What one hash differs in from another. -/
structure BlockHash where
  State : Type
  initial : State
  /-- takes in one block -/
  compress : State → List UInt8 → State
  /-- the eight bytes that state the length of a message -/
  lengthField : Nat → List UInt8
  output : State → List UInt8

namespace BlockHash

/-- Takes in whole blocks as long as there are any; less than a block is left. -/
def compressAll (h : BlockHash) (s : h.State) (bytes : List UInt8) : h.State × List UInt8 :=
  if (bytes.drop 63).isEmpty then (s, bytes)
  else h.compressAll (h.compress s (bytes.take 64)) (bytes.drop 64)
  termination_by bytes.length
  decreasing_by
    next h =>
      rw [List.isEmpty_iff, List.drop_eq_nil_iff] at h
      rw [List.length_drop]
      omega

/-- What follows a message of the given length to make its blocks whole. -/
def padding (h : BlockHash) (length : Nat) : List UInt8 :=
  0x80 :: List.replicate ((119 - length % 64) % 64) 0 ++ h.lengthField length

def digest (h : BlockHash) (message : List UInt8) : List UInt8 :=
  h.output (h.compressAll h.initial (message ++ h.padding message.length)).1

/-- A message of which some is taken in and less than a block waits. -/
structure Progress (h : BlockHash) where
  state : h.State := h.initial
  pending : List UInt8 := []
  /-- the number of bytes so far -/
  count : Nat := 0

namespace Progress

variable {h : BlockHash}

def absorb (p : Progress h) (piece : List UInt8) : Progress h :=
  let (state, pending) := h.compressAll p.state (p.pending ++ piece)
  ⟨state, pending, p.count + piece.length⟩

def finish (p : Progress h) : List UInt8 :=
  h.output (h.compressAll p.state (p.pending ++ h.padding p.count)).1

end Progress

theorem compressAll_of_lt (h : BlockHash) (s : h.State) {bytes : List UInt8}
    (hb : bytes.length < 64) : h.compressAll s bytes = (s, bytes) := by
  rw [compressAll, if_pos]
  rw [List.isEmpty_iff, List.drop_eq_nil_iff]
  omega

theorem compressAll_of_le (h : BlockHash) (s : h.State) {bytes : List UInt8}
    (hb : 64 ≤ bytes.length) :
    h.compressAll s bytes = h.compressAll (h.compress s (bytes.take 64)) (bytes.drop 64) := by
  rw [compressAll, if_neg]
  rw [List.isEmpty_iff, List.drop_eq_nil_iff]
  omega

theorem compressAll_append (h : BlockHash) (s : h.State) (bytes more : List UInt8) :
    h.compressAll s (bytes ++ more) =
      h.compressAll (h.compressAll s bytes).1 ((h.compressAll s bytes).2 ++ more) := by
  by_cases hb : bytes.length < 64
  · rw [compressAll_of_lt h s hb]
  · have hl : 64 ≤ bytes.length := by omega
    rw [compressAll_of_le h s hl, compressAll_of_le h s (by simp; omega),
      List.take_append_of_le_length hl, List.drop_append_of_le_length hl]
    exact compressAll_append h _ (bytes.drop 64) more
  termination_by bytes.length
  decreasing_by
    simp
    omega

end BlockHash

end Userscript
