import Userscript.Digest.Md5
import Userscript.Digest.Sha256
import Userscript.Hex
import Userscript.Record.Descriptor

/-! Digests of bytes and of readers, in hexadecimal digits. A reader hands out
its bytes read by read; a read may be interrupted, which changes nothing, and
it may fail. All reads go through one buffer. -/

namespace Userscript

inductive ReadStep where
  /-- the bytes that were read; none of them at the end -/
  | bytes (piece : List UInt8)
  | interrupted
  | failed (reason : String)

/-- As many bytes are asked for in one read. -/
def readSize : Nat := 8192

def freshBuffer : List UInt8 := List.replicate readSize 0

/-- A buffer after a read. What was read stands at its front; behind that is
still what earlier reads left there. -/
def refill (buffer piece : List UInt8) : List UInt8 :=
  piece ++ buffer.drop piece.length

/-- Takes in what a reader hands out up to its end. Of the buffer only the front
that the last read has filled counts. -/
def BlockHash.Progress.absorbReads {h : BlockHash} (p : h.Progress) (buffer : List UInt8) :
    List ReadStep → Except String h.Progress
  | [] => .ok p
  | .bytes [] :: _ => .ok p
  | .bytes piece :: reads =>
    (p.absorb ((refill buffer piece).take piece.length)).absorbReads (refill buffer piece) reads
  | .interrupted :: reads => p.absorbReads buffer reads
  | .failed reason :: _ => .error reason

namespace HashAlgorithm

def blockHash : HashAlgorithm → BlockHash
  | md5 => md5Hash
  | sha256 => sha256Hash

def digestHex (algorithm : HashAlgorithm) (bytes : List UInt8) : String :=
  String.ofList (hexChars (algorithm.blockHash.digest bytes))

/-- The digest of what a reader hands out, unless a read fails. -/
def digestReads (algorithm : HashAlgorithm) (reads : List ReadStep) : Except String String :=
  (({} : algorithm.blockHash.Progress).absorbReads freshBuffer reads).map fun p =>
    String.ofList (hexChars p.finish)

end HashAlgorithm

/-- The reads of a file, each but the last of full size. -/
def fileReads (bytes : List UInt8) : List ReadStep :=
  if (bytes.drop readSize).isEmpty then [.bytes bytes]
  else .bytes (bytes.take readSize) :: fileReads (bytes.drop readSize)
  termination_by bytes.length
  decreasing_by
    next h =>
      rw [List.isEmpty_iff, List.drop_eq_nil_iff] at h
      rw [List.length_drop]
      simp only [readSize] at *
      omega

end Userscript
