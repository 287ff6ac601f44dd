import Userscript.Digest.Stream

/-! Digests of streams. The digest of what a reader hands out is that of its bytes
in one piece: neither the cuts between reads nor interruptions show in it, nor what
earlier reads left in the buffer. -/

namespace Userscript

section Absorbing

variable {h : BlockHash}

theorem BlockHash.Progress.absorb_absorb (p : h.Progress) (a b : List UInt8) :
    (p.absorb a).absorb b = p.absorb (a ++ b) := by
  have hall := h.compressAll_append p.state (p.pending ++ a) b
  rw [List.append_assoc] at hall
  simp only [absorb, hall, List.length_append, Nat.add_assoc]

theorem BlockHash.Progress.absorb_nil_empty : ({} : h.Progress).absorb [] = {} := by
  have hall : h.compressAll h.initial [] = (h.initial, []) :=
    h.compressAll_of_lt h.initial (by simp)
  simp [absorb, hall]

theorem BlockHash.Progress.finish_absorb (message : List UInt8) :
    (({} : h.Progress).absorb message).finish = h.digest message := by
  have hall := h.compressAll_append h.initial message (h.padding message.length)
  simp only [absorb, finish, digest, List.nil_append, Nat.zero_add, hall]

theorem take_refill (buffer piece : List UInt8) :
    (refill buffer piece).take piece.length = piece :=
  List.take_left

theorem length_refill {buffer piece : List UInt8} (hfits : piece.length ≤ buffer.length) :
    (refill buffer piece).length = buffer.length := by
  rw [refill, List.length_append, List.length_drop]
  omega

/-- Reads that hand out some bytes, in pieces that fit the buffer. Interrupted reads
may come anywhere between them. -/
inductive Delivers : List ReadStep → List UInt8 → Prop where
  | nil : Delivers [] []
  | bytes {piece data : List UInt8} {reads : List ReadStep} (hne : piece ≠ [])
      (hfits : piece.length ≤ readSize) (hrest : Delivers reads data) :
      Delivers (.bytes piece :: reads) (piece ++ data)
  | interrupted {data : List UInt8} {reads : List ReadStep} (hrest : Delivers reads data) :
      Delivers (.interrupted :: reads) data

namespace BlockHash.Progress

variable (p : h.Progress) (buffer : List UInt8)

theorem absorbReads_bytes {piece : List UInt8} (hne : piece ≠ []) (reads : List ReadStep) :
    p.absorbReads buffer (.bytes piece :: reads) =
      (p.absorb piece).absorbReads (refill buffer piece) reads := by
  rw [absorbReads, take_refill]
  exact hne

/-- What has been delivered is taken in, whatever the buffer holds, and the reads
behind it go on from there. -/
theorem absorbReads_of_delivers {reads : List ReadStep} {data : List UInt8}
    (hreads : Delivers reads data) (taken : List UInt8) (rest : List ReadStep)
    (hbuffer : buffer.length = readSize) :
    ∃ buffer', buffer'.length = readSize ∧
      (p.absorb taken).absorbReads buffer (reads ++ rest) =
        (p.absorb (taken ++ data)).absorbReads buffer' rest := by
  induction hreads generalizing taken buffer with
  | nil => exact ⟨buffer, hbuffer, by rw [List.append_nil, List.nil_append]⟩
  | @bytes piece data reads hne hfits _ ih =>
    have hsize : (refill buffer piece).length = readSize :=
      (length_refill (hbuffer ▸ hfits)).trans hbuffer
    obtain ⟨buffer', hbuffer', hrest⟩ := ih (refill buffer piece) (taken ++ piece) hsize
    refine ⟨buffer', hbuffer', ?_⟩
    rw [List.cons_append, absorbReads_bytes _ _ hne, absorb_absorb, hrest, List.append_assoc]
  | interrupted _ ih => exact ih buffer taken hbuffer

end BlockHash.Progress

end Absorbing

section Hexadecimal

def hexBytes? : List Char → Option (List UInt8)
  | [] => some []
  | [_] => none
  | high :: low :: rest =>
    match hexDigit? high, hexDigit? low, hexBytes? rest with
    | some a, some b, some bytes => some (UInt8.ofNat (16 * a + b) :: bytes)
    | _, _, _ => none

def lowerHexDigits : List Char := "0123456789abcdef".toList

theorem hexDigit_mem_lowerHexDigits (n : UInt8) (hn : n < 16) : hexDigit n ∈ lowerHexDigits := by
  have all : ∀ k : Fin 256, k < 16 → hexDigit (UInt8.ofFin k) ∈ lowerHexDigits := by
    decide +kernel
  exact all n.toFin hn

theorem toNat_shiftRight_four (b : UInt8) : (b >>> 4).toNat = b.toNat / 16 := by
  rw [UInt8.toNat_shiftRight]
  exact Nat.shiftRight_eq_div_pow b.toNat 4

theorem toNat_and_fifteen (b : UInt8) : (b &&& 15).toNat = b.toNat % 16 := by
  rw [UInt8.toNat_and]
  exact Nat.and_two_pow_sub_one_eq_mod b.toNat 4

theorem shiftRight_four_lt (b : UInt8) : b >>> 4 < 16 := by
  have hb := b.toNat_lt
  rw [UInt8.lt_iff_toNat_lt, toNat_shiftRight_four]
  change b.toNat / 16 < 16
  omega

theorem and_fifteen_lt (b : UInt8) : b &&& 15 < 16 := by
  rw [UInt8.lt_iff_toNat_lt, toNat_and_fifteen]
  exact Nat.mod_lt _ (by decide)

theorem hexChars_cons (b : UInt8) (bytes : List UInt8) :
    hexChars (b :: bytes) = hexDigit (b >>> 4) :: hexDigit (b &&& 15) :: hexChars bytes := rfl

theorem length_hexChars (bytes : List UInt8) : (hexChars bytes).length = 2 * bytes.length := by
  induction bytes with
  | nil => rfl
  | cons b bytes ih =>
    simp only [hexChars_cons, List.length_cons, ih]
    omega

theorem mem_lowerHexDigits_of_mem_hexChars {c : Char} {bytes : List UInt8}
    (hc : c ∈ hexChars bytes) : c ∈ lowerHexDigits := by
  obtain ⟨b, _, hm⟩ := List.mem_flatMap.mp hc
  rcases List.mem_cons.mp hm with rfl | hm
  · exact hexDigit_mem_lowerHexDigits _ (shiftRight_four_lt b)
  · rw [List.mem_singleton.mp hm]
    exact hexDigit_mem_lowerHexDigits _ (and_fifteen_lt b)

theorem hexBytes?_hexChars (bytes : List UInt8) : hexBytes? (hexChars bytes) = some bytes := by
  induction bytes with
  | nil => rfl
  | cons b bytes ih =>
    have hb : 16 * (b.toNat / 16) + b.toNat % 16 = b.toNat := Nat.div_add_mod b.toNat 16
    simp only [hexChars_cons, hexBytes?, hexDigit?_hexDigit _ (shiftRight_four_lt b),
      hexDigit?_hexDigit _ (and_fifteen_lt b), ih, toNat_shiftRight_four, toNat_and_fifteen, hb,
      UInt8.ofNat_toNat]

end Hexadecimal

namespace HashAlgorithm

def digestSize : HashAlgorithm → Nat
  | md5 => 16
  | sha256 => 32

theorem length_digest (algorithm : HashAlgorithm) (data : List UInt8) :
    (algorithm.blockHash.digest data).length = algorithm.digestSize := by
  cases algorithm <;> rfl

variable (algorithm : HashAlgorithm)

theorem digestReads_append {reads : List ReadStep} {data : List UInt8}
    (hreads : Delivers reads data) (rest : List ReadStep) :
    ∃ buffer, algorithm.digestReads (reads ++ rest) =
      ((({} : algorithm.blockHash.Progress).absorb data).absorbReads buffer rest).map fun p =>
        String.ofList (hexChars p.finish) := by
  have hfresh : freshBuffer.length = readSize := List.length_replicate
  obtain ⟨buffer, _, hrest⟩ := BlockHash.Progress.absorbReads_of_delivers
    ({} : algorithm.blockHash.Progress) freshBuffer hreads [] rest hfresh
  rw [BlockHash.Progress.absorb_nil_empty, List.nil_append] at hrest
  exact ⟨buffer, by rw [digestReads, hrest]⟩

theorem digestReads_of_end {reads : List ReadStep} {data : List UInt8}
    (hreads : Delivers reads data) {rest : List ReadStep}
    (hrest : rest = [] ∨ ∃ after, rest = .bytes [] :: after) :
    algorithm.digestReads (reads ++ rest) = .ok (algorithm.digestHex data) := by
  obtain ⟨buffer, hread⟩ := algorithm.digestReads_append hreads rest
  have hend : (({} : algorithm.blockHash.Progress).absorb data).absorbReads buffer rest =
      .ok (({} : algorithm.blockHash.Progress).absorb data) := by
    rcases hrest with rfl | ⟨after, rfl⟩
    · rfl
    · rfl
  rw [hread, hend, digestHex, ← BlockHash.Progress.finish_absorb]
  rfl

theorem digestReads_of_failed {reads : List ReadStep} {data : List UInt8}
    (hreads : Delivers reads data) (reason : String) (after : List ReadStep) :
    algorithm.digestReads (reads ++ .failed reason :: after) = .error reason := by
  obtain ⟨buffer, hread⟩ := algorithm.digestReads_append hreads (.failed reason :: after)
  rw [hread]
  rfl

end HashAlgorithm

theorem delivers_fileReads {bytes : List UInt8} (hne : bytes ≠ []) :
    Delivers (fileReads bytes) bytes := by
  by_cases hlast : bytes.length ≤ readSize
  · rw [fileReads, if_pos (by simpa using hlast)]
    have hone : Delivers [.bytes bytes] (bytes ++ []) := .bytes hne hlast .nil
    rwa [List.append_nil] at hone
  · have hpiece : bytes.take readSize ≠ [] := by simpa [readSize] using hne
    have hmore : bytes.drop readSize ≠ [] := by simpa using hlast
    rw [fileReads, if_neg (by simpa using hlast)]
    have hall := Delivers.bytes hpiece (List.length_take_le readSize bytes)
      (delivers_fileReads hmore)
    rwa [List.take_append_drop] at hall
  termination_by bytes.length
  decreasing_by
    simp only [List.length_drop, readSize] at *
    omega

/-- A file that is read in full has the digest of its bytes. -/
theorem HashAlgorithm.digestReads_fileReads (algorithm : HashAlgorithm) (bytes : List UInt8) :
    algorithm.digestReads (fileReads bytes) = .ok (algorithm.digestHex bytes) := by
  by_cases hne : bytes = []
  · subst hne
    have hempty : fileReads [] = [] ++ [.bytes []] := by
      rw [fileReads]
      rfl
    rw [hempty]
    exact algorithm.digestReads_of_end .nil (.inr ⟨[], rfl⟩)
  · have hread := algorithm.digestReads_of_end (delivers_fileReads hne) (.inl rfl)
    rwa [List.append_nil] at hread

/-- Reads that deliver some bytes and then end have the digest of the bytes, and what
comes behind the end does not matter. If a read fails instead, its failure is all there
is. A digest consists of two lower-case hexadecimal digits for each of its bytes. -/
theorem digestReads_of_delivers (algorithm : HashAlgorithm) {reads : List ReadStep}
    {data : List UInt8} (hreads : Delivers reads data) (after : List ReadStep) :
    algorithm.digestReads (reads ++ .bytes [] :: after) = .ok (algorithm.digestHex data) ∧
      (∀ reason, algorithm.digestReads (reads ++ .failed reason :: after) = .error reason) ∧
      (algorithm.digestHex data).length = 2 * algorithm.digestSize ∧
      (∀ c ∈ (algorithm.digestHex data).toList, c ∈ lowerHexDigits) ∧
      hexBytes? (algorithm.digestHex data).toList = some (algorithm.blockHash.digest data) := by
  have htext : (algorithm.digestHex data).toList = hexChars (algorithm.blockHash.digest data) :=
    String.toList_ofList
  refine ⟨algorithm.digestReads_of_end hreads (.inr ⟨after, rfl⟩),
    fun reason => algorithm.digestReads_of_failed hreads reason after, ?_, ?_, ?_⟩
  · rw [← String.length_toList, htext, length_hexChars, HashAlgorithm.length_digest]
  · rw [htext]
    exact fun c hc => mem_lowerHexDigits_of_mem_hexChars hc
  · rw [htext, hexBytes?_hexChars]

/-- The letters a, b and c, cut in two and with interruptions. -/
def cutReads : List ReadStep :=
  [.interrupted, .bytes [97], .interrupted, .interrupted, .bytes [98, 99]]

theorem delivers_cutReads : Delivers cutReads [97, 98, 99] :=
  .interrupted (.bytes (by simp) (by decide)
    (.interrupted (.interrupted (.bytes (by simp) (by decide) .nil))))

theorem digestReads_cutReads :
    Delivers cutReads [97, 98, 99] ∧
      HashAlgorithm.md5.digestReads (cutReads ++ [.bytes [], .bytes [100], .failed "gone"]) =
        .ok "900150983cd24fb0d6963f7d28e17f72" ∧
      HashAlgorithm.md5.digestReads (cutReads ++ [.failed "gone", .bytes [], .bytes [100]]) =
        .error "gone" := by
  have hdigest : HashAlgorithm.md5.digestHex [97, 98, 99] = "900150983cd24fb0d6963f7d28e17f72" := by
    decide +kernel
  have hend := digestReads_of_delivers .md5 delivers_cutReads [.bytes [100], .failed "gone"]
  have hfail := digestReads_of_delivers .md5 delivers_cutReads [.bytes [], .bytes [100]]
  exact ⟨delivers_cutReads, hend.1.trans (congrArg _ hdigest), hfail.2.1 "gone"⟩

end Userscript
