import Mathlib.Data.String.Basic
import Userscript.Proofs.Text.Splitting
import Userscript.Proofs.Text.Trimming

/-! Runs of a text: what stands between separators, and how many bytes it takes.
The pieces of a text that is split are its runs. -/

namespace Userscript

open String (utf8Len)

/-- A stretch without `sep` that goes as far as it can to both sides. -/
structure IsRun (sep : Char) (cs run : List Char) : Prop where
  free : sep ∉ run
  maximal : ∃ front back, cs = front ++ run ++ back ∧
    (∀ c ∈ front.getLast?, c = sep) ∧ ∀ c ∈ back.head?, c = sep

variable {sep : Char} {cs run : List Char}

theorem isRun_self (h : sep ∉ cs) : IsRun sep cs cs := ⟨h, [], [], by simp, by simp, by simp⟩

theorem takeWhile_run {back : List Char} (hrun : sep ∉ run) (hback : ∀ c ∈ back.head?, c = sep) :
    (run ++ back).takeWhile (· ≠ sep) = run := by
  rw [List.takeWhile_append_of_pos (forall_ne_of_not_mem hrun)]
  cases back with
  | nil => simp
  | cons c back => simp [hback c rfl]

theorem head?_dropWhile_ne (cs : List Char) :
    ∀ c ∈ (cs.dropWhile (· ≠ sep)).head?, c = sep := by
  intro c hc
  have hnot := List.head?_dropWhile_not (· ≠ sep) cs
  rw [Option.mem_def.mp hc] at hnot
  simpa using hnot

theorem isRun_takeWhile (front rest : List Char) (hfront : ∀ c ∈ front.getLast?, c = sep) :
    IsRun sep (front ++ rest) (rest.takeWhile (· ≠ sep)) where
  free hmem := by simpa using List.mem_takeWhile_imp hmem
  maximal := ⟨front, rest.dropWhile (· ≠ sep),
    by rw [List.append_assoc, List.takeWhile_append_dropWhile], hfront, head?_dropWhile_ne rest⟩

theorem mem_splitChars_iff_isRun : run ∈ splitChars sep cs ↔ IsRun sep cs run := by
  rw [splitChars_eq_cons, List.mem_cons, mem_tail_splitChars]
  constructor
  · rintro (rfl | ⟨front, back, rfl, rfl⟩)
    · exact isRun_takeWhile [] cs (by simp)
    · have h : IsRun sep (front ++ [sep] ++ back) (back.takeWhile (· ≠ sep)) :=
        isRun_takeWhile (front ++ [sep]) back (by simp)
      rwa [List.append_assoc, List.singleton_append] at h
  · rintro ⟨hfree, front, back, rfl, hfront, hback⟩
    rw [List.append_assoc]
    rcases List.eq_nil_or_concat front with rfl | ⟨front, c, rfl⟩
    · exact .inl (takeWhile_run hfree hback).symm
    · obtain rfl : c = sep := hfront c (by simp)
      exact .inr ⟨front, run ++ back, by simp, (takeWhile_run hfree hback).symm⟩

theorem mem_splitText_iff_isRun {piece text : String} :
    piece ∈ splitText sep text ↔ IsRun sep text.toList piece.toList := by
  rw [splitText, List.mem_map, ← mem_splitChars_iff_isRun]
  constructor
  · rintro ⟨run, hrun, rfl⟩
    rwa [String.toList_ofList]
  · exact fun h => ⟨_, h, String.ofList_toList⟩

theorem IsRun.utf8Len_le (h : IsRun sep cs run) : utf8Len run ≤ utf8Len cs := by
  obtain ⟨front, back, rfl, _⟩ := h.maximal
  exact String.utf8Len_le_of_infix ⟨front, back, rfl⟩

theorem utf8ByteSize_trim_le (text : String) : (trim text).utf8ByteSize ≤ text.utf8ByteSize := by
  rw [trim, String.utf8ByteSize_ofList, ← String.utf8Len_toList text]
  exact String.utf8Len_le_of_infix (trimChars_isInfix text.toList)

theorem trimChars_eq_nil_iff : trimChars cs = [] ↔ ∀ c ∈ cs, isBlank c = true := by
  rw [trimChars, List.reverse_eq_nil_iff, List.dropWhile_eq_nil_iff]
  simp only [List.mem_reverse]
  constructor
  · intro h c hc
    rw [← List.takeWhile_append_dropWhile (p := isBlank) (l := cs), List.mem_append] at hc
    exact hc.elim List.mem_takeWhile_imp (h c)
  · exact fun h c hc => h c ((List.dropWhile_suffix isBlank).subset hc)

end Userscript
