import Mathlib.Data.List.DropRight
import Userscript.Proofs.Text.Splitting

/-! Trimming at the end of a text, and what it does behind a separator that is
itself blank. -/

namespace Userscript

theorem trimChars_isInfix (cs : List Char) : trimChars cs <:+: cs := by
  have hend : trimChars cs <+: cs.dropWhile isBlank := by
    rw [← List.reverse_suffix, trimChars, List.reverse_reverse]
    exact List.dropWhile_suffix isBlank
  exact hend.isInfix.trans (List.dropWhile_suffix isBlank).isInfix

theorem trimChars_of_head {c : Char} (h : isBlank c = false) (cs : List Char) :
    trimChars (c :: cs) = (c :: cs).rdropWhile isBlank := by
  rw [trimChars, List.dropWhile_cons_of_neg (by simp [h])]
  rfl

theorem head?_trimChars {c : Char} (h : isBlank c = false) (cs : List Char) :
    (trimChars (c :: cs)).head? = some c := by
  have hne : (c :: cs).rdropWhile isBlank ≠ [] := fun he => by
    have hc := List.rdropWhile_eq_nil_iff.mp he c (by simp)
    rw [h] at hc
    cases hc
  rw [trimChars_of_head h]
  obtain ⟨back, hback⟩ := List.rdropWhile_prefix isBlank (c :: cs)
  obtain ⟨d, front, hfront⟩ := List.exists_cons_of_ne_nil hne
  rw [hfront, List.cons_append, List.cons.injEq] at hback
  rw [hfront, hback.1]
  rfl

theorem rdropWhile_append_of_not_all {α : Type} {p : α → Bool} {ys : List α}
    (h : ¬ ∀ y ∈ ys, p y = true) (xs : List α) :
    (xs ++ ys).rdropWhile p = xs ++ ys.rdropWhile p := by
  have hne : (ys.reverse.dropWhile p).isEmpty = false := by
    simpa using h
  rw [List.rdropWhile, List.reverse_append, List.dropWhile_append, hne]
  simp [List.rdropWhile]

theorem rdropWhile_append_of_all {α : Type} {p : α → Bool} {ys : List α}
    (h : ∀ y ∈ ys, p y = true) (xs : List α) : (xs ++ ys).rdropWhile p = xs.rdropWhile p := by
  rw [List.rdropWhile, List.reverse_append, List.dropWhile_append_of_pos (by simpa using h)]
  rfl

/-- A text that is trimmed at its end does not end in blank characters. -/
theorem not_all_blank_of_rdropWhile_eq {cs front : List Char} {c : Char} {back : List Char}
    (h : cs.rdropWhile isBlank = front ++ c :: back) :
    ¬ ∀ c' ∈ c :: back, isBlank c' = true := by
  intro hall
  have hne : cs.rdropWhile isBlank ≠ [] := by simp [h]
  have hlast := List.rdropWhile_last_not isBlank cs hne
  simp only [h] at hlast
  rw [List.getLast_append_of_ne_nil _ (List.cons_ne_nil c back)] at hlast
  exact hlast (hall _ (List.getLast_mem _))

/-- What follows a blank separator in a trimmed text begins with `start` if it
does so in the text itself, where the separator is not trimmed away. -/
theorem behindEach_rdropWhile {sep : Char} {start : List Char} (hsep : isBlank sep = true)
    (hs : ∀ c ∈ start, isBlank c = false) (cs : List Char) :
    BehindEach sep (start <+: ·) (cs.rdropWhile isBlank) ↔
      BehindEach sep (fun back => (∀ c ∈ back, isBlank c = true) ∨ start <+: back) cs := by
  constructor
  · rintro h front back rfl
    by_cases hall : ∀ c ∈ back, isBlank c = true
    · exact .inl hall
    · -- the separator stays, and with it the front of what follows it
      have hcons : ¬ ∀ c ∈ sep :: back, isBlank c = true := fun hc =>
        hall fun c hm => hc c (List.mem_cons_of_mem sep hm)
      have hback : (sep :: back).rdropWhile isBlank = sep :: back.rdropWhile isBlank :=
        rdropWhile_append_of_not_all hall [sep]
      have htrim := rdropWhile_append_of_not_all hcons front
      rw [hback] at htrim
      exact .inr ((h front _ htrim).trans (List.rdropWhile_prefix isBlank back))
  · intro h front back he
    have hlast := not_all_blank_of_rdropWhile_eq he
    have hcs : cs = front ++ sep :: (back ++ cs.rtakeWhile isBlank) := by
      rw [← List.cons_append, ← List.append_assoc, ← he, List.rdropWhile_append_rtakeWhile]
    rcases h front _ hcs with hall | hp
    -- were all of it blank, the separator would have been trimmed away too
    · refine absurd (fun c hc => ?_) hlast
      rcases List.mem_cons.mp hc with rfl | hc
      · exact hsep
      · exact hall c (List.mem_append_left _ hc)
    · refine prefix_of_prefix_append (fun c hc hstart => ?_) hp
      have hblank : isBlank c = true := List.mem_rtakeWhile_imp (List.mem_of_mem_head? hc)
      rw [hs c hstart] at hblank
      cases hblank

end Userscript
