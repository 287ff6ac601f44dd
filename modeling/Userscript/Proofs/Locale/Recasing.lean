import Mathlib
import Userscript.Locale.Canonical
import Userscript.Proofs.Text.Splitting

/-! A canonical locale tag has the subtags of the tag that was given, in the
same order and with the same letters up to their case. The laws of ASCII letter
case come from the library's lemmas about characters, which no smaller import
brings in. -/

namespace Userscript

namespace Subtag

theorem lower_lower (s : Subtag) : s.lower.lower = s.lower := by
  simp [lower, Function.comp_def]

theorem lower_upper (s : Subtag) : s.upper.lower = s.lower := by
  simp [lower, upper, Function.comp_def]

theorem lower_title (s : Subtag) : s.title.lower = s.lower := by
  cases s with
  | nil => rfl
  | cons c cs => simp [title, lower, Function.comp_def]

theorem isDigit_toLower (c : Char) : c.toLower.isDigit = c.isDigit := by
  by_cases h : c.isUpper
  · have hd : c.isDigit = false := by
      simp only [Char.isUpper, Char.isDigit, UInt32.le_iff_toNat_le] at h ⊢
      simp at h ⊢
      omega
    have ha : c.toLower.isLower = true := by simp [Char.isAlpha, h]
    rw [hd]
    simp only [Char.isLower, Char.isDigit, UInt32.le_iff_toNat_le] at ha ⊢
    simp at ha ⊢
    omega
  · rw [Char.toLower_eq_of_not_isUpper h]

theorem isAlphanum_toLower (c : Char) : c.toLower.isAlphanum = c.isAlphanum := by
  rw [Char.isAlphanum, Char.isAlphanum, isDigit_toLower, Char.isAlpha_toLower_eq_isAlpha]

end Subtag

/-- The same subtags up to the case of their letters. -/
def Recased (subtags subtags' : List Subtag) : Prop :=
  subtags.map Subtag.lower = subtags'.map Subtag.lower

namespace Recased

theorem cons {s s' : Subtag} {subtags subtags' : List Subtag} (hs : s.lower = s'.lower)
    (h : Recased subtags subtags') : Recased (s :: subtags) (s' :: subtags') :=
  congrArg₂ List.cons hs h

theorem map_lower_append {subtags subtags' : List Subtag} (front : List Subtag)
    (h : Recased subtags subtags') :
    Recased (front.map Subtag.lower ++ subtags) (front ++ subtags') := by
  induction front with
  | nil => exact h
  | cons s front ih => exact cons s.lower_lower ih

end Recased

theorem recased_canonicalExtensions {subtags canonical : List Subtag}
    (h : canonicalExtensions subtags = some canonical) : Recased canonical subtags := by
  induction subtags using canonicalExtensions.induct generalizing canonical with
  | case1 =>
    rw [canonicalExtensions, Option.some.injEq] at h
    exact h ▸ rfl
  | case2 s rest hs hnone => simp [canonicalExtensions, hs, hnone] at h
  | case3 s rest hs hsome ih =>
    simp only [canonicalExtensions, hs, hsome, if_true, if_false, Option.map_eq_some_iff] at h
    obtain ⟨more, hmore, rfl⟩ := h
    have hrest := (ih hmore).map_lower_append (rest.takeWhile s.takes)
    rw [List.takeWhile_append_dropWhile] at hrest
    exact hrest.cons s.lower_lower
  | case4 s rest hs => simp [canonicalExtensions, hs] at h

theorem recased_canonicalVariants {subtags canonical : List Subtag}
    (h : canonicalVariants subtags = some canonical) : Recased canonical subtags := by
  obtain ⟨more, hmore, rfl⟩ := Option.map_eq_some_iff.mp h
  have hrest := (recased_canonicalExtensions hmore).map_lower_append
    (subtags.takeWhile Subtag.isVariant)
  rwa [List.takeWhile_append_dropWhile] at hrest

theorem recased_canonicalRegion {subtags canonical : List Subtag}
    (h : canonicalRegion subtags = some canonical) : Recased canonical subtags := by
  unfold canonicalRegion at h
  split at h
  · split at h
    · obtain ⟨more, hmore, rfl⟩ := Option.map_eq_some_iff.mp h
      exact (recased_canonicalVariants hmore).cons (Subtag.lower_upper _)
    · exact recased_canonicalVariants h
  · exact recased_canonicalVariants h

theorem recased_canonicalScript {subtags canonical : List Subtag}
    (h : canonicalScript subtags = some canonical) : Recased canonical subtags := by
  unfold canonicalScript at h
  split at h
  · split at h
    · obtain ⟨more, hmore, rfl⟩ := Option.map_eq_some_iff.mp h
      exact (recased_canonicalRegion hmore).cons (Subtag.lower_title _)
    · exact recased_canonicalRegion h
  · exact recased_canonicalRegion h

theorem recased_canonicalExtlangs {limit : Nat} {subtags canonical : List Subtag}
    (h : canonicalExtlangs limit subtags = some canonical) : Recased canonical subtags := by
  induction limit generalizing subtags canonical with
  | zero => exact recased_canonicalScript h
  | succ limit ih =>
    cases subtags with
    | nil => exact recased_canonicalScript h
    | cons s rest =>
      rw [canonicalExtlangs] at h
      split at h
      · obtain ⟨more, hmore, rfl⟩ := Option.map_eq_some_iff.mp h
        exact (ih hmore).cons s.lower_lower
      · exact recased_canonicalScript h

theorem recased_canonicalSubtags {subtags canonical : List Subtag}
    (h : canonicalSubtags subtags = some canonical) : Recased canonical subtags := by
  unfold canonicalSubtags at h
  split at h
  · cases h
  · split at h
    · obtain ⟨more, hmore, rfl⟩ := Option.map_eq_some_iff.mp h
      exact (recased_canonicalExtlangs hmore).cons (Subtag.lower_lower _)
    · cases h

theorem canonicalLocale_eq_ok {key locale : String} (h : canonicalLocale key = .ok locale) :
    ∃ canonical, canonicalSubtags (splitChars '-' key.toList) = some canonical ∧
      (splitChars '-' key.toList).all Subtag.wellFormed = true ∧
      locale = String.ofList (joinChars '-' canonical) := by
  unfold canonicalLocale at h
  split at h
  · cases h
  · dsimp only at h
    split at h
    · next hall =>
      split at h
      · next canonical hc =>
        cases h
        exact ⟨canonical, hc, hall, rfl⟩
      · cases h
    · cases h

theorem isAlphanum_of_recased {subtags canonical : List Subtag} (h : Recased canonical subtags)
    (hs : ∀ s ∈ subtags, ∀ c ∈ s, c.isAlphanum = true) :
    ∀ s ∈ canonical, ∀ c ∈ s, c.isAlphanum = true := by
  intro s hm c hc
  have hlower : s.lower ∈ subtags.map Subtag.lower := h ▸ List.mem_map_of_mem hm
  obtain ⟨s', hs', he⟩ := List.mem_map.mp hlower
  have hc' : c.toLower ∈ s'.lower := he ▸ List.mem_map_of_mem hc
  obtain ⟨c', hc', he'⟩ := List.mem_map.mp hc'
  rw [← Subtag.isAlphanum_toLower, ← he', Subtag.isAlphanum_toLower]
  exact hs s' hs' c' hc'

/-- A locale key that has a canonical form has only letters, digits and hyphens,
and so has that form. -/
theorem canonicalLocale_chars {key locale : String} (h : canonicalLocale key = .ok locale) :
    (∀ c ∈ key.toList, c = '-' ∨ c.isAlphanum = true) ∧
      ∀ c ∈ locale.toList, c = '-' ∨ c.isAlphanum = true := by
  obtain ⟨canonical, hc, hall, rfl⟩ := canonicalLocale_eq_ok h
  have hs : ∀ s ∈ splitChars '-' key.toList, ∀ c ∈ s, c.isAlphanum = true := by
    intro s hm c hc
    have hw := List.all_eq_true.mp hall s hm
    simp only [Subtag.wellFormed, Bool.and_eq_true, List.all_eq_true] at hw
    exact hw.2 c hc
  have hout := isAlphanum_of_recased (recased_canonicalSubtags hc) hs
  constructor
  · intro c hm
    rw [← joinChars_splitChars '-' key.toList] at hm
    rcases mem_joinChars hm with rfl | ⟨s, hsm, hcs⟩
    · exact .inl rfl
    · exact .inr (hs s hsm c hcs)
  · intro c hm
    rw [String.toList_ofList] at hm
    rcases mem_joinChars hm with rfl | ⟨s, hsm, hcs⟩
    · exact .inl rfl
    · exact .inr (hout s hsm c hcs)

end Userscript
