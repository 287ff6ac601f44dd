import Userscript.Proofs.Text.Marks
import Userscript.Proofs.Text.Splitting
import Userscript.Template

/-! What filling a template does to its characters, its size and its pieces.
Placeholders cannot overlap, so a template is cut at them in one way, and filling
puts the identifier between the pieces without reading it. -/

namespace Userscript

open String (utf8Len)

theorem hasPlaceholder_iff {cs : List Char} : hasPlaceholder cs = true ↔ placeholder <:+: cs := by
  induction cs with
  | nil => decide
  | cons c cs ih =>
    rw [hasPlaceholder, Bool.or_eq_true, List.isPrefixOf_iff_prefix, ih, List.infix_cons_iff]

variable {id cs : List Char}

theorem fillChars_placeholder_append (id cs : List Char) :
    fillChars id (placeholder ++ cs) = id ++ fillChars id cs := by
  change fillChars id ('\x7b' :: 'i' :: 'd' :: '\x7d' :: cs) = _
  rw [fillChars]

theorem fillChars_cons {c : Char} (h : ¬ placeholder <+: c :: cs) :
    fillChars id (c :: cs) = c :: fillChars id cs := by
  rw [fillChars]
  rintro rest rfl rfl
  exact h ⟨rest, rfl⟩

theorem fillChars_append_of_not_mem {front : List Char} (h : '\x7b' ∉ front) (cs : List Char) :
    fillChars id (front ++ cs) = front ++ fillChars id cs := by
  induction front with
  | nil => rfl
  | cons c front ih =>
    simp only [List.mem_cons, not_or] at h
    have hprefix : ¬ placeholder <+: c :: (front ++ cs) := fun hp =>
      h.1 (List.cons_prefix_cons.mp hp).1
    rw [List.cons_append, fillChars_cons hprefix, ih h.2, List.cons_append]

theorem mem_fillChars {c : Char} (h : c ∈ fillChars id cs) : c ∈ id ∨ c ∈ cs := by
  fun_induction fillChars id cs with
  | case1 rest ih =>
    rcases List.mem_append.mp h with h | h
    · exact .inl h
    · exact (ih h).imp_right fun h => by simp [h]
  | case2 c' rest _ ih =>
    rcases List.mem_cons.mp h with rfl | h
    · exact .inr (by simp)
    · exact (ih h).imp_right fun h => by simp [h]
  | case3 => cases h

section Cut

theorem unbordered_placeholder : Unbordered placeholder := by
  have hall : ∀ border ∈ placeholder.inits, border <:+ placeholder →
      border = [] ∨ border = placeholder := by decide
  exact fun border hprefix => hall border ((List.mem_inits border placeholder).mpr hprefix)

theorem fillChars_of_free (h : ¬ placeholder <:+: cs) : fillChars id cs = cs := by
  induction cs with
  | nil => rfl
  | cons c cs ih =>
    rw [List.infix_cons_iff, not_or] at h
    rw [fillChars_cons h.1, ih h.2]

theorem fillChars_append_placeholder {front : List Char} (h : ¬ placeholder <:+: front)
    (cs : List Char) :
    fillChars id (front ++ (placeholder ++ cs)) = front ++ (id ++ fillChars id cs) := by
  induction front with
  | nil => exact fillChars_placeholder_append id cs
  | cons c front ih =>
    have hprefix : ¬ placeholder <+: c :: (front ++ (placeholder ++ cs)) :=
      unbordered_placeholder.not_prefix_append (List.cons_ne_nil c front) h cs
    rw [List.infix_cons_iff, not_or] at h
    rw [List.cons_append, fillChars_cons hprefix, ih h.2, List.cons_append]

/-- Filling is joining the pieces again, with the identifier for the placeholder. -/
theorem CutAt.fillChars_eq {pieces : List (List Char)} (h : CutAt placeholder pieces cs)
    (id : List Char) : fillChars id cs = id.intercalate pieces := by
  induction pieces generalizing cs with
  | nil => exact absurd rfl h.ne_nil
  | cons p ps ih =>
    have hp := h.free p (by simp)
    cases ps with
    | nil =>
      obtain rfl := h.eq_of_singleton
      rw [fillChars_of_free hp, List.intercalate_singleton]
    | cons q qs =>
      obtain ⟨rest, rfl, hrest⟩ := h.tail
      rw [fillChars_append_placeholder hp, ih hrest, List.intercalate_cons_cons, List.append_assoc]

theorem exists_cutAt_placeholder (cs : List Char) :
    ∃ (p : List Char) (ps : List (List Char)), CutAt placeholder (p :: ps) cs := by
  have hmark : placeholder ≠ [] := List.cons_ne_nil _ _
  obtain ⟨pieces, h⟩ := exists_cutAt hmark cs
  obtain ⟨p, ps, rfl⟩ := List.exists_cons_of_ne_nil h.ne_nil
  exact ⟨p, ps, h⟩

theorem fillChars_placeholder (cs : List Char) : fillChars placeholder cs = cs := by
  obtain ⟨p, ps, h⟩ := exists_cutAt_placeholder cs
  rw [h.fillChars_eq, h.joined]

/-- For each placeholder its own bytes go and those of the identifier come. -/
theorem CutAt.utf8Len_fillChars {p : List Char} {ps : List (List Char)}
    (h : CutAt placeholder (p :: ps) cs) (id : List Char) :
    utf8Len (fillChars id cs) + ps.length * utf8Len placeholder =
      utf8Len cs + ps.length * utf8Len id := by
  have hcs : utf8Len cs = utf8Len (p :: ps).flatten + ps.length * utf8Len placeholder := by
    rw [← h.joined, utf8Len_intercalate]
  rw [h.fillChars_eq, utf8Len_intercalate, hcs]
  omega

/-- Filled with no more bytes than the placeholder has, a template does not grow. -/
theorem utf8Len_fillChars_le (h : utf8Len id ≤ utf8Len placeholder) (cs : List Char) :
    utf8Len (fillChars id cs) ≤ utf8Len cs := by
  obtain ⟨p, ps, hcut⟩ := exists_cutAt_placeholder cs
  have hsize := hcut.utf8Len_fillChars id
  have hle := Nat.mul_le_mul_left ps.length h
  omega

end Cut

section Pieces

variable {sep : Char}

theorem splitChars_append_left {front : List Char} (h : sep ∉ front) (cs : List Char) :
    splitChars sep (front ++ cs) =
      (front ++ cs.takeWhile (· ≠ sep)) :: (splitChars sep cs).tail := by
  induction front with
  | nil => exact splitChars_eq_cons sep cs
  | cons c front ih =>
    simp only [List.mem_cons, not_or] at h
    rw [List.cons_append, splitChars_cons, if_neg (Ne.symm h.1), ih h.2]
    rfl

theorem not_placeholder_prefix_takeWhile {c : Char} (h : ¬ placeholder <+: c :: cs) :
    ¬ placeholder <+: c :: cs.takeWhile (· ≠ sep) := by
  intro hp
  have hcons : c :: cs.takeWhile (· ≠ sep) <+: c :: cs :=
    List.cons_prefix_cons.mpr ⟨rfl, List.takeWhile_prefix _⟩
  exact h (hp.trans hcons)

/-- A template is filled piece by piece, as no separator stands in the placeholder
or comes in with the identifier. -/
theorem splitChars_fillChars (hplaceholder : sep ∉ placeholder) (hid : sep ∉ id)
    (cs : List Char) :
    splitChars sep (fillChars id cs) = (splitChars sep cs).map (fillChars id) := by
  fun_induction fillChars id cs with
  | case1 rest ih =>
    have hpieces := ih
    rw [splitChars_eq_cons, splitChars_eq_cons sep rest, List.map_cons, List.cons.injEq] at hpieces
    change _ = (splitChars sep (placeholder ++ rest)).map (fillChars id)
    rw [splitChars_append_left hid, splitChars_append_left hplaceholder, List.map_cons,
      fillChars_placeholder_append, hpieces.1, hpieces.2]
  | case2 c rest hne ih =>
    have hprefix : ¬ placeholder <+: c :: rest := by
      rintro ⟨back, he⟩
      obtain ⟨rfl, rfl⟩ := List.cons.inj he
      exact hne back rfl rfl
    rw [splitChars_cons, splitChars_cons, ih]
    by_cases hc : c = sep
    · rw [if_pos hc, if_pos hc, List.map_cons, fillChars]
    · rw [if_neg hc, if_neg hc, splitChars_eq_cons sep rest]
      simp only [consHead, List.map_cons, fillChars_cons (not_placeholder_prefix_takeWhile hprefix)]
  | case3 => simp [splitChars_nil, fillChars]

end Pieces

theorem fillTemplate_placeholder (template : String) :
    fillTemplate template (String.ofList placeholder) = template := by
  rw [fillTemplate, String.toList_ofList, fillChars_placeholder, String.ofList_toList]

/-- A template is cut at its placeholders in one way, as they cannot overlap.
Filling it joins the pieces again with the identifier between them, whatever the
identifier holds or makes together with its neighbours. Each placeholder adds the
bytes of the identifier less its own four, and the placeholder itself changes
nothing. -/
theorem fillTemplate_single_pass (template : String) :
    ∃ (n : Nat) (pieces : List (List Char)), pieces.length = n + 1 ∧
      CutAt placeholder pieces template.toList ∧
      (∀ others, CutAt placeholder others template.toList → others = pieces) ∧
      (∀ i j, placeholder <+: template.toList.drop i → placeholder <+: template.toList.drop j →
        i < j → i + 4 ≤ j) ∧
      fillTemplate template (String.ofList placeholder) = template ∧
      ∀ id : String,
        fillTemplate template id = String.ofList (id.toList.intercalate pieces) ∧
        ((fillTemplate template id).utf8ByteSize : Int) =
          template.utf8ByteSize + n * ((id.utf8ByteSize : Int) - 4) := by
  obtain ⟨p, ps, hcut⟩ := exists_cutAt_placeholder template.toList
  refine ⟨ps.length, p :: ps, rfl, hcut, ?_, ?_, fillTemplate_placeholder template, ?_⟩
  · exact fun others hother => unbordered_placeholder.cutAt_unique hcut hother
  · exact fun i j hi hj hij => unbordered_placeholder.add_length_le hi hj hij
  · intro id
    refine ⟨by rw [fillTemplate, hcut.fillChars_eq], ?_⟩
    have hsize := hcut.utf8Len_fillChars id.toList
    rw [String.utf8Len_toList, String.utf8Len_toList, show utf8Len placeholder = 4 from rfl] at hsize
    rw [fillTemplate, String.utf8ByteSize_ofList, Int.mul_sub]
    omega

-- `{`, the placeholder and `d}`: the letter makes a placeholder with its neighbours
example : fillTemplate "\x7b\x7bid\x7dd\x7d" "i" = String.ofList placeholder := by decide

end Userscript
