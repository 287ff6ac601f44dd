import Userscript.Text

/-! Pieces of a text between separators: joining pieces that hold no separator
and splitting again gives them back, and each piece starts at the front of the
text or just behind a separator. -/

namespace Userscript

theorem splitChars_append_sep {sep : Char} {p : List Char} (h : sep ∉ p) (cs : List Char) :
    splitChars sep (p ++ sep :: cs) = p :: splitChars sep cs := by
  induction p with
  | nil => simp [splitChars_cons]
  | cons c p ih =>
    simp only [List.mem_cons, not_or] at h
    have hc : c ≠ sep := fun he => h.1 he.symm
    rw [List.cons_append, splitChars_cons, if_neg hc, ih h.2]
    rfl

theorem splitChars_of_not_mem {sep : Char} {p : List Char} (h : sep ∉ p) :
    splitChars sep p = [p] := by
  induction p with
  | nil => rfl
  | cons c p ih =>
    simp only [List.mem_cons, not_or] at h
    have hc : c ≠ sep := fun he => h.1 he.symm
    rw [splitChars_cons, if_neg hc, ih h.2]
    rfl

theorem splitChars_joinChars {sep : Char} {ps : List (List Char)} (hne : ps ≠ [])
    (h : ∀ p ∈ ps, sep ∉ p) : splitChars sep (joinChars sep ps) = ps := by
  induction ps with
  | nil => exact absurd rfl hne
  | cons p ps ih =>
    have hp := h p (by simp)
    cases ps with
    | nil => exact splitChars_of_not_mem hp
    | cons q qs =>
      have hq := ih (by simp) fun r hr => h r (List.mem_cons_of_mem p hr)
      rw [joinChars, splitChars_append_sep hp, hq]

theorem mem_joinChars {sep c : Char} {ps : List (List Char)} (h : c ∈ joinChars sep ps) :
    c = sep ∨ ∃ p ∈ ps, c ∈ p := by
  induction ps with
  | nil => simp [joinChars] at h
  | cons p ps ih =>
    cases ps with
    | nil => exact .inr ⟨p, by simp, h⟩
    | cons q qs =>
      rw [joinChars, List.mem_append, List.mem_cons] at h
      rcases h with h | h | h
      · exact .inr ⟨p, by simp, h⟩
      · exact .inl h
      · rcases ih h with he | ⟨r, hr, hc⟩
        · exact .inl he
        · exact .inr ⟨r, List.mem_cons_of_mem p hr, hc⟩

theorem splitText_joinText {sep : Char} {texts : List String} (hne : texts ≠ [])
    (h : ∀ t ∈ texts, sep ∉ t.toList) : splitText sep (joinText sep texts) = texts := by
  have hne' : texts.map String.toList ≠ [] := by simpa using hne
  have h' : ∀ p ∈ texts.map String.toList, sep ∉ p := by simpa using h
  rw [splitText, joinText, String.toList_ofList, splitChars_joinChars hne' h']
  simp

theorem tail_consHead (c : Char) {ps : List (List Char)} (h : ps ≠ []) :
    (consHead c ps).tail = ps.tail := by
  cases ps with
  | nil => exact absurd rfl h
  | cons p ps => rfl

theorem splitChars_eq_cons (sep : Char) (cs : List Char) :
    splitChars sep cs = cs.takeWhile (· ≠ sep) :: (splitChars sep cs).tail := by
  induction cs with
  | nil => rfl
  | cons c cs ih =>
    rw [splitChars_cons]
    by_cases hc : c = sep
    · simp [hc]
    · rw [if_neg hc, tail_consHead c (splitChars_ne_nil sep cs), ih]
      simp [consHead, hc]

/-- What follows an occurrence of `sep` is as `P` says. -/
def BehindEach (sep : Char) (P : List Char → Prop) (cs : List Char) : Prop :=
  ∀ front back, cs = front ++ sep :: back → P back

theorem behindEach_of_not_mem {sep : Char} {P : List Char → Prop} {cs : List Char}
    (h : sep ∉ cs) : BehindEach sep P cs := by
  rintro front back rfl
  simp at h

theorem behindEach_append {sep : Char} {P : List Char → Prop} {pre : List Char} (h : sep ∉ pre)
    (cs : List Char) : BehindEach sep P (pre ++ cs) ↔ BehindEach sep P cs := by
  constructor
  · rintro hp front back rfl
    exact hp (pre ++ front) back (by rw [List.append_assoc])
  · intro hp front back he
    rcases List.append_eq_append_iff.mp he with ⟨front', rfl, hcs⟩ | ⟨rest, rfl, hrest⟩
    · exact hp front' back hcs
    · cases rest with
      | nil => exact hp [] back hrest.symm
      | cons c rest =>
        obtain ⟨rfl, _⟩ := List.cons.inj hrest
        simp at h

/-- Behind each separator a piece begins. -/
theorem mem_tail_splitChars {sep : Char} {cs p : List Char} :
    p ∈ (splitChars sep cs).tail ↔
      ∃ front back, cs = front ++ sep :: back ∧ p = back.takeWhile (· ≠ sep) := by
  induction cs with
  | nil => simp [splitChars_nil]
  | cons c cs ih =>
    rw [splitChars_cons]
    by_cases hc : c = sep
    · subst hc
      rw [if_pos rfl, List.tail_cons, splitChars_eq_cons, List.mem_cons, ih]
      constructor
      · rintro (rfl | ⟨front, back, rfl, rfl⟩)
        · exact ⟨[], cs, rfl, rfl⟩
        · exact ⟨c :: front, back, rfl, rfl⟩
      · rintro ⟨_ | ⟨d, front⟩, back, he, rfl⟩
        · simp only [List.nil_append, List.cons.injEq, true_and] at he
          exact .inl (by rw [he])
        · simp only [List.cons_append, List.cons.injEq] at he
          exact .inr ⟨front, back, he.2, rfl⟩
    · rw [if_neg hc, tail_consHead c (splitChars_ne_nil sep cs), ih]
      constructor
      · rintro ⟨front, back, rfl, rfl⟩
        exact ⟨c :: front, back, rfl, rfl⟩
      · rintro ⟨_ | ⟨d, front⟩, back, he, rfl⟩
        · simp only [List.nil_append, List.cons.injEq] at he
          exact absurd he.1 hc
        · simp only [List.cons_append, List.cons.injEq] at he
          exact ⟨front, back, he.2, rfl⟩

theorem forall_ne_of_not_mem {sep : Char} {cs : List Char} (h : sep ∉ cs) :
    ∀ c ∈ cs, decide (c ≠ sep) = true := by
  intro c hc
  simp only [ne_eq, decide_eq_true_eq]
  exact fun he => h (he ▸ hc)

theorem prefix_takeWhile_ne {sep : Char} {start cs : List Char} (h : sep ∉ start) :
    start <+: cs.takeWhile (· ≠ sep) ↔ start <+: cs := by
  constructor
  · exact fun hp => hp.trans (List.takeWhile_prefix _)
  · rintro ⟨back, rfl⟩
    rw [List.takeWhile_append_of_pos (forall_ne_of_not_mem h)]
    exact List.prefix_append _ _

/-- All pieces begin with `start` if the text does and all that follows a
separator does. -/
theorem forall_prefix_splitChars {sep : Char} {start cs : List Char} (h : sep ∉ start) :
    (∀ p ∈ splitChars sep cs, start <+: p) ↔
      start <+: cs ∧ BehindEach sep (start <+: ·) cs := by
  rw [splitChars_eq_cons, List.forall_mem_cons, prefix_takeWhile_ne h]
  refine and_congr_right fun _ => ⟨fun hp front back he => ?_, fun hp p hm => ?_⟩
  · exact (prefix_takeWhile_ne h).mp (hp _ (mem_tail_splitChars.mpr ⟨front, back, he, rfl⟩))
  · obtain ⟨front, back, he, rfl⟩ := mem_tail_splitChars.mp hm
    exact (prefix_takeWhile_ne h).mpr (hp front back he)

/-- What begins a text ends in its front, if it does not hold the next character. -/
theorem prefix_of_prefix_append {start front back : List Char} (hback : ∀ c ∈ back.head?, c ∉ start)
    (h : start <+: front ++ back) : start <+: front := by
  rcases List.prefix_or_prefix_of_prefix h (List.prefix_append front back) with hp | ⟨surplus, rfl⟩
  · exact hp
  · have hsurplus : surplus <+: back := (List.prefix_append_right_inj front).mp h
    cases surplus with
    | nil => simp
    | cons c surplus =>
      obtain ⟨rest, rfl⟩ := hsurplus
      exact absurd (by simp) (hback c rfl)

theorem prefix_append_sep_iff {sep : Char} {p q cs ds : List Char} (hp : sep ∉ p) (hq : sep ∉ q) :
    p ++ sep :: cs <+: q ++ sep :: ds ↔ p = q ∧ cs <+: ds := by
  constructor
  · rintro ⟨surplus, he⟩
    rw [List.append_assoc, List.cons_append] at he
    have hsplit := congrArg (splitChars sep) he
    rw [splitChars_append_sep hp, splitChars_append_sep hq] at hsplit
    obtain rfl := (List.cons.inj hsplit).1
    exact ⟨rfl, surplus, (List.cons.inj (List.append_cancel_left he)).2⟩
  · rintro ⟨rfl, h⟩
    exact (List.prefix_append_right_inj p).mpr (List.cons_prefix_cons.mpr ⟨rfl, h⟩)

theorem joinChars_cons (sep : Char) (p : List Char) {ps : List (List Char)} (h : ps ≠ []) :
    joinChars sep (p :: ps) = p ++ sep :: joinChars sep ps := by
  cases ps with
  | nil => exact absurd rfl h
  | cons q qs => rfl

/-- Pieces that are joined up to a last one which no other piece begins with can
be found again in front of any text. -/
theorem eq_of_prefix_joinChars {sep : Char} {last : List Char} (hlast : sep ∉ last)
    {ps qs : List (List Char)} (hps : ∀ p ∈ ps, sep ∉ p ∧ ¬ last <+: p)
    (hqs : ∀ q ∈ qs, sep ∉ q ∧ ¬ last <+: q) {rest : List Char}
    (h : joinChars sep (ps ++ [last]) <+: joinChars sep (qs ++ [last]) ++ sep :: rest) :
    ps = qs := by
  induction ps generalizing qs with
  | nil =>
    cases qs with
    | nil => rfl
    | cons q qs =>
      have hne := (hqs q (by simp)).2
      rw [List.cons_append, joinChars_cons sep q (by simp), List.append_assoc] at h
      exact absurd (prefix_of_prefix_append (by simpa [joinChars] using hlast) h) hne
  | cons p ps ih =>
    obtain ⟨hsep, hne⟩ := hps p (by simp)
    rw [List.cons_append, joinChars_cons sep p (by simp)] at h
    cases qs with
    | nil =>
      obtain ⟨rfl, _⟩ := (prefix_append_sep_iff hsep hlast).mp h
      exact absurd (List.prefix_refl p) hne
    | cons q qs =>
      rw [List.cons_append, joinChars_cons sep q (by simp), List.append_assoc] at h
      obtain ⟨rfl, hrest⟩ := (prefix_append_sep_iff hsep (hqs q (by simp)).1).mp h
      rw [ih (fun r hr => hps r (List.mem_cons_of_mem p hr))
        (fun r hr => hqs r (List.mem_cons_of_mem p hr)) hrest]

end Userscript
