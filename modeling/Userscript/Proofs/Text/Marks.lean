import Mathlib.Data.List.Infix
import Mathlib.Data.String.Basic

/-! Texts cut at a mark. Every text has pieces between its marks, and a mark of
which no two can overlap leaves no choice of them. -/

namespace Userscript

open String (utf8Len)

variable {mark : List Char}

/-- The pieces between the marks of a text: none of them holds a mark, and joined
with the mark they are the text again. -/
structure CutAt (mark : List Char) (pieces : List (List Char)) (cs : List Char) : Prop where
  ne_nil : pieces ≠ []
  free : ∀ p ∈ pieces, ¬ mark <:+: p
  joined : mark.intercalate pieces = cs

theorem intercalate_append_head (sep front p : List Char) (ps : List (List Char)) :
    sep.intercalate ((front ++ p) :: ps) = front ++ sep.intercalate (p :: ps) := by
  cases ps with
  | nil => simp
  | cons q qs => simp [List.intercalate_cons_cons]

theorem utf8Len_intercalate (sep p : List Char) (ps : List (List Char)) :
    utf8Len (sep.intercalate (p :: ps)) =
      utf8Len (p :: ps).flatten + ps.length * utf8Len sep := by
  induction ps generalizing p with
  | nil => simp
  | cons q qs ih =>
    have hflat : utf8Len (p :: q :: qs).flatten = utf8Len p + utf8Len (q :: qs).flatten := by
      rw [List.flatten_cons, String.utf8Len_append]
    rw [List.intercalate_cons_cons, String.utf8Len_append, String.utf8Len_append, ih q, hflat,
      List.length_cons, Nat.succ_mul]
    omega

/-- The pieces are found from the end of the text: a further character goes to the
first piece, unless it completes a mark there. -/
theorem exists_cutAt (hmark : mark ≠ []) (cs : List Char) : ∃ pieces, CutAt mark pieces cs := by
  induction cs with
  | nil => exact ⟨[[]], by simp, by simpa using hmark, rfl⟩
  | cons c cs ih =>
    obtain ⟨pieces, hcut⟩ := ih
    obtain ⟨p, ps, rfl⟩ := List.exists_cons_of_ne_nil hcut.ne_nil
    obtain ⟨hp, hps⟩ := List.forall_mem_cons.mp hcut.free
    have hjoined : mark.intercalate ((c :: p) :: ps) = c :: cs := by
      rw [← hcut.joined]
      exact intercalate_append_head mark [c] p ps
    by_cases hprefix : mark <+: c :: p
    · obtain ⟨rest, he⟩ := hprefix
      have hrest : rest <:+ p := by
        obtain ⟨m, ms, rfl⟩ := List.exists_cons_of_ne_nil hmark
        exact ⟨ms, (List.cons.inj he).2⟩
      refine ⟨[] :: rest :: ps, List.cons_ne_nil _ _, ?_, ?_⟩
      · simp only [List.forall_mem_cons]
        exact ⟨by simpa using hmark, fun h => hp (h.trans hrest.isInfix), hps⟩
      · rw [List.intercalate_cons_cons, List.nil_append, ← intercalate_append_head, he, hjoined]
    · refine ⟨(c :: p) :: ps, List.cons_ne_nil _ _, ?_, hjoined⟩
      simp only [List.forall_mem_cons]
      exact ⟨fun h => (List.infix_cons_iff.mp h).elim hprefix hp, hps⟩

section CutAt

variable {p q cs : List Char} {ps : List (List Char)}

theorem CutAt.eq_of_singleton (h : CutAt mark [p] cs) : p = cs := by
  simpa using h.joined

theorem CutAt.tail (h : CutAt mark (p :: q :: ps) cs) :
    ∃ rest, cs = p ++ (mark ++ rest) ∧ CutAt mark (q :: ps) rest := by
  refine ⟨mark.intercalate (q :: ps), ?_, List.cons_ne_nil _ _, ?_, rfl⟩
  · rw [← h.joined, List.intercalate_cons_cons, List.append_assoc]
  · exact fun r hr => h.free r (List.mem_cons_of_mem p hr)

theorem CutAt.mark_infix (h : CutAt mark (p :: q :: ps) cs) : mark <:+: cs := by
  obtain ⟨rest, rfl, -⟩ := h.tail
  exact ⟨p, rest, List.append_assoc p mark rest⟩

end CutAt

/-- Nothing but the whole mark both begins and ends it. -/
def Unbordered (mark : List Char) : Prop :=
  ∀ border, border <+: mark → border <:+ mark → border = [] ∨ border = mark

namespace Unbordered

variable {front back cs p q : List Char} (h : Unbordered mark)

include h

/-- Of two marks the first one ends before the second one begins. -/
theorem prefix_of_append {rest : List Char} (hne : front ≠ [])
    (he : mark ++ rest = front ++ (mark ++ back)) : mark <+: front := by
  rcases List.append_eq_append_iff.mp he with ⟨between, hfront, -⟩ | ⟨border, hmark, hback⟩
  · exact ⟨between, hfront.symm⟩
  · -- otherwise the end of the first is the beginning of the second
    have hsuffix : border <:+ mark := ⟨front, hmark.symm⟩
    have hprefix : border <+: mark :=
      List.prefix_of_prefix_length_le ⟨rest, hback.symm⟩ (List.prefix_append mark back)
        hsuffix.length_le
    rcases h border hprefix hsuffix with rfl | rfl
    · rw [List.append_nil] at hmark
      exact hmark ▸ List.prefix_refl mark
    · exact absurd (List.self_eq_append_left.mp hmark) hne

theorem not_prefix_append (hne : front ≠ []) (hfree : ¬ mark <:+: front) (back : List Char) :
    ¬ mark <+: front ++ (mark ++ back) :=
  fun ⟨_, he⟩ => hfree (h.prefix_of_append hne he).isInfix

theorem add_length_le {i j : Nat} (hi : mark <+: cs.drop i) (hj : mark <+: cs.drop j)
    (hij : i < j) : i + mark.length ≤ j := by
  obtain ⟨rest, hi⟩ := hi
  obtain ⟨back, hj⟩ := hj
  have hdrop : (cs.drop i).drop (j - i) = cs.drop j := by
    rw [List.drop_drop, Nat.add_sub_cancel' hij.le]
  have he : mark ++ rest = (cs.drop i).take (j - i) ++ (mark ++ back) := by
    rw [hi, hj, ← hdrop, List.take_append_drop]
  by_cases hne : (cs.drop i).take (j - i) = []
  · have hlength := congrArg List.length hi
    rw [List.take_eq_nil_iff] at hne
    obtain hnil := hne.resolve_left (by omega)
    rw [hnil, List.length_append, List.length_nil] at hlength
    omega
  · have hle := (h.prefix_of_append hne he).length_le
    rw [List.length_take] at hle
    omega

theorem length_le_of_append {a b : List Char} (hq : ¬ mark <:+: q)
    (he : p ++ (mark ++ a) = q ++ (mark ++ b)) : q.length ≤ p.length := by
  rcases List.append_eq_append_iff.mp he with ⟨front, rfl, hmarks⟩ | ⟨front, rfl, -⟩
  · by_cases hne : front = []
    · simp [hne]
    · have hmark := (h.prefix_of_append hne hmarks).isInfix
      exact absurd (hmark.trans (List.suffix_append p front).isInfix) hq
  · simp

/-- A text has only one first piece, and so, piece by piece, only one cut. -/
theorem cutAt_unique {pieces others : List (List Char)} (hcut : CutAt mark pieces cs)
    (hother : CutAt mark others cs) : others = pieces := by
  induction pieces generalizing cs others with
  | nil => exact absurd rfl hcut.ne_nil
  | cons p ps ih =>
    obtain ⟨q, qs, rfl⟩ := List.exists_cons_of_ne_nil hother.ne_nil
    have hp := hcut.free p (by simp)
    have hq := hother.free q (by simp)
    rcases ps with _ | ⟨p', ps⟩ <;> rcases qs with _ | ⟨q', qs⟩
    · rw [hcut.eq_of_singleton, hother.eq_of_singleton]
    · rw [hcut.eq_of_singleton] at hp
      exact absurd hother.mark_infix hp
    · rw [hother.eq_of_singleton] at hq
      exact absurd hcut.mark_infix hq
    · obtain ⟨rest, rfl, hrest⟩ := hcut.tail
      obtain ⟨rest', he, hrest'⟩ := hother.tail
      have hlength := le_antisymm (h.length_le_of_append hp he.symm) (h.length_le_of_append hq he)
      obtain ⟨rfl, hback⟩ := List.append_inj he hlength
      obtain rfl := List.append_cancel_left hback
      rw [ih hrest hrest']

end Unbordered

end Userscript
