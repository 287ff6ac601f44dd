import Mathlib.Data.List.Chain
import Userscript.Comment
import Userscript.Proofs.Text.Trimming

/-! Headers in a block comment. A closing mark is two neighbouring characters,
so a text without one is a chain, and marks can only arise where texts meet. -/

namespace Userscript

def closingMark : List Char := ['*', '/']

def escapedMark : List Char := ['*', '\\', '/']

/-- A closing mark ends the text, and no closing mark ends before. -/
def ClosesAtEnd (cs : List Char) : Prop :=
  closingMark <:+ cs ∧ ∀ front back, cs = front ++ closingMark ++ back → back = []

/-- Neighbours that are no closing mark. -/
def NotClosing (a b : Char) : Prop := a = '*' → b ≠ '/'

theorem isChain_notClosing_iff {cs : List Char} :
    cs.IsChain NotClosing ↔ ¬ closingMark <:+: cs := by
  rw [List.isChain_iff_forall_rel_of_append_cons_cons]
  constructor
  · rintro h ⟨front, back, he⟩
    have hcs : cs = front ++ '*' :: '/' :: back := by
      rw [← he]
      simp [closingMark]
    exact h hcs rfl rfl
  · rintro h a b front back rfl rfl rfl
    exact h ⟨front, back, by simp [closingMark]⟩

theorem escapeClosing_cons (c : Char) (cs : List Char) :
    escapeClosing (c :: cs) =
      if c = '*' ∧ (escapeClosing cs).head? = some '/' then '*' :: '\\' :: escapeClosing cs
      else c :: escapeClosing cs := rfl

theorem head?_escapeClosing (cs : List Char) : (escapeClosing cs).head? = cs.head? := by
  cases cs with
  | nil => rfl
  | cons c cs =>
    rw [escapeClosing_cons]
    split
    · next h => rw [h.1]; rfl
    · rfl

theorem escapeClosing_of_isChain {cs : List Char} (h : cs.IsChain NotClosing) :
    escapeClosing cs = cs := by
  induction cs with
  | nil => rfl
  | cons c cs ih =>
    obtain ⟨hhead, htail⟩ := List.isChain_cons.mp h
    rw [escapeClosing_cons, head?_escapeClosing, ih htail, if_neg]
    rintro ⟨hc, hslash⟩
    exact hhead '/' hslash hc rfl

/-- The first mark of a text is escaped, and what stands before it is kept. -/
theorem escapeClosing_append_mark {p : List Char} (h : p.IsChain NotClosing) (cs : List Char) :
    escapeClosing (p ++ '*' :: '/' :: cs) = p ++ '*' :: '\\' :: escapeClosing ('/' :: cs) := by
  induction p with
  | nil => rw [List.nil_append, escapeClosing_cons, head?_escapeClosing, if_pos ⟨rfl, rfl⟩]; rfl
  | cons c p ih =>
    obtain ⟨hhead, htail⟩ := List.isChain_cons.mp h
    rw [List.cons_append, escapeClosing_cons, head?_escapeClosing, ih htail, if_neg]
    · rfl
    · rintro ⟨hc, hslash⟩
      cases p with
      | nil => cases hslash
      | cons d p => exact hhead d rfl hc (Option.some.inj hslash)

theorem escapeClosing_slash (cs : List Char) :
    escapeClosing ('/' :: cs) = '/' :: escapeClosing cs := by
  rw [escapeClosing_cons, if_neg fun h => absurd h.1 (by decide)]

theorem escapeClosing_intercalate {pieces : List (List Char)}
    (h : ∀ p ∈ pieces, p.IsChain NotClosing) :
    escapeClosing (closingMark.intercalate pieces) = escapedMark.intercalate pieces := by
  induction pieces with
  | nil => rfl
  | cons p pieces ih =>
    have hp := h p (by simp)
    cases pieces with
    | nil =>
      rw [List.intercalate_singleton, List.intercalate_singleton, escapeClosing_of_isChain hp]
    | cons q qs =>
      have hrest := ih fun r hr => h r (List.mem_cons_of_mem p hr)
      rw [List.intercalate_cons_cons, List.intercalate_cons_cons, ← hrest, List.append_assoc,
        List.append_assoc]
      exact (escapeClosing_append_mark hp _).trans (by rw [escapeClosing_slash]; rfl)

/-- What replaces a closing mark forms none with its neighbours either. -/
theorem isChain_escapeClosing (cs : List Char) : (escapeClosing cs).IsChain NotClosing := by
  induction cs with
  | nil => exact List.isChain_nil
  | cons c cs ih =>
    rw [escapeClosing_cons]
    split
    · have hslash : ('\\' :: escapeClosing cs).IsChain NotClosing :=
        ih.cons fun d _ hc => absurd hc (by decide)
      exact hslash.cons fun d hd _ => by
        obtain rfl : '\\' = d := by simpa using hd
        decide
    · next h =>
      refine ih.cons fun d hd hc hslash => h ⟨hc, ?_⟩
      rw [← hslash]
      exact hd

theorem isChain_blockLine (line : String) : (blockLine line).toList.IsChain NotClosing := by
  rw [blockLine, String.toList_ofList]
  obtain ⟨front, back, he⟩ := trimChars_isInfix (escapeClosing line.toList)
  have h := isChain_escapeClosing line.toList
  rw [← he] at h
  exact h.left_of_append.right_of_append

theorem isChain_joinChars {sep : Char} (hstar : sep ≠ '*') (hslash : sep ≠ '/')
    {ps : List (List Char)} (h : ∀ p ∈ ps, p.IsChain NotClosing) :
    (joinChars sep ps).IsChain NotClosing := by
  induction ps with
  | nil => exact List.isChain_nil
  | cons p ps ih =>
    have hp := h p (by simp)
    cases ps with
    | nil => exact hp
    | cons q qs =>
      have hrest := ih fun r hr => h r (List.mem_cons_of_mem p hr)
      have hsep : (sep :: joinChars sep (q :: qs)).IsChain NotClosing :=
        hrest.cons fun d _ hc => absurd hc hstar
      refine hp.append hsep fun a _ b hb _ => ?_
      obtain rfl : sep = b := by simpa using hb
      exact hslash

/-- Text without a mark, ended by the star of the only mark. -/
theorem closesAtEnd_of_isChain {cs : List Char} (h : (cs ++ ['*']).IsChain NotClosing) :
    ClosesAtEnd (cs ++ closingMark) := by
  refine ⟨List.suffix_append cs closingMark, fun front back he => ?_⟩
  cases back using List.reverseRecOn with
  | nil => rfl
  | append_singleton back c =>
    -- the mark would lie in what stands before the last character
    have hcs : cs ++ ['*'] = front ++ closingMark ++ back := by
      have hdrop := congrArg List.dropLast he
      rw [← List.append_assoc, List.dropLast_concat] at hdrop
      rw [← hdrop, closingMark, List.dropLast_append_of_ne_nil (List.cons_ne_nil _ _)]
      rfl
    rw [hcs] at h
    exact absurd (List.infix_append front closingMark back) (isChain_notClosing_iff.mp h)

theorem closesAtEnd_between {c d : Char} {cs : List Char} (hc : c ≠ '*') (hd : d ≠ '*')
    (hd' : d ≠ '/') (h : cs.IsChain NotClosing) :
    ClosesAtEnd (c :: cs ++ d :: closingMark) := by
  have htail : [d, '*'].IsChain NotClosing :=
    (List.isChain_singleton '*').cons fun e _ he => absurd he hd
  have hall : (c :: cs ++ [d, '*']).IsChain NotClosing := by
    refine (h.cons fun e _ he => absurd he hc).append htail fun a _ b hb _ => ?_
    obtain rfl : d = b := by simpa using hb
    exact hd'
  have hcs : c :: cs ++ [d, '*'] = (c :: cs ++ [d]) ++ ['*'] := by simp
  rw [hcs] at hall
  have := closesAtEnd_of_isChain hall
  simpa using this

theorem exists_toList_blockComment (lines : List String) :
    ∃ inner, (blockComment lines).toList = '/' :: '*' :: inner ∧ ClosesAtEnd inner := by
  rcases lines with _ | ⟨line, _ | ⟨next, rest⟩⟩
  · have hnil : ([] : List Char).IsChain NotClosing := List.isChain_nil
    exact ⟨_, rfl, closesAtEnd_between (by decide) (by decide) (by decide) hnil⟩
  · refine ⟨' ' :: (blockLine line).toList ++ ' ' :: closingMark, ?_, ?_⟩
    · simp [blockComment, closingMark]
    · exact closesAtEnd_between (by decide) (by decide) (by decide) (isChain_blockLine line)
  · refine ⟨'\n' :: (joinText '\n' ((line :: next :: rest).map blockLine)).toList ++
      '\n' :: closingMark, ?_, ?_⟩
    · simp [blockComment, closingMark]
    · refine closesAtEnd_between (by decide) (by decide) (by decide) ?_
      rw [joinText, String.toList_ofList]
      refine isChain_joinChars (by decide) (by decide) ?_
      simp only [List.map_map, List.forall_mem_map]
      exact fun line _ => isChain_blockLine line

/-- A block comment ends where it is meant to end, whatever its lines hold: its
first closing mark is its end. Escaping replaces the marks of a line and nothing
else, and leaves none in it. -/
theorem blockComment_closes_at_end (lines : List String) :
    (∃ inner, (blockComment lines).toList = '/' :: '*' :: inner ∧ ClosesAtEnd inner) ∧
      (∀ line : String, ¬ closingMark <:+: escapeClosing line.toList ∧
        ¬ closingMark <:+: (blockLine line).toList) ∧
      ∀ pieces : List (List Char), (∀ p ∈ pieces, ¬ closingMark <:+: p) →
        escapeClosing (closingMark.intercalate pieces) = escapedMark.intercalate pieces := by
  refine ⟨exists_toList_blockComment lines, fun line => ⟨?_, ?_⟩, fun pieces h => ?_⟩
  · exact isChain_notClosing_iff.mp (isChain_escapeClosing line.toList)
  · exact isChain_notClosing_iff.mp (isChain_blockLine line)
  · exact escapeClosing_intercalate fun p hp => isChain_notClosing_iff.mpr (h p hp)

end Userscript
