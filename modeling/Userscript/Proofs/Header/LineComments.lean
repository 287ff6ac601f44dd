import Userscript.Proofs.Header.LineGrammar
import Userscript.Proofs.Text.Trimming

/-! Headers in line comments. A carriage return ends a line of script as a line
feed does, but values may hold it, so a value can leave its comment. -/

namespace Userscript

/-- The lines of a script: line feeds and carriage returns end them. -/
def scriptLines (text : String) : List String :=
  (splitText '\n' text).flatMap (splitText '\x0d')

/-- Each line of the script is a line comment. -/
def OnlyComments (text : String) : Prop :=
  ∀ piece ∈ scriptLines text, ['/', '/'] <+: piece.toList

/-- Behind each carriage return there is nothing but blanks, or a comment. -/
def StaysComment (text : String) : Prop :=
  BehindEach '\x0d' (fun back => (∀ c ∈ back, isBlank c = true) ∨ ['/', '/'] <+: back) text.toList

theorem toList_commentLine (line : String) :
    (commentLine line).toList = ['/', '/', ' '] ++ trimChars line.toList := by
  simp [commentLine, trim]

theorem forall_prefix_commentLine (line : String) :
    (∀ piece ∈ splitText '\x0d' (commentLine line), ['/', '/'] <+: piece.toList) ↔
      BehindEach '\x0d' (['/', '/'] <+: ·) (trimChars line.toList) := by
  have hchars : (∀ piece ∈ splitText '\x0d' (commentLine line), ['/', '/'] <+: piece.toList) ↔
      ∀ p ∈ splitChars '\x0d' (commentLine line).toList, ['/', '/'] <+: p := by
    simp [splitText]
  rw [hchars, forall_prefix_splitChars (by decide), toList_commentLine,
    behindEach_append (by decide)]
  exact and_iff_right ⟨' ' :: trimChars line.toList, rfl⟩

theorem splitText_lineComments {lines : List String} (hne : lines ≠ [])
    (h : ∀ line ∈ lines, '\n' ∉ line.toList) :
    splitText '\n' (lineComments lines) = lines.map commentLine := by
  refine splitText_joinText (by simpa using hne) fun t ht => ?_
  obtain ⟨line, hline, rfl⟩ := List.mem_map.mp ht
  rw [toList_commentLine, List.mem_append]
  rintro (hm | hm)
  · exact absurd hm (by decide)
  · exact h line hline ((trimChars_isInfix _).subset hm)

theorem onlyComments_lineComments {lines : List String} (hne : lines ≠ [])
    (h : ∀ line ∈ lines, '\n' ∉ line.toList) :
    OnlyComments (lineComments lines) ↔
      ∀ line ∈ lines, BehindEach '\x0d' (['/', '/'] <+: ·) (trimChars line.toList) := by
  simp only [OnlyComments, scriptLines, splitText_lineComments hne h, List.forall_mem_flatMap,
    List.forall_mem_map, forall_prefix_commentLine]

theorem behindEach_trimChars {line : String} {c : Char} (hc : line.toList.head? = some c)
    (hb : isBlank c = false) :
    BehindEach '\x0d' (['/', '/'] <+: ·) (trimChars line.toList) ↔ StaysComment line := by
  obtain ⟨cs, hcs⟩ : ∃ cs, line.toList = c :: cs := List.head?_eq_some_iff.mp hc
  have hslashes : ∀ c ∈ ['/', '/'], isBlank c = false := by simp [isBlank]
  rw [StaysComment, hcs, trimChars_of_head hb]
  exact behindEach_rdropWhile (by decide) hslashes _

theorem staysComment_tagLine {tag : String} (htag : isTagName tag = true) (value : String) :
    StaysComment (tagLine tag value) ↔ StaysComment value := by
  -- a tag has no carriage return, so each of the line is one of the value
  have hpre : '\x0d' ∉ '@' :: tag.toList ++ [' '] := by
    have ht : '\x0d' ∉ tag.toList := not_mem_tagName htag (by decide)
    simp [ht]
  have hline : (tagLine tag value).toList = ('@' :: tag.toList ++ [' ']) ++ value.toList := by
    simp [toList_tagLine]
  rw [StaysComment, hline, behindEach_append hpre]
  exact Iff.rfl

variable {options : Options} {collaborators : Collaborators} {record : Record}

/-- A header in line comments is nothing but comments exactly if its values stay
in theirs. -/
theorem onlyComments_headerText_iff {text : String} (hstyle : options.style = .slashes)
    (h : headerText options collaborators record = .ok text) :
    OnlyComments text ↔ ∀ tag value, isTagName tag = true →
      tagLine tag value ∈ (draftHeader options collaborators record).2.lines →
        StaysComment value := by
  obtain ⟨d, hd, rfl⟩ := headerText_eq_ok.mp h
  have hlines : OnlyComments (options.style.render d.lines.toList) ↔
      ∀ line ∈ d.lines.toList, StaysComment line := by
    rw [hstyle]
    refine (onlyComments_lineComments (lines_ne_nil_of_ok hd) (not_mem_lineFeed_of_ok hd)).trans ?_
    refine forall₂_congr fun line hm => ?_
    rcases mem_lines_of_ok hd hm with rfl | rfl | hline
    · exact behindEach_trimChars (c := '=') rfl (by decide)
    · exact behindEach_trimChars (c := '=') rfl (by decide)
    · exact behindEach_trimChars hline.head_eq (by decide)
  rw [hlines, hd]
  constructor
  · intro hall tag value htag hm
    exact (staysComment_tagLine htag value).mp (hall _ (Array.mem_toList_iff.mpr hm))
  · intro hall line hm
    rcases mem_lines_of_ok hd hm with rfl | rfl | rfl | ⟨tag, value, htag, _, rfl⟩
    · exact behindEach_of_not_mem (by decide)
    · exact behindEach_of_not_mem (by decide)
    · exact behindEach_of_not_mem (by decide)
    · exact (staysComment_tagLine htag value).mpr
        (hall tag value htag (Array.mem_toList_iff.mp hm))

def slashesOptions : Options := { style := .slashes }

def plainCollaborators : Collaborators := ⟨LocaleRule.bestFit, fun _ _ => .ok "", .ok "/"⟩

theorem onlyComments_headerText_iff_of_return :
    headerText slashesOptions plainCollaborators (Record.ofRequired "a\x0d//b" "1\x0d " "me") =
        .ok "// ==UserScript==\n// @name a\x0d//b\n// @version 1\n// @author me\n// ==/UserScript==" ∧
      (OnlyComments
          "// ==UserScript==\n// @name a\x0d//b\n// @version 1\n// @author me\n// ==/UserScript==" ↔
        ∀ tag value, isTagName tag = true →
          tagLine tag value ∈ (draftHeader slashesOptions plainCollaborators
            (Record.ofRequired "a\x0d//b" "1\x0d " "me")).2.lines → StaysComment value) :=
  ⟨rfl, onlyComments_headerText_iff rfl rfl⟩

/-- A name with a carriage return in it leaves its comment. -/
theorem exists_headerText_not_onlyComments :
    ¬ ∀ (options : Options) (collaborators : Collaborators) (record : Record) (text : String),
      options.style = .slashes → headerText options collaborators record = .ok text →
        OnlyComments text := by
  intro h
  have hall := h slashesOptions plainCollaborators (Record.ofRequired "a\x0db" "1" "me")
    "// ==UserScript==\n// @name a\x0db\n// @version 1\n// @author me\n// ==/UserScript==" rfl rfl
  have hpiece := hall "b" (by decide)
  exact absurd hpiece (by decide)

end Userscript
