import Userscript.Proofs.Header.BlockComment
import Userscript.Proofs.Header.LineGrammar

/-! Headers that say where they end. A block comment ends at its first closing
mark, and of lines between markers none but the last begins with the end marker,
so no such header stands in front of a text that begins with another one. -/

namespace Userscript

def CommentStyle.line : CommentStyle → String → String
  | .block => blockLine
  | .slashes => commentLine
  | .plain => id

theorem ClosesAtEnd.unique {cs ds rest : List Char} (hc : ClosesAtEnd cs)
    (hd : ClosesAtEnd ds) (h : cs <+: ds ++ rest) : cs = ds := by
  rcases List.prefix_or_prefix_of_prefix h (List.prefix_append ds rest) with hp | hp
  · obtain ⟨back, rfl⟩ := hp
    obtain ⟨front, rfl⟩ := hc.1
    rw [hd.2 front back rfl, List.append_nil]
  · obtain ⟨back, rfl⟩ := hp
    obtain ⟨front, rfl⟩ := hd.1
    rw [hc.2 front back rfl, List.append_nil]

theorem eq_of_prefix_blockComment {lines lines' : List String} {rest : List Char}
    (h : (blockComment lines).toList <+: (blockComment lines').toList ++ rest) :
    blockComment lines = blockComment lines' := by
  obtain ⟨inner, he, hclose⟩ := exists_toList_blockComment lines
  obtain ⟨inner', he', hclose'⟩ := exists_toList_blockComment lines'
  rw [he, he'] at h
  simp only [List.cons_append, List.cons_prefix_cons, true_and] at h
  rw [← String.toList_inj, he, he', hclose.unique hclose' h]

namespace CommentStyle

variable {style : CommentStyle}

theorem render_eq_joinText (h : style ≠ .block) (lines : List String) :
    style.render lines = joinText '\n' (lines.map style.line) := by
  cases style with
  | block => exact absurd rfl h
  | slashes => rfl
  | plain => simp [render, line]

theorem not_mem_lineFeed_line (h : style ≠ .block) {text : String} (hl : '\n' ∉ text.toList) :
    '\n' ∉ (style.line text).toList := by
  cases style with
  | block => exact absurd rfl h
  | slashes =>
    have htrim : '\n' ∉ trimChars text.toList := fun hm => hl ((trimChars_isInfix _).subset hm)
    simpa [line, commentLine, trim] using htrim
  | plain => exact hl

theorem not_prefix_line_of_isFieldLine (h : style ≠ .block) {text : String}
    (hf : IsFieldLine text) : ¬ (style.line blockEnd).toList <+: (style.line text).toList := by
  obtain ⟨cs, hcs⟩ := List.head?_eq_some_iff.mp hf.head_eq
  cases style with
  | block => exact absurd rfl h
  | slashes =>
    -- behind the slashes stands the sign of a tag, which is not trimmed away
    obtain ⟨trimmed, htrim⟩ : ∃ trimmed, trimChars text.toList = '@' :: trimmed := by
      rw [hcs]
      exact List.head?_eq_some_iff.mp (head?_trimChars (by decide) cs)
    have hline : (slashes.line text).toList = '/' :: '/' :: ' ' :: '@' :: trimmed := by
      simp [line, commentLine, trim, htrim]
    have hend : (slashes.line blockEnd).toList = '/' :: '/' :: ' ' :: blockEnd.toList := by decide
    rw [hline, hend]
    simp [blockEnd]
  | plain =>
    change ¬ blockEnd.toList <+: text.toList
    rw [hcs]
    simp [blockEnd]

theorem not_prefix_line_blockStart (h : style ≠ .block) :
    ¬ (style.line blockEnd).toList <+: (style.line blockStart).toList := by
  cases style with
  | block => exact absurd rfl h
  | slashes => decide
  | plain => decide

end CommentStyle

section

variable {options : Options} {c₁ c₂ : Collaborators} {r₁ r₂ : Record}

/-- With markers, what stands before the last line does not begin with it. -/
theorem exists_lines_before_end {c : Collaborators} {r : Record} {d : Draft}
    (hmarkers : options.includeBlock = true) (hstyle : options.style ≠ .block)
    (h : draftHeader options c r = (.ok (), d)) :
    ∃ front : List String, d.lines.toList = front ++ [blockEnd] ∧
      ∀ p ∈ front.map fun text => (options.style.line text).toList,
        '\n' ∉ p ∧ ¬ (options.style.line blockEnd).toList <+: p := by
  have hlines := toList_lines_of_ok h
  simp only [framedLines, hmarkers, if_true] at hlines
  rw [← List.append_assoc] at hlines
  refine ⟨_, hlines, fun p hp => ?_⟩
  obtain ⟨text, hm, rfl⟩ := List.mem_map.mp hp
  rcases List.mem_append.mp hm with hm | hm
  · obtain rfl := List.mem_singleton.mp hm
    exact ⟨CommentStyle.not_mem_lineFeed_line hstyle (by decide),
      CommentStyle.not_prefix_line_blockStart hstyle⟩
  · have hfield := isFieldLine_of_mem_segments text (Array.mem_toList_iff.mp hm)
    exact ⟨CommentStyle.not_mem_lineFeed_line hstyle hfield.not_mem_lineFeed,
      CommentStyle.not_prefix_line_of_isFieldLine hstyle hfield⟩

/-- A header that closes is the only one that a text begins with. -/
theorem eq_of_prefix_headerText {h₁ h₂ : String} {rest : List Char}
    (hclosed : options.includeBlock = true ∨ options.style = .block)
    (h1 : headerText options c₁ r₁ = .ok h₁) (h2 : headerText options c₂ r₂ = .ok h₂)
    (hp : h₂.toList <+: h₁.toList ++ '\n' :: rest) : h₁ = h₂ := by
  obtain ⟨d₁, hd₁, rfl⟩ := headerText_eq_ok.mp h1
  obtain ⟨d₂, hd₂, rfl⟩ := headerText_eq_ok.mp h2
  by_cases hstyle : options.style = .block
  · rw [hstyle] at hp ⊢
    exact (eq_of_prefix_blockComment hp).symm
  · have hmarkers : options.includeBlock = true := hclosed.resolve_right hstyle
    obtain ⟨front₁, he₁, hfront₁⟩ := exists_lines_before_end hmarkers hstyle hd₁
    obtain ⟨front₂, he₂, hfront₂⟩ := exists_lines_before_end hmarkers hstyle hd₂
    have hend : '\n' ∉ (options.style.line blockEnd).toList :=
      CommentStyle.not_mem_lineFeed_line hstyle (by decide)
    rw [CommentStyle.render_eq_joinText hstyle, CommentStyle.render_eq_joinText hstyle, he₁, he₂]
      at hp ⊢
    simp only [joinText, List.map_append, List.map_map, List.map_cons, List.map_nil,
      String.toList_ofList] at hp ⊢
    have heq := eq_of_prefix_joinChars hend hfront₂ hfront₁ hp
    simp only [Function.comp_def] at heq ⊢
    rw [heq]

end

end Userscript
