import Userscript.Proofs.Command.Loading
import Userscript.Proofs.Header.Delimiting

/-! Checking a script against a header. A script that was made with a header of
its own passes for another header only if the two headers are one. -/

namespace Userscript

theorem beginsWithHeader_eq_true {header script : List Char} :
    beginsWithHeader header script = true ↔
      script = header ∨ ∃ c rest, (c = '\n' ∨ c = '\x0d') ∧ script = header ++ c :: rest := by
  rw [beginsWithHeader, Bool.and_eq_true, List.isPrefixOf_iff_prefix]
  constructor
  · rintro ⟨⟨rest, rfl⟩, h⟩
    rw [List.drop_left] at h
    cases rest with
    | nil => exact .inl (List.append_nil header)
    | cons c rest => exact .inr ⟨c, rest, by simpa using h, rfl⟩
  · rintro (rfl | ⟨c, rest, hc, rfl⟩)
    · simp
    · refine ⟨List.prefix_append header _, ?_⟩
      rw [List.drop_left]
      simpa using hc

theorem verifyScript_of_read {t : FileTree} {script text : String}
    (h : t.read script = .ok text.toUTF8) (header : String) :
    verifyScript t script header =
      if beginsWithHeader header.toList text.toList then .ok () else .error (.drift script) := by
  rw [verifyScript, FileTree.readText_of_read h]

section

variable {options : Options} {c₁ c₂ : Collaborators} {r₁ r₂ : Record} {h₁ h₂ : String}
  {t : FileTree} {script body : String}

/-- A script that follows one header passes for another header that says where
it ends only if both are the same, whatever the script goes on with. -/
theorem verifyScript_eq_ok_iff
    (hclosed : options.includeBlock = true ∨ options.style = .block)
    (h1 : headerText options c₁ r₁ = .ok h₁) (h2 : headerText options c₂ r₂ = .ok h₂)
    (hfile : t.read script = .ok (h₁ ++ "\n" ++ body).toUTF8) :
    verifyScript t script h₂ = .ok () ↔ h₁ = h₂ := by
  have htext : (h₁ ++ "\n" ++ body).toList = h₁.toList ++ '\n' :: body.toList := by simp
  rw [verifyScript_of_read hfile, htext]
  constructor
  · intro h
    have hbegins : beginsWithHeader h₂.toList (h₁.toList ++ '\n' :: body.toList) = true := by
      by_contra hno
      rw [if_neg hno] at h
      cases h
    have hp : h₂.toList <+: h₁.toList ++ '\n' :: body.toList := by
      rcases beginsWithHeader_eq_true.mp hbegins with he | ⟨c, rest, _, he⟩
      · exact ⟨[], by rw [List.append_nil, he]⟩
      · exact ⟨c :: rest, he.symm⟩
    exact eq_of_prefix_headerText hclosed h1 h2 hp
  · rintro rfl
    exact if_pos (beginsWithHeader_eq_true.mpr (.inr ⟨'\n', body.toList, .inl rfl, rfl⟩))

end

def licensedRecord : Record := { Record.ofRequired "a" "1" "me" with license := some "MIT" }

def olderHeader : String := "==UserScript==\n@name a\n@version 1\n@author me\n==/UserScript=="

def licensedHeader : String :=
  "==UserScript==\n@name a\n@version 1\n@author me\n@license MIT\n==/UserScript=="

/-- A script whose body goes on with the lines that its older header lacks. -/
def imitatingTree : FileTree where
  entries := [(["a.js"],
    .file (olderHeader ++ "\n" ++ "@license MIT\n==/UserScript==").toUTF8)]
  workingPlace := []

theorem verifyScript_eq_ok_iff_of_imitation :
    headerText { style := .plain } imitatingTree.collaborators (Record.ofRequired "a" "1" "me") =
        .ok olderHeader ∧
      headerText { style := .plain } imitatingTree.collaborators licensedRecord =
        .ok licensedHeader ∧
      (verifyScript imitatingTree "a.js" licensedHeader = .ok () ↔
        olderHeader = licensedHeader) := by
  have h1 : headerText { style := .plain } imitatingTree.collaborators
      (Record.ofRequired "a" "1" "me") = .ok olderHeader := rfl
  have h2 : headerText { style := .plain } imitatingTree.collaborators licensedRecord =
      .ok licensedHeader := rfl
  exact ⟨h1, h2, verifyScript_eq_ok_iff (.inl rfl) h1 h2 rfl⟩

end Userscript
