import Userscript.Proofs.Expansion.Values
import Userscript.Proofs.Header.Segment

/-! The fields that a header needs: each of them gives a line, so no header is
without lines. -/

namespace Userscript

open Expansion

variable {options : Options} {collaborators : Collaborators} {record : Record}

theorem lines_expandLocalizedTexts_ne {locales : LocaleRule} {tag : String}
    {value : OneOrMany LocalizedText}
    (h : (expandLocalizedTexts locales tag (some value)).outcome = .ok ()) :
    0 < (expandLocalizedTexts locales tag (some value)).written.lines.size := by
  obtain ⟨htag, v, rfl, hresolves, hfits⟩ := outcome_expandLocalizedTexts.mp h
  unfold expandLocalizedTexts
  rw [checkTagName_bind, if_pos htag]
  change 0 < (expandLocalizedText locales tag v id).written.lines.size
  cases v with
  | plain text =>
    change 0 < (expandText tag (some text)).written.lines.size
    rw [written_expandText htag (hfits text (by simp [LocalizedText.texts]))]
    simp
  | translated t =>
    have hfit : FitsLine t.base := hfits t.base (by simp [LocalizedText.texts])
    change 0 < (expandText tag (some t.base) >>= fun _ =>
      expandTranslations locales tag id [] t.locales.entries).written.lines.size
    rw [written_bind_of_ok (fun _ => appends_expandTranslations ..)
      (outcome_expandText_some.mpr ⟨htag, hfit⟩), Draft.lines_append, written_expandText htag hfit]
    simp only [Array.size_append, List.size_toArray, List.length_cons, List.length_nil]
    omega

theorem lines_expandDescriptor_presentText {α : Type} {tag : String} {value : TextOr α}
    {text : α → String}
    (h : (expandDescriptor tag (some value) (presentText text)).outcome = .ok ()) :
    (expandDescriptor tag (some value) (presentText text)).written.lines =
      #[tagLine tag (value.said text)] := by
  obtain ⟨htag, hfit⟩ := outcome_expandDescriptor_presentText.mp h
  unfold expandDescriptor
  rw [checkTagName_bind, if_pos htag]
  cases value with
  | text s => exact written_expandText htag hfit
  | descriptor v =>
    have hfit : FitsLine (text v) := hfit
    change (expandTexts tag (.one (text v))).written.lines = _
    unfold expandTexts
    rw [checkTagName_bind, if_pos htag]
    change ([text v].forM fun v => expandText tag (some v)).written.lines = _
    rw [written_forM (fun v => appends_expandText tag (some v) true) (by
      simpa [outcome_expandText_some, htag] using hfit)]
    simp [written_expandText htag hfit, TextOr.said]

namespace Field

theorem pos_size_segment {field : Field} (hrequired : field.required = true)
    (hpass : field.Passes options collaborators record)
    (h : field.content.present record = true →
      (field.expandPresent options collaborators record).outcome = .ok () →
        0 < (field.expandPresent options collaborators record).written.lines.size) :
    0 < (field.segment options collaborators record).lines.size := by
  obtain ⟨hpresent, hok⟩ := passes_iff.mp hpass
  rw [segment, if_pos (hpresent hrequired)]
  exact h (hpresent hrequired) (hok (hpresent hrequired))

variable {key tag : String}

theorem pos_size_segment_text {read : Record → Option String}
    (hpass : Passes options collaborators record ⟨key, tag, .text read, true⟩) :
    0 < (segment options collaborators record ⟨key, tag, .text read, true⟩).lines.size := by
  refine pos_size_segment rfl hpass fun hpresent hok => ?_
  simp only [FieldContent.present, expandPresent] at hpresent hok ⊢
  obtain ⟨v, hv⟩ := Option.isSome_iff_exists.mp hpresent
  rw [hv] at hok ⊢
  obtain ⟨htag, hfit⟩ := outcome_expandText_some.mp hok
  rw [written_expandText htag hfit]
  simp

theorem pos_size_segment_localized {read : Record → Option (OneOrMany LocalizedText)}
    (hpass : Passes options collaborators record ⟨key, tag, .localized read, true⟩) :
    0 < (segment options collaborators record ⟨key, tag, .localized read, true⟩).lines.size := by
  refine pos_size_segment rfl hpass fun hpresent hok => ?_
  simp only [FieldContent.present, expandPresent] at hpresent hok ⊢
  obtain ⟨v, hv⟩ := Option.isSome_iff_exists.mp hpresent
  rw [hv] at hok ⊢
  exact lines_expandLocalizedTexts_ne hok

theorem pos_size_segment_user {read : Record → Option (TextOr User)}
    (hpass : Passes options collaborators record ⟨key, tag, .user read, true⟩) :
    0 < (segment options collaborators record ⟨key, tag, .user read, true⟩).lines.size := by
  refine pos_size_segment rfl hpass fun hpresent hok => ?_
  simp only [FieldContent.present, expandPresent] at hpresent hok ⊢
  obtain ⟨v, hv⟩ := Option.isSome_iff_exists.mp hpresent
  rw [hv] at hok ⊢
  rw [lines_expandDescriptor_presentText hok]
  simp

end Field

/-- The three fields that a header needs have a line each. -/
theorem three_le_size_segments (h : ∀ f ∈ headerFields, f.Passes options collaborators record) :
    3 ≤ (segments options collaborators record headerFields).lines.size := by
  have hname := Field.pos_size_segment_localized (h ⟨"name", "name", .localized Record.name, true⟩
    (by simp [headerFields]))
  have hversion := Field.pos_size_segment_text (h ⟨"version", "version", .text Record.version, true⟩
    (by simp [headerFields]))
  have hauthor := Field.pos_size_segment_user (h ⟨"author", "author", .user Record.author, true⟩
    (by simp [headerFields]))
  simp only [segments, headerFields, List.map_cons, Draft.concat_cons, Draft.lines_append,
    Array.size_append]
  omega

end Userscript
