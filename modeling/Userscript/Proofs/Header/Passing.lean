import Userscript.Proofs.Expansion.Values
import Userscript.Proofs.Header.Segment
import Userscript.Proofs.Locale.Spelling

/-! When a field passes: a lemma for each kind of field. A required field must be
there, and where a field is there its values have the right shape, resolve and
fit into lines. -/

namespace Userscript

open Expansion

def listed {α : Type} (value : Option (OneOrMany α)) : List α :=
  value.elim [] OneOrMany.toList

/-- An array is expanded where each of its values meets a condition. -/
theorem outcome_whenSome_expandDescriptors {α : Type} {tag : String} {transformer : Transformer α}
    {meets : TextOr α → Prop} (ht : ∀ v t, (transformer v t).Writes fun _ => True)
    (hmeets : ∀ v, (expandDescriptor tag (some v) transformer).outcome = .ok () ↔
      isTagName tag = true ∧ meets v)
    (htag : isTagName tag = true) (value : Option (OneOrMany (TextOr α))) :
    (value.isSome = true →
        (whenSome value (expandDescriptors tag · transformer)).outcome = .ok ()) ↔
      (∀ v, value ≠ some (.one v)) ∧ ∀ v ∈ listed value, meets v := by
  cases value with
  | none => simp [listed]
  | some values =>
    simp only [whenSome, Option.isSome_some, true_imp_iff, outcome_expandDescriptors ht, hmeets]
    cases values with
    | one v => simp
    | many vs => simp [htag, listed, OneOrMany.toList]

namespace Field

variable {options : Options} {collaborators : Collaborators} {record : Record}
  {key tag : String} {required : Bool}

theorem passes_text {read : Record → Option String} (htag : isTagName tag = true) :
    Passes options collaborators record ⟨key, tag, .text read, required⟩ ↔
      (required = true → (read record).isSome = true) ∧
        ∀ v ∈ (read record).toList, FitsLine v := by
  rw [passes_iff]
  refine and_congr_right fun _ => ?_
  simp only [FieldContent.present, expandPresent]
  cases read record with
  | none => simp
  | some v => simp [outcome_expandText_some, htag]

theorem passes_flag {read : Record → Option Bool} (htag : isTagName tag = true) :
    Passes options collaborators record ⟨key, tag, .flag read, required⟩ ↔
      (required = true → (read record).isSome = true) := by
  have hflag : ∀ b, (expandFlag tag b).outcome = .ok () := fun b => by
    unfold expandFlag
    rw [checkTagName_bind, if_pos htag]
    cases b <;> rfl
  rw [passes_iff]
  simp only [FieldContent.present, expandPresent, hflag, implies_true, and_true]

theorem passes_texts {read : Record → Option (OneOrMany String)} (htag : isTagName tag = true) :
    Passes options collaborators record ⟨key, tag, .texts read, required⟩ ↔
      (required = true → (read record).isSome = true) ∧
        ∀ v ∈ listed (read record), FitsLine v := by
  rw [passes_iff]
  refine and_congr_right fun _ => ?_
  simp only [FieldContent.present, expandPresent]
  cases read record with
  | none => simp [listed]
  | some values => simp [whenSome, outcome_expandTexts, htag, listed]

theorem passes_localized {read : Record → Option (OneOrMany LocalizedText)}
    {spelling : KeySpelling} (hlocales : collaborators.locales = spelling.rule)
    (htag : isTagName tag = true) :
    Passes options collaborators record ⟨key, tag, .localized read, required⟩ ↔
      (required = true → (read record).isSome = true) ∧
        (∀ vs, read record ≠ some (.many vs)) ∧
        (∀ v ∈ listed (read record), v.DistinctLocales spelling) ∧
        ∀ v ∈ (listed (read record)).flatMap (LocalizedText.texts id), FitsLine v := by
  rw [passes_iff]
  refine and_congr_right fun _ => ?_
  simp only [FieldContent.present, expandPresent]
  rcases read record with _ | value
  · simp [listed]
  · simp only [outcome_expandLocalizedTexts, htag, hlocales, resolves_iff_distinctLocales htag]
    cases value with
    | one v => simp [listed, OneOrMany.toList]
    | many vs => simp

theorem passes_user {read : Record → Option (TextOr User)} (htag : isTagName tag = true) :
    Passes options collaborators record ⟨key, tag, .user read, required⟩ ↔
      (required = true → (read record).isSome = true) ∧
        ∀ v ∈ (read record).toList.map (TextOr.said User.signature), FitsLine v := by
  rw [passes_iff]
  refine and_congr_right fun _ => ?_
  simp only [FieldContent.present, expandPresent]
  cases read record with
  | none => simp
  | some v => simp [outcome_expandDescriptor_presentText, htag]

theorem passes_icon {read : Record → Option (TextOr Icon)} (htag : isTagName tag = true) :
    Passes options collaborators record ⟨key, tag, .icon read, required⟩ ↔
      (required = true → (read record).isSome = true) ∧ (∀ s, read record ≠ some (.text s)) ∧
        ∀ v ∈ (read record).toList.flatMap TextOr.iconTexts, FitsLine v := by
  rw [passes_iff]
  refine and_congr_right fun _ => ?_
  simp only [FieldContent.present, expandPresent]
  cases read record with
  | none => simp
  | some v => simp [outcome_expandDescriptor_icon, htag]

theorem passes_users {read : Record → Option (OneOrMany (TextOr User))}
    (htag : isTagName tag = true) :
    Passes options collaborators record ⟨key, tag, .users read, required⟩ ↔
      (required = true → (read record).isSome = true) ∧ (∀ v, read record ≠ some (.one v)) ∧
        ∀ v ∈ (listed (read record)).map (TextOr.said User.signature), FitsLine v := by
  rw [passes_iff, List.forall_mem_map]
  exact and_congr_right fun _ => outcome_whenSome_expandDescriptors (writes_presentText _)
    (fun _ => outcome_expandDescriptor_presentText) htag _

theorem passes_patterns {read : Record → Option (OneOrMany (TextOr Pattern))}
    (htag : isTagName tag = true) :
    Passes options collaborators record ⟨key, tag, .patterns read, required⟩ ↔
      (required = true → (read record).isSome = true) ∧ (∀ v, read record ≠ some (.one v)) ∧
        ∀ v ∈ (listed (read record)).map (TextOr.said Pattern.text), FitsLine v := by
  rw [passes_iff, List.forall_mem_map]
  exact and_congr_right fun _ => outcome_whenSome_expandDescriptors (writes_presentText _)
    (fun _ => outcome_expandDescriptor_presentText) htag _

theorem passes_antiFeatures {read : Record → Option (OneOrMany (TextOr AntiFeature))}
    {spelling : KeySpelling} (hlocales : collaborators.locales = spelling.rule)
    (htag : isTagName tag = true) :
    Passes options collaborators record ⟨key, tag, .antiFeatures read, required⟩ ↔
      (required = true → (read record).isSome = true) ∧ (∀ v, read record ≠ some (.one v)) ∧
        (∀ v ∈ ((listed (read record)).filterMap TextOr.descriptor?).map AntiFeature.reason,
          v.DistinctLocales spelling) ∧
        ∀ v ∈ (listed (read record)).flatMap TextOr.antiFeatureTexts, FitsLine v := by
  rw [passes_iff, List.forall_mem_map, List.forall_mem_filterMap, List.forall_mem_flatMap,
    ← forall₂_and]
  refine and_congr_right fun _ => outcome_whenSome_expandDescriptors
    (writes_presentAntiFeature (by simp) _) (fun value => ?_) htag _
  simp only [outcome_expandDescriptor_antiFeature, hlocales, resolves_iff_distinctLocales htag]

theorem passes_scripts {read : Record → Option (OneOrMany (TextOr Resource))}
    (htag : isTagName tag = true) :
    Passes options collaborators record ⟨key, tag, .scripts read, required⟩ ↔
      (required = true → (read record).isSome = true) ∧ (∀ v, read record ≠ some (.one v)) ∧
        (∀ r ∈ (listed (read record)).filterMap TextOr.descriptor?,
          ∃ url, (resourceUrl options collaborators r).outcome = .ok url) ∧
        ∀ v ∈ (listed (read record)).flatMap
          (TextOr.resourceTexts options collaborators fun _ url => url), FitsLine v := by
  rw [passes_iff, List.forall_mem_filterMap, List.forall_mem_flatMap, ← forall₂_and]
  refine and_congr_right fun _ => outcome_whenSome_expandDescriptors
    (writes_presentScript _ _) (fun value => ?_) htag _
  rw [presentScript_eq, outcome_expandDescriptor_presentUrl]

theorem passes_resources {read : Record → Option (OneOrMany (TextOr Resource))}
    (htag : isTagName tag = true) :
    Passes options collaborators record ⟨key, tag, .resources read, required⟩ ↔
      (required = true → (read record).isSome = true) ∧ (∀ v, read record ≠ some (.one v)) ∧
        (∀ r ∈ (listed (read record)).filterMap TextOr.descriptor?,
          ∃ url, (resourceUrl options collaborators r).outcome = .ok url) ∧
        ∀ v ∈ (listed (read record)).flatMap
          (TextOr.resourceTexts options collaborators fun r url => r.id ++ " " ++ url),
          FitsLine v := by
  rw [passes_iff, List.forall_mem_filterMap, List.forall_mem_flatMap, ← forall₂_and]
  refine and_congr_right fun _ => outcome_whenSome_expandDescriptors
    (writes_presentResource _ _) (fun value => ?_) htag _
  rw [presentResource_eq, outcome_expandDescriptor_presentUrl]

theorem passes_custom {read : Record → Option (Dict Json)} :
    Passes options collaborators record ⟨key, tag, .custom read, required⟩ ↔
      (required = true → (read record).isSome = true) ∧
        (∀ e ∈ (read record).elim [] Dict.entries,
          isTagName e.1 = true ∧ e.2.scalarText?.isSome = true) ∧
        ∀ v ∈ ((read record).elim [] Dict.entries).filterMap fun e => e.2.scalarText?,
          FitsLine v := by
  rw [passes_iff, List.forall_mem_filterMap, ← forall₂_and]
  refine and_congr_right fun _ => ?_
  simp only [FieldContent.present, expandPresent]
  cases read record with
  | none => simp
  | some tags =>
    have happ : ∀ e : String × Json, (expandScalar e.1 e.2).Appends := fun e =>
      appends_expandScalar e.1 e.2
    simp only [whenSome, Option.isSome_some, true_imp_iff, outcome_forM_eq_ok happ,
      outcome_expandScalar, Option.elim_some]
    refine forall₂_congr fun e _ => ?_
    cases e.2.scalarText? with
    | none => simp
    | some text => simp

end Field

end Userscript
