import Userscript.Proofs.Expansion.Success

/-! The texts that a short text or a descriptor puts under its tag, and when the
transformer of each kind of descriptor succeeds. -/

namespace Userscript

open Expansion

namespace TextOr

variable {α : Type}

/-- What stands under a tag for a short text or a descriptor. -/
def said (text : α → String) : TextOr α → String
  | .text s => s
  | .descriptor v => text v

def descriptor? : TextOr α → Option α
  | .text _ => none
  | .descriptor v => some v

def iconTexts : TextOr Icon → List String
  | .text s => [s]
  | .descriptor icon => icon.larger.toList ++ icon.small.toList

/-- A translated reason has the kind before each of its texts. -/
def antiFeatureTexts : TextOr AntiFeature → List String
  | .text s => [s]
  | .descriptor feature => feature.reason.texts fun text => feature.kind ++ " " ++ text

/-- The URL of a resource, as `present` shows it; nothing without a URL. -/
def resourceTexts (options : Options) (collaborators : Collaborators)
    (present : Resource → String → String) : TextOr Resource → List String
  | .text s => [s]
  | .descriptor r =>
    match (resourceUrl options collaborators r).outcome with
    | .ok url => [present r url]
    | .error _ => []

end TextOr

section Transformers

variable {tag : String}

theorem outcome_expandDescriptor_presentText {α : Type} {text : α → String} {value : TextOr α} :
    (expandDescriptor tag (some value) (presentText text)).outcome = .ok () ↔
      isTagName tag = true ∧ FitsLine (value.said text) := by
  cases value with
  | text s => exact outcome_expandDescriptor_text
  | descriptor v =>
    rw [outcome_expandDescriptor_descriptor]
    simp [presentText, Emission.texts, TextOr.said]

theorem presentIcon_eq (icon : Icon) :
    presentIcon (.descriptor icon) tag =
      whenSome icon.larger (fun l => expandText "icon64" (some l)) >>= fun _ =>
        whenSome icon.small (fun s => expandText "icon" (some s)) >>= fun _ => pure .nothing := by
  obtain ⟨small, larger⟩ := icon
  cases small <;> cases larger <;> rfl

theorem outcome_whenSome_expandText {value : Option String} (htag : isTagName tag = true) :
    (whenSome value fun v => expandText tag (some v)).outcome = .ok () ↔
      ∀ v ∈ value.toList, FitsLine v := by
  cases value with
  | none => simp [whenSome]
  | some v => simp [whenSome, outcome_expandText_some, htag]

theorem outcome_presentIcon {icon : Icon} {emission : Emission} :
    (presentIcon (.descriptor icon) tag).outcome = .ok emission ↔
      Emission.nothing = emission ∧ ∀ v ∈ icon.larger.toList ++ icon.small.toList, FitsLine v := by
  have hsmall : (whenSome icon.small fun s => expandText "icon" (some s)).Appends :=
    (writes_whenSome (P := fun _ => True) (writes_expandValue (by simp) "icon")).toAppends
  have hend : (pure .nothing : Expansion Emission).Appends := appends_pure _
  rw [presentIcon_eq, outcome_seq_eq_ok (hsmall.bind fun _ => hend), outcome_seq_eq_ok hend,
    outcome_whenSome_expandText (by decide), outcome_whenSome_expandText (by decide),
    List.forall_mem_append, outcome_pure, Except.ok.injEq]
  exact ⟨fun ⟨hl, hs, he⟩ => ⟨he, hl, hs⟩, fun ⟨he, hl, hs⟩ => ⟨hl, hs, he⟩⟩

theorem outcome_expandDescriptor_icon {value : TextOr Icon} :
    (expandDescriptor tag (some value) presentIcon { texts := .refuse }).outcome = .ok () ↔
      isTagName tag = true ∧ (∀ s, value ≠ .text s) ∧ ∀ v ∈ value.iconTexts, FitsLine v := by
  cases value with
  | text s =>
    unfold expandDescriptor
    rw [outcome_checkTagName_bind]
    simp
  | descriptor icon =>
    rw [outcome_expandDescriptor_descriptor]
    simp [outcome_presentIcon, and_assoc, Emission.texts, TextOr.iconTexts]

theorem outcome_expandDescriptor_antiFeature {locales : LocaleRule} {value : TextOr AntiFeature} :
    (expandDescriptor tag (some value) (presentAntiFeature locales)).outcome = .ok () ↔
      isTagName tag = true ∧
        (∀ feature, value.descriptor? = some feature → feature.reason.Resolves locales tag) ∧
        ∀ v ∈ value.antiFeatureTexts, FitsLine v := by
  cases value with
  | text s =>
    rw [outcome_expandDescriptor_text]
    simp [TextOr.descriptor?, TextOr.antiFeatureTexts]
  | descriptor feature =>
    have hpresent : ∀ emission,
        (presentAntiFeature locales (.descriptor feature) tag).outcome = .ok emission ↔
          Emission.nothing = emission ∧ (expandLocalizedText locales tag feature.reason
            fun text => feature.kind ++ " " ++ text).outcome = .ok () := by
      intro emission
      unfold presentAntiFeature
      rw [outcome_seq_eq_ok (appends_pure _), outcome_pure, Except.ok.injEq, and_comm]
    rw [outcome_expandDescriptor_descriptor]
    refine and_congr_right fun htag => ?_
    simp [hpresent, and_assoc, outcome_expandLocalizedText, htag, Emission.texts,
      TextOr.descriptor?, TextOr.antiFeatureTexts]

def presentUrl (options : Options) (collaborators : Collaborators)
    (present : Resource → String → String) : Transformer Resource := fun value _ =>
  match value with
  | .text s => pure (.one s)
  | .descriptor r => resourceUrl options collaborators r >>= fun url => pure (.one (present r url))

variable {options : Options} {collaborators : Collaborators}

theorem presentScript_eq :
    presentScript options collaborators = presentUrl options collaborators fun _ url => url := by
  funext value tag
  cases value <;> rfl

theorem presentResource_eq :
    presentResource options collaborators =
      presentUrl options collaborators fun r url => r.id ++ " " ++ url := by
  funext value tag
  cases value <;> rfl

theorem outcome_expandDescriptor_presentUrl {present : Resource → String → String}
    {value : TextOr Resource} :
    (expandDescriptor tag (some value) (presentUrl options collaborators present)).outcome =
        .ok () ↔
      isTagName tag = true ∧
        (∀ r, value.descriptor? = some r →
          ∃ url, (resourceUrl options collaborators r).outcome = .ok url) ∧
        ∀ v ∈ value.resourceTexts options collaborators present, FitsLine v := by
  cases value with
  | text s =>
    rw [outcome_expandDescriptor_text]
    simp [TextOr.descriptor?, TextOr.resourceTexts]
  | descriptor r =>
    rw [outcome_expandDescriptor_descriptor]
    refine and_congr_right fun _ => ?_
    simp only [presentUrl, outcome_bind_eq_ok fun _ => appends_pure _, TextOr.descriptor?,
      TextOr.resourceTexts]
    cases h : (resourceUrl options collaborators r).outcome with
    | error e => simp [h]
    | ok url => simp [h, Emission.texts]

end Transformers

end Userscript
