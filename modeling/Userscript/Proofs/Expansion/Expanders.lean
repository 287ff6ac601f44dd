import Userscript.Header.Field
import Userscript.Proofs.Expansion.Appending

/-! What the expanders write, for any kind `P` of lines that has all lines of
tags with values. None of them looks at the draft, so each can be studied alone. -/

namespace Userscript

open Expansion

theorem checkTagName_bind {α : Type} (tag : String) (next : Unit → Expansion α) :
    (checkTagName tag >>= next) = if isTagName tag then next () else throw (.badTagName tag) := by
  unfold checkTagName
  split <;> rfl

section

variable {P : String → Prop}
  (hP : ∀ tag value, isTagName tag = true → '\n' ∉ value.toList → P (tagLine tag value))

theorem writes_expandFlag {tag : String} (hb : P (bareLine tag)) (condition : Bool) :
    (expandFlag tag condition).Writes P := by
  unfold expandFlag
  rw [checkTagName_bind]
  refine Writes.ite (fun _ => ?_) fun _ => writes_throw _
  exact Writes.ite (fun _ => writes_emit hb) fun _ => writes_pure ()

include hP

theorem writes_expandText (tag : String) (value : Option String) (checkNull : Bool)
    (hb : checkNull = false → P (bareLine tag)) : (expandText tag value checkNull).Writes P := by
  unfold expandText
  rw [checkTagName_bind]
  refine Writes.ite (fun htag => ?_) fun _ => writes_throw _
  cases value with
  | none => exact Writes.ite (fun _ => writes_throw _) fun h => writes_emit (hb (by simpa using h))
  | some v =>
    refine Writes.ite (fun _ => writes_throw _) fun h => writes_emit (hP tag v htag ?_)
    exact hasLineFeed_eq_false.mp (by simpa using h)

theorem writes_expandValue (tag value : String) : (expandText tag (some value)).Writes P :=
  writes_expandText hP tag (some value) true (by simp)

theorem writes_expandTexts (tag : String) (values : OneOrMany String) :
    (expandTexts tag values).Writes P := by
  unfold expandTexts
  rw [checkTagName_bind]
  exact Writes.ite (fun _ => Writes.forM (writes_expandValue hP tag)) fun _ => writes_throw _

theorem writes_expandScalar (tag : String) (value : Json) : (expandScalar tag value).Writes P := by
  unfold expandScalar
  rw [checkTagName_bind]
  refine Writes.ite (fun _ => ?_) fun _ => writes_throw _
  cases value with
  | null => exact writes_expandText hP tag none true (by simp)
  | bool b => exact writes_expandValue hP tag _
  | number n => exact writes_expandValue hP tag _
  | string s => exact writes_expandValue hP tag _
  | array items => exact writes_throw _
  | object members => exact writes_throw _

end

theorem expandTranslations_cons (locales : LocaleRule) (tag : String) (transform : String → String)
    (included : List String) (entry : String × String) (rest : List (String × String)) :
    expandTranslations locales tag transform included (entry :: rest) =
      resolveLocale locales entry.1 >>= fun locale =>
        if locale ∈ included then throw (.repeatedLocale tag locale)
        else expandText (localeTag tag locale) (some (transform entry.2)) >>= fun _ =>
          expandTranslations locales tag transform (included ++ [locale]) rest := by
  obtain ⟨key, text⟩ := entry
  rw [expandTranslations]
  rfl

section Localized

variable {P : String → Prop}
  (hP : ∀ tag value, isTagName tag = true → '\n' ∉ value.toList → P (tagLine tag value))
  (locales : LocaleRule) (tag : String)

theorem writes_resolveLocale (key : String) : (resolveLocale locales key).Writes P := by
  refine (writes_note _).bind fun _ => (writes_warn _).bind fun _ => ?_
  cases (locales key).1 with
  | error e => exact writes_throw _
  | ok locale => exact writes_pure _

include hP

theorem writes_expandTranslations (transform : String → String) (included : List String)
    (entries : List (String × String)) :
    (expandTranslations locales tag transform included entries).Writes P := by
  induction entries generalizing included with
  | nil => exact writes_pure ()
  | cons entry rest ih =>
    rw [expandTranslations_cons]
    refine (writes_resolveLocale locales entry.1).bind fun locale => ?_
    refine Writes.ite (fun _ => writes_throw _) fun _ => ?_
    exact (writes_expandValue hP _ _).bind fun _ => ih _

theorem writes_expandLocalizedText (value : LocalizedText) (transform : String → String) :
    (expandLocalizedText locales tag value transform).Writes P := by
  unfold expandLocalizedText
  cases value with
  | plain text => exact writes_expandValue hP tag text
  | translated t =>
    exact (writes_expandValue hP tag _).bind fun _ =>
      writes_expandTranslations hP locales tag transform [] t.locales.entries

theorem writes_expandLocalizedTexts (value : Option (OneOrMany LocalizedText))
    (options : LocalizedOptions) (hb : options.checkNull = false → P (bareLine tag)) :
    (expandLocalizedTexts locales tag value options).Writes P := by
  unfold expandLocalizedTexts
  rw [checkTagName_bind]
  refine Writes.ite (fun _ => ?_) fun _ => writes_throw _
  rcases value with _ | v | vs
  · exact writes_expandText hP tag none _ hb
  · exact writes_expandLocalizedText hP locales tag v _
  · refine Writes.ite (fun _ => ?_) fun _ => writes_throw _
    exact Writes.forM fun v => writes_expandLocalizedText hP locales tag v _

end Localized

section Descriptor

variable {P : String → Prop} {α : Type} {transformer : Transformer α}
  (hP : ∀ tag value, isTagName tag = true → '\n' ∉ value.toList → P (tagLine tag value))
  (ht : ∀ value tag, (transformer value tag).Writes P)

include hP ht

theorem writes_expandTransformed (tag : String) (value : TextOr α) :
    (expandTransformed tag value transformer).Writes P := by
  refine (ht value tag).bind fun emission => ?_
  cases emission with
  | nothing => exact writes_pure ()
  | one v => exact writes_expandTexts hP tag _
  | many vs => exact writes_expandTexts hP tag _

theorem writes_expandDescriptor (tag : String) (value : Option (TextOr α))
    (options : DescriptorOptions) (hb : options.checkNull = false → P (bareLine tag)) :
    (expandDescriptor tag value transformer options).Writes P := by
  unfold expandDescriptor
  rw [checkTagName_bind]
  refine Writes.ite (fun _ => ?_) fun _ => writes_throw _
  split
  · exact writes_expandText hP tag none _ hb
  · exact writes_expandText hP tag _ _ hb
  · exact writes_throw _
  · exact writes_expandTransformed hP ht tag _

theorem writes_expandDescriptors (tag : String) (values : OneOrMany (TextOr α))
    (options : DescriptorOptions) (hb : options.checkNull = false → P (bareLine tag)) :
    (expandDescriptors tag values transformer options).Writes P := by
  unfold expandDescriptors
  rw [checkTagName_bind]
  refine Writes.ite (fun _ => ?_) fun _ => writes_throw _
  cases values with
  | one v => exact writes_throw _
  | many vs => exact Writes.forM fun v => writes_expandDescriptor hP ht tag (some v) options hb

end Descriptor

section ResourceUrl

variable {P : String → Prop} (options : Options) (collaborators : Collaborators)

theorem writes_resolveSource (r : Resource) : (resolveSource options r).Writes P := by
  unfold resolveSource
  split
  · exact writes_pure _
  · exact writes_pure _
  · exact (writes_note _).bind fun _ => writes_pure _

theorem writes_orHashFailure (result : Except HashFailure String) :
    (orHashFailure result).Writes P := by
  cases result with
  | ok text => exact writes_pure _
  | error f => exact writes_throw _

theorem writes_hashSource (path : String) (algorithm : HashAlgorithm) :
    (hashSource collaborators path algorithm).Writes P :=
  (writes_orHashFailure _).bind fun _ => (writes_note _).bind fun _ => writes_orHashFailure _

theorem writes_resolveDigest (id : String) (source : Option String) (h : Integrity) :
    (resolveDigest collaborators id source h).Writes P := by
  unfold resolveDigest
  split
  · exact writes_pure _
  · exact writes_hashSource ..
  · exact writes_throw _

theorem writes_resolveIntegrity (id : String) (source : Option String) (h : Option Integrity) :
    (resolveIntegrity collaborators id source h).Writes P := by
  cases h with
  | none => exact writes_pure _
  | some h => exact (writes_resolveDigest ..).bind fun _ => writes_pure _

theorem writes_resolveUrl (r : Resource) : (resolveUrl options r).Writes P := by
  unfold resolveUrl
  split
  · exact writes_pure _
  · exact writes_throw _
  · refine (writes_note _).bind fun _ => ?_
    split
    · exact writes_pure _
    · exact writes_throw _

theorem writes_resourceUrl (r : Resource) : (resourceUrl options collaborators r).Writes P :=
  (writes_resolveSource options r).bind fun _ =>
    (writes_resolveIntegrity ..).bind fun _ =>
      (writes_resolveUrl ..).bind fun _ => writes_pure _

end ResourceUrl

section Transformers

variable {P : String → Prop}
  (hP : ∀ tag value, isTagName tag = true → '\n' ∉ value.toList → P (tagLine tag value))
  (options : Options) (collaborators : Collaborators)

theorem writes_presentText {α : Type} (text : α → String) (value : TextOr α) (tag : String) :
    (presentText text value tag).Writes P :=
  writes_pure _

theorem writes_presentScript (value : TextOr Resource) (tag : String) :
    (presentScript options collaborators value tag).Writes P := by
  cases value with
  | text s => exact writes_pure _
  | descriptor r => exact (writes_resourceUrl ..).bind fun _ => writes_pure _

theorem writes_presentResource (value : TextOr Resource) (tag : String) :
    (presentResource options collaborators value tag).Writes P := by
  cases value with
  | text s => exact writes_pure _
  | descriptor r => exact (writes_resourceUrl ..).bind fun _ => writes_pure _

theorem writes_whenSome {α : Type} {value : Option α} {expand : α → Expansion Unit}
    (h : ∀ v, (expand v).Writes P) : (whenSome value expand).Writes P := by
  cases value with
  | none => exact writes_pure ()
  | some v => exact h v

include hP

theorem writes_presentIcon (value : TextOr Icon) (tag : String) :
    (presentIcon value tag).Writes P := by
  cases value with
  | text s => exact writes_pure _
  | descriptor icon =>
    have hline : ∀ tag value, (expandText tag value).Writes P :=
      fun tag value => writes_expandText hP tag value true (by simp)
    have hsmall : ∀ u : Unit, (if icon.small.isSome then
        expandText "icon" icon.small >>= fun _ => (pure .nothing : Expansion Emission)
        else pure .nothing).Writes P := fun _ =>
      Writes.ite (fun _ => (hline ..).bind fun _ => writes_pure _) fun _ => writes_pure _
    exact Writes.ite (fun _ => (hline ..).bind hsmall) fun _ => hsmall ()

theorem writes_presentAntiFeature (locales : LocaleRule) (value : TextOr AntiFeature)
    (tag : String) : (presentAntiFeature locales value tag).Writes P := by
  cases value with
  | text s => exact writes_pure _
  | descriptor feature =>
    exact (writes_expandLocalizedText hP locales tag _ _).bind fun _ => writes_pure _

end Transformers

namespace Field

variable {P : String → Prop}
  (hP : ∀ tag value, isTagName tag = true → '\n' ∉ value.toList → P (tagLine tag value))
  (options : Options) (collaborators : Collaborators) (record : Record)

include hP

theorem writes_expandPresent (field : Field)
    (hb : ∀ read, field.content = .flag read → P (bareLine field.tag)) :
    (field.expandPresent options collaborators record).Writes P := by
  unfold expandPresent
  cases h : field.content with
  | text read => exact writes_expandText hP _ _ _ (by simp)
  | flag read => exact writes_expandFlag (hb read h) _
  | texts read => exact writes_whenSome (writes_expandTexts hP _)
  | localized read => exact writes_expandLocalizedTexts hP _ _ _ _ (by simp)
  | user read => exact writes_expandDescriptor hP (writes_presentText _) _ _ _ (by simp)
  | users read =>
    exact writes_whenSome fun v =>
      writes_expandDescriptors hP (writes_presentText _) _ v _ (by simp)
  | icon read => exact writes_expandDescriptor hP (writes_presentIcon hP) _ _ _ (by simp)
  | patterns read =>
    exact writes_whenSome fun v =>
      writes_expandDescriptors hP (writes_presentText _) _ v _ (by simp)
  | antiFeatures read =>
    exact writes_whenSome fun v =>
      writes_expandDescriptors hP (writes_presentAntiFeature hP _) _ v _ (by simp)
  | scripts read =>
    exact writes_whenSome fun v =>
      writes_expandDescriptors hP (writes_presentScript _ _) _ v _ (by simp)
  | resources read =>
    exact writes_whenSome fun v =>
      writes_expandDescriptors hP (writes_presentResource _ _) _ v _ (by simp)
  | custom read =>
    exact writes_whenSome fun tags => Writes.forM fun e => writes_expandScalar hP e.1 e.2

theorem writes_expand (field : Field)
    (hb : ∀ read, field.content = .flag read → P (bareLine field.tag)) :
    (field.expand options collaborators record).Writes P :=
  Writes.ite (fun _ => writes_expandPresent hP options collaborators record field hb) fun _ =>
    Writes.ite (fun _ => writes_throw _) fun _ => writes_pure ()

end Field

end Userscript
