import Userscript.Proofs.Expansion.Values
import Userscript.Proofs.Header.Segment

/-! How an expansion can fail. A complaint about a source, a URL or a digest that is
not known comes from the resolution of some resource and from nothing else. -/

namespace Userscript

open Expansion

/-- A complaint about something that a resource does not say and nobody can find out. -/
def HeaderError.AboutResource : HeaderError → Prop
  | .unknownSource _ => True
  | .unknownUrl _ => True
  | .hash _ => True
  | _ => False

namespace Expansion

variable {α β : Type} {E : HeaderError → Prop}

/-- On no draft does the expansion fail with another error. -/
def FailsWithin (E : HeaderError → Prop) (x : Expansion α) : Prop :=
  ∀ d e, (x.on d).1 = .error e → E e

theorem failsWithin_pure (a : α) : (pure a : Expansion α).FailsWithin E := by
  intro d e h
  cases h

theorem failsWithin_throw {e : HeaderError} (he : E e) : (throw e : Expansion α).FailsWithin E := by
  intro d e' h
  obtain rfl := Except.error.inj h
  exact he

theorem failsWithin_emit (line : String) : (emit line).FailsWithin E := by
  intro d e h
  cases h

theorem failsWithin_note (call : Call) : (note call).FailsWithin E := by
  intro d e h
  cases h

theorem failsWithin_warn (warnings : List String) : (warn warnings).FailsWithin E := by
  intro d e h
  cases h

theorem FailsWithin.bind {x : Expansion α} {f : α → Expansion β} (hx : x.FailsWithin E)
    (hf : ∀ a, (f a).FailsWithin E) : (x >>= f).FailsWithin E := by
  intro d e h
  rw [on_bind] at h
  rcases hrun : x.on d with ⟨e' | a, d'⟩
  · rw [hrun] at h
    obtain rfl : e' = e := Except.error.inj h
    exact hx d e' (congrArg Prod.fst hrun)
  · rw [hrun] at h
    exact hf a d' e h

theorem FailsWithin.ite {p : Prop} [Decidable p] {x y : Expansion α} (hx : x.FailsWithin E)
    (hy : y.FailsWithin E) : (if p then x else y).FailsWithin E := by
  split
  · exact hx
  · exact hy

theorem FailsWithin.forM {xs : List α} {f : α → Expansion Unit}
    (hf : ∀ a, (f a).FailsWithin E) : (xs.forM f).FailsWithin E := by
  induction xs with
  | nil => exact failsWithin_pure ()
  | cons a as ih => exact (hf a).bind fun _ => ih

end Expansion

section

variable {E : HeaderError → Prop} (hE : ∀ e, ¬ HeaderError.AboutResource e → E e)

theorem failsWithin_whenSome {α : Type} {value : Option α} {expand : α → Expansion Unit}
    (h : ∀ v, (expand v).FailsWithin E) : (whenSome value expand).FailsWithin E := by
  cases value with
  | none => exact failsWithin_pure ()
  | some v => exact h v

include hE

theorem failsWithin_checkTagName_bind {α : Type} {tag : String} {next : Unit → Expansion α}
    (h : (next ()).FailsWithin E) : (checkTagName tag >>= next).FailsWithin E := by
  rw [checkTagName_bind]
  exact h.ite (failsWithin_throw (hE _ id))

theorem failsWithin_expandText (tag : String) (value : Option String) (checkNull : Bool) :
    (expandText tag value checkNull).FailsWithin E := by
  refine failsWithin_checkTagName_bind hE ?_
  cases value with
  | none => exact (failsWithin_throw (hE _ id)).ite (failsWithin_emit _)
  | some v => exact (failsWithin_throw (hE _ id)).ite (failsWithin_emit _)

theorem failsWithin_expandFlag (tag : String) (condition : Bool) :
    (expandFlag tag condition).FailsWithin E :=
  failsWithin_checkTagName_bind hE ((failsWithin_emit _).ite (failsWithin_pure ()))

theorem failsWithin_expandTexts (tag : String) (values : OneOrMany String) :
    (expandTexts tag values).FailsWithin E :=
  failsWithin_checkTagName_bind hE
    (FailsWithin.forM fun v => failsWithin_expandText hE tag (some v) true)

theorem failsWithin_expandScalar (tag : String) (value : Json) :
    (expandScalar tag value).FailsWithin E := by
  refine failsWithin_checkTagName_bind hE ?_
  cases value with
  | null => exact failsWithin_expandText hE tag none true
  | bool b => exact failsWithin_expandText hE tag (some _) true
  | number n => exact failsWithin_expandText hE tag (some _) true
  | string s => exact failsWithin_expandText hE tag (some _) true
  | array items => exact failsWithin_throw (hE _ id)
  | object members => exact failsWithin_throw (hE _ id)

section Localized

variable (locales : LocaleRule) (tag : String)

theorem failsWithin_resolveLocale (key : String) : (resolveLocale locales key).FailsWithin E := by
  refine (failsWithin_note _).bind fun _ => (failsWithin_warn _).bind fun _ => ?_
  cases (locales key).1 with
  | error e => exact failsWithin_throw (hE _ id)
  | ok locale => exact failsWithin_pure _

theorem failsWithin_expandTranslations (transform : String → String) (included : List String)
    (entries : List (String × String)) :
    (expandTranslations locales tag transform included entries).FailsWithin E := by
  induction entries generalizing included with
  | nil => exact failsWithin_pure ()
  | cons entry rest ih =>
    rw [expandTranslations_cons]
    refine (failsWithin_resolveLocale hE locales entry.1).bind fun locale => ?_
    refine (failsWithin_throw (hE _ id)).ite ?_
    exact (failsWithin_expandText hE _ _ true).bind fun _ => ih _

theorem failsWithin_expandLocalizedText (value : LocalizedText) (transform : String → String) :
    (expandLocalizedText locales tag value transform).FailsWithin E := by
  cases value with
  | plain text => exact failsWithin_expandText hE tag (some text) true
  | translated t =>
    exact (failsWithin_expandText hE tag (some _) true).bind fun _ =>
      failsWithin_expandTranslations hE locales tag transform [] t.locales.entries

theorem failsWithin_expandLocalizedTexts (value : Option (OneOrMany LocalizedText))
    (options : LocalizedOptions) :
    (expandLocalizedTexts locales tag value options).FailsWithin E := by
  refine failsWithin_checkTagName_bind hE ?_
  rcases value with _ | v | vs
  · exact failsWithin_expandText hE tag none _
  · exact failsWithin_expandLocalizedText hE locales tag v _
  · refine FailsWithin.ite ?_ (failsWithin_throw (hE _ id))
    exact FailsWithin.forM fun v => failsWithin_expandLocalizedText hE locales tag v _

end Localized

section Descriptor

variable {α : Type} {transformer : Transformer α}
  (ht : ∀ value tag, (transformer value tag).FailsWithin E)

include ht

theorem failsWithin_expandTransformed (tag : String) (value : TextOr α) :
    (expandTransformed tag value transformer).FailsWithin E := by
  refine (ht value tag).bind fun emission => ?_
  cases emission with
  | nothing => exact failsWithin_pure ()
  | one v => exact failsWithin_expandTexts hE tag _
  | many vs => exact failsWithin_expandTexts hE tag _

theorem failsWithin_expandDescriptor (tag : String) (value : Option (TextOr α))
    (options : DescriptorOptions) :
    (expandDescriptor tag value transformer options).FailsWithin E := by
  refine failsWithin_checkTagName_bind hE ?_
  split
  · exact failsWithin_expandText hE tag none _
  · exact failsWithin_expandText hE tag _ _
  · exact failsWithin_throw (hE _ id)
  · exact failsWithin_expandTransformed hE ht tag _

theorem failsWithin_expandDescriptors (tag : String) (values : OneOrMany (TextOr α)) :
    (expandDescriptors tag values transformer).FailsWithin E := by
  refine failsWithin_checkTagName_bind hE ?_
  cases values with
  | one v => exact failsWithin_throw (hE _ id)
  | many vs =>
    exact FailsWithin.forM fun v => failsWithin_expandDescriptor hE ht tag (some v) {}

end Descriptor

theorem failsWithin_presentIcon (value : TextOr Icon) (tag : String) :
    (presentIcon value tag).FailsWithin E := by
  cases value with
  | text s => exact failsWithin_pure _
  | descriptor icon =>
    have hline : ∀ tag (value : Option String),
        (whenSome value fun v => expandText tag (some v)).FailsWithin E :=
      fun tag value => failsWithin_whenSome fun v => failsWithin_expandText hE tag (some v) true
    rw [presentIcon_eq]
    exact (hline _ _).bind fun _ => (hline _ _).bind fun _ => failsWithin_pure _

theorem failsWithin_presentAntiFeature (locales : LocaleRule) (value : TextOr AntiFeature)
    (tag : String) : (presentAntiFeature locales value tag).FailsWithin E := by
  cases value with
  | text s => exact failsWithin_pure _
  | descriptor feature =>
    exact (failsWithin_expandLocalizedText hE locales tag _ _).bind fun _ => failsWithin_pure _

end

theorem failsWithin_presentText {E : HeaderError → Prop} {α : Type} (text : α → String)
    (value : TextOr α) (tag : String) : (presentText text value tag).FailsWithin E :=
  failsWithin_pure _

section Header

variable {E : HeaderError → Prop} {options : Options} {collaborators : Collaborators}
  {record : Record} (hE : ∀ e, ¬ HeaderError.AboutResource e → E e)
  (hr : ∀ r, (resourceUrl options collaborators r).FailsWithin E)

include hr

theorem failsWithin_presentUrl (present : Resource → String → String) (value : TextOr Resource)
    (tag : String) : (presentUrl options collaborators present value tag).FailsWithin E := by
  cases value with
  | text s => exact failsWithin_pure _
  | descriptor r => exact (hr r).bind fun _ => failsWithin_pure _

include hE

theorem Field.failsWithin_expandPresent (field : Field) :
    (field.expandPresent options collaborators record).FailsWithin E := by
  unfold expandPresent
  cases field.content with
  | text read => exact failsWithin_expandText hE _ _ _
  | flag read => exact failsWithin_expandFlag hE _ _
  | texts read => exact failsWithin_whenSome (failsWithin_expandTexts hE _)
  | localized read => exact failsWithin_expandLocalizedTexts hE _ _ _ _
  | user read => exact failsWithin_expandDescriptor hE (failsWithin_presentText _) _ _ _
  | users read =>
    exact failsWithin_whenSome (failsWithin_expandDescriptors hE (failsWithin_presentText _) _)
  | icon read => exact failsWithin_expandDescriptor hE (failsWithin_presentIcon hE) _ _ _
  | patterns read =>
    exact failsWithin_whenSome (failsWithin_expandDescriptors hE (failsWithin_presentText _) _)
  | antiFeatures read =>
    exact failsWithin_whenSome
      (failsWithin_expandDescriptors hE (failsWithin_presentAntiFeature hE _) _)
  | scripts read =>
    rw [presentScript_eq]
    exact failsWithin_whenSome (failsWithin_expandDescriptors hE (failsWithin_presentUrl hr _) _)
  | resources read =>
    rw [presentResource_eq]
    exact failsWithin_whenSome (failsWithin_expandDescriptors hE (failsWithin_presentUrl hr _) _)
  | custom read =>
    exact failsWithin_whenSome fun tags =>
      FailsWithin.forM fun e => failsWithin_expandScalar hE e.1 e.2

theorem Field.failsWithin_expand (field : Field) :
    (field.expand options collaborators record).FailsWithin E :=
  (failsWithin_expandPresent hE hr field).ite
    ((failsWithin_throw (hE _ id)).ite (failsWithin_pure ()))

theorem failsWithin_expandRecord : (expandRecord options collaborators record).FailsWithin E := by
  have hmarker : ∀ line, (expandMarker options line).FailsWithin E := fun line =>
    (failsWithin_emit line).ite (failsWithin_pure ())
  rw [expandRecord_eq]
  exact (hmarker _).bind fun _ =>
    (FailsWithin.forM fun field => field.failsWithin_expand hE hr).bind fun _ => hmarker _

end Header

/-- A header that fails with a complaint about a resource has asked for a URL that
fails with it. -/
theorem exists_resourceUrl_of_draftHeader {options : Options} {collaborators : Collaborators}
    {record : Record} {e : HeaderError} (he : e.AboutResource)
    (h : (draftHeader options collaborators record).1 = .error e) :
    ∃ r, (resourceUrl options collaborators r).outcome = .error e := by
  let E : HeaderError → Prop := fun e => e.AboutResource →
    ∃ r, (resourceUrl options collaborators r).outcome = .error e
  have hE : ∀ e, ¬ HeaderError.AboutResource e → E e := fun e hnot he => absurd he hnot
  have hr : ∀ r, (resourceUrl options collaborators r).FailsWithin E := by
    intro r d e herror _
    rw [(writes_resourceUrl (P := fun _ => True) options collaborators r).on_eq] at herror
    exact ⟨r, herror⟩
  exact failsWithin_expandRecord hE hr {} e h he

end Userscript
