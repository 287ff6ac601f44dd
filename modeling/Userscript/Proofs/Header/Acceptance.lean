import Userscript.Proofs.Header.Passing

/-! The records that have a header. What a record must fulfil is stated field by
field and apart from the expanders. -/

namespace Userscript

open Expansion

section Values

variable (options : Options) (collaborators : Collaborators) (record : Record)

def localizedValues : List LocalizedText :=
  listed record.name ++ (listed record.description ++
    ((listed record.antiFeatures).filterMap TextOr.descriptor?).map AntiFeature.reason)

/-- The resources of a record that are not just texts. -/
def resourceValues : List Resource :=
  (listed record.requires ++ listed record.resources).filterMap TextOr.descriptor?

def customEntries : List (String × Json) :=
  record.customTags.elim [] Dict.entries

def tagValues : List String := List.flatten [
  (listed record.name).flatMap (LocalizedText.texts id),
  (listed record.description).flatMap (LocalizedText.texts id),
  record.version.toList,
  record.author.toList.map (TextOr.said User.signature),
  (listed record.contributors).map (TextOr.said User.signature),
  record.scriptNamespace.toList,
  record.homepage.toList,
  record.license.toList,
  record.icon.toList.flatMap TextOr.iconTexts,
  record.updateUrl.toList,
  record.downloadUrl.toList,
  record.supportUrl.toList,
  (listed record.includes).map (TextOr.said Pattern.text),
  listed record.matching,
  (listed record.excludes).map (TextOr.said Pattern.text),
  listed record.connect,
  record.runAt.toList,
  listed record.grants,
  (listed record.antiFeatures).flatMap TextOr.antiFeatureTexts,
  listed record.noCompat,
  record.injectInto.toList,
  (listed record.requires).flatMap
    (TextOr.resourceTexts options collaborators fun _ url => url),
  (listed record.resources).flatMap
    (TextOr.resourceTexts options collaborators fun r url => r.id ++ " " ++ url),
  (customEntries record).filterMap fun e => e.2.scalarText?]

/-- What a record must fulfil to have a header. -/
structure Acceptable (spelling : KeySpelling) : Prop where
  named : record.name.isSome = true
  versioned : record.version.isSome = true
  authored : record.author.isSome = true
  name_single : ∀ vs, record.name ≠ some (.many vs)
  description_single : ∀ vs, record.description ≠ some (.many vs)
  contributors_array : ∀ v, record.contributors ≠ some (.one v)
  includes_array : ∀ v, record.includes ≠ some (.one v)
  excludes_array : ∀ v, record.excludes ≠ some (.one v)
  antiFeatures_array : ∀ v, record.antiFeatures ≠ some (.one v)
  requires_array : ∀ v, record.requires ≠ some (.one v)
  resources_array : ∀ v, record.resources ≠ some (.one v)
  icon_descriptor : ∀ s, record.icon ≠ some (.text s)
  locales : ∀ value ∈ localizedValues record, value.DistinctLocales spelling
  custom : ∀ e ∈ customEntries record, isTagName e.1 = true ∧ e.2.scalarText?.isSome = true
  resolved : ∀ r ∈ resourceValues record,
    ∃ url, (resourceUrl options collaborators r).outcome = .ok url
  fits : ∀ value ∈ tagValues options collaborators record, FitsLine value

end Values

theorem exists_headerText_iff {options : Options} {collaborators : Collaborators}
    {record : Record} :
    (∃ text, headerText options collaborators record = .ok text) ↔
      ∀ f ∈ headerFields, f.Passes options collaborators record := by
  rw [← draftHeader_fst_eq_ok]
  constructor
  · rintro ⟨text, h⟩
    obtain ⟨d, hd, _⟩ := headerText_eq_ok.mp h
    exact congrArg Prod.fst hd
  · intro h
    exact ⟨_, headerText_eq_ok.mpr ⟨_, Prod.ext h rfl, rfl⟩⟩

/-- Under either rule of locales, exactly the acceptable records have a header. -/
theorem exists_headerText_iff_acceptable (options : Options)
    (digestFile : String → HashAlgorithm → Except HashFailure String)
    (workingDirectory : Except String String) (spelling : KeySpelling) (record : Record) :
    (∃ text, headerText options ⟨spelling.rule, digestFile, workingDirectory⟩ record = .ok text) ↔
      Acceptable options ⟨spelling.rule, digestFile, workingDirectory⟩ record spelling := by
  have hlocales : Collaborators.locales ⟨spelling.rule, digestFile, workingDirectory⟩ =
      spelling.rule := rfl
  rw [exists_headerText_iff, headerFields]
  simp (disch := decide) only [List.forall_mem_cons, Field.passes_text, Field.passes_flag,
    Field.passes_texts, Field.passes_localized hlocales, Field.passes_user, Field.passes_users,
    Field.passes_icon, Field.passes_patterns, Field.passes_antiFeatures hlocales,
    Field.passes_scripts, Field.passes_resources, Field.passes_custom, Bool.false_eq_true,
    false_imp_iff, true_imp_iff, true_and]
  -- what remains is to sort the conditions, there by field and here by kind
  constructor
  · rintro ⟨⟨named, nameSingle, nameLocales, name⟩, ⟨descriptionSingle, descriptionLocales,
      description⟩, ⟨versioned, version⟩, ⟨authored, author⟩, ⟨contributorsArray, contributors⟩,
      scriptNamespace, homepage, license, ⟨iconDescriptor, icon⟩, updateUrl, downloadUrl, supportUrl,
      ⟨includesArray, includes⟩, matching, ⟨excludesArray, excludes⟩, connect, runAt, grants,
      ⟨antiFeaturesArray, reasonLocales, antiFeatures⟩, noCompat, injectInto,
      ⟨requiresArray, requiresResolved, requires⟩, ⟨resourcesArray, resourcesResolved, resources⟩,
      ⟨customScalar, custom⟩, _⟩
    have hlocalized : ∀ value ∈ localizedValues record, value.DistinctLocales spelling :=
      List.forall_mem_append.mpr
        ⟨nameLocales, List.forall_mem_append.mpr ⟨descriptionLocales, reasonLocales⟩⟩
    have hresolved := List.forall_mem_append.mpr ⟨requiresResolved, resourcesResolved⟩
    rw [← List.filterMap_append] at hresolved
    refine ⟨named, versioned, authored, nameSingle, descriptionSingle, contributorsArray,
      includesArray, excludesArray, antiFeaturesArray, requiresArray, resourcesArray,
      iconDescriptor, hlocalized, customScalar, hresolved, ?_⟩
    simp only [tagValues, List.forall_mem_flatten, List.forall_mem_cons]
    exact ⟨name, description, version, author, contributors, scriptNamespace, homepage, license,
      icon, updateUrl, downloadUrl, supportUrl, includes, matching, excludes, connect, runAt,
      grants, antiFeatures, noCompat, injectInto, requires, resources, custom, by simp⟩
  · intro h
    have hlocalized := h.locales
    have hresolved := h.resolved
    have hfits := h.fits
    simp only [localizedValues, List.forall_mem_append] at hlocalized
    simp only [resourceValues, List.filterMap_append, List.forall_mem_append] at hresolved
    simp only [tagValues, List.forall_mem_flatten, List.forall_mem_cons] at hfits
    obtain ⟨nameLocales, descriptionLocales, reasonLocales⟩ := hlocalized
    obtain ⟨requiresResolved, resourcesResolved⟩ := hresolved
    obtain ⟨name, description, version, author, contributors, scriptNamespace, homepage, license,
      icon, updateUrl, downloadUrl, supportUrl, includes, matching, excludes, connect, runAt,
      grants, antiFeatures, noCompat, injectInto, requires, resources, custom, _⟩ := hfits
    exact ⟨⟨h.named, h.name_single, nameLocales, name⟩,
      ⟨h.description_single, descriptionLocales, description⟩, ⟨h.versioned, version⟩,
      ⟨h.authored, author⟩, ⟨h.contributors_array, contributors⟩, scriptNamespace, homepage,
      license, ⟨h.icon_descriptor, icon⟩, updateUrl, downloadUrl, supportUrl,
      ⟨h.includes_array, includes⟩, matching, ⟨h.excludes_array, excludes⟩, connect, runAt, grants,
      ⟨h.antiFeatures_array, reasonLocales, antiFeatures⟩, noCompat, injectInto,
      ⟨h.requires_array, requiresResolved, requires⟩,
      ⟨h.resources_array, resourcesResolved, resources⟩, ⟨h.custom, custom⟩, by simp⟩

end Userscript
