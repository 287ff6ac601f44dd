import Userscript.Expansion.Descriptor
import Userscript.Expansion.Localized
import Userscript.Expansion.ResourceUrl
import Userscript.Record.Basic

/-! The fields of a record in the order of the header, each with the tag and
the way of expansion that belong to it. -/

namespace Userscript

open Expansion

/-- How a field is read off a record, which also says how it is expanded. -/
inductive FieldContent where
  | text (read : Record → Option String)
  | flag (read : Record → Option Bool)
  | texts (read : Record → Option (OneOrMany String))
  | localized (read : Record → Option (OneOrMany LocalizedText))
  | user (read : Record → Option (TextOr User))
  | users (read : Record → Option (OneOrMany (TextOr User)))
  | icon (read : Record → Option (TextOr Icon))
  | patterns (read : Record → Option (OneOrMany (TextOr Pattern)))
  | antiFeatures (read : Record → Option (OneOrMany (TextOr AntiFeature)))
  | scripts (read : Record → Option (OneOrMany (TextOr Resource)))
  | resources (read : Record → Option (OneOrMany (TextOr Resource)))
  | custom (read : Record → Option (Dict Json))

namespace FieldContent

def present (content : FieldContent) (record : Record) : Bool :=
  match content with
  | text read => (read record).isSome
  | flag read => (read record).isSome
  | texts read => (read record).isSome
  | localized read => (read record).isSome
  | user read => (read record).isSome
  | users read => (read record).isSome
  | icon read => (read record).isSome
  | patterns read => (read record).isSome
  | antiFeatures read => (read record).isSome
  | scripts read => (read record).isSome
  | resources read => (read record).isSome
  | custom read => (read record).isSome

end FieldContent

/-- A field: its key in a record, its tag, and whether a header needs it. -/
structure Field where
  key : String
  tag : String
  content : FieldContent
  required : Bool := false

def headerFields : List Field := [
  ⟨"name", "name", .localized Record.name, true⟩,
  ⟨"description", "description", .localized Record.description, false⟩,
  ⟨"version", "version", .text Record.version, true⟩,
  ⟨"author", "author", .user Record.author, true⟩,
  ⟨"contributors", "contributor", .users Record.contributors, false⟩,
  ⟨"namespace", "namespace", .text Record.scriptNamespace, false⟩,
  ⟨"homepage", "homepageURL", .text Record.homepage, false⟩,
  ⟨"license", "license", .text Record.license, false⟩,
  ⟨"icon", "icon", .icon Record.icon, false⟩,
  ⟨"updateUrl", "updateURL", .text Record.updateUrl, false⟩,
  ⟨"downloadUrl", "downloadURL", .text Record.downloadUrl, false⟩,
  ⟨"supportUrl", "supportURL", .text Record.supportUrl, false⟩,
  ⟨"include", "include", .patterns Record.includes, false⟩,
  ⟨"match", "match", .texts Record.matching, false⟩,
  ⟨"exclude", "exclude", .patterns Record.excludes, false⟩,
  ⟨"connect", "connect", .texts Record.connect, false⟩,
  ⟨"runAt", "run-at", .text Record.runAt, false⟩,
  ⟨"grant", "grant", .texts Record.grants, false⟩,
  ⟨"antiFeatures", "antifeature", .antiFeatures Record.antiFeatures, false⟩,
  ⟨"noFrames", "noframes", .flag Record.noFrames, false⟩,
  ⟨"noCompat", "nocompat", .texts Record.noCompat, false⟩,
  ⟨"injectInto", "inject-into", .text Record.injectInto, false⟩,
  ⟨"require", "require", .scripts Record.requires, false⟩,
  ⟨"resources", "resource", .resources Record.resources, false⟩,
  ⟨"customTags", "", .custom Record.customTags, false⟩]

def presentText {α : Type} (text : α → String) : Transformer α := fun value _ =>
  pure (.one (match value with
    | .text s => s
    | .descriptor v => text v))

/-- The larger icon under a tag of its own, then the small one. -/
def presentIcon : Transformer Icon := fun value _ => do
  match value with
  | .text s => pure (.one s)
  | .descriptor icon =>
    if icon.larger.isSome then expandText "icon64" icon.larger
    if icon.small.isSome then expandText "icon" icon.small
    pure .nothing

/-- A translated reason stands after the kind of the anti-feature in each of its
lines; a plain reason stands alone. -/
def presentAntiFeature (locales : LocaleRule) : Transformer AntiFeature := fun value tag => do
  match value with
  | .text s => pure (.one s)
  | .descriptor feature =>
    expandLocalizedText locales tag feature.reason fun text => feature.kind ++ " " ++ text
    pure .nothing

def presentScript (options : Options) (collaborators : Collaborators) : Transformer Resource :=
  fun value _ => do
    match value with
    | .text s => pure (.one s)
    | .descriptor r => return .one (← resourceUrl options collaborators r)

/-- The identifier of a resource goes before its URL. -/
def presentResource (options : Options) (collaborators : Collaborators) : Transformer Resource :=
  fun value _ => do
    match value with
    | .text s => pure (.one s)
    | .descriptor r => return .one (r.id ++ " " ++ (← resourceUrl options collaborators r))

def whenSome {α : Type} (value : Option α) (expand : α → Expansion Unit) : Expansion Unit :=
  match value with
  | some v => expand v
  | none => pure ()

namespace Field

def expandPresent (options : Options) (collaborators : Collaborators) (record : Record)
    (field : Field) : Expansion Unit :=
  match field.content with
  | .text read => expandText field.tag (read record)
  | .flag read => expandFlag field.tag ((read record).getD false)
  | .texts read => whenSome (read record) (expandTexts field.tag)
  | .localized read => expandLocalizedTexts collaborators.locales field.tag (read record)
  | .user read => expandDescriptor field.tag (read record) (presentText User.signature)
  | .users read =>
    whenSome (read record) (expandDescriptors field.tag · (presentText User.signature))
  | .icon read =>
    expandDescriptor field.tag (read record) presentIcon { texts := .refuse }
  | .patterns read =>
    whenSome (read record) (expandDescriptors field.tag · (presentText Pattern.text))
  | .antiFeatures read =>
    whenSome (read record)
      (expandDescriptors field.tag · (presentAntiFeature collaborators.locales))
  | .scripts read =>
    whenSome (read record) (expandDescriptors field.tag · (presentScript options collaborators))
  | .resources read =>
    whenSome (read record) (expandDescriptors field.tag · (presentResource options collaborators))
  | .custom read =>
    whenSome (read record) fun tags => tags.entries.forM fun e => expandScalar e.1 e.2

/-- An absent field is passed over unless the header needs it. -/
def expand (options : Options) (collaborators : Collaborators) (record : Record) (field : Field) :
    Expansion Unit :=
  if field.content.present record then field.expandPresent options collaborators record
  else if field.required then throw (.missingValue field.tag)
  else pure ()

end Field

end Userscript
