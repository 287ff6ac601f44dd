import Userscript.Comment
import Userscript.Json.Reader
import Userscript.Record.Basic

/-! Decoding a record and its values from JSON. Where a value may take several
forms, the forms are tried in a fixed order and the first that fits is taken. -/

namespace Userscript

namespace Json

def string? : Json → Option String
  | string s => some s
  | _ => none

def bool? : Json → Option Bool
  | bool b => some b
  | _ => none

/-- An array of exactly two values. -/
def pair? {α β : Type} (first : Json → Option α) (second : Json → Option β) :
    Json → Option (α × β)
  | array [a, b] => do return (← first a, ← second b)
  | _ => none

/-- One of several named choices, given as its name, or as an object whose only
key is the name and whose value is null. -/
def choice? {α : Type} (named : String → Option α) : Json → Option α
  | string s => named s
  | object [(key, null)] => named key
  | _ => none

/-- The members with known names; none if a name is given twice. -/
def known? (names : List String) (members : List (String × Json)) :
    Option (List (String × Json)) :=
  let known := members.filter fun m => m.1 ∈ names
  if (known.map Prod.fst).Nodup then some known else none

/-- The named parts of a descriptor: the members of an object, or the values of
an array in the order of the names. -/
def parts? (names : List String) : Json → Option (List (String × Json))
  | object members => known? names members
  | array items => if items.length ≤ names.length then some (names.zip items) else none
  | _ => none

def required? {α : Type} (item : Json → Option α) (name : String)
    (parts : List (String × Json)) : Option α :=
  (parts.lookup name).bind item

def optional? {α : Type} (item : Json → Option α) (name : String)
    (parts : List (String × Json)) : Option (Option α) :=
  match parts.lookup name with
  | none => some none
  | some null => some none
  | some v => (item v).map some

end Json

/-- An array is read as many values if each of them fits, else as one. -/
def OneOrMany.ofJson? {α : Type} (item : Json → Option α) : Json → Option (OneOrMany α)
  | .array items =>
    match items.mapM item with
    | some values => some (.many values)
    | none => (item (.array items)).map .one
  | v => (item v).map .one

def TextOr.ofJson? {α : Type} (descriptor : Json → Option α) : Json → Option (TextOr α)
  | .string s => some (.text s)
  | v => (descriptor v).map .descriptor

def Translations.ofJson? : Json → Option Translations
  | .object members =>
    (members.mapM fun (m : String × Json) => m.2.string?.map fun s => (m.1, s)).bind fun es =>
      Translations.ofDict? (Dict.ofList es)
  | _ => none

def LocalizedText.ofJson? : Json → Option LocalizedText
  | .string s => some (.plain s)
  | v => (Translations.ofJson? v).map .translated

def User.ofJson? (v : Json) : Option User := do
  let parts ← v.parts? ["name", "email", "url"]
  let name ← Json.required? Json.string? "name" parts
  let email ← Json.optional? Json.string? "email" parts
  let url ← Json.optional? Json.string? "url" parts
  return ⟨name, email, url⟩

def Icon.ofJson? (v : Json) : Option Icon := do
  let parts ← v.parts? ["small", "larger"]
  let small ← Json.optional? Json.string? "small" parts
  let larger ← Json.optional? Json.string? "larger" parts
  return ⟨small, larger⟩

def Pattern.ofJson? (v : Json) : Option Pattern := do
  let parts ← v.parts? ["regex", "flags"]
  let regex ← Json.required? Json.string? "regex" parts
  let flags ← Json.optional? Json.string? "flags" parts
  return ⟨regex, flags⟩

def AntiFeature.ofJson? (v : Json) : Option AntiFeature :=
  (v.pair? Json.string? LocalizedText.ofJson?).map fun (kind, reason) => ⟨kind, reason⟩

def HashAlgorithm.ofJson? : Json → Option HashAlgorithm :=
  Json.choice? HashAlgorithm.ofLabel?

def CommentStyle.ofJson? : Json → Option CommentStyle :=
  Json.choice? CommentStyle.ofLabel?

/-- The word `auto` asks for the digest of the source file. -/
def DigestSource.ofText (s : String) : DigestSource :=
  if s = "auto" then .computed else .given s

def Integrity.ofJson? (v : Json) : Option Integrity :=
  (v.pair? Json.string? HashAlgorithm.ofJson?).map fun (value, algorithm) =>
    ⟨DigestSource.ofText value, algorithm⟩

def resourceKeys : List String := ["id", "src", "url", "hash"]

def Resource.ofParts? (parts : List (String × Json)) : Option Resource := do
  let id ← Json.required? Json.string? "id" parts
  let src ← Json.optional? Json.string? "src" parts
  let url ← Json.optional? Json.string? "url" parts
  let hash ← Json.optional? Integrity.ofJson? "hash" parts
  return ⟨id, src, url, hash⟩

def Resource.ofJson? (v : Json) : Option Resource :=
  (v.parts? resourceKeys).bind Resource.ofParts?

def customTagsOfJson? : Json → Option (Dict Json)
  | .object members => some (Dict.ofList members)
  | _ => none

/-- The keys of a record, in the order in which an array gives their values. -/
def recordKeys : List String :=
  ["name", "namespace", "version", "author", "contributors", "description", "homepage",
    "license", "icon", "updateUrl", "downloadUrl", "supportUrl", "include", "match", "exclude",
    "require", "resources", "connect", "runAt", "grant", "antiFeatures", "noFrames", "noCompat",
    "injectInto", "customTags"]

def Record.ofParts? (parts : List (String × Json)) : Option Record := do
  let text := fun key => Json.optional? Json.string? key parts
  let texts := fun key => Json.optional? (OneOrMany.ofJson? Json.string?) key parts
  let localizables := fun key => Json.optional? (OneOrMany.ofJson? LocalizedText.ofJson?) key parts
  let patterns := fun key =>
    Json.optional? (OneOrMany.ofJson? (TextOr.ofJson? Pattern.ofJson?)) key parts
  let needs := fun key =>
    Json.optional? (OneOrMany.ofJson? (TextOr.ofJson? Resource.ofJson?)) key parts
  return {
    name := ← localizables "name"
    scriptNamespace := ← text "namespace"
    version := ← text "version"
    author := ← Json.optional? (TextOr.ofJson? User.ofJson?) "author" parts
    contributors :=
      ← Json.optional? (OneOrMany.ofJson? (TextOr.ofJson? User.ofJson?)) "contributors" parts
    description := ← localizables "description"
    homepage := ← text "homepage"
    license := ← text "license"
    icon := ← Json.optional? (TextOr.ofJson? Icon.ofJson?) "icon" parts
    updateUrl := ← text "updateUrl"
    downloadUrl := ← text "downloadUrl"
    supportUrl := ← text "supportUrl"
    includes := ← patterns "include"
    matching := ← texts "match"
    excludes := ← patterns "exclude"
    requires := ← needs "require"
    resources := ← needs "resources"
    connect := ← texts "connect"
    runAt := ← text "runAt"
    grants := ← texts "grant"
    antiFeatures :=
      ← Json.optional? (OneOrMany.ofJson? (TextOr.ofJson? AntiFeature.ofJson?)) "antiFeatures"
        parts
    noFrames := ← Json.optional? Json.bool? "noFrames" parts
    noCompat := ← texts "noCompat"
    injectInto := ← text "injectInto"
    customTags := ← Json.optional? customTagsOfJson? "customTags" parts }

namespace Document

/-- The members with known names, all of which must have a value. What stands
under other names need not have one. -/
def known? (names : List String) (members : List (String × Option Json)) :
    Option (List (String × Json)) :=
  ((members.filter fun m => m.1 ∈ names).mapM fun (m : String × Option Json) =>
    m.2.map fun v => (m.1, v)).bind (Json.known? names)

end Document

/-- A record is an object, or an array with a value for each of its keys. -/
def Record.ofDocument? : Document → Option Record
  | .object members => (Document.known? recordKeys members).bind Record.ofParts?
  | .value (.array items) =>
    if items.length = recordKeys.length then Record.ofParts? (recordKeys.zip items) else none
  | .value _ => none

def Resource.ofDocument? : Document → Option Resource
  | .object members => (Document.known? resourceKeys members).bind Resource.ofParts?
  | .value v => Resource.ofJson? v

def Record.ofText? (text : String) : Option Record :=
  (Document.read text).bind Record.ofDocument?

end Userscript
