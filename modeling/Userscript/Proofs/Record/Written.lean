import Mathlib.Data.List.Forall2
import Userscript.Proofs.Record.Parts

/-! Records written as JSON. The members of an object may stand in any order, and
the base text anywhere among the translations; arrays, translations and custom
tags keep their order. -/

namespace Userscript

/-- Members with known and distinct keys. -/
structure MembersOf (names : List String) (members : List (String × Json)) : Prop where
  distinct : (members.map Prod.fst).Nodup
  known : ∀ m ∈ members, m.1 ∈ names

/-- A field is written under its key, and a field that is absent is not. -/
def FieldWritten {α : Type} (written : α → Json → Prop) (value : Option α) (key : String)
    (members : List (String × Json)) : Prop :=
  Option.Rel written value (members.lookup key)

section Values

variable {α : Type}

def TextWritten (text : String) (v : Json) : Prop := v = .string text

inductive OneOrMany.Written (written : α → Json → Prop) : OneOrMany α → Json → Prop where
  | one {value : α} {v : Json} (h : written value v) : Written written (.one value) v
  | many {values : List α} {items : List Json} (h : List.Forall₂ written values items) :
    Written written (.many values) (.array items)

inductive TextOr.Written (written : α → Json → Prop) : TextOr α → Json → Prop where
  | text (s : String) : Written written (.text s) (.string s)
  | descriptor {value : α} {v : Json} (h : written value v) : Written written (.descriptor value) v

inductive LocalizedText.Written : LocalizedText → Json → Prop where
  | plain (text : String) : Written (.plain text) (.string text)
  | translated {t : Translations} (before after : List (String × String))
      (h : t.locales.entries = before ++ after) :
    Written (.translated t)
      (.object ((before ++ (baseKey, t.base) :: after).map fun e => (e.1, .string e.2)))

inductive User.Written (u : User) : Json → Prop where
  | object {members : List (String × Json)} (hkeys : MembersOf ["name", "email", "url"] members)
      (hname : FieldWritten TextWritten (some u.name) "name" members)
      (hemail : FieldWritten TextWritten u.email "email" members)
      (hurl : FieldWritten TextWritten u.url "url" members) :
    Written u (.object members)

inductive Icon.Written (icon : Icon) : Json → Prop where
  | object {members : List (String × Json)} (hkeys : MembersOf ["small", "larger"] members)
      (hsmall : FieldWritten TextWritten icon.small "small" members)
      (hlarger : FieldWritten TextWritten icon.larger "larger" members) :
    Written icon (.object members)

inductive Pattern.Written (p : Pattern) : Json → Prop where
  | object {members : List (String × Json)} (hkeys : MembersOf ["regex", "flags"] members)
      (hregex : FieldWritten TextWritten (some p.regex) "regex" members)
      (hflags : FieldWritten TextWritten p.flags "flags" members) :
    Written p (.object members)

inductive AntiFeature.Written (feature : AntiFeature) : Json → Prop where
  | pair {reason : Json} (h : feature.reason.Written reason) :
    Written feature (.array [.string feature.kind, reason])

def DigestSource.text : DigestSource → String
  | computed => "auto"
  | given digest => digest

def Integrity.Written (h : Integrity) (v : Json) : Prop :=
  v = .array [.string h.value.text, .string h.algorithm.label]

inductive Resource.Written (r : Resource) : Json → Prop where
  | object {members : List (String × Json)} (hkeys : MembersOf resourceKeys members)
      (hid : FieldWritten TextWritten (some r.id) "id" members)
      (hsrc : FieldWritten TextWritten r.src "src" members)
      (hurl : FieldWritten TextWritten r.url "url" members)
      (hhash : FieldWritten Integrity.Written r.hash "hash" members) :
    Written r (.object members)

end Values

/-- The members of an object that says what a record says. -/
structure Record.Written (record : Record) (members : List (String × Json)) : Prop where
  keys : MembersOf recordKeys members
  name : FieldWritten (OneOrMany.Written LocalizedText.Written) record.name "name" members
  scriptNamespace : FieldWritten TextWritten record.scriptNamespace "namespace" members
  version : FieldWritten TextWritten record.version "version" members
  author : FieldWritten (TextOr.Written User.Written) record.author "author" members
  contributors : FieldWritten (OneOrMany.Written (TextOr.Written User.Written))
    record.contributors "contributors" members
  description : FieldWritten (OneOrMany.Written LocalizedText.Written)
    record.description "description" members
  homepage : FieldWritten TextWritten record.homepage "homepage" members
  license : FieldWritten TextWritten record.license "license" members
  icon : FieldWritten (TextOr.Written Icon.Written) record.icon "icon" members
  updateUrl : FieldWritten TextWritten record.updateUrl "updateUrl" members
  downloadUrl : FieldWritten TextWritten record.downloadUrl "downloadUrl" members
  supportUrl : FieldWritten TextWritten record.supportUrl "supportUrl" members
  includes : FieldWritten (OneOrMany.Written (TextOr.Written Pattern.Written))
    record.includes "include" members
  matching : FieldWritten (OneOrMany.Written TextWritten) record.matching "match" members
  excludes : FieldWritten (OneOrMany.Written (TextOr.Written Pattern.Written))
    record.excludes "exclude" members
  requires : FieldWritten (OneOrMany.Written (TextOr.Written Resource.Written))
    record.requires "require" members
  resources : FieldWritten (OneOrMany.Written (TextOr.Written Resource.Written))
    record.resources "resources" members
  connect : FieldWritten (OneOrMany.Written TextWritten) record.connect "connect" members
  runAt : FieldWritten TextWritten record.runAt "runAt" members
  grants : FieldWritten (OneOrMany.Written TextWritten) record.grants "grant" members
  antiFeatures : FieldWritten (OneOrMany.Written (TextOr.Written AntiFeature.Written))
    record.antiFeatures "antiFeatures" members
  noFrames : FieldWritten (fun b v => v = .bool b) record.noFrames "noFrames" members
  noCompat : FieldWritten (OneOrMany.Written TextWritten) record.noCompat "noCompat" members
  injectInto : FieldWritten TextWritten record.injectInto "injectInto" members
  customTags : FieldWritten (fun tags v => v = .object tags.entries)
    record.customTags "customTags" members

def presentMembers (fields : List (String × Option Json)) : List (String × Json) :=
  fields.filterMap fun f => f.2.map fun v => (f.1, v)

section Present

variable {fields : List (String × Option Json)}

theorem presentMembers_cons_some (key : String) (v : Json) :
    presentMembers ((key, some v) :: fields) = (key, v) :: presentMembers fields := rfl

theorem presentMembers_cons_none (key : String) :
    presentMembers ((key, none) :: fields) = presentMembers fields := rfl

theorem keys_presentMembers_sublist :
    ((presentMembers fields).map Prod.fst).Sublist (fields.map Prod.fst) := by
  induction fields with
  | nil => exact List.Sublist.refl _
  | cons f fields ih =>
    obtain ⟨key, _ | v⟩ := f
    · exact ih.cons key
    · exact ih.cons_cons key

theorem membersOf_presentMembers {names : List String} (h : fields.map Prod.fst = names)
    (hnodup : names.Nodup) : MembersOf names (presentMembers fields) := by
  subst h
  exact ⟨hnodup.sublist keys_presentMembers_sublist, fun m hm =>
    keys_presentMembers_sublist.subset (List.mem_map_of_mem hm)⟩

theorem lookup_presentMembers (h : (fields.map Prod.fst).Nodup) (key : String) :
    (presentMembers fields).lookup key = (fields.lookup key).join := by
  induction fields with
  | nil => rfl
  | cons f fields ih =>
    rw [List.map_cons, List.nodup_cons] at h
    obtain ⟨k, v⟩ := f
    by_cases hk : key = k
    · subst hk
      cases v with
      | some v => simp [presentMembers_cons_some]
      | none =>
        have hnone : (presentMembers fields).lookup key = none :=
          lookup_eq_none_iff_not_mem.mpr fun hm => h.1 (keys_presentMembers_sublist.subset hm)
        simpa [presentMembers_cons_none] using hnone
    · have hb : (key == k) = false := by simpa using hk
      rw [List.lookup_cons, hb, ← ih h.2]
      cases v with
      | none => rfl
      | some v => simp only [presentMembers_cons_some, List.lookup_cons, hb]

theorem fieldWritten_presentMembers {α : Type} {written : α → Json → Prop} {tree : α → Json}
    {value : Option α} {key : String} (hnodup : (fields.map Prod.fst).Nodup)
    (hfield : fields.lookup key = some (value.map tree)) (h : ∀ v, written v (tree v)) :
    FieldWritten written value key (presentMembers fields) := by
  rw [FieldWritten, lookup_presentMembers hnodup, hfield]
  cases value with
  | none => exact .none
  | some v => exact .some (h v)

end Present

section Trees

variable {α : Type} {written : α → Json → Prop}

def OneOrMany.tree (item : α → Json) : OneOrMany α → Json
  | .one v => item v
  | .many vs => .array (vs.map item)

theorem OneOrMany.written_tree {item : α → Json} (h : ∀ v, written v (item v))
    (value : OneOrMany α) : value.Written written (value.tree item) := by
  cases value with
  | one v => exact .one (h v)
  | many vs =>
    refine .many ?_
    rw [List.forall₂_map_right_iff, List.forall₂_same]
    exact fun v _ => h v

def TextOr.tree (present : α → Json) : TextOr α → Json
  | .text s => .string s
  | .descriptor v => present v

theorem TextOr.written_tree {present : α → Json} (h : ∀ v, written v (present v))
    (value : TextOr α) : value.Written written (value.tree present) := by
  cases value with
  | text s => exact .text s
  | descriptor v => exact .descriptor (h v)

/-- The base text goes before the translations. -/
def LocalizedText.tree : LocalizedText → Json
  | .plain text => .string text
  | .translated t =>
    .object (((baseKey, t.base) :: t.locales.entries).map fun e => (e.1, .string e.2))

theorem LocalizedText.written_tree (value : LocalizedText) : value.Written value.tree := by
  cases value with
  | plain text => exact .plain text
  | translated t => exact .translated [] t.locales.entries rfl

def User.tree (u : User) : Json :=
  .object (presentMembers [("name", some (.string u.name)), ("email", u.email.map .string),
    ("url", u.url.map .string)])

theorem textWritten_string (text : String) : TextWritten text (.string text) := rfl

theorem User.written_tree (u : User) : u.Written u.tree := by
  have hnodup : ["name", "email", "url"].Nodup := by decide
  exact .object (membersOf_presentMembers rfl hnodup)
    (fieldWritten_presentMembers hnodup rfl textWritten_string)
    (fieldWritten_presentMembers hnodup rfl textWritten_string)
    (fieldWritten_presentMembers hnodup rfl textWritten_string)

def Icon.tree (icon : Icon) : Json :=
  .object (presentMembers [("small", icon.small.map .string), ("larger", icon.larger.map .string)])

theorem Icon.written_tree (icon : Icon) : icon.Written icon.tree := by
  have hnodup : ["small", "larger"].Nodup := by decide
  exact .object (membersOf_presentMembers rfl hnodup)
    (fieldWritten_presentMembers hnodup rfl textWritten_string)
    (fieldWritten_presentMembers hnodup rfl textWritten_string)

def Pattern.tree (p : Pattern) : Json :=
  .object (presentMembers [("regex", some (.string p.regex)), ("flags", p.flags.map .string)])

theorem Pattern.written_tree (p : Pattern) : p.Written p.tree := by
  have hnodup : ["regex", "flags"].Nodup := by decide
  exact .object (membersOf_presentMembers rfl hnodup)
    (fieldWritten_presentMembers hnodup rfl textWritten_string)
    (fieldWritten_presentMembers hnodup rfl textWritten_string)

def AntiFeature.tree (feature : AntiFeature) : Json :=
  .array [.string feature.kind, feature.reason.tree]

theorem AntiFeature.written_tree (feature : AntiFeature) : feature.Written feature.tree :=
  .pair feature.reason.written_tree

def Integrity.tree (h : Integrity) : Json :=
  .array [.string h.value.text, .string h.algorithm.label]

def Resource.tree (r : Resource) : Json :=
  .object (presentMembers [("id", some (.string r.id)), ("src", r.src.map .string),
    ("url", r.url.map .string), ("hash", r.hash.map Integrity.tree)])

theorem Resource.written_tree (r : Resource) : r.Written r.tree := by
  have hnodup : resourceKeys.Nodup := by decide
  exact .object (membersOf_presentMembers rfl hnodup)
    (fieldWritten_presentMembers hnodup rfl textWritten_string)
    (fieldWritten_presentMembers hnodup rfl textWritten_string)
    (fieldWritten_presentMembers hnodup rfl textWritten_string)
    (fieldWritten_presentMembers hnodup rfl fun _ => rfl)

/-- Each key of a record with what is written under it. -/
def Record.fields (record : Record) : List (String × Option Json) :=
  let text := Option.map Json.string
  let texts := Option.map (OneOrMany.tree Json.string)
  let localizables := Option.map (OneOrMany.tree LocalizedText.tree)
  let patterns := Option.map (OneOrMany.tree (TextOr.tree Pattern.tree))
  let needs := Option.map (OneOrMany.tree (TextOr.tree Resource.tree))
  [("name", localizables record.name),
    ("namespace", text record.scriptNamespace),
    ("version", text record.version),
    ("author", record.author.map (TextOr.tree User.tree)),
    ("contributors", record.contributors.map (OneOrMany.tree (TextOr.tree User.tree))),
    ("description", localizables record.description),
    ("homepage", text record.homepage),
    ("license", text record.license),
    ("icon", record.icon.map (TextOr.tree Icon.tree)),
    ("updateUrl", text record.updateUrl),
    ("downloadUrl", text record.downloadUrl),
    ("supportUrl", text record.supportUrl),
    ("include", patterns record.includes),
    ("match", texts record.matching),
    ("exclude", patterns record.excludes),
    ("require", needs record.requires),
    ("resources", needs record.resources),
    ("connect", texts record.connect),
    ("runAt", text record.runAt),
    ("grant", texts record.grants),
    ("antiFeatures", record.antiFeatures.map (OneOrMany.tree (TextOr.tree AntiFeature.tree))),
    ("noFrames", record.noFrames.map .bool),
    ("noCompat", texts record.noCompat),
    ("injectInto", text record.injectInto),
    ("customTags", record.customTags.map fun tags => .object tags.entries)]

/-- Every record can be written. -/
theorem Record.written_presentMembers (record : Record) :
    record.Written (presentMembers record.fields) := by
  have hnodup : (record.fields.map Prod.fst).Nodup := by
    change recordKeys.Nodup
    decide
  have htexts := OneOrMany.written_tree textWritten_string
  have hlocalizables := OneOrMany.written_tree LocalizedText.written_tree
  have husers := TextOr.written_tree User.written_tree
  have hicons := TextOr.written_tree Icon.written_tree
  have hpatterns := OneOrMany.written_tree (TextOr.written_tree Pattern.written_tree)
  have hneeds := OneOrMany.written_tree (TextOr.written_tree Resource.written_tree)
  have hfeatures := OneOrMany.written_tree (TextOr.written_tree AntiFeature.written_tree)
  have hfield := @fieldWritten_presentMembers record.fields
  exact {
    keys := membersOf_presentMembers rfl hnodup
    name := hfield hnodup rfl hlocalizables
    scriptNamespace := hfield hnodup rfl textWritten_string
    version := hfield hnodup rfl textWritten_string
    author := hfield hnodup rfl husers
    contributors := hfield hnodup rfl (OneOrMany.written_tree husers)
    description := hfield hnodup rfl hlocalizables
    homepage := hfield hnodup rfl textWritten_string
    license := hfield hnodup rfl textWritten_string
    icon := hfield hnodup rfl hicons
    updateUrl := hfield hnodup rfl textWritten_string
    downloadUrl := hfield hnodup rfl textWritten_string
    supportUrl := hfield hnodup rfl textWritten_string
    includes := hfield hnodup rfl hpatterns
    matching := hfield hnodup rfl htexts
    excludes := hfield hnodup rfl hpatterns
    requires := hfield hnodup rfl hneeds
    resources := hfield hnodup rfl hneeds
    connect := hfield hnodup rfl htexts
    runAt := hfield hnodup rfl textWritten_string
    grants := hfield hnodup rfl htexts
    antiFeatures := hfield hnodup rfl hfeatures
    noFrames := hfield hnodup rfl fun _ => rfl
    noCompat := hfield hnodup rfl htexts
    injectInto := hfield hnodup rfl textWritten_string
    customTags := hfield hnodup rfl fun _ => rfl }

end Trees

end Userscript
