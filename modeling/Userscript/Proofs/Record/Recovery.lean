import Userscript.Proofs.Record.Insertion
import Userscript.Proofs.Record.Written

/-! A record is recovered from what is written for it. No form of a value is
taken for another one, apart from two that cannot be told apart: the word `auto`
as a digest, and an array of two texts as an anti-feature. -/

namespace Userscript

/-- What is written for a value is decoded to that value. -/
def Recovered {α : Type} (item : Json → Option α) (written : α → Json → Prop) (value : α) : Prop :=
  ∀ v, written value v → item v = some value

section Fields

variable {α : Type} {item : Json → Option α} {written : α → Json → Prop} {key : String}
  {members : List (String × Json)}

theorem required?_of_fieldWritten {value : α} (h : FieldWritten written (some value) key members)
    (hread : Recovered item written value) : Json.required? item key members = some value := by
  unfold FieldWritten at h
  rw [Json.required?]
  cases hv : members.lookup key with
  | none => rw [hv] at h; cases h
  | some v =>
    rw [hv] at h
    cases h with
    | some h => exact hread v h

theorem optional?_of_fieldWritten {value : Option α} (h : FieldWritten written value key members)
    (hnull : item .null = none) (hread : ∀ v ∈ value, Recovered item written v) :
    Json.optional? item key members = some value := by
  unfold FieldWritten at h
  rw [Json.optional?]
  cases hv : members.lookup key with
  | none => rw [hv] at h; cases h; rfl
  | some v =>
    rw [hv] at h
    cases h with
    | some h =>
      have hitem := hread _ rfl v h
      cases v with
      -- a null would be read as an absent field, but no value is written as null
      | null => rw [hnull] at hitem; cases hitem
      | _ => simp [hitem]

theorem parts?_of_membersOf {names : List String} (h : MembersOf names members) :
    (Json.object members).parts? names = some members := by
  rw [Json.parts?, Json.known?_of_forall_mem h.known, if_pos h.distinct]

end Fields

section Values

variable {α : Type} {item : Json → Option α} {written : α → Json → Prop}

theorem recovered_text (text : String) : Recovered Json.string? TextWritten text := by
  rintro v rfl
  rfl

theorem mapM_of_forall₂ {β : Type} {read : β → Option α} {rel : α → β → Prop} {values : List α}
    {items : List β} (hread : ∀ value ∈ values, ∀ v, rel value v → read v = some value)
    (h : List.Forall₂ rel values items) : items.mapM read = some values := by
  induction h with
  | nil => rfl
  | cons hv _ ih =>
    rw [List.forall_mem_cons] at hread
    rw [List.mapM_cons, hread.1 _ hv, ih hread.2]
    rfl

/-- A single value is not taken for an array of values. -/
theorem OneOrMany.recovered {value : OneOrMany α}
    (hitems : ∀ v ∈ value.toList, Recovered item written v)
    (hone : ∀ v, value = .one v → ∀ items, written v (.array items) → items.mapM item = none) :
    Recovered (OneOrMany.ofJson? item) (OneOrMany.Written written) value := by
  intro v h
  cases h with
  | many h =>
    rw [OneOrMany.ofJson?, mapM_of_forall₂ hitems h]
    rfl
  | one h =>
    have hitem := hitems _ (List.mem_singleton_self _) v h
    cases v with
    | array items =>
      -- the reading as several values comes first, and it is refused
      rw [OneOrMany.ofJson?, hone _ rfl items h]
      simp [hitem]
    | _ => simp [OneOrMany.ofJson?, hitem]

/-- A descriptor is not taken for a text. -/
theorem TextOr.recovered {value : TextOr α} (hstring : ∀ v s, ¬ written v (.string s))
    (hdescriptor : ∀ v, value = .descriptor v → Recovered item written v) :
    Recovered (TextOr.ofJson? item) (TextOr.Written written) value := by
  intro v h
  cases h with
  | text s => rfl
  | descriptor h =>
    have hitem := hdescriptor _ rfl v h
    cases v with
    | string s => exact absurd h (hstring _ s)
    | _ => simp [TextOr.ofJson?, hitem]

theorem Translations.ofDict?_of_entries {t : Translations} {d : Dict String}
    {before after : List (String × String)} (h : t.locales.entries = before ++ after)
    (hd : d.entries = before ++ (baseKey, t.base) :: after) : ofDict? d = some t := by
  have hkeys : baseKey ∉ (before ++ after).map Prod.fst := h ▸ t.noBase
  simp only [List.map_append, List.mem_append, not_or] at hkeys
  have hkept : ∀ es : List (String × String), baseKey ∉ es.map Prod.fst →
      ∀ e ∈ es, e.1 ≠ baseKey :=
    fun es hes e he hk => hes (hk ▸ List.mem_map_of_mem he)
  have hfind : d.find? baseKey = some t.base := by
    have hbefore : before.find? (·.1 = baseKey) = none :=
      List.find?_eq_none.mpr fun e he => by simpa using hkept before hkeys.1 e he
    rw [Dict.find?, hd, List.find?_append, hbefore]
    simp
  have herase : d.erase baseKey = t.locales := by
    refine Dict.eq_of_entries ?_
    have hbefore : before.filter (·.1 ≠ baseKey) = before :=
      List.filter_eq_self.mpr fun e he => by simpa using hkept before hkeys.1 e he
    have hafter : after.filter (·.1 ≠ baseKey) = after :=
      List.filter_eq_self.mpr fun e he => by simpa using hkept after hkeys.2 e he
    change d.entries.filter (·.1 ≠ baseKey) = t.locales.entries
    rw [h, hd, List.filter_append, hbefore, List.filter_cons_of_neg (by simp), hafter]
  rw [ofDict?, hfind]
  simp [herase]

theorem nodup_keys_with_base {t : Translations} {before after : List (String × String)}
    (h : t.locales.entries = before ++ after) :
    ((before ++ (baseKey, t.base) :: after).map Prod.fst).Nodup := by
  have hkeys : baseKey ∉ (before ++ after).map Prod.fst := h ▸ t.noBase
  have hdistinct : ((before ++ after).map Prod.fst).Nodup := h ▸ t.locales.distinct
  rw [(List.perm_middle.map Prod.fst).nodup_iff]
  exact List.nodup_cons.mpr ⟨hkeys, hdistinct⟩

theorem Translations.ofJson?_of_entries {t : Translations} {before after : List (String × String)}
    (h : t.locales.entries = before ++ after) :
    Translations.ofJson?
      (.object ((before ++ (baseKey, t.base) :: after).map fun e => (e.1, .string e.2))) =
        some t := by
  have hentries := Dict.entries_ofList (nodup_keys_with_base h)
  have hrel : List.Forall₂ (fun (e : String × String) m => m = (e.1, Json.string e.2))
      (before ++ (baseKey, t.base) :: after)
      ((before ++ (baseKey, t.base) :: after).map fun e => (e.1, .string e.2)) := by
    rw [List.forall₂_map_right_iff, List.forall₂_same]
    exact fun _ _ => rfl
  have hmembers : ((before ++ (baseKey, t.base) :: after).map fun e => (e.1, Json.string e.2)).mapM
      (fun (m : String × Json) => m.2.string?.map fun s => (m.1, s)) =
        some (before ++ (baseKey, t.base) :: after) :=
    mapM_of_forall₂ (fun e _ m he => by subst he; rfl) hrel
  rw [Translations.ofJson?, hmembers]
  exact Translations.ofDict?_of_entries h hentries

theorem LocalizedText.recovered (value : LocalizedText) :
    Recovered LocalizedText.ofJson? LocalizedText.Written value := by
  intro v h
  cases h with
  | plain text => rfl
  | translated before after h =>
    exact congrArg (Option.map LocalizedText.translated) (Translations.ofJson?_of_entries h)

theorem User.recovered (u : User) : Recovered User.ofJson? User.Written u := by
  rintro _ ⟨hkeys, hname, hemail, hurl⟩
  have hname := required?_of_fieldWritten hname (recovered_text _)
  have hemail := optional?_of_fieldWritten hemail rfl fun _ _ => recovered_text _
  have hurl := optional?_of_fieldWritten hurl rfl fun _ _ => recovered_text _
  simp only [User.ofJson?, parts?_of_membersOf hkeys, Option.bind_eq_bind, Option.bind_some, hname,
    hemail, hurl]
  rfl

theorem Icon.recovered (icon : Icon) : Recovered Icon.ofJson? Icon.Written icon := by
  rintro _ ⟨hkeys, hsmall, hlarger⟩
  have hsmall := optional?_of_fieldWritten hsmall rfl fun _ _ => recovered_text _
  have hlarger := optional?_of_fieldWritten hlarger rfl fun _ _ => recovered_text _
  simp only [Icon.ofJson?, parts?_of_membersOf hkeys, Option.bind_eq_bind, Option.bind_some, hsmall,
    hlarger]
  rfl

theorem Pattern.recovered (p : Pattern) : Recovered Pattern.ofJson? Pattern.Written p := by
  rintro _ ⟨hkeys, hregex, hflags⟩
  have hregex := required?_of_fieldWritten hregex (recovered_text _)
  have hflags := optional?_of_fieldWritten hflags rfl fun _ _ => recovered_text _
  simp only [Pattern.ofJson?, parts?_of_membersOf hkeys, Option.bind_eq_bind, Option.bind_some,
    hregex, hflags]
  rfl

theorem AntiFeature.recovered (feature : AntiFeature) :
    Recovered AntiFeature.ofJson? AntiFeature.Written feature := by
  rintro _ ⟨h⟩
  have hreason := LocalizedText.recovered feature.reason _ h
  simp only [AntiFeature.ofJson?, Json.pair?, Json.string?, hreason]
  rfl

theorem Integrity.recovered {h : Integrity} (hauto : h.value ≠ .given "auto") :
    Recovered Integrity.ofJson? Integrity.Written h := by
  rintro _ rfl
  have halgorithm : HashAlgorithm.ofJson? (.string h.algorithm.label) = some h.algorithm :=
    HashAlgorithm.ofLabel?_label h.algorithm
  have hvalue : DigestSource.ofText h.value.text = h.value := by
    cases hv : h.value with
    | computed => rfl
    | given digest => exact if_neg fun he => hauto (by rw [hv, ← he]; rfl)
  simp only [Integrity.ofJson?, Json.pair?, Json.string?, halgorithm]
  exact congrArg (fun value => some (Integrity.mk value h.algorithm)) hvalue

theorem Resource.recovered {r : Resource} (hauto : ∀ h ∈ r.hash, h.value ≠ .given "auto") :
    Recovered Resource.ofJson? Resource.Written r := by
  rintro _ ⟨hkeys, hid, hsrc, hurl, hhash⟩
  have hid := required?_of_fieldWritten hid (recovered_text _)
  have hsrc := optional?_of_fieldWritten hsrc rfl fun _ _ => recovered_text _
  have hurl := optional?_of_fieldWritten hurl rfl fun _ _ => recovered_text _
  have hhash := optional?_of_fieldWritten hhash rfl fun h hm => Integrity.recovered (hauto h hm)
  simp only [Resource.ofJson?, parts?_of_membersOf hkeys, Option.bind_some, Resource.ofParts?, hid,
    hsrc, hurl, hhash]
  rfl

end Values

/-- What keeps a record from being taken for another one. -/
structure Record.Recoverable (record : Record) : Prop where
  /-- the word for a computed digest is not given as a digest -/
  digests : ∀ needs, needs ∈ record.requires ∨ needs ∈ record.resources →
    ∀ r, .descriptor r ∈ needs.toList → ∀ h ∈ r.hash, h.value ≠ .given "auto"
  /-- an anti-feature that is not in an array has no plain reason -/
  reason : ∀ kind reason, record.antiFeatures ≠ some (.one (.descriptor ⟨kind, .plain reason⟩))

section Record

/-- Values that are written without an array are not taken for several. -/
theorem OneOrMany.recovered_of_no_array {α : Type} {item : Json → Option α}
    {written : α → Json → Prop} (hnone : ∀ v items, ¬ written v (.array items))
    {value : OneOrMany α} (hitems : ∀ v ∈ value.toList, Recovered item written v) :
    Recovered (OneOrMany.ofJson? item) (OneOrMany.Written written) value :=
  OneOrMany.recovered hitems fun v _ items h => absurd h (hnone v items)

theorem TextOr.not_written_array {α : Type} {written : α → Json → Prop}
    (h : ∀ v items, ¬ written v (.array items)) (value : TextOr α) (items : List Json) :
    ¬ value.Written written (.array items) := by
  intro hw
  cases hw with
  | descriptor hv => exact h _ _ hv

theorem recovered_texts (value : OneOrMany String) :
    Recovered (OneOrMany.ofJson? Json.string?) (OneOrMany.Written TextWritten) value :=
  OneOrMany.recovered_of_no_array (fun _ _ h => nomatch h) fun text _ => recovered_text text

theorem recovered_localized (value : OneOrMany LocalizedText) :
    Recovered (OneOrMany.ofJson? LocalizedText.ofJson?) (OneOrMany.Written LocalizedText.Written)
      value :=
  OneOrMany.recovered_of_no_array (fun _ _ h => nomatch h) fun v _ => v.recovered

theorem recovered_user (value : TextOr User) :
    Recovered (TextOr.ofJson? User.ofJson?) (TextOr.Written User.Written) value :=
  TextOr.recovered (fun _ _ h => nomatch h) fun u _ => u.recovered

theorem recovered_icon (value : TextOr Icon) :
    Recovered (TextOr.ofJson? Icon.ofJson?) (TextOr.Written Icon.Written) value :=
  TextOr.recovered (fun _ _ h => nomatch h) fun icon _ => icon.recovered

theorem recovered_users (value : OneOrMany (TextOr User)) :
    Recovered (OneOrMany.ofJson? (TextOr.ofJson? User.ofJson?))
      (OneOrMany.Written (TextOr.Written User.Written)) value :=
  OneOrMany.recovered_of_no_array (TextOr.not_written_array fun _ _ h => nomatch h)
    fun v _ => recovered_user v

theorem recovered_patterns (value : OneOrMany (TextOr Pattern)) :
    Recovered (OneOrMany.ofJson? (TextOr.ofJson? Pattern.ofJson?))
      (OneOrMany.Written (TextOr.Written Pattern.Written)) value :=
  OneOrMany.recovered_of_no_array (TextOr.not_written_array fun _ _ h => nomatch h)
    fun _ _ => TextOr.recovered (fun _ _ h => nomatch h) fun p _ => p.recovered

theorem recovered_needs {value : OneOrMany (TextOr Resource)}
    (h : ∀ r, .descriptor r ∈ value.toList → ∀ h ∈ r.hash, h.value ≠ .given "auto") :
    Recovered (OneOrMany.ofJson? (TextOr.ofJson? Resource.ofJson?))
      (OneOrMany.Written (TextOr.Written Resource.Written)) value :=
  OneOrMany.recovered_of_no_array (TextOr.not_written_array fun _ _ h => nomatch h)
    fun _ hv => TextOr.recovered (fun _ _ h => nomatch h) fun r hr =>
      Resource.recovered (h r (hr ▸ hv))

/-- An array with a kind and translations is one anti-feature, since translations
cannot stand for an anti-feature of their own. -/
theorem recovered_antiFeatures {value : OneOrMany (TextOr AntiFeature)}
    (h : ∀ kind reason, value ≠ .one (.descriptor ⟨kind, .plain reason⟩)) :
    Recovered (OneOrMany.ofJson? (TextOr.ofJson? AntiFeature.ofJson?))
      (OneOrMany.Written (TextOr.Written AntiFeature.Written)) value := by
  refine OneOrMany.recovered (fun _ _ => ?_) fun _ hone items hw => ?_
  · exact TextOr.recovered (fun _ _ h => nomatch h) fun feature _ => feature.recovered
  · cases hw with
    | @descriptor feature _ hpair =>
      obtain ⟨kind, reason⟩ := feature
      cases hpair with
      | pair hreason =>
        cases hreason with
        | plain text => exact absurd hone (h kind text)
        | translated before after hentries => rfl

example (kind reason : String) :
    OneOrMany.ofJson? (TextOr.ofJson? AntiFeature.ofJson?)
        (AntiFeature.tree ⟨kind, .plain reason⟩) =
      some (.many [.text kind, .text reason]) := rfl

theorem recovered_bool (b : Bool) : Recovered Json.bool? (fun b v => v = .bool b) b := by
  rintro _ rfl
  rfl

theorem recovered_tags (tags : Dict Json) :
    Recovered customTagsOfJson? (fun tags v => v = .object tags.entries) tags := by
  rintro _ rfl
  exact congrArg some (Dict.eq_of_entries (Dict.entries_ofList tags.distinct))

theorem Document.known?_valued {names : List String} {members : List (String × Json)}
    (h : MembersOf names members) :
    Document.known? names (Document.valued members) = some members := by
  refine Document.known?_eq_some.mpr ⟨List.filter_eq_self.mpr fun m hm => ?_, h.distinct⟩
  obtain ⟨p, hp, rfl⟩ := List.mem_map.mp hm
  exact decide_eq_true (h.known p hp)

/-- Whatever is written for a record is decoded to that record, unless it says
`auto` for a given digest or has a single anti-feature with a plain reason. -/
theorem ofDocument?_of_written (record : Record) (hrecord : record.Recoverable) :
    (∃ members, record.Written members) ∧
      ∀ members, record.Written members →
        Record.ofDocument? (.object (Document.valued members)) = some record := by
  refine ⟨⟨_, record.written_presentMembers⟩, fun members h => ?_⟩
  have htext : ∀ {value key}, FieldWritten TextWritten value key members →
      Json.optional? Json.string? key members = some value :=
    fun hw => optional?_of_fieldWritten hw rfl fun v _ => recovered_text v
  have htexts : ∀ {value key}, FieldWritten (OneOrMany.Written TextWritten) value key members →
      Json.optional? (OneOrMany.ofJson? Json.string?) key members = some value :=
    fun hw => optional?_of_fieldWritten hw rfl fun v _ => recovered_texts v
  have hname := optional?_of_fieldWritten h.name rfl fun v _ => recovered_localized v
  have hdescription := optional?_of_fieldWritten h.description rfl fun v _ => recovered_localized v
  have hauthor := optional?_of_fieldWritten h.author rfl fun v _ => recovered_user v
  have hcontributors := optional?_of_fieldWritten h.contributors rfl fun v _ => recovered_users v
  have hicon := optional?_of_fieldWritten h.icon rfl fun v _ => recovered_icon v
  have hincludes := optional?_of_fieldWritten h.includes rfl fun v _ => recovered_patterns v
  have hexcludes := optional?_of_fieldWritten h.excludes rfl fun v _ => recovered_patterns v
  have hrequires := optional?_of_fieldWritten h.requires rfl fun v hv =>
    recovered_needs (hrecord.digests v (.inl hv))
  have hresources := optional?_of_fieldWritten h.resources rfl fun v hv =>
    recovered_needs (hrecord.digests v (.inr hv))
  have hfeatures := optional?_of_fieldWritten h.antiFeatures rfl fun v hv =>
    recovered_antiFeatures fun kind reason he => hrecord.reason kind reason (he ▸ hv)
  have hnoFrames := optional?_of_fieldWritten h.noFrames rfl fun b _ =>
    (recovered_bool b : Recovered Json.bool? _ b)
  have hcustomTags := optional?_of_fieldWritten h.customTags rfl fun tags _ => recovered_tags tags
  rw [Record.ofDocument?_object, Document.known?_valued h.keys, Option.bind_some]
  simp only [Record.ofParts?, Option.bind_eq_bind, Option.bind_some, hname, hdescription, hauthor,
    hcontributors, hicon, hincludes, hexcludes, hrequires, hresources, hfeatures, hnoFrames,
    hcustomTags, htext h.scriptNamespace, htext h.version, htext h.homepage, htext h.license,
    htext h.updateUrl, htext h.downloadUrl, htext h.supportUrl, htext h.runAt, htext h.injectInto,
    htexts h.matching, htexts h.connect, htexts h.grants, htexts h.noCompat]
  rfl

/-- Two texts, a kind with translations and a resource with parts, all in arrays. -/
def arrayRecord : Record :=
  { name := some (.one (.translated ((Translations.ofBase "a").add "de" "b")))
    author := some (.descriptor ⟨"me", none, some "u"⟩)
    matching := some (.many ["c", "d"])
    requires := some (.many [.text "e", .descriptor ⟨"f", some "g", none, some ⟨.computed, .md5⟩⟩])
    antiFeatures :=
      some (.one (.descriptor ⟨"ads", .translated ((Translations.ofBase "h").add "de" "i")⟩))
    customTags := some (Dict.ofList [("k", .array [.null]), ("j", .bool true)]) }

theorem recoverable_arrayRecord : arrayRecord.Recoverable where
  digests := by
    rintro needs (hneeds | hneeds) r hr h hh
    · obtain rfl := Option.some.inj hneeds
      simp only [OneOrMany.toList, List.mem_cons, reduceCtorEq, TextOr.descriptor.injEq,
        List.not_mem_nil, or_false, false_or] at hr
      subst hr
      cases hh
      exact nofun
    · exact nomatch hneeds
  reason := fun _ _ he => by cases he

theorem ofDocument?_of_written_arrays :
    arrayRecord.Recoverable ∧
      Record.ofDocument? (.object [
        ("name", some (.object [("@", .string "a"), ("de", .string "b")])),
        ("author", some (.object [("name", .string "me"), ("url", .string "u")])),
        ("match", some (.array [.string "c", .string "d"])),
        ("require", some (.array [.string "e", .object [("id", .string "f"), ("src", .string "g"),
          ("hash", .array [.string "auto", .string "md5"])]])),
        ("antiFeatures", some (.array [.string "ads",
          .object [("@", .string "h"), ("de", .string "i")]])),
        ("customTags", some (.object [("k", .array [.null]), ("j", .bool true)]))]) =
        some arrayRecord :=
  ⟨recoverable_arrayRecord,
    (ofDocument?_of_written arrayRecord recoverable_arrayRecord).2 _
      arrayRecord.written_presentMembers⟩

end Record

end Userscript
