import Userscript.Proofs.Expansion.Expanders

/-! When expanders succeed: the names of their tags are legal and no value has a
line feed, apart from what the values themselves must fulfil. -/

namespace Userscript

open Expansion

/-- A text that does not end the line it stands in. -/
abbrev FitsLine (text : String) : Prop := '\n' ∉ text.toList

section Appends

theorem appends_expandText (tag : String) (value : Option String) (checkNull : Bool) :
    (expandText tag value checkNull).Appends :=
  (writes_expandText (P := fun _ => True) (by simp) tag value checkNull (by simp)).toAppends

theorem appends_expandTranslations (locales : LocaleRule) (tag : String)
    (transform : String → String) (included : List String) (entries : List (String × String)) :
    (expandTranslations locales tag transform included entries).Appends :=
  (writes_expandTranslations (P := fun _ => True) (by simp) ..).toAppends

theorem appends_expandScalar (tag : String) (value : Json) : (expandScalar tag value).Appends :=
  (writes_expandScalar (P := fun _ => True) (by simp) tag value).toAppends

theorem appends_expandTexts (tag : String) (values : OneOrMany String) :
    (expandTexts tag values).Appends :=
  (writes_expandTexts (P := fun _ => True) (by simp) tag values).toAppends

end Appends

theorem outcome_checkTagName_bind {α : Type} (tag : String) (next : Unit → Expansion α) (a : α) :
    (checkTagName tag >>= next).outcome = .ok a ↔
      isTagName tag = true ∧ (next ()).outcome = .ok a := by
  rw [checkTagName_bind]
  split
  · next h => simp [h]
  · next h => simp [h]

theorem outcome_bind_eq_ok {α β : Type} {x : Expansion α} {f : α → Expansion β} {b : β}
    (hf : ∀ a, (f a).Appends) :
    (x >>= f).outcome = .ok b ↔ ∃ a, x.outcome = .ok a ∧ (f a).outcome = .ok b := by
  rw [outcome_bind hf]
  cases x.outcome with
  | error e =>
    constructor
    · exact fun h => nomatch h
    · exact fun ⟨_, h, _⟩ => nomatch h
  | ok a =>
    constructor
    · exact fun h => ⟨a, rfl, h⟩
    · rintro ⟨_, ⟨⟩, h⟩
      exact h

theorem outcome_seq_eq_ok {β : Type} {x : Expansion Unit} {y : Expansion β} {b : β}
    (hy : y.Appends) :
    (x >>= fun _ => y).outcome = .ok b ↔ x.outcome = .ok () ∧ y.outcome = .ok b := by
  rw [outcome_bind_eq_ok fun _ => hy]
  exact ⟨fun ⟨_, hx, h⟩ => ⟨hx, h⟩, fun ⟨hx, h⟩ => ⟨(), hx, h⟩⟩

theorem outcome_expandText_some {tag value : String} {checkNull : Bool} :
    (expandText tag (some value) checkNull).outcome = .ok () ↔
      isTagName tag = true ∧ FitsLine value := by
  unfold expandText
  rw [outcome_checkTagName_bind]
  refine and_congr_right fun _ => ?_
  change (if hasLineFeed value then throw (.brokenLine tag value)
    else emit (tagLine tag value)).outcome = .ok () ↔ '\n' ∉ value.toList
  rw [← hasLineFeed_eq_false]
  cases hasLineFeed value <;> simp

theorem outcome_expandText_none {tag : String} :
    ¬ (expandText tag none).outcome = .ok () := by
  unfold expandText
  rw [outcome_checkTagName_bind]
  rintro ⟨_, h⟩
  cases h

theorem written_expandText {tag value : String} (htag : isTagName tag = true)
    (hv : FitsLine value) : (expandText tag (some value)).written.lines = #[tagLine tag value] := by
  unfold expandText
  rw [checkTagName_bind, if_pos htag]
  simp [hasLineFeed_eq_false.mpr hv]

theorem outcome_expandTexts {tag : String} {values : OneOrMany String} :
    (expandTexts tag values).outcome = .ok () ↔
      isTagName tag = true ∧ ∀ v ∈ values.toList, FitsLine v := by
  unfold expandTexts
  rw [outcome_checkTagName_bind, outcome_forM_eq_ok fun v => appends_expandText tag (some v) true]
  simp only [outcome_expandText_some]
  exact and_congr_right fun htag => by simp [htag]

/-- The text of a JSON value that can stand in a line. -/
def Json.scalarText? : Json → Option String
  | .null => none
  | .bool b => some (if b then "true" else "false")
  | .number n => some n.text
  | .string s => some s
  | .array _ => none
  | .object _ => none

theorem outcome_expandScalar {tag : String} {value : Json} :
    (expandScalar tag value).outcome = .ok () ↔
      isTagName tag = true ∧ ∃ text, value.scalarText? = some text ∧ FitsLine text := by
  unfold expandScalar
  rw [outcome_checkTagName_bind]
  refine and_congr_right fun htag => ?_
  cases value with
  | null => simp [Json.scalarText?, outcome_expandText_none]
  | bool b => simp only [outcome_expandText_some, htag, Json.scalarText?]; simp
  | number n => simp only [outcome_expandText_some, htag, Json.scalarText?]; simp
  | string s => simp only [outcome_expandText_some, htag, Json.scalarText?]; simp
  | array items => simp [Json.scalarText?]
  | object members => simp [Json.scalarText?]

section Localized

variable {locales : LocaleRule} {tag : String} {transform : String → String}

theorem outcome_resolveLocale {key locale : String} :
    (resolveLocale locales key).outcome = .ok locale ↔ (locales key).1 = .ok locale := by
  unfold resolveLocale
  cases h : (locales key).1 with
  | error e =>
    constructor
    · exact fun hc => nomatch hc
    · exact fun hc => nomatch hc
  | ok l =>
    change Except.ok l = Except.ok locale ↔ _
    simp only [Except.ok.injEq]

theorem outcome_expandTranslations_cons {included : List String} {entry : String × String}
    {rest : List (String × String)} :
    (expandTranslations locales tag transform included (entry :: rest)).outcome = .ok () ↔
      ∃ l, (locales entry.1).1 = .ok l ∧ l ∉ included ∧
        (isTagName (localeTag tag l) = true ∧ FitsLine (transform entry.2)) ∧
        (expandTranslations locales tag transform (included ++ [l]) rest).outcome = .ok () := by
  have hrest : ∀ included, (expandTranslations locales tag transform included rest).Appends :=
    fun included => appends_expandTranslations ..
  have hline : ∀ l included, (expandText (localeTag tag l) (some (transform entry.2)) >>=
      fun _ => expandTranslations locales tag transform included rest).Appends :=
    fun l included => (appends_expandText ..).bind fun _ => hrest included
  rw [expandTranslations_cons, outcome_bind_eq_ok]
  · simp only [outcome_resolveLocale]
    refine exists_congr fun l => and_congr_right fun _ => ?_
    by_cases hi : l ∈ included
    · simp [hi]
    · simp only [hi, if_false, not_false_eq_true, true_and]
      rw [outcome_seq_eq_ok (hrest _), outcome_expandText_some]
  · intro l
    split
    · exact appends_throw _
    · exact hline l _

/-- What the rest of some translations needs once `included` are there: the
locales of the keys are known, new and legal in tags, and the texts fit. -/
theorem outcome_expandTranslations {included : List String} {entries : List (String × String)} :
    (expandTranslations locales tag transform included entries).outcome = .ok () ↔
      ∃ resolved : List String, entries.map (fun e => (locales e.1).1) = resolved.map Except.ok ∧
        resolved.Nodup ∧ (∀ l ∈ resolved, l ∉ included) ∧
        (∀ l ∈ resolved, isTagName (localeTag tag l) = true) ∧
        ∀ e ∈ entries, FitsLine (transform e.2) := by
  induction entries generalizing included with
  | nil =>
    refine ⟨fun _ => ⟨[], by simp⟩, fun _ => rfl⟩
  | cons entry rest ih =>
    rw [outcome_expandTranslations_cons]
    simp only [ih]
    -- the locale of the first key joins those that the rest must avoid
    constructor
    · rintro ⟨l, hl, hnew, ⟨htag, hfit⟩, resolved, hmap, hnodup, hfresh, htags, hfits⟩
      refine ⟨l :: resolved, ?_, ?_, ?_, ?_, ?_⟩
      · simp [hl, hmap]
      · exact List.nodup_cons.mpr ⟨fun hm => hfresh l hm (by simp), hnodup⟩
      · intro l' hm
        rcases List.mem_cons.mp hm with rfl | hm
        · exact hnew
        · exact fun hi => hfresh l' hm (by simp [hi])
      · simpa [htag] using htags
      · exact List.forall_mem_cons.mpr ⟨hfit, hfits⟩
    · rintro ⟨resolved, hmap, hnodup, hfresh, htags, hfits⟩
      cases resolved with
      | nil => simp at hmap
      | cons l resolved =>
        simp only [List.map_cons, List.cons.injEq] at hmap
        rw [List.nodup_cons] at hnodup
        refine ⟨l, hmap.1, hfresh l (by simp), ⟨htags l (by simp), hfits entry (by simp)⟩,
          resolved, hmap.2, hnodup.2, ?_, ?_, ?_⟩
        · intro l' hm hi
          rcases List.mem_append.mp hi with hi | hi
          · exact hfresh l' (by simp [hm]) hi
          · exact hnodup.1 (List.mem_singleton.mp hi ▸ hm)
        · exact fun l' hm => htags l' (by simp [hm])
        · exact fun e hm => hfits e (by simp [hm])

/-- The texts that a value puts behind a tag: the base text, then translations. -/
def LocalizedText.texts (transform : String → String) : LocalizedText → List String
  | .plain text => [text]
  | .translated t => transform t.base :: t.locales.entries.map fun e => transform e.2

/-- The keys of a value have locales, all of them different, that can stand in
the tag. -/
def LocalizedText.Resolves (locales : LocaleRule) (tag : String) : LocalizedText → Prop
  | .plain _ => True
  | .translated t => ∃ resolved : List String,
      t.locales.keys.map (fun key => (locales key).1) = resolved.map Except.ok ∧
        resolved.Nodup ∧ ∀ l ∈ resolved, isTagName (localeTag tag l) = true

theorem outcome_expandLocalizedText {value : LocalizedText} :
    (expandLocalizedText locales tag value transform).outcome = .ok () ↔
      isTagName tag = true ∧ value.Resolves locales tag ∧
        ∀ text ∈ value.texts transform, FitsLine text := by
  cases value with
  | plain text =>
    change (expandText tag (some text)).outcome = .ok () ↔ _
    simp [outcome_expandText_some, LocalizedText.Resolves, LocalizedText.texts]
  | translated t =>
    change (expandText tag (some (transform t.base)) >>= fun _ =>
      expandTranslations locales tag transform [] t.locales.entries).outcome = .ok () ↔ _
    rw [outcome_seq_eq_ok (appends_expandTranslations ..), outcome_expandText_some,
      outcome_expandTranslations]
    have hkeys : t.locales.keys.map (fun key => (locales key).1) =
        t.locales.entries.map fun e => (locales e.1).1 := by
      rw [Dict.keys, List.map_map]
      rfl
    simp only [LocalizedText.Resolves, LocalizedText.texts, hkeys, List.forall_mem_cons,
      List.forall_mem_map, List.not_mem_nil, not_false_eq_true, implies_true, true_and]
    constructor
    · rintro ⟨⟨htag, hbase⟩, resolved, hmap, hnodup, htags, hfits⟩
      exact ⟨htag, ⟨resolved, hmap, hnodup, htags⟩, hbase, hfits⟩
    · rintro ⟨htag, ⟨resolved, hmap, hnodup, htags⟩, hbase, hfits⟩
      exact ⟨⟨htag, hbase⟩, resolved, hmap, hnodup, htags, hfits⟩

theorem outcome_expandLocalizedTexts {value : OneOrMany LocalizedText} :
    (expandLocalizedTexts locales tag (some value)).outcome = .ok () ↔
      isTagName tag = true ∧ ∃ v, value = .one v ∧ v.Resolves locales tag ∧
        ∀ text ∈ v.texts id, FitsLine text := by
  unfold expandLocalizedTexts
  rw [outcome_checkTagName_bind]
  refine and_congr_right fun htag => ?_
  cases value with
  | one v => simp [outcome_expandLocalizedText, htag]
  | many vs => simp

end Localized

section Descriptor

variable {α : Type} {transformer : Transformer α} {tag : String}

def Emission.texts : Emission → List String
  | .nothing => []
  | .one v => [v]
  | .many vs => vs

theorem outcome_expandTransformed {value : TextOr α} (htag : isTagName tag = true) :
    (expandTransformed tag value transformer).outcome = .ok () ↔
      ∃ emission, (transformer value tag).outcome = .ok emission ∧
        ∀ v ∈ emission.texts, FitsLine v := by
  unfold expandTransformed
  rw [outcome_bind_eq_ok]
  · refine exists_congr fun emission => and_congr_right fun _ => ?_
    cases emission with
    | nothing => simp [Emission.texts]
    | one v => simp [outcome_expandTexts, htag, Emission.texts, OneOrMany.toList]
    | many vs => simp [outcome_expandTexts, htag, Emission.texts, OneOrMany.toList]
  · intro emission
    cases emission with
    | nothing => exact appends_pure ()
    | one v => exact appends_expandTexts tag _
    | many vs => exact appends_expandTexts tag _

theorem outcome_expandDescriptor_text {s : String} :
    (expandDescriptor tag (some (.text s)) transformer).outcome = .ok () ↔
      isTagName tag = true ∧ FitsLine s := by
  unfold expandDescriptor
  rw [outcome_checkTagName_bind]
  exact and_congr_right fun htag => by simp [outcome_expandText_some, htag]

theorem outcome_expandDescriptor_descriptor {v : α} {options : DescriptorOptions} :
    (expandDescriptor tag (some (.descriptor v)) transformer options).outcome = .ok () ↔
      isTagName tag = true ∧ ∃ emission, (transformer (.descriptor v) tag).outcome = .ok emission ∧
        ∀ v ∈ emission.texts, FitsLine v := by
  unfold expandDescriptor
  rw [outcome_checkTagName_bind]
  exact and_congr_right fun htag => outcome_expandTransformed htag

theorem outcome_expandDescriptors {values : OneOrMany (TextOr α)}
    (ht : ∀ v t, (transformer v t).Writes fun _ => True) :
    (expandDescriptors tag values transformer).outcome = .ok () ↔
      isTagName tag = true ∧ ∃ vs, values = .many vs ∧
        ∀ v ∈ vs, (expandDescriptor tag (some v) transformer).outcome = .ok () := by
  unfold expandDescriptors
  rw [outcome_checkTagName_bind]
  refine and_congr_right fun htag => ?_
  cases values with
  | one v => simp
  | many vs =>
    have happ : ∀ v, (expandDescriptor tag (some v) transformer).Appends := fun v =>
      (writes_expandDescriptor (P := fun _ => True) (by simp) ht tag (some v) {}
        (by simp)).toAppends
    simp only [outcome_forM_eq_ok happ, OneOrMany.many.injEq, exists_eq_left']

end Descriptor

end Userscript
