import Userscript.Proofs.Expansion.Translating
import Userscript.Proofs.Locale.Grammar
import Userscript.Proofs.Locale.Spelling

/-! The canonical form of a locale tag depends on the letters of the tag and not on
their case, since neither the class of a subtag nor its casing does. -/

namespace Userscript

open Expansion

/-- Equal but for the case of ASCII letters. -/
def SameLetters (s t : String) : Prop := s.toList.map Char.toLower = t.toList.map Char.toLower

instance : DecidableRel SameLetters := fun _ _ => inferInstanceAs (Decidable (_ = _))

namespace Subtag

variable (s : Subtag)

@[simp] theorem length_lower : s.lower.length = s.length := by simp [lower]

@[simp] theorem letters_lower : s.lower.letters = s.letters := by
  simp [letters, lower, List.all_map, Function.comp_def]

@[simp] theorem digits_lower : s.lower.digits = s.digits := by
  simp [digits, lower, List.all_map, Function.comp_def, isDigit_toLower]

@[simp] theorem wellFormed_lower : s.lower.wellFormed = s.wellFormed := by
  simp [wellFormed, lower, List.all_map, Function.comp_def, isAlphanum_toLower]

@[simp] theorem isLanguage_lower : s.lower.isLanguage = s.isLanguage := by simp [isLanguage]

@[simp] theorem isExtlang_lower : s.lower.isExtlang = s.isExtlang := by simp [isExtlang]

@[simp] theorem isScript_lower : s.lower.isScript = s.isScript := by simp [isScript]

@[simp] theorem isRegion_lower : s.lower.isRegion = s.isRegion := by simp [isRegion]

@[simp] theorem isVariant_lower : s.lower.isVariant = s.isVariant := by
  cases s with
  | nil => rfl
  | cons c cs => simp [isVariant, lower, isDigit_toLower]

@[simp] theorem isSingleton_lower : s.lower.isSingleton = s.isSingleton := by simp [isSingleton]

@[simp] theorem isPrivate_lower : s.lower.isPrivate = s.isPrivate := by
  simp [isPrivate, lower_lower]

@[simp] theorem takes_lower (part : Subtag) : s.lower.takes part.lower = s.takes part := by
  simp [takes]

@[simp] theorem upper_lower : s.lower.upper = s.upper := by
  simp [lower, upper, Function.comp_def]

@[simp] theorem title_lower : s.lower.title = s.title := by
  cases s with
  | nil => rfl
  | cons c cs => simp [title, lower, Function.comp_def]

end Subtag

theorem takeWhile_map_lower {b b' : Subtag → Bool} (h : ∀ s : Subtag, b' s.lower = b s)
    (subtags : List Subtag) :
    (subtags.map Subtag.lower).takeWhile b' = (subtags.takeWhile b).map Subtag.lower := by
  have hb : b' ∘ Subtag.lower = b := funext h
  rw [List.takeWhile_map, hb]

theorem dropWhile_map_lower {b b' : Subtag → Bool} (h : ∀ s : Subtag, b' s.lower = b s)
    (subtags : List Subtag) :
    (subtags.map Subtag.lower).dropWhile b' = (subtags.dropWhile b).map Subtag.lower := by
  have hb : b' ∘ Subtag.lower = b := funext h
  rw [List.dropWhile_map, hb]

theorem map_lower_map_lower (subtags : List Subtag) :
    (subtags.map Subtag.lower).map Subtag.lower = subtags.map Subtag.lower := by
  rw [List.map_map]
  exact List.map_congr_left fun s _ => s.lower_lower

theorem canonicalExtensions_lower (subtags : List Subtag) :
    canonicalExtensions (subtags.map Subtag.lower) = canonicalExtensions subtags := by
  induction subtags using canonicalExtensions.induct with
  | case1 => rfl
  | case2 s rest hs hnone =>
    simp [canonicalExtensions, takeWhile_map_lower s.takes_lower, hs, hnone]
  | case3 s rest hs hsome ih =>
    -- a singleton takes the same subtags in either case, so both cut at one place
    rw [List.map_cons, canonicalExtensions, canonicalExtensions, takeWhile_map_lower s.takes_lower,
      dropWhile_map_lower s.takes_lower, ih, map_lower_map_lower, s.lower_lower,
      s.isSingleton_lower]
    simp only [List.map_eq_nil_iff]
  | case4 s rest hs => simp [canonicalExtensions, hs]

theorem canonicalVariants_lower (subtags : List Subtag) :
    canonicalVariants (subtags.map Subtag.lower) = canonicalVariants subtags := by
  rw [canonicalVariants, canonicalVariants, takeWhile_map_lower Subtag.isVariant_lower,
    dropWhile_map_lower Subtag.isVariant_lower, canonicalExtensions_lower, map_lower_map_lower]

theorem canonicalRegion_lower (subtags : List Subtag) :
    canonicalRegion (subtags.map Subtag.lower) = canonicalRegion subtags := by
  cases subtags with
  | nil => rfl
  | cons s rest =>
    rw [List.map_cons, canonicalRegion, canonicalRegion, s.isRegion_lower, s.upper_lower,
      canonicalVariants_lower rest, ← List.map_cons, canonicalVariants_lower (s :: rest)]

theorem canonicalScript_lower (subtags : List Subtag) :
    canonicalScript (subtags.map Subtag.lower) = canonicalScript subtags := by
  cases subtags with
  | nil => rfl
  | cons s rest =>
    rw [List.map_cons, canonicalScript, canonicalScript, s.isScript_lower, s.title_lower,
      canonicalRegion_lower rest, ← List.map_cons, canonicalRegion_lower (s :: rest)]

theorem canonicalExtlangs_lower (limit : Nat) (subtags : List Subtag) :
    canonicalExtlangs limit (subtags.map Subtag.lower) = canonicalExtlangs limit subtags := by
  induction limit generalizing subtags with
  | zero => exact canonicalScript_lower subtags
  | succ limit ih =>
    cases subtags with
    | nil => rfl
    | cons s rest =>
      rw [List.map_cons, canonicalExtlangs, canonicalExtlangs, s.isExtlang_lower, s.lower_lower,
        ih rest, ← List.map_cons, canonicalScript_lower (s :: rest)]

theorem canonicalSubtags_lower (subtags : List Subtag) :
    canonicalSubtags (subtags.map Subtag.lower) = canonicalSubtags subtags := by
  cases subtags with
  | nil => rfl
  | cons s rest =>
    rw [List.map_cons, canonicalSubtags, canonicalSubtags, s.isLanguage_lower, s.length_lower,
      canonicalExtlangs_lower, s.lower_lower]

namespace Recased

variable {subtags subtags' : List Subtag}

theorem canonicalSubtags_eq (h : Recased subtags subtags') :
    canonicalSubtags subtags = canonicalSubtags subtags' := by
  rw [← canonicalSubtags_lower subtags, h, canonicalSubtags_lower]

theorem wellFormed (h : Recased subtags subtags') (hall : subtags.all Subtag.wellFormed = true) :
    subtags'.all Subtag.wellFormed = true := by
  have hlower : ∀ subtags : List Subtag,
      (subtags.map Subtag.lower).all Subtag.wellFormed = subtags.all Subtag.wellFormed := by
    intro subtags
    simp [List.all_map, Function.comp_def]
  rwa [← hlower, ← h, hlower]

end Recased

theorem splitChars_map {sep : Char} {f : Char → Char} (hf : ∀ c, f c = sep ↔ c = sep)
    (cs : List Char) : splitChars sep (cs.map f) = (splitChars sep cs).map (List.map f) := by
  induction cs with
  | nil => rfl
  | cons c cs ih =>
    rw [List.map_cons, splitChars_cons, splitChars_cons, ih, apply_ite (List.map (List.map f)),
      List.map_cons, List.map_nil]
    refine if_congr (hf c) rfl ?_
    cases splitChars sep cs with
    | nil => rfl
    | cons p ps => rfl

theorem map_joinChars {f : Char → Char} (sep : Char) (hf : f sep = sep) (ps : List (List Char)) :
    (joinChars sep ps).map f = joinChars sep (ps.map (List.map f)) := by
  induction ps with
  | nil => rfl
  | cons p ps ih =>
    cases ps with
    | nil => rfl
    | cons q qs =>
      rw [joinChars, List.map_append, List.map_cons, hf, ih]
      rfl

theorem toLower_eq_hyphen {c : Char} : c.toLower = '-' ↔ c = '-' := by
  constructor
  · intro h
    have halpha : c.isAlpha = false := by
      rw [← Char.isAlpha_toLower_eq_isAlpha, h]
      rfl
    have hupper : c.isUpper = false := by
      simp only [Char.isAlpha, Bool.or_eq_false_iff] at halpha
      exact halpha.1
    rwa [Char.toLower_eq_of_not_isUpper (by simp [hupper])] at h
  · rintro rfl
    rfl

theorem SameLetters.recased {key key' : String} (h : SameLetters key key') :
    Recased (splitChars '-' key.toList) (splitChars '-' key'.toList) := by
  have hsplit := splitChars_map (f := Char.toLower) fun c => toLower_eq_hyphen
  exact (hsplit key.toList).symm.trans ((congrArg (splitChars '-') h).trans (hsplit key'.toList))

theorem sameLetters_of_canonicalLocale {key locale : String}
    (h : canonicalLocale key = .ok locale) : SameLetters locale key := by
  obtain ⟨canonical, hsome, _, rfl⟩ := canonicalLocale_eq_ok h
  have hjoin := map_joinChars (f := Char.toLower) '-' rfl
  have hrecased := congrArg (joinChars '-') (recased_canonicalSubtags hsome)
  rw [SameLetters, String.toList_ofList]
  calc (joinChars '-' canonical).map Char.toLower
      = joinChars '-' (canonical.map Subtag.lower) := hjoin canonical
    _ = joinChars '-' ((splitChars '-' key.toList).map Subtag.lower) := hrecased
    _ = (joinChars '-' (splitChars '-' key.toList)).map Char.toLower := (hjoin _).symm
    _ = key.toList.map Char.toLower := by rw [joinChars_splitChars]

theorem canonicalLocale_of_sameLetters {key key' locale : String} (hletters : SameLetters key key')
    (h : canonicalLocale key = .ok locale) : canonicalLocale key' = .ok locale := by
  obtain ⟨canonical, hsome, hall, rfl⟩ := canonicalLocale_eq_ok h
  have hall' := List.all_eq_true.mp (hletters.recased.wellFormed hall)
  refine canonicalLocale_of_some (fun s hs => Subtag.wellFormed_iff.mp (hall' s hs)) ?_
  rw [← hletters.recased.canonicalSubtags_eq, hsome]

theorem canonicalLocale_eq_iff {key key' locale locale' : String}
    (h : canonicalLocale key = .ok locale) (h' : canonicalLocale key' = .ok locale') :
    locale = locale' ↔ SameLetters key key' := by
  constructor
  · rintro rfl
    exact (sameLetters_of_canonicalLocale h).symm.trans (sameLetters_of_canonicalLocale h')
  · intro hletters
    exact Except.ok.inj ((canonicalLocale_of_sameLetters hletters h).symm.trans h')

/-- Forms that differ from what they stand for in nothing but the case of letters, one
for all texts with the same letters. -/
structure CaseNormalForm (form : String → Except LocaleError String) : Prop where
  letters : ∀ key locale, form key = .ok locale → SameLetters locale key
  stable : ∀ key locale, form key = .ok locale → form locale = .ok locale
  agree : ∀ key key', SameLetters key key' →
    (∃ locale, form key = .ok locale ∧ form key' = .ok locale) ∨
      ((∃ e, form key = .error e) ∧ ∃ e, form key' = .error e)

theorem caseNormalForm_canonicalLocale : CaseNormalForm canonicalLocale where
  letters _ _ := sameLetters_of_canonicalLocale
  stable _ _ h := canonicalLocale_of_sameLetters (sameLetters_of_canonicalLocale h).symm h
  agree key key' hletters := by
    cases h : canonicalLocale key with
    | ok locale => exact .inl ⟨locale, rfl, canonicalLocale_of_sameLetters hletters h⟩
    | error e =>
      cases h' : canonicalLocale key' with
      | ok locale =>
        rw [canonicalLocale_of_sameLetters hletters.symm h'] at h
        cases h
      | error e' => exact .inr ⟨⟨e, rfl⟩, e', rfl⟩

namespace LocaleRule

theorem bestFit_of_canonical {locale : String} (h : canonicalLocale locale = .ok locale) :
    bestFit locale = (.ok locale, []) := by
  simp [bestFit, h]

theorem bestFit_warns_iff {key : String} :
    (bestFit key).2 ≠ [] ↔ ∃ locale, canonicalLocale key = .ok locale ∧ locale ≠ key := by
  unfold bestFit
  cases canonicalLocale key with
  | error e => simp
  | ok locale =>
    by_cases h : locale = key
    · simp [h]
    · simp [h]

end LocaleRule

namespace Translating

variable {locales : LocaleRule} {tag : String} {transform : String → String}
  {earlier : List String} {entries : List (String × String)} {resolved : List String}

theorem AcceptsAll.map_rule (h : AcceptsAll locales tag transform earlier entries resolved) :
    entries.map (fun e => (locales e.1).1) = resolved.map Except.ok := by
  induction h with
  | nil earlier => rfl
  | cons h _ ih => rw [List.map_cons, List.map_cons, ih, h.resolves]

/-- Where nothing else can be wrong, translations are refused for a repeated locale only. -/
theorem outcome_repeated_iff
    (hlegal : ∀ key l, (locales key).1 = .ok l → isTagName (localeTag tag l) = true)
    (hvalid : ∀ e ∈ entries, ∃ l, (locales e.1).1 = .ok l)
    (hfits : ∀ e ∈ entries, FitsLine (transform e.2)) :
    (∃ l, (expandTranslations locales tag transform [] entries).outcome =
        .error (.repeatedLocale tag l)) ↔
      ¬ (entries.map fun e => (locales e.1).1).Nodup := by
  obtain ⟨accepted, rest, resolved, hrun⟩ := exists_run locales tag transform [] entries
  have hmap := hrun.accepts.map_rule
  have hinj : Function.Injective (Except.ok : String → Except LocaleError String) :=
    fun _ _ => Except.ok.inj
  cases rest with
  | nil =>
    have hnodup : (entries.map fun e => (locales e.1).1).Nodup := by
      rw [hrun.split, List.append_nil, hmap]
      exact hrun.accepts.nodup.1.map hinj
    simp [hrun.success.mpr rfl, hnodup]
  | cons bad after =>
    obtain ⟨e, hrefuses, houtcome⟩ := hrun.failure bad after rfl
    have hbad : bad ∈ entries := by simp [hrun.split]
    cases hrefuses with
    | unresolved h =>
      obtain ⟨l, hl⟩ := hvalid bad hbad
      rw [h] at hl
      cases hl
    | badTag h _ htag => simp [hlegal _ _ h] at htag
    | broken _ _ _ hbroken => exact absurd (hfits bad hbad) hbroken
    | repeated h hm =>
      refine iff_of_true ⟨_, houtcome⟩ fun hnodup => ?_
      rw [hrun.split, List.map_append, hmap, List.map_cons, h] at hnodup
      exact List.disjoint_of_nodup_append hnodup (List.mem_map_of_mem hm) (by simp)

end Translating

section

variable {tag : String} {transform : String → String}

theorem outcome_translated_of_fits (locales : LocaleRule) {t : Translations}
    (htag : isTagName tag = true) (hbase : FitsLine (transform t.base)) :
    (expandLocalizedText locales tag (.translated t) transform).outcome =
      (expandTranslations locales tag transform [] t.locales.entries).outcome := by
  change (expandText tag (some (transform t.base)) >>= _).outcome = _
  rw [outcome_bind fun _ => appends_expandTranslations .., (expandText_of_fits htag hbase).1]
  rfl

theorem KeySpelling.isTagName_of_rule (spelling : KeySpelling) {key locale : String}
    (htag : isTagName tag = true) (h : (spelling.rule key).1 = .ok locale) :
    isTagName (localeTag tag locale) = true := by
  obtain ⟨⟨canonical, hvalid⟩, hspell⟩ := spelling.rule_eq_ok.mp h
  exact isTagName_localeTag htag (spelling.isTagChar_of_spell hvalid hspell)

theorem outcome_repeated_iff_sameLetters {t : Translations} (htag : isTagName tag = true)
    (hbase : FitsLine (transform t.base))
    (hvalid : ∀ e ∈ t.locales.entries, ∃ locale, canonicalLocale e.1 = .ok locale)
    (hfits : ∀ e ∈ t.locales.entries, FitsLine (transform e.2)) :
    (∃ l, (expandLocalizedText LocaleRule.bestFit tag (.translated t) transform).outcome =
        .error (.repeatedLocale tag l)) ↔
      ¬ t.locales.keys.Pairwise fun key key' => ¬ SameLetters key key' := by
  have hrule : ∀ key locale, canonicalLocale key = .ok locale →
      (LocaleRule.bestFit key).1 = .ok locale := fun key locale h =>
    KeySpelling.canonical.rule_eq_ok.mpr ⟨⟨locale, h⟩, h⟩
  have hlegal : ∀ key l, (LocaleRule.bestFit key).1 = .ok l → isTagName (localeTag tag l) = true :=
    fun _ _ => KeySpelling.canonical.isTagName_of_rule htag
  rw [outcome_translated_of_fits _ htag hbase, Translating.outcome_repeated_iff hlegal
    (fun e he => (hvalid e he).imp fun locale => hrule e.1 locale) hfits, List.Nodup,
    List.pairwise_map, Dict.keys, List.pairwise_map]
  refine not_congr (List.Pairwise.iff_of_mem fun {e e'} he he' => ?_)
  obtain ⟨locale, h⟩ := hvalid e he
  obtain ⟨locale', h'⟩ := hvalid e' he'
  rw [hrule _ _ h, hrule _ _ h', ← canonicalLocale_eq_iff h h', ne_eq, Except.ok.injEq]

theorem outcome_ne_badTagName (spelling : KeySpelling) (value : LocalizedText)
    (htag : isTagName tag = true) (name : String) :
    (expandLocalizedText spelling.rule tag value transform).outcome ≠ .error (.badTagName name) := by
  have hline : ∀ text, (expandText tag (some text)).outcome ≠ .error (.badTagName name) := by
    intro text h
    by_cases hfits : FitsLine text
    · simp [(expandText_of_fits htag hfits).1] at h
    · simp [(expandText_of_not_fits htag hfits).1] at h
  cases value with
  | plain text => exact hline text
  | translated t =>
    by_cases hbase : FitsLine (transform t.base)
    · rw [outcome_translated_of_fits _ htag hbase]
      obtain ⟨accepted, rest, resolved, hrun⟩ :=
        exists_run spelling.rule tag transform [] t.locales.entries
      cases rest with
      | nil => simp [hrun.success.mpr rfl]
      | cons bad after =>
        obtain ⟨e, hrefuses, houtcome⟩ := hrun.failure bad after rfl
        rw [houtcome]
        rintro ⟨⟩
        cases hrefuses with
        | badTag h _ hbad => simp [spelling.isTagName_of_rule htag h] at hbad
    · change (expandText tag (some (transform t.base)) >>= _).outcome ≠ _
      rw [outcome_bind fun _ => appends_expandTranslations .., (expandText_of_not_fits htag hbase).1]
      rintro ⟨⟩

end

/-- Keys that are equal but for case have one canonical form, which is its own. So the
rule that gives this form warns of each change once, takes keys for the same locale if
they are equal but for case, and like the rule that changes nothing never makes a tag
that is not legal. -/
theorem canonicalLocale_normal_form :
    CaseNormalForm canonicalLocale ∧
    (∀ key key' locale locale', canonicalLocale key = .ok locale →
      canonicalLocale key' = .ok locale' → (locale = locale' ↔ SameLetters key key')) ∧
    (∀ (tag : String) (t : Translations) (transform : String → String), isTagName tag = true →
      FitsLine (transform t.base) →
      (∀ e ∈ t.locales.entries, ∃ locale, canonicalLocale e.1 = .ok locale) →
      (∀ e ∈ t.locales.entries, FitsLine (transform e.2)) →
      ((∃ l, (expandLocalizedText LocaleRule.bestFit tag (.translated t) transform).outcome =
          .error (.repeatedLocale tag l)) ↔
        ¬ t.locales.keys.Pairwise fun key key' => ¬ SameLetters key key')) ∧
    (∀ key, (LocaleRule.bestFit key).2 ≠ [] ↔
      ∃ locale, canonicalLocale key = .ok locale ∧ locale ≠ key) ∧
    (∀ key locale, (LocaleRule.bestFit key).1 = .ok locale →
      LocaleRule.bestFit locale = (.ok locale, [])) ∧
    (∀ (spelling : KeySpelling) (tag key locale : String), isTagName tag = true →
      (spelling.rule key).1 = .ok locale → isTagName (localeTag tag locale) = true) ∧
    ∀ (spelling : KeySpelling) (tag : String) (value : LocalizedText)
      (transform : String → String), isTagName tag = true → ∀ name,
      (expandLocalizedText spelling.rule tag value transform).outcome ≠
        .error (.badTagName name) := by
  refine ⟨caseNormalForm_canonicalLocale, fun _ _ _ _ => canonicalLocale_eq_iff,
    fun _ _ _ => outcome_repeated_iff_sameLetters, fun _ => LocaleRule.bestFit_warns_iff,
    fun key locale h => ?_, fun spelling _ _ _ => spelling.isTagName_of_rule,
    fun spelling _ value _ => outcome_ne_badTagName spelling value⟩
  obtain ⟨_, hcanonical⟩ := KeySpelling.canonical.rule_eq_ok.mp h
  exact LocaleRule.bestFit_of_canonical (caseNormalForm_canonicalLocale.stable key locale hcanonical)

/-- Brazilian Portuguese twice. -/
def recasedTranslations : Translations :=
  ((Translations.ofBase "Tool").add "pt-br" "Ferramenta").add "PT-BR" "Instrumento"

theorem canonicalLocale_normal_form_of_recased :
    ∃ l, (expandLocalizedText LocaleRule.bestFit "name" (.translated recasedTranslations)).outcome =
      .error (.repeatedLocale "name" l) := by
  have hlower : canonicalLocale "pt-br" = .ok "pt-BR" := by cbv
  have hupper : canonicalLocale "PT-BR" = .ok "pt-BR" := by cbv
  have hvalid : ∀ e ∈ recasedTranslations.locales.entries,
      ∃ locale, canonicalLocale e.1 = .ok locale :=
    List.forall_mem_cons.mpr ⟨⟨_, hlower⟩, List.forall_mem_singleton.mpr ⟨_, hupper⟩⟩
  have hcollide := canonicalLocale_normal_form.2.2.1 "name" recasedTranslations id (by decide)
    (by decide) hvalid (by decide)
  exact hcollide.mpr (by decide)

end Userscript
