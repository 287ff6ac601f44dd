import Userscript.Locale.Rule
import Userscript.Proofs.Expansion.Success
import Userscript.Proofs.Locale.Recasing

/-! The two rules that know which locale keys are valid. They differ in the
spelling they give a key only, and either spelling can stand in a tag. -/

namespace Userscript

/-- Which spelling of a valid locale key goes into a header. -/
inductive KeySpelling where
  | canonical
  | asWritten

namespace KeySpelling

def rule : KeySpelling → LocaleRule
  | canonical => LocaleRule.bestFit
  | asWritten => LocaleRule.exact

/-- The spelling of a key, if the key is valid. -/
def spell : KeySpelling → String → Except LocaleError String
  | canonical, key => canonicalLocale key
  | asWritten, key => .ok key

variable (spelling : KeySpelling)

theorem rule_of_error {key : String} {e : LocaleError} (h : canonicalLocale key = .error e) :
    (spelling.rule key).1 = .error e := by
  cases spelling with
  | canonical => simp [rule, LocaleRule.bestFit, h]
  | asWritten => simp [rule, LocaleRule.exact, h]

theorem rule_of_ok {key locale : String} (h : canonicalLocale key = .ok locale) :
    (spelling.rule key).1 = spelling.spell key := by
  cases spelling with
  | canonical =>
    simp only [rule, LocaleRule.bestFit, spell, h]
    split
    · next he => rw [he]
    · rfl
  | asWritten => simp [rule, LocaleRule.exact, spell, h]

theorem rule_eq_ok {key l : String} :
    (spelling.rule key).1 = .ok l ↔
      (∃ locale, canonicalLocale key = .ok locale) ∧ spelling.spell key = .ok l := by
  cases h : canonicalLocale key with
  | error e => simp [spelling.rule_of_error h]
  | ok locale => simp [spelling.rule_of_ok h]

theorem exists_spell {key locale : String} (h : canonicalLocale key = .ok locale) :
    ∃ l, spelling.spell key = .ok l := by
  cases spelling with
  | canonical => exact ⟨locale, h⟩
  | asWritten => exact ⟨key, rfl⟩

/-- Either spelling of a valid key has only characters that tags may have. -/
theorem isTagChar_of_spell {key locale l : String} (h : canonicalLocale key = .ok locale)
    (hl : spelling.spell key = .ok l) : ∀ c ∈ l.toList, isTagChar c = true := by
  obtain ⟨hkey, hlocale⟩ := canonicalLocale_chars h
  have hchar : ∀ c : Char, c = '-' ∨ c.isAlphanum = true → isTagChar c = true := by
    rintro c (rfl | hc)
    · rfl
    · simp [isTagChar, hc]
  cases spelling with
  | canonical =>
    obtain rfl : locale = l := Except.ok.inj (h.symm.trans hl)
    exact fun c hc => hchar c (hlocale c hc)
  | asWritten =>
    obtain rfl : key = l := Except.ok.inj hl
    exact fun c hc => hchar c (hkey c hc)

end KeySpelling

theorem isTagName_localeTag {tag locale : String} (ht : isTagName tag = true)
    (hl : ∀ c ∈ locale.toList, isTagChar c = true) : isTagName (localeTag tag locale) = true := by
  have hlist : (localeTag tag locale).toList = tag.toList ++ ':' :: locale.toList := by
    simp [localeTag]
  simp only [isTagName, Bool.and_eq_true, List.all_eq_true] at ht ⊢
  rw [hlist]
  refine ⟨by simp, fun c hc => ?_⟩
  rcases List.mem_append.mp hc with hc | hc
  · exact ht.2 c hc
  · rcases List.mem_cons.mp hc with rfl | hc
    · rfl
    · exact hl c hc

theorem exists_map_ok {α β ε : Type} {f : α → Except ε β} {xs : List α}
    (h : ∀ x ∈ xs, ∃ b, f x = .ok b) : ∃ bs : List β, xs.map f = bs.map Except.ok := by
  induction xs with
  | nil => exact ⟨[], rfl⟩
  | cons x xs ih =>
    obtain ⟨b, hb⟩ := h x (by simp)
    obtain ⟨bs, hbs⟩ := ih fun y hy => h y (by simp [hy])
    exact ⟨b :: bs, by simp [hb, hbs]⟩

/-- The keys of a value are valid, and no two of them are spelled alike. -/
def LocalizedText.DistinctLocales (spelling : KeySpelling) : LocalizedText → Prop
  | .plain _ => True
  | .translated t => (∀ key ∈ t.locales.keys, ∃ locale, canonicalLocale key = .ok locale) ∧
      (t.locales.keys.map spelling.spell).Nodup

theorem resolves_iff_distinctLocales {spelling : KeySpelling} {tag : String}
    (ht : isTagName tag = true) (value : LocalizedText) :
    value.Resolves spelling.rule tag ↔ value.DistinctLocales spelling := by
  cases value with
  | plain text => exact Iff.rfl
  | translated t =>
    have hinj : Function.Injective (Except.ok : String → Except LocaleError String) :=
      fun _ _ => Except.ok.inj
    constructor
    · rintro ⟨resolved, hmap, hnodup, _⟩
      have hok : ∀ key ∈ t.locales.keys, ∃ l, (spelling.rule key).1 = .ok l := fun key hk => by
        have hm : (spelling.rule key).1 ∈ resolved.map Except.ok := hmap ▸ List.mem_map_of_mem hk
        obtain ⟨l, _, hl⟩ := List.mem_map.mp hm
        exact ⟨l, hl.symm⟩
      have hvalid : ∀ key ∈ t.locales.keys, ∃ locale, canonicalLocale key = .ok locale :=
        fun key hk => (hok key hk).elim fun _ hl => (spelling.rule_eq_ok.mp hl).1
      refine ⟨hvalid, ?_⟩
      -- on valid keys the rule gives the spelling
      have hspell : t.locales.keys.map spelling.spell = resolved.map Except.ok := by
        rw [← hmap]
        exact List.map_congr_left fun key hk =>
          (hvalid key hk).elim fun _ h => (spelling.rule_of_ok h).symm
      rw [hspell]
      exact hnodup.map hinj
    · rintro ⟨hvalid, hnodup⟩
      obtain ⟨resolved, hspell⟩ := exists_map_ok fun key hk =>
        (hvalid key hk).elim fun _ h => spelling.exists_spell h
      have hmap : t.locales.keys.map (fun key => (spelling.rule key).1) =
          t.locales.keys.map spelling.spell :=
        List.map_congr_left fun key hk => (hvalid key hk).elim fun _ h => spelling.rule_of_ok h
      refine ⟨resolved, hmap.trans hspell, (hspell ▸ hnodup).of_map _, fun l hl => ?_⟩
      have hm : Except.ok l ∈ t.locales.keys.map spelling.spell :=
        hspell ▸ List.mem_map_of_mem hl
      obtain ⟨key, hk, hkl⟩ := List.mem_map.mp hm
      obtain ⟨locale, h⟩ := hvalid key hk
      exact isTagName_localeTag ht (spelling.isTagChar_of_spell h hkl)

end Userscript
