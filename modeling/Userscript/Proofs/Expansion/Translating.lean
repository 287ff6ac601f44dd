import Mathlib.Data.List.Nodup
import Userscript.Proofs.Expansion.Success

/-! How far the expansion of translations gets. Those before the first one that
is refused have their lines, and no later key is asked for its locale. -/

namespace Userscript

open Expansion

namespace Translating

section

variable (locales : LocaleRule) (tag : String) (transform : String → String)

/-- A translation can have its line, for `locale`, behind those for `earlier`. -/
structure Accepts (earlier : List String) (entry : String × String) (locale : String) : Prop where
  resolves : (locales entry.1).1 = .ok locale
  fresh : locale ∉ earlier
  legal : isTagName (localeTag tag locale) = true
  fits : FitsLine (transform entry.2)

/-- The first of the checks that a translation does not stand. -/
inductive Refuses (earlier : List String) (entry : String × String) : HeaderError → Prop where
  | unresolved {e : LocaleError} (h : (locales entry.1).1 = .error e) :
      Refuses earlier entry (.locale e)
  | repeated {locale : String} (h : (locales entry.1).1 = .ok locale) (hm : locale ∈ earlier) :
      Refuses earlier entry (.repeatedLocale tag locale)
  | badTag {locale : String} (h : (locales entry.1).1 = .ok locale) (hm : locale ∉ earlier)
      (htag : isTagName (localeTag tag locale) = false) :
      Refuses earlier entry (.badTagName (localeTag tag locale))
  | broken {locale : String} (h : (locales entry.1).1 = .ok locale) (hm : locale ∉ earlier)
      (htag : isTagName (localeTag tag locale) = true) (hfits : ¬ FitsLine (transform entry.2)) :
      Refuses earlier entry (.brokenLine (localeTag tag locale) (transform entry.2))

/-- All of some translations can have lines one behind the other. -/
inductive AcceptsAll : List String → List (String × String) → List String → Prop where
  | nil (earlier : List String) : AcceptsAll earlier [] []
  | cons {earlier : List String} {entry : String × String} {locale : String}
      {entries : List (String × String)} {resolved : List String}
      (h : Accepts locales tag transform earlier entry locale)
      (hrest : AcceptsAll (earlier ++ [locale]) entries resolved) :
      AcceptsAll earlier (entry :: entries) (locale :: resolved)

def line (locale : String) (entry : String × String) : String :=
  tagLine (localeTag tag locale) (transform entry.2)

/-- A run over translations accepts some of them and stops at the next one. -/
structure Run (earlier : List String) (entries : List (String × String))
    (outcome : Except HeaderError Unit) (added : Draft)
    (accepted rest : List (String × String)) (resolved : List String) : Prop where
  split : entries = accepted ++ rest
  accepts : AcceptsAll locales tag transform earlier accepted resolved
  lines : added.lines.toList = List.zipWith (line tag transform) resolved accepted
  warnings : added.warnings.toList = (accepted ++ rest.take 1).flatMap fun e => (locales e.1).2
  calls : added.calls.toList = (accepted ++ rest.take 1).map fun e => .locale e.1
  success : outcome = .ok () ↔ rest = []
  failure : ∀ bad after, rest = bad :: after →
    ∃ e, Refuses locales tag transform (earlier ++ resolved) bad e ∧ outcome = .error e

end

variable {locales : LocaleRule} {tag : String} {transform : String → String}
  {earlier : List String}

theorem accepts_or_refuses (locales : LocaleRule) (tag : String) (transform : String → String)
    (earlier : List String) (entry : String × String) :
    (∃ locale, Accepts locales tag transform earlier entry locale) ∨
      ∃ e, Refuses locales tag transform earlier entry e := by
  cases h : (locales entry.1).1 with
  | error e => exact .inr ⟨_, .unresolved h⟩
  | ok locale =>
    by_cases hm : locale ∈ earlier
    · exact .inr ⟨_, .repeated h hm⟩
    · cases htag : isTagName (localeTag tag locale) with
      | false => exact .inr ⟨_, .badTag h hm htag⟩
      | true =>
        by_cases hfits : FitsLine (transform entry.2)
        · exact .inl ⟨locale, h, hm, htag, hfits⟩
        · exact .inr ⟨_, .broken h hm htag hfits⟩

theorem AcceptsAll.length_eq {entries : List (String × String)} {resolved : List String}
    (h : AcceptsAll locales tag transform earlier entries resolved) :
    resolved.length = entries.length := by
  induction h with
  | nil earlier => rfl
  | cons _ _ ih => simp [ih]

theorem AcceptsAll.nodup {entries : List (String × String)} {resolved : List String}
    (h : AcceptsAll locales tag transform earlier entries resolved) :
    resolved.Nodup ∧ ∀ l ∈ resolved, l ∉ earlier := by
  induction h with
  | nil earlier => simp
  | cons h _ ih =>
    obtain ⟨hnodup, hfresh⟩ := ih
    refine ⟨List.nodup_cons.mpr ⟨fun hm => hfresh _ hm (by simp), hnodup⟩, ?_⟩
    intro l hm
    rcases List.mem_cons.mp hm with rfl | hm
    · exact h.fresh
    · exact fun he => hfresh l hm (by simp [he])

end Translating

section

variable {locales : LocaleRule} {tag : String} {transform : String → String}

theorem resolveLocale_run (locales : LocaleRule) (key : String) :
    (resolveLocale locales key).on {} = ((locales key).1.mapError .locale,
      { warnings := (locales key).2.toArray, calls := #[.locale key] }) := by
  unfold resolveLocale
  rw [on_bind, on_note]
  dsimp only
  rw [on_bind, on_warn]
  cases (locales key).1 <;> simp [Except.mapError]

theorem expandText_of_fits {value : String} (htag : isTagName tag = true) (h : FitsLine value) :
    (expandText tag (some value)).outcome = .ok () ∧
      (expandText tag (some value)).written = { lines := #[tagLine tag value] } := by
  unfold expandText
  rw [checkTagName_bind, if_pos htag]
  simp [hasLineFeed_eq_false.mpr h]

theorem expandText_of_not_fits {value : String} (htag : isTagName tag = true)
    (h : ¬ FitsLine value) :
    (expandText tag (some value)).outcome = .error (.brokenLine tag value) ∧
      (expandText tag (some value)).written = {} := by
  have hfeed : hasLineFeed value = true := by
    cases hf : hasLineFeed value with
    | false => exact absurd (hasLineFeed_eq_false.mp hf) h
    | true => rfl
  unfold expandText
  rw [checkTagName_bind, if_pos htag]
  simp [hfeed]

theorem expandText_of_badTag {value : String} (htag : isTagName tag = false) :
    (expandText tag (some value)).outcome = .error (.badTagName tag) ∧
      (expandText tag (some value)).written = {} := by
  unfold expandText
  rw [checkTagName_bind, if_neg (by simp [htag])]
  exact ⟨rfl, rfl⟩

def askedDraft (locales : LocaleRule) (key : String) : Draft :=
  { warnings := (locales key).2.toArray, calls := #[.locale key] }

/-- What follows once the locale of the first translation is known. -/
def expandUnder (locales : LocaleRule) (tag : String) (transform : String → String)
    (included : List String) (text : String) (rest : List (String × String)) (locale : String) :
    Expansion Unit :=
  if locale ∈ included then throw (.repeatedLocale tag locale)
  else expandText (localeTag tag locale) (some (transform text)) >>= fun _ =>
    expandTranslations locales tag transform (included ++ [locale]) rest

section Step

variable {included : List String} {entry : String × String} {rest : List (String × String)}

theorem expandTranslations_eq_bind :
    expandTranslations locales tag transform included (entry :: rest) =
      resolveLocale locales entry.1 >>=
        expandUnder locales tag transform included entry.2 rest :=
  expandTranslations_cons locales tag transform included entry rest

theorem appends_expandUnder (text locale : String) :
    (expandUnder locales tag transform included text rest locale).Appends := by
  unfold expandUnder
  split
  · exact appends_throw _
  · exact (appends_expandText ..).bind fun _ => appends_expandTranslations ..

theorem expandTranslations_of_error {e : LocaleError} (h : (locales entry.1).1 = .error e) :
    (expandTranslations locales tag transform included (entry :: rest)).outcome =
        .error (.locale e) ∧
      (expandTranslations locales tag transform included (entry :: rest)).written =
        askedDraft locales entry.1 := by
  have hrun := resolveLocale_run locales entry.1
  have houtcome : (resolveLocale locales entry.1).outcome = .error (.locale e) := by
    rw [outcome, hrun, h]
    rfl
  rw [expandTranslations_eq_bind]
  constructor
  · rw [outcome_bind (appends_expandUnder entry.2), houtcome]
    rfl
  · exact (written_bind_of_error houtcome).trans (congrArg Prod.snd hrun)

variable (tag transform included rest) in
theorem expandTranslations_of_ok {locale : String} (h : (locales entry.1).1 = .ok locale) :
    (expandTranslations locales tag transform included (entry :: rest)).outcome =
        (expandUnder locales tag transform included entry.2 rest locale).outcome ∧
      (expandTranslations locales tag transform included (entry :: rest)).written =
        askedDraft locales entry.1 ++
          (expandUnder locales tag transform included entry.2 rest locale).written := by
  have hrun := resolveLocale_run locales entry.1
  have houtcome : (resolveLocale locales entry.1).outcome = .ok locale := by
    rw [outcome, hrun, h]
    rfl
  rw [expandTranslations_eq_bind]
  constructor
  · rw [outcome_bind (appends_expandUnder entry.2), houtcome]
    rfl
  · rw [written_bind_of_ok (appends_expandUnder entry.2) houtcome]
    exact congrArg (· ++ _) (congrArg Prod.snd hrun)

theorem expandUnder_of_fresh {text locale : String} (hm : locale ∉ included) :
    expandUnder locales tag transform included text rest locale =
      expandText (localeTag tag locale) (some (transform text)) >>= fun _ =>
        expandTranslations locales tag transform (included ++ [locale]) rest :=
  if_neg hm

theorem expandUnder_of_line_error {text locale : String} {e : HeaderError}
    (hm : locale ∉ included)
    (h : (expandText (localeTag tag locale) (some (transform text))).outcome = .error e ∧
      (expandText (localeTag tag locale) (some (transform text))).written = {}) :
    (expandUnder locales tag transform included text rest locale).outcome = .error e ∧
      (expandUnder locales tag transform included text rest locale).written = {} := by
  rw [expandUnder_of_fresh hm]
  constructor
  · rw [outcome_bind fun _ => appends_expandTranslations .., h.1]
    rfl
  · exact (written_bind_of_error h.1).trans h.2

variable (rest) in
theorem expandTranslations_of_refuses {e : HeaderError}
    (h : Translating.Refuses locales tag transform included entry e) :
    (expandTranslations locales tag transform included (entry :: rest)).outcome = .error e ∧
      (expandTranslations locales tag transform included (entry :: rest)).written =
        askedDraft locales entry.1 := by
  -- once the locale is known, nothing is written before a check fails
  have hunder : ∀ locale, (locales entry.1).1 = .ok locale →
      (expandUnder locales tag transform included entry.2 rest locale).outcome = .error e ∧
        (expandUnder locales tag transform included entry.2 rest locale).written = {} →
      (expandTranslations locales tag transform included (entry :: rest)).outcome = .error e ∧
        (expandTranslations locales tag transform included (entry :: rest)).written =
          askedDraft locales entry.1 := by
    intro locale hlocale ⟨houtcome, hwritten⟩
    have hok := expandTranslations_of_ok tag transform included rest hlocale
    rw [houtcome, hwritten, Draft.append_empty] at hok
    exact hok
  cases h with
  | unresolved h => exact expandTranslations_of_error h
  | repeated h hm =>
    refine hunder _ h ?_
    rw [expandUnder, if_pos hm]
    exact ⟨rfl, rfl⟩
  | badTag h hm htag =>
    exact hunder _ h (expandUnder_of_line_error hm (expandText_of_badTag htag))
  | broken h hm htag hfits =>
    exact hunder _ h (expandUnder_of_line_error hm (expandText_of_not_fits htag hfits))

variable (rest) in
theorem expandTranslations_of_accepts {locale : String}
    (h : Translating.Accepts locales tag transform included entry locale) :
    (expandTranslations locales tag transform included (entry :: rest)).outcome =
        (expandTranslations locales tag transform (included ++ [locale]) rest).outcome ∧
      (expandTranslations locales tag transform included (entry :: rest)).written =
        askedDraft locales entry.1 ++ ({ lines := #[Translating.line tag transform locale entry] } ++
          (expandTranslations locales tag transform (included ++ [locale]) rest).written) := by
  have hok := expandTranslations_of_ok tag transform included rest h.resolves
  obtain ⟨houtcome, hwritten⟩ := expandText_of_fits h.legal h.fits
  have hrest : ∀ _ : Unit,
      (expandTranslations locales tag transform (included ++ [locale]) rest).Appends :=
    fun _ => appends_expandTranslations ..
  rw [expandUnder_of_fresh h.fresh, outcome_bind hrest, written_bind_of_ok hrest houtcome, houtcome,
    hwritten] at hok
  exact hok

end Step

/-- The expansion of translations is a run over them. -/
theorem exists_run (locales : LocaleRule) (tag : String) (transform : String → String)
    (included : List String) (entries : List (String × String)) :
    ∃ accepted rest resolved, Translating.Run locales tag transform included entries
      (expandTranslations locales tag transform included entries).outcome
      (expandTranslations locales tag transform included entries).written
      accepted rest resolved := by
  induction entries generalizing included with
  | nil =>
    refine ⟨[], [], [], ⟨rfl, .nil included, rfl, rfl, rfl, ?_, ?_⟩⟩
    · exact ⟨fun _ => rfl, fun _ => rfl⟩
    · intro bad after h
      cases h
  | cons entry entries ih =>
    rcases Translating.accepts_or_refuses locales tag transform included entry with
      ⟨locale, h⟩ | ⟨e, h⟩
    · obtain ⟨accepted, rest, resolved, hrun⟩ := ih (included ++ [locale])
      obtain ⟨houtcome, hwritten⟩ := expandTranslations_of_accepts entries h
      refine ⟨entry :: accepted, rest, locale :: resolved, ?_, .cons h hrun.accepts, ?_, ?_, ?_,
        ?_, ?_⟩
      · rw [hrun.split, List.cons_append]
      · rw [hwritten]
        simp [hrun.lines, askedDraft]
      · rw [hwritten]
        simp [hrun.warnings, askedDraft]
      · rw [hwritten]
        simp [hrun.calls, askedDraft]
      · rw [houtcome]
        exact hrun.success
      · intro bad after hbad
        obtain ⟨e, hrefuses, he⟩ := hrun.failure bad after hbad
        refine ⟨e, ?_, houtcome.trans he⟩
        rwa [List.append_assoc, List.singleton_append] at hrefuses
    · obtain ⟨houtcome, hwritten⟩ := expandTranslations_of_refuses entries h
      refine ⟨[], entry :: entries, [], ⟨rfl, .nil included, ?_, ?_, ?_, ?_, ?_⟩⟩
      · rw [hwritten]
        simp [askedDraft]
      · rw [hwritten]
        simp [askedDraft]
      · rw [hwritten]
        simp [askedDraft]
      · rw [houtcome]
        simp
      · rintro bad after ⟨⟩
        exact ⟨e, by rwa [List.append_nil], houtcome⟩

theorem on_expandText_of_not_fits {value : String} (htag : isTagName tag = true)
    (h : ¬ FitsLine value) (d : Draft) :
    (expandText tag (some value)).on d = (.error (.brokenLine tag value), d) := by
  obtain ⟨houtcome, hwritten⟩ := expandText_of_not_fits htag h
  rw [(appends_expandText tag (some value) true).on_eq, houtcome, hwritten, Draft.append_empty]

theorem on_expandText_of_fits {value : String} (htag : isTagName tag = true)
    (h : FitsLine value) (d : Draft) :
    (expandText tag (some value)).on d = (.ok (), d ++ { lines := #[tagLine tag value] }) := by
  obtain ⟨houtcome, hwritten⟩ := expandText_of_fits htag h
  rw [(appends_expandText tag (some value) true).on_eq, houtcome, hwritten]

end

end Userscript
