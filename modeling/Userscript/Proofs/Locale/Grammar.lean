import Userscript.Proofs.Locale.Recasing

/-! The grammar of locale tags, and that taking each class of subtags as long as it
lasts misses none of the tags that the grammar has. No two classes that can stand
next to each other have a subtag in common, so the first subtag decides. -/

namespace Userscript

namespace Subtag

/-- From `least` to `most` characters, all of one class. -/
structure Of (p : Char → Bool) (least most : Nat) (s : Subtag) : Prop where
  least : least ≤ s.length
  most : s.length ≤ most
  chars : ∀ c ∈ s, p c = true

def Language (s : Subtag) : Prop := s.Of Char.isAlpha 2 3 ∨ s.Of Char.isAlpha 5 8

def Extlang (s : Subtag) : Prop := s.Of Char.isAlpha 3 3

def Script (s : Subtag) : Prop := s.Of Char.isAlpha 4 4

def Region (s : Subtag) : Prop := s.Of Char.isAlpha 2 2 ∨ s.Of Char.isDigit 3 3

def Variant (s : Subtag) : Prop :=
  s.Of Char.isAlphanum 5 8 ∨
    ∃ c rest, s = c :: rest ∧ c.isDigit = true ∧ Of Char.isAlphanum 3 3 rest

def Private (s : Subtag) : Prop := s = ['x'] ∨ s = ['X']

def Singleton (s : Subtag) : Prop := s.Of Char.isAlphanum 1 1 ∧ ¬ s.Private

section

variable {s : Subtag}

theorem isAlphanum_of_isAlpha {c : Char} (h : c.isAlpha = true) : c.isAlphanum = true := by
  simp [Char.isAlphanum, h]

theorem isAlphanum_of_isDigit {c : Char} (h : c.isDigit = true) : c.isAlphanum = true := by
  simp [Char.isAlphanum, h]

theorem not_isDigit_of_isAlpha {c : Char} (h : c.isAlpha = true) : c.isDigit = false := by
  simp only [Char.isAlpha, Char.isUpper, Char.isLower, Char.isDigit, UInt32.le_iff_toNat_le] at h ⊢
  simp at h ⊢
  omega

theorem eq_x_of_toLower {c : Char} (h : c.toLower = 'x') : c = 'x' ∨ c = 'X' := by
  unfold Char.toLower at h
  split at h
  · next hupper =>
    right
    have hval := congrArg (fun d : Char => d.val.toNat) h
    have hnat : c.val.toNat = c.toNat := rfl
    rw [← Char.toNat_inj]
    simp [UInt32.toNat_add, UInt32.le_iff_toNat_le] at hval hupper ⊢
    omega
  · exact .inl h

theorem of_iff {p : Char → Bool} {least most : Nat} :
    s.Of p least most ↔ (least ≤ s.length ∧ s.length ≤ most) ∧ s.all p = true := by
  rw [List.all_eq_true]
  exact ⟨fun h => ⟨⟨h.least, h.most⟩, h.chars⟩, fun ⟨⟨h1, h2⟩, h3⟩ => ⟨h1, h2, h3⟩⟩

theorem Of.alphanum {p : Char → Bool} {least most : Nat} (h : s.Of p least most)
    (hp : ∀ c, p c = true → c.isAlphanum = true) (hleast : 1 ≤ least) (hmost : most ≤ 8) :
    s.Of Char.isAlphanum 1 8 :=
  ⟨Nat.le_trans hleast h.least, Nat.le_trans h.most hmost, fun c hc => hp c (h.chars c hc)⟩

theorem wellFormed_iff : s.wellFormed = true ↔ s.Of Char.isAlphanum 1 8 := by
  simp [wellFormed, of_iff]

theorem isLanguage_iff : s.isLanguage = true ↔ s.Language := by
  simp only [isLanguage, letters, Language, of_iff, Bool.and_eq_true, Bool.or_eq_true,
    decide_eq_true_eq]
  rw [← or_and_right, and_comm]

theorem isExtlang_iff : s.isExtlang = true ↔ s.Extlang := by
  simp only [isExtlang, letters, Extlang, of_iff, Bool.and_eq_true, decide_eq_true_eq]
  exact and_congr_left fun _ => by omega

theorem isScript_iff : s.isScript = true ↔ s.Script := by
  simp only [isScript, letters, Script, of_iff, Bool.and_eq_true, decide_eq_true_eq]
  exact and_congr_left fun _ => by omega

theorem isRegion_iff : s.isRegion = true ↔ s.Region := by
  simp only [isRegion, letters, digits, Region, of_iff, Bool.and_eq_true, Bool.or_eq_true,
    decide_eq_true_eq]
  exact or_congr (and_congr_left fun _ => by omega) (and_congr_left fun _ => by omega)

theorem isVariant_iff (h : s.Of Char.isAlphanum 1 8) : s.isVariant = true ↔ s.Variant := by
  simp only [isVariant, Bool.and_eq_true, Bool.or_eq_true, decide_eq_true_eq]
  constructor
  · rintro (⟨h1, h2⟩ | ⟨hlength, hdigit⟩)
    · exact .inl ⟨h1, h2, h.chars⟩
    · cases s with
      | nil => simp at hlength
      | cons c rest =>
        have hrest : rest.length = 3 := by simpa using hlength
        refine .inr ⟨c, rest, rfl, by simpa using hdigit, by omega, by omega, fun d hd => ?_⟩
        exact h.chars d (List.mem_cons_of_mem c hd)
  · rintro (h' | ⟨c, rest, rfl, hdigit, h'⟩)
    · exact .inl ⟨h'.least, h'.most⟩
    · have h1 := h'.least
      have h2 := h'.most
      exact .inr ⟨by rw [List.length_cons]; omega, by simpa using hdigit⟩

theorem isPrivate_iff : s.isPrivate = true ↔ s.Private := by
  constructor
  · intro h
    obtain ⟨c, rfl, hc⟩ := List.map_eq_singleton_iff.mp (of_decide_eq_true h)
    rcases eq_x_of_toLower hc with rfl | rfl
    · exact .inl rfl
    · exact .inr rfl
  · rintro (rfl | rfl) <;> decide

theorem Private.length_eq (h : s.Private) : s.length = 1 := by
  rcases h with rfl | rfl <;> rfl

theorem Private.alphanum (h : s.Private) : s.Of Char.isAlphanum 1 8 := by
  rcases h with rfl | rfl
  · exact ⟨by decide, by decide, List.forall_mem_singleton.mpr rfl⟩
  · exact ⟨by decide, by decide, List.forall_mem_singleton.mpr rfl⟩

theorem Singleton.length_eq (h : s.Singleton) : s.length = 1 := by
  have h1 := h.1.least
  have h2 := h.1.most
  omega

theorem Variant.length (h : s.Variant) : 4 ≤ s.length ∧ s.length ≤ 8 := by
  rcases h with h | ⟨c, rest, rfl, _, h⟩
  · have h1 := h.least
    have h2 := h.most
    omega
  · have h1 := h.least
    have h2 := h.most
    rw [List.length_cons]
    omega

theorem Region.length (h : s.Region) : 2 ≤ s.length ∧ s.length ≤ 3 := by
  rcases h with h | h
  · have h1 := h.least
    have h2 := h.most
    omega
  · have h1 := h.least
    have h2 := h.most
    omega

theorem Region.not_variant (h : s.Region) : ¬ s.Variant := by
  intro hv
  have h1 := h.length
  have h2 := hv.length
  omega

theorem Script.not_variant (h : s.Script) : ¬ s.Variant := by
  have h1 := h.most
  rintro (hv | ⟨c, rest, rfl, hdigit, _⟩)
  · have h2 := hv.least
    omega
  · have hletter := not_isDigit_of_isAlpha (h.chars c (by simp))
    simp [hletter] at hdigit

theorem Script.not_region (h : s.Script) : ¬ s.Region := by
  intro hr
  have h1 := h.least
  have h2 := hr.length
  omega

theorem Extlang.not_region (h : s.Extlang) : ¬ s.Region := by
  have h1 := h.least
  rintro (hr | hr)
  · have h2 := hr.most
    omega
  · cases s with
    | nil => simp at h1
    | cons c rest =>
      have hletter := not_isDigit_of_isAlpha (h.chars c (by simp))
      have hdigit := hr.chars c (by simp)
      simp [hletter] at hdigit

end

end Subtag

/-- A front that `P` has, and behind it what `Q` has. -/
def Cat (P Q : List Subtag → Prop) (subtags : List Subtag) : Prop :=
  ∃ front rest, P front ∧ Q rest ∧ subtags = front ++ rest

def UpTo (limit : Nat) (p : Subtag → Prop) (subtags : List Subtag) : Prop :=
  subtags.length ≤ limit ∧ ∀ s ∈ subtags, p s

def Any (p : Subtag → Prop) (subtags : List Subtag) : Prop := ∀ s ∈ subtags, p s

section Cat

variable {p : Subtag → Prop} {Q : List Subtag → Prop} {s : Subtag} {rest : List Subtag}

theorem head_of_cat {P : List Subtag → Prop} (hP : ∀ s rest, P (s :: rest) → p s)
    (h : Cat P Q (s :: rest)) : p s ∨ Q (s :: rest) := by
  obtain ⟨front, back, hfront, hback, he⟩ := h
  cases front with
  | nil => exact .inr (he ▸ hback)
  | cons t front =>
    obtain ⟨rfl, _⟩ := List.cons_eq_cons.mp he
    exact .inl (hP _ _ hfront)

theorem cat_upTo_nil {limit : Nat} : Cat (UpTo limit p) Q [] ↔ Q [] := by
  constructor
  · rintro ⟨front, back, _, hback, he⟩
    obtain ⟨rfl, rfl⟩ := List.append_eq_nil_iff.mp he.symm
    exact hback
  · exact fun h => ⟨[], [], ⟨Nat.zero_le _, by simp⟩, h, rfl⟩

theorem cat_upTo_zero {subtags : List Subtag} : Cat (UpTo 0 p) Q subtags ↔ Q subtags := by
  constructor
  · rintro ⟨front, back, ⟨hlength, _⟩, hback, rfl⟩
    obtain rfl := List.eq_nil_of_length_eq_zero (Nat.le_zero.mp hlength)
    exact hback
  · exact fun h => ⟨[], subtags, ⟨Nat.le_refl 0, by simp⟩, h, rfl⟩

theorem cat_upTo_cons_of {limit : Nat} (hs : p s) (hQ : ¬ Q (s :: rest)) :
    Cat (UpTo (limit + 1) p) Q (s :: rest) ↔ Cat (UpTo limit p) Q rest := by
  constructor
  · rintro ⟨front, back, ⟨hlength, hall⟩, hback, he⟩
    cases front with
    | nil => exact absurd (he ▸ hback) hQ
    | cons t front =>
      obtain ⟨rfl, hrest⟩ := List.cons_eq_cons.mp he
      exact ⟨front, back, ⟨Nat.le_of_succ_le_succ hlength, fun u hu => hall u (by simp [hu])⟩,
        hback, hrest⟩
  · rintro ⟨front, back, ⟨hlength, hall⟩, hback, rfl⟩
    exact ⟨s :: front, back, ⟨Nat.succ_le_succ hlength, by simpa [hs] using hall⟩, hback, rfl⟩

theorem cat_upTo_cons_of_not {limit : Nat} (hs : ¬ p s) :
    Cat (UpTo limit p) Q (s :: rest) ↔ Q (s :: rest) := by
  constructor
  · rintro ⟨front, back, ⟨_, hall⟩, hback, he⟩
    cases front with
    | nil => exact he ▸ hback
    | cons t front =>
      obtain ⟨rfl, _⟩ := List.cons_eq_cons.mp he
      exact absurd (hall s (by simp)) hs
  · exact fun h => ⟨[], s :: rest, ⟨Nat.zero_le _, by simp⟩, h, rfl⟩

theorem takeWhile_append_of_head {α : Type} {b : α → Bool} {front back : List α}
    (hfront : ∀ x ∈ front, b x = true) (hback : ∀ x more, back = x :: more → b x = false) :
    (front ++ back).takeWhile b = front ∧ (front ++ back).dropWhile b = back := by
  rw [List.takeWhile_append_of_pos hfront, List.dropWhile_append_of_pos hfront]
  cases back with
  | nil => simp
  | cons x more => simp [hback x more rfl]

theorem cat_any {b : Subtag → Bool} {subtags : List Subtag}
    (hb : ∀ s ∈ subtags, b s = true ↔ p s) (hQ : ∀ s rest, Q (s :: rest) → ¬ p s) :
    Cat (Any p) Q subtags ↔ Q (subtags.dropWhile b) := by
  constructor
  · rintro ⟨front, back, hfront, hback, rfl⟩
    have hdrop : (front ++ back).dropWhile b = back := by
      refine (takeWhile_append_of_head (fun s hs => (hb s (by simp [hs])).mpr (hfront s hs)) ?_).2
      rintro s more rfl
      have hs := hb s (by simp)
      cases hbs : b s with
      | false => rfl
      | true => exact absurd (hs.mp hbs) (hQ s more hback)
    rwa [hdrop]
  · intro h
    refine ⟨subtags.takeWhile b, _, fun s hs => ?_, h, List.takeWhile_append_dropWhile.symm⟩
    exact (hb s ((List.takeWhile_prefix b).subset hs)).mp (List.mem_takeWhile_imp hs)

end Cat

/-- A subtag of one character and the subtags that belong to it. -/
structure Extension where
  singleton : Subtag
  parts : List Subtag

namespace Extension

def subtags (e : Extension) : List Subtag := e.singleton :: e.parts

structure Legal (e : Extension) : Prop where
  singleton : e.singleton.Singleton
  nonempty : e.parts ≠ []
  parts : ∀ s ∈ e.parts, s.Of Char.isAlphanum 2 8

structure LegalPrivate (e : Extension) : Prop where
  singleton : e.singleton.Private
  nonempty : e.parts ≠ []
  parts : ∀ s ∈ e.parts, s.Of Char.isAlphanum 1 8

end Extension

/-- Extensions and then perhaps private use. -/
def Ending (subtags : List Subtag) : Prop :=
  ∃ (extensions : List Extension) (privateUse : Option Extension),
    (∀ e ∈ extensions, e.Legal) ∧ (∀ e ∈ privateUse, e.LegalPrivate) ∧
      subtags = extensions.flatMap Extension.subtags ++
        privateUse.toList.flatMap Extension.subtags

theorem Ending.length_head {s : Subtag} {rest : List Subtag} (h : Ending (s :: rest)) :
    s.length = 1 := by
  obtain ⟨extensions, privateUse, hextensions, hprivate, he⟩ := h
  cases extensions with
  | nil =>
    cases privateUse with
    | none => simp at he
    | some e =>
      obtain ⟨rfl, _⟩ : s = e.singleton ∧ _ := by simpa [Extension.subtags] using he
      exact (hprivate e rfl).singleton.length_eq
  | cons e extensions =>
    obtain ⟨rfl, _⟩ : s = e.singleton ∧ _ := by simpa [Extension.subtags] using he
    exact (hextensions e (by simp)).singleton.length_eq

theorem isSome_canonicalExtensions_cons {s : Subtag} {parts more : List Subtag}
    (hs : s.length = 1) (hne : parts ≠ []) (hparts : ∀ part ∈ parts, s.takes part = true)
    (hmore : ∀ part rest, more = part :: rest → s.takes part = false)
    (h : (canonicalExtensions more).isSome = true) :
    (canonicalExtensions (s :: (parts ++ more))).isSome = true := by
  obtain ⟨htake, hdrop⟩ := takeWhile_append_of_head hparts hmore
  have hsingleton : s.isSingleton = true := by simp [Subtag.isSingleton, hs]
  rw [canonicalExtensions, htake, hdrop]
  simpa [hsingleton, hne] using h

theorem isSome_canonicalExtensions_of_ending {subtags : List Subtag} (h : Ending subtags) :
    (canonicalExtensions subtags).isSome = true := by
  obtain ⟨extensions, privateUse, hextensions, hprivate, rfl⟩ := h
  induction extensions with
  | nil =>
    cases privateUse with
    | none => simp [canonicalExtensions]
    | some e =>
      have he := hprivate e rfl
      have htakes : ∀ part, e.singleton.takes part = true := fun part => by
        simp [Subtag.takes, Subtag.isPrivate_iff.mpr he.singleton]
      have hnil : (canonicalExtensions []).isSome = true := by simp [canonicalExtensions]
      have hcons := isSome_canonicalExtensions_cons he.singleton.length_eq he.nonempty
        (fun part _ => htakes part) (by simp) hnil
      simpa [Extension.subtags] using hcons
  | cons e extensions ih =>
    have he := hextensions e (by simp)
    have hmore := fun e' he' => hextensions e' (List.mem_cons_of_mem e he')
    have hnot : e.singleton.isPrivate = false := by
      simpa [← Subtag.isPrivate_iff] using he.singleton.2
    rw [List.flatMap_cons, Extension.subtags, List.append_assoc, List.cons_append]
    refine isSome_canonicalExtensions_cons he.singleton.length_eq he.nonempty ?_ ?_ (ih hmore)
    · intro part hpart
      simpa [Subtag.takes, hnot] using (he.parts part hpart).least
    · intro part rest hrest
      have hending : Ending (part :: rest) :=
        ⟨extensions, privateUse, hmore, hprivate, hrest.symm⟩
      simp [Subtag.takes, hnot, hending.length_head]

theorem ending_of_isSome_canonicalExtensions {subtags : List Subtag}
    (hwf : ∀ s ∈ subtags, s.Of Char.isAlphanum 1 8)
    (h : (canonicalExtensions subtags).isSome = true) : Ending subtags := by
  induction subtags using canonicalExtensions.induct with
  | case1 => exact ⟨[], none, by simp, by simp, rfl⟩
  | case2 s rest hs hnone => simp [canonicalExtensions, hs, hnone] at h
  | case3 s rest hs hsome ih =>
    have hs' : s.Of Char.isAlphanum 1 1 := by
      have hlength : s.length = 1 := of_decide_eq_true hs
      exact ⟨by omega, by omega, (hwf s (by simp)).chars⟩
    have hrest := (List.forall_mem_cons.mp hwf).2
    by_cases hprivate : s.Private
    · -- private use takes all that is left
      have htakes : ∀ part, s.takes part = true := fun part => by
        simp [Subtag.takes, Subtag.isPrivate_iff.mpr hprivate]
      have htake : rest.takeWhile s.takes = rest :=
        List.takeWhile_eq_self_iff.mpr fun part _ => htakes part
      rw [htake] at hsome
      refine ⟨[], some ⟨s, rest⟩, by simp, ?_, by simp [Extension.subtags]⟩
      rintro e ⟨⟩
      exact ⟨hprivate, hsome, hrest⟩
    · have hnot : s.isPrivate = false := by simpa [← Subtag.isPrivate_iff] using hprivate
      have hmore : (canonicalExtensions (rest.dropWhile s.takes)).isSome = true := by
        simpa [canonicalExtensions, hs, hsome] using h
      have hsuffix := List.dropWhile_suffix s.takes (l := rest)
      obtain ⟨extensions, privateUse, hextensions, hprivates, he⟩ :=
        ih (fun t ht => hrest t (hsuffix.subset ht)) hmore
      refine ⟨⟨s, rest.takeWhile s.takes⟩ :: extensions, privateUse, ?_, hprivates, ?_⟩
      · refine List.forall_mem_cons.mpr ⟨⟨⟨hs', hprivate⟩, hsome, fun part hpart => ?_⟩, hextensions⟩
        have hpart' := hrest part ((List.takeWhile_prefix s.takes).subset hpart)
        have htakes := List.mem_takeWhile_imp hpart
        exact ⟨by simpa [Subtag.takes, hnot] using htakes, hpart'.most, hpart'.chars⟩
      · rw [List.flatMap_cons, List.append_assoc, ← he, Extension.subtags, List.cons_append,
          List.takeWhile_append_dropWhile]
  | case4 s rest hs => simp [canonicalExtensions, hs] at h

def Variants : List Subtag → Prop := Cat (Any Subtag.Variant) Ending

def RegionBefore : List Subtag → Prop := Cat (UpTo 1 Subtag.Region) Variants

def ScriptBefore : List Subtag → Prop := Cat (UpTo 1 Subtag.Script) RegionBefore

def ExtlangsBefore (limit : Nat) : List Subtag → Prop :=
  Cat (UpTo limit Subtag.Extlang) ScriptBefore

section Heads

variable {s : Subtag} {rest : List Subtag}

theorem head_of_variants (h : Variants (s :: rest)) : s.Variant ∨ s.length = 1 :=
  (head_of_cat (fun s _ hall => hall s (by simp)) h).imp_right Ending.length_head

theorem head_of_regionBefore (h : RegionBefore (s :: rest)) :
    s.Region ∨ s.Variant ∨ s.length = 1 :=
  (head_of_cat (fun s _ hall => hall.2 s (by simp)) h).imp_right head_of_variants

theorem head_of_scriptBefore (h : ScriptBefore (s :: rest)) :
    s.Script ∨ s.Region ∨ s.Variant ∨ s.length = 1 :=
  (head_of_cat (fun s _ hall => hall.2 s (by simp)) h).imp_right head_of_regionBefore

theorem not_ending_of_variant (hs : s.Variant) : ¬ Ending (s :: rest) := by
  intro h
  have h1 := hs.length
  have h2 := h.length_head
  omega

theorem not_variants_of_region (hs : s.Region) : ¬ Variants (s :: rest) := by
  intro h
  have h1 := hs.length
  rcases head_of_variants h with hv | h2
  · exact hs.not_variant hv
  · omega

theorem not_regionBefore_of_script (hs : s.Script) : ¬ RegionBefore (s :: rest) := by
  intro h
  have h1 := hs.least
  rcases head_of_regionBefore h with hr | hv | h2
  · exact hs.not_region hr
  · exact hs.not_variant hv
  · omega

theorem not_scriptBefore_of_extlang (hs : s.Extlang) : ¬ ScriptBefore (s :: rest) := by
  intro h
  have h1 := hs.least
  have h2 := hs.most
  rcases head_of_scriptBefore h with hscript | hr | hv | h3
  · have h3 := hscript.least
    omega
  · exact hs.not_region hr
  · have h3 := hv.length
    omega
  · omega

end Heads

theorem isSome_canonicalExtensions {subtags : List Subtag}
    (hwf : ∀ s ∈ subtags, s.Of Char.isAlphanum 1 8) :
    (canonicalExtensions subtags).isSome = true ↔ Ending subtags :=
  ⟨ending_of_isSome_canonicalExtensions hwf, isSome_canonicalExtensions_of_ending⟩

theorem isSome_canonicalVariants {subtags : List Subtag}
    (hwf : ∀ s ∈ subtags, s.Of Char.isAlphanum 1 8) :
    (canonicalVariants subtags).isSome = true ↔ Variants subtags := by
  have hrest : ∀ s ∈ subtags.dropWhile Subtag.isVariant, s.Of Char.isAlphanum 1 8 := fun s hs =>
    hwf s ((List.dropWhile_suffix Subtag.isVariant).subset hs)
  rw [canonicalVariants, Option.isSome_map, isSome_canonicalExtensions hrest, Variants,
    cat_any (fun s hs => Subtag.isVariant_iff (hwf s hs)) ?_]
  exact fun s rest hending hs => not_ending_of_variant hs hending

/-- A class of which there may be at most so many is taken where its subtags begin. -/
theorem isSome_taken_iff {p : Subtag → Prop} {Q : List Subtag → Prop} {s : Subtag}
    {rest : List Subtag} {limit : Nat} {b : Bool} {taken passed : Option (List Subtag)}
    {f : List Subtag → List Subtag} (hb : b = true ↔ p s) (hQ : p s → ¬ Q (s :: rest))
    (htaken : taken.isSome = true ↔ Cat (UpTo limit p) Q rest)
    (hpassed : passed.isSome = true ↔ Q (s :: rest)) :
    (if b = true then taken.map f else passed).isSome = true ↔
      Cat (UpTo (limit + 1) p) Q (s :: rest) := by
  by_cases hs : p s
  · rw [if_pos (hb.mpr hs), Option.isSome_map, htaken, cat_upTo_cons_of hs (hQ hs)]
  · rw [if_neg fun h => hs (hb.mp h), hpassed, cat_upTo_cons_of_not hs]

theorem isSome_canonicalRegion {subtags : List Subtag}
    (hwf : ∀ s ∈ subtags, s.Of Char.isAlphanum 1 8) :
    (canonicalRegion subtags).isSome = true ↔ RegionBefore subtags := by
  cases subtags with
  | nil => rw [canonicalRegion, isSome_canonicalVariants hwf, RegionBefore, cat_upTo_nil]
  | cons s rest =>
    have hrest := (List.forall_mem_cons.mp hwf).2
    exact isSome_taken_iff Subtag.isRegion_iff not_variants_of_region
      ((isSome_canonicalVariants hrest).trans cat_upTo_zero.symm) (isSome_canonicalVariants hwf)

theorem isSome_canonicalScript {subtags : List Subtag}
    (hwf : ∀ s ∈ subtags, s.Of Char.isAlphanum 1 8) :
    (canonicalScript subtags).isSome = true ↔ ScriptBefore subtags := by
  cases subtags with
  | nil => rw [canonicalScript, isSome_canonicalRegion hwf, ScriptBefore, cat_upTo_nil]
  | cons s rest =>
    have hrest := (List.forall_mem_cons.mp hwf).2
    exact isSome_taken_iff Subtag.isScript_iff not_regionBefore_of_script
      ((isSome_canonicalRegion hrest).trans cat_upTo_zero.symm) (isSome_canonicalRegion hwf)

theorem isSome_canonicalExtlangs {limit : Nat} {subtags : List Subtag}
    (hwf : ∀ s ∈ subtags, s.Of Char.isAlphanum 1 8) :
    (canonicalExtlangs limit subtags).isSome = true ↔ ExtlangsBefore limit subtags := by
  induction limit generalizing subtags with
  | zero =>
    rw [ExtlangsBefore, cat_upTo_zero]
    exact isSome_canonicalScript hwf
  | succ limit ih =>
    cases subtags with
    | nil =>
      rw [ExtlangsBefore, cat_upTo_nil]
      exact isSome_canonicalScript hwf
    | cons s rest =>
      have hrest := (List.forall_mem_cons.mp hwf).2
      exact isSome_taken_iff Subtag.isExtlang_iff not_scriptBefore_of_extlang (ih hrest)
        (isSome_canonicalScript hwf)

theorem isSome_canonicalSubtags_cons {s : Subtag} {rest : List Subtag}
    (hwf : ∀ t ∈ s :: rest, t.Of Char.isAlphanum 1 8) :
    (canonicalSubtags (s :: rest)).isSome = true ↔
      s.Language ∧ ExtlangsBefore (if s.length ≤ 3 then 3 else 0) rest := by
  have hrest := (List.forall_mem_cons.mp hwf).2
  rw [canonicalSubtags]
  cases hs : s.isLanguage with
  | true =>
    rw [if_pos rfl, Option.isSome_map, isSome_canonicalExtlangs hrest]
    exact (and_iff_right (Subtag.isLanguage_iff.mp hs)).symm
  | false =>
    have hlanguage : ¬ s.Language := by simp [← Subtag.isLanguage_iff, hs]
    simp [hlanguage]

/-- The parts of a locale tag, in their order. -/
structure LocaleParts where
  language : Subtag
  extlangs : List Subtag
  script : Option Subtag
  region : Option Subtag
  variants : List Subtag
  extensions : List Extension
  privateUse : Option Extension
  isLanguage : language.Language
  areExtlangs : ∀ s ∈ extlangs, s.Extlang
  atMostThree : extlangs.length ≤ 3
  behindShort : extlangs ≠ [] → language.length ≤ 3
  isScript : ∀ s ∈ script, s.Script
  isRegion : ∀ s ∈ region, s.Region
  areVariants : ∀ s ∈ variants, s.Variant
  areExtensions : ∀ e ∈ extensions, e.Legal
  isPrivateUse : ∀ e ∈ privateUse, e.LegalPrivate

namespace LocaleParts

def subtags (parts : LocaleParts) : List Subtag :=
  parts.language :: (parts.extlangs ++ (parts.script.toList ++ (parts.region.toList ++
    (parts.variants ++ (parts.extensions.flatMap Extension.subtags ++
      parts.privateUse.toList.flatMap Extension.subtags)))))

def text (parts : LocaleParts) : String := String.ofList (joinChars '-' parts.subtags)

theorem of_mem_subtags {parts : LocaleParts} {s : Subtag} (h : s ∈ parts.subtags) :
    s.Of Char.isAlphanum 1 8 := by
  have hletters := fun c => Subtag.isAlphanum_of_isAlpha (c := c)
  have hdigits := fun c => Subtag.isAlphanum_of_isDigit (c := c)
  simp only [subtags, List.mem_cons, List.mem_append, Option.mem_toList, List.mem_flatMap,
    Extension.subtags] at h
  rcases h with rfl | h | h | h | h | ⟨e, he, h⟩ | ⟨e, he, h⟩
  · rcases parts.isLanguage with h | h
    · exact h.alphanum hletters (by omega) (by omega)
    · exact h.alphanum hletters (by omega) (by omega)
  · exact (parts.areExtlangs s h).alphanum hletters (by omega) (by omega)
  · exact (parts.isScript s h).alphanum hletters (by omega) (by omega)
  · rcases parts.isRegion s h with h | h
    · exact h.alphanum hletters (by omega) (by omega)
    · exact h.alphanum hdigits (by omega) (by omega)
  · rcases parts.areVariants s h with h | ⟨c, rest, rfl, hdigit, h⟩
    · exact h.alphanum (fun _ hc => hc) (by omega) (by omega)
    · have h1 := h.least
      have h2 := h.most
      refine ⟨by rw [List.length_cons]; omega, by rw [List.length_cons]; omega, ?_⟩
      exact List.forall_mem_cons.mpr ⟨hdigits c hdigit, h.chars⟩
  · have hlegal := parts.areExtensions e he
    rcases h with rfl | h
    · exact hlegal.singleton.1.alphanum (fun _ hc => hc) (by omega) (by omega)
    · exact (hlegal.parts s h).alphanum (fun _ hc => hc) (by omega) (by omega)
  · have hlegal := parts.isPrivateUse e he
    rcases h with rfl | h
    · exact hlegal.singleton.alphanum
    · exact hlegal.parts s h

theorem toList_head?_of_length_le_one {α : Type} {xs : List α} (h : xs.length ≤ 1) :
    xs.head?.toList = xs := by
  rcases xs with _ | ⟨x, _ | ⟨y, xs⟩⟩
  · rfl
  · rfl
  · simp at h

theorem exists_subtags_iff {s : Subtag} {rest : List Subtag} :
    (∃ parts : LocaleParts, parts.subtags = s :: rest) ↔
      s.Language ∧ ExtlangsBefore (if s.length ≤ 3 then 3 else 0) rest := by
  constructor
  · rintro ⟨parts, hparts⟩
    obtain ⟨rfl, rfl⟩ := List.cons_eq_cons.mp hparts
    refine ⟨parts.isLanguage, parts.extlangs, _, ⟨?_, parts.areExtlangs⟩,
      ⟨parts.script.toList, _, ⟨Option.length_toList_le, by simpa using parts.isScript⟩,
        ⟨parts.region.toList, _, ⟨Option.length_toList_le, by simpa using parts.isRegion⟩,
          ⟨parts.variants, _, parts.areVariants,
            ⟨parts.extensions, parts.privateUse, parts.areExtensions, parts.isPrivateUse, rfl⟩,
            rfl⟩, rfl⟩, rfl⟩, rfl⟩
    split
    · exact parts.atMostThree
    · next hlong =>
      by_contra hne
      exact hlong (parts.behindShort fun he => hne (by simp [he]))
  · rintro ⟨hlanguage, extlangs, _, ⟨hcount, hextlangs⟩, ⟨script, _, ⟨hscript1, hscript⟩,
      ⟨region, _, ⟨hregion1, hregion⟩, ⟨variants, _, hvariants,
        ⟨extensions, privateUse, hextensions, hprivate, rfl⟩, rfl⟩, rfl⟩, rfl⟩, rfl⟩
    refine ⟨⟨s, extlangs, script.head?, region.head?, variants, extensions, privateUse, hlanguage,
      hextlangs, ?_, ?_, fun t ht => hscript t (List.mem_of_mem_head? ht),
      fun t ht => hregion t (List.mem_of_mem_head? ht), hvariants, hextensions, hprivate⟩, ?_⟩
    · split at hcount <;> omega
    · intro hne
      by_contra hlong
      rw [if_neg hlong] at hcount
      exact hne (List.eq_nil_of_length_eq_zero (Nat.le_zero.mp hcount))
    · simp only [subtags, toList_head?_of_length_le_one hscript1,
        toList_head?_of_length_le_one hregion1]

theorem splitChars_text (parts : LocaleParts) :
    splitChars '-' parts.text.toList = parts.subtags := by
  rw [text, String.toList_ofList]
  refine splitChars_joinChars (by simp [subtags]) fun s hs hm => ?_
  have hhyphen := (of_mem_subtags hs).chars '-' hm
  simp at hhyphen

end LocaleParts

theorem canonicalLocale_of_some {tag : String} {canonical : List Subtag}
    (hwf : ∀ s ∈ splitChars '-' tag.toList, Subtag.Of Char.isAlphanum 1 8 s)
    (h : canonicalSubtags (splitChars '-' tag.toList) = some canonical) :
    canonicalLocale tag = .ok (String.ofList (joinChars '-' canonical)) := by
  have hne : tag.isEmpty = false := by
    cases he : tag.isEmpty with
    | false => rfl
    | true =>
      rw [String.isEmpty_iff.mp he] at hwf
      exact absurd (hwf [] (List.mem_singleton.mpr rfl)).least (by simp)
  have hall : (splitChars '-' tag.toList).all Subtag.wellFormed = true :=
    List.all_eq_true.mpr fun s hs => Subtag.wellFormed_iff.mpr (hwf s hs)
  simp [canonicalLocale, hne, hall, h]

theorem exists_canonicalLocale_iff {tag : String} :
    (∃ locale, canonicalLocale tag = .ok locale) ↔
      (∀ s ∈ splitChars '-' tag.toList, Subtag.Of Char.isAlphanum 1 8 s) ∧
        (canonicalSubtags (splitChars '-' tag.toList)).isSome = true := by
  constructor
  · rintro ⟨locale, h⟩
    obtain ⟨canonical, hsome, hall, _⟩ := canonicalLocale_eq_ok h
    exact ⟨fun s hs => Subtag.wellFormed_iff.mp (List.all_eq_true.mp hall s hs), by simp [hsome]⟩
  · rintro ⟨hwf, hsome⟩
    obtain ⟨canonical, h⟩ := Option.isSome_iff_exists.mp hsome
    exact ⟨_, canonicalLocale_of_some hwf h⟩

theorem exists_canonicalLocale_iff_parts {tag : String} :
    (∃ locale, canonicalLocale tag = .ok locale) ↔ ∃ parts : LocaleParts, parts.text = tag := by
  rw [exists_canonicalLocale_iff]
  constructor
  · rintro ⟨hwf, hsome⟩
    cases hsplit : splitChars '-' tag.toList with
    | nil => exact absurd hsplit (splitChars_ne_nil '-' tag.toList)
    | cons s rest =>
      rw [hsplit] at hwf hsome
      obtain ⟨parts, hparts⟩ :=
        LocaleParts.exists_subtags_iff.mpr ((isSome_canonicalSubtags_cons hwf).mp hsome)
      refine ⟨parts, ?_⟩
      rw [LocaleParts.text, hparts, ← hsplit, joinChars_splitChars, String.ofList_toList]
  · rintro ⟨parts, rfl⟩
    rw [parts.splitChars_text]
    refine ⟨fun s => LocaleParts.of_mem_subtags, ?_⟩
    exact (isSome_canonicalSubtags_cons fun s => LocaleParts.of_mem_subtags).mpr
      (LocaleParts.exists_subtags_iff.mp ⟨parts, rfl⟩)

theorem canonicalLocale_ok_or_invalid {tag : String} (hne : tag ≠ "") :
    (∃ locale, canonicalLocale tag = .ok locale) ∨
      canonicalLocale tag = .error (.invalid tag) := by
  unfold canonicalLocale
  rw [if_neg (by simpa [String.isEmpty_iff] using hne)]
  dsimp only
  split
  · split
    · exact .inl ⟨_, rfl⟩
    · exact .inr rfl
  · exact .inr rfl

/-- A locale tag is valid if it can be taken apart as the grammar says, and each
other tag is refused for what it is. -/
theorem canonicalLocale_grammar (tag : String) :
    (canonicalLocale tag = .error .empty ↔ tag = "") ∧
    ((∃ locale, canonicalLocale tag = .ok locale) ↔ ∃ parts : LocaleParts, parts.text = tag) ∧
    (canonicalLocale tag = .error (.invalid tag) ↔
      tag ≠ "" ∧ ¬ ∃ parts : LocaleParts, parts.text = tag) ∧
    ∀ parts : LocaleParts, ∀ s ∈ parts.subtags, s.Of Char.isAlphanum 1 8 := by
  rw [← exists_canonicalLocale_iff_parts]
  refine ⟨?_, Iff.rfl, ?_, fun parts s => LocaleParts.of_mem_subtags⟩
  · by_cases hne : tag = ""
    · subst hne
      exact iff_of_true rfl rfl
    · rcases canonicalLocale_ok_or_invalid hne with ⟨locale, h⟩ | h
      · simp [h, hne]
      · simp [h, hne]
  · by_cases hne : tag = ""
    · subst hne
      exact iff_of_false (by decide) fun h => h.1 rfl
    · rcases canonicalLocale_ok_or_invalid hne with ⟨locale, h⟩ | h
      · simp [h]
      · simp [h, hne]

end Userscript
