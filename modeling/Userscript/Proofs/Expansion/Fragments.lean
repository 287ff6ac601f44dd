import Mathlib.Data.List.TakeWhile
import Userscript.Proofs.Expansion.Success
import Userscript.Proofs.Text.Splitting

/-! Fragments of resource URLs. The integrity of a resource is to stand before
the fragment that its URL already has, with a semicolon where there are both.
The URLs for which it does are those with one mark at most and no empty fragment
behind which an integrity is put. -/

namespace Userscript

open Expansion

/-- A URL made of a base and a fragment behind the mark. -/
def withFragment (base : String) : Option String → String
  | none => base
  | some fragment => base ++ "#" ++ fragment

/-- Those of an integrity and a fragment that are not empty, in this order and
with a semicolon between them. -/
def joinedFragments (integrity fragment : Option String) : Option String :=
  match (integrity.toList ++ fragment.toList).filter (· ≠ "") with
  | [] => none
  | parts => some (joinText ';' parts)

/-- As much of a fragment as stands before a further mark. -/
def keptFragment (fragment : String) : String :=
  String.ofList (fragment.toList.takeWhile (· ≠ '#'))

theorem withFragment_injective (base : String) : Function.Injective (withFragment base) := by
  rintro (_ | f) (_ | g) h
  · rfl
  · simp [withFragment, ← String.toList_inj] at h
  · simp [withFragment, ← String.toList_inj] at h
  · simpa [withFragment, ← String.toList_inj] using h

theorem splitText_withFragment {base : String} (h : '#' ∉ base.toList) (fragment : Option String) :
    ∃ further, splitText '#' (withFragment base fragment) =
      base :: ((fragment.map keptFragment).toList ++ further) ∧
        (fragment = none → further = []) := by
  cases fragment with
  | none => exact ⟨[], by simp [withFragment, splitText, splitChars_of_not_mem h]⟩
  | some f =>
    have hlist : (withFragment base (some f)).toList = base.toList ++ '#' :: f.toList := by
      simp [withFragment]
    refine ⟨(splitChars '#' f.toList).tail.map String.ofList, ?_, by simp⟩
    rw [splitText, hlist, splitChars_append_sep h, splitChars_eq_cons '#' f.toList]
    simp [keptFragment]

theorem addIntegrity_withFragment {base : String} (h : '#' ∉ base.toList)
    (fragment integrity : Option String) :
    addIntegrity (withFragment base fragment) integrity =
      withFragment base (mergeFragments integrity (fragment.map keptFragment)) := by
  obtain ⟨further, hpieces, hnone⟩ := splitText_withFragment h fragment
  have hsecond : (splitText '#' (withFragment base fragment))[1]? = fragment.map keptFragment := by
    rw [hpieces]
    cases fragment with
    | none => simp [hnone rfl]
    | some f => simp
  have hfirst : (splitText '#' (withFragment base fragment)).headD "" = base := by
    rw [hpieces]
    rfl
  simp only [addIntegrity, hfirst, hsecond]
  cases mergeFragments integrity (fragment.map keptFragment) <;> rfl

theorem keptFragment_eq_self {fragment : String} :
    keptFragment fragment = fragment ↔ '#' ∉ fragment.toList := by
  rw [keptFragment, ← String.toList_inj, String.toList_ofList, List.takeWhile_eq_self_iff]
  constructor
  · intro h hm
    simpa using h '#' hm
  · exact forall_ne_of_not_mem

theorem joinText_pair (sep : Char) (s t : String) :
    joinText sep [s, t] = s ++ String.ofList [sep] ++ t := by
  simp [joinText, joinChars, ← String.toList_inj]

theorem mergeFragments_some {i : String} (hi : i ≠ "") (e : Option String) :
    mergeFragments (some i) e = some (i ++ (e.map (";" ++ ·)).getD "") := by
  cases e with
  | none => simp [mergeFragments, hi]
  | some e => simp [mergeFragments, hi, String.append_assoc]

theorem joinedFragments_none {f : String} (hf : f ≠ "") :
    joinedFragments none (some f) = some f := by
  simp [joinedFragments, hf, joinText, joinChars]

theorem joinedFragments_some {i f : String} (hi : i ≠ "") (hf : f ≠ "") :
    joinedFragments (some i) (some f) = some (i ++ ";" ++ f) := by
  simp [joinedFragments, hi, hf, joinText_pair]

theorem joinedFragments_some_empty {i : String} (hi : i ≠ "") :
    joinedFragments (some i) (some "") = some i := by
  simp [joinedFragments, hi, joinText, joinChars]

theorem mergeFragments_eq_joinedFragments {integrity fragment : Option String}
    (hi : integrity ≠ some "") :
    mergeFragments integrity (fragment.map keptFragment) = joinedFragments integrity fragment ↔
      (∀ f ∈ fragment, '#' ∉ f.toList) ∧ (integrity.isSome = true → fragment ≠ some "") := by
  rcases fragment with _ | f
  · rcases integrity with _ | i
    · simp [mergeFragments, joinedFragments]
    · have hne : i ≠ "" := by simpa using hi
      simp [mergeFragments, joinedFragments, hne, joinText, joinChars]
  · rcases integrity with _ | i
    · by_cases hf : f = ""
      · simp [hf, mergeFragments, joinedFragments, keptFragment]
      · rw [joinedFragments_none hf]
        simp [mergeFragments, Option.filter_eq_some_iff, keptFragment_eq_self, hf]
    · have hne : i ≠ "" := by simpa using hi
      by_cases hf : f = ""
      · simp [hf, mergeFragments_some hne, joinedFragments_some_empty hne]
      · rw [mergeFragments_some hne, joinedFragments_some hne hf]
        simp [String.append_assoc, keptFragment_eq_self, hf]

theorem integrityText_ne_empty (algorithm : HashAlgorithm) (digest : String) :
    integrityText algorithm digest ≠ "" := by
  simp [integrityText]

section

variable {options : Options} {collaborators : Collaborators} {r : Resource}
  {source integrity fragment : Option String} {base : String}

theorem integrity_ne_empty
    (h : (resolveIntegrity collaborators r.id source r.hash).outcome = .ok integrity) :
    integrity ≠ some "" := by
  cases hhash : r.hash with
  | none =>
    rw [hhash] at h
    obtain rfl : none = integrity := Except.ok.inj h
    simp
  | some hash =>
    rw [hhash, resolveIntegrity, outcome_bind_eq_ok fun _ => appends_pure _] at h
    obtain ⟨digest, _, hdigest⟩ := h
    obtain rfl : some (integrityText hash.algorithm digest) = integrity := Except.ok.inj hdigest
    simpa using integrityText_ne_empty hash.algorithm digest

theorem outcome_resourceUrl {text : String} :
    (resourceUrl options collaborators r).outcome = .ok text ↔
      ∃ source integrity url, (resolveSource options r).outcome = .ok source ∧
        (resolveIntegrity collaborators r.id source r.hash).outcome = .ok integrity ∧
        (resolveUrl options { r with src := source }).outcome = .ok url ∧
        addIntegrity url integrity = text := by
  have hlast : ∀ integrity url, (pure (addIntegrity url integrity) : Expansion String).Appends :=
    fun integrity url => appends_pure _
  have hurl : ∀ source integrity, (resolveUrl options { r with src := source } >>= fun url =>
      (pure (addIntegrity url integrity) : Expansion String)).Appends := fun source integrity =>
    (writes_resolveUrl (P := fun _ => True) ..).toAppends.bind (hlast integrity)
  have hintegrity : ∀ source, (resolveIntegrity collaborators r.id source r.hash >>=
      fun integrity => resolveUrl options { r with src := source } >>= fun url =>
        (pure (addIntegrity url integrity) : Expansion String)).Appends := fun source =>
    (writes_resolveIntegrity (P := fun _ => True) ..).toAppends.bind (hurl source)
  rw [resourceUrl, outcome_bind_eq_ok hintegrity]
  refine exists_congr fun source => ?_
  rw [outcome_bind_eq_ok (hurl source)]
  simp only [outcome_bind_eq_ok (hlast _), outcome_pure, Except.ok.injEq, ← exists_and_left]

/-- The URL of a resource has all of the fragment that it had, behind the
integrity and parted from it by a semicolon, exactly if that fragment holds no
further mark and is not an empty one behind an integrity. Of a fragment with a
further mark only the front is kept, and behind an integrity the semicolon is
put in any case. -/
theorem outcome_resourceUrl_withFragment
    (hsource : (resolveSource options r).outcome = .ok source)
    (hintegrity : (resolveIntegrity collaborators r.id source r.hash).outcome = .ok integrity)
    (hurl : (resolveUrl options { r with src := source }).outcome =
      .ok (withFragment base fragment))
    (hbase : '#' ∉ base.toList) :
    (resourceUrl options collaborators r).outcome =
        .ok (withFragment base (mergeFragments integrity (fragment.map keptFragment))) ∧
      ((resourceUrl options collaborators r).outcome =
          .ok (withFragment base (joinedFragments integrity fragment)) ↔
        (∀ f ∈ fragment, '#' ∉ f.toList) ∧ (integrity.isSome = true → fragment ≠ some "")) := by
  have hok : (resourceUrl options collaborators r).outcome =
      .ok (withFragment base (mergeFragments integrity (fragment.map keptFragment))) := by
    rw [outcome_resourceUrl, ← addIntegrity_withFragment hbase]
    exact ⟨source, integrity, _, hsource, hintegrity, hurl, rfl⟩
  refine ⟨hok, ?_⟩
  rw [hok, Except.ok.injEq, (withFragment_injective base).eq_iff]
  exact mergeFragments_eq_joinedFragments (integrity_ne_empty hintegrity)

end

/-- A resource that names neither its source nor its URL. -/
def unlocatedResource : Resource := ⟨"lib", none, none, some ⟨.computed, .md5⟩⟩

def locatingOptions : Options where
  sourceOf := some fun r => some (r.id ++ ".js")
  urlOf := some fun r => some ("u/" ++ r.src.getD "" ++ "#x=1;y")

def digestingCollaborators : Collaborators := ⟨LocaleRule.bestFit, fun _ _ => .ok "d", .ok "/"⟩

theorem outcome_resourceUrl_withFragment_of_unlocated :
    (resourceUrl locatingOptions digestingCollaborators unlocatedResource).outcome =
        .ok "u/lib.js#md5=d;x=1;y" ∧
      ((resourceUrl locatingOptions digestingCollaborators unlocatedResource).outcome =
          .ok (withFragment "u/lib.js" (joinedFragments (some "md5=d") (some "x=1;y"))) ↔
        (∀ f ∈ some "x=1;y", '#' ∉ f.toList) ∧
          ((some "md5=d").isSome = true → some "x=1;y" ≠ some "")) := by
  have hsource : (resolveSource locatingOptions unlocatedResource).outcome =
      .ok (some "lib.js") := rfl
  have hintegrity : (resolveIntegrity digestingCollaborators "lib" (some "lib.js")
      unlocatedResource.hash).outcome = .ok (some "md5=d") := rfl
  have hurl : (resolveUrl locatingOptions { unlocatedResource with src := some "lib.js" }).outcome =
      .ok (withFragment "u/lib.js" (some "x=1;y")) := rfl
  exact outcome_resourceUrl_withFragment hsource hintegrity hurl (by decide)

/-- What stands behind the second mark of a URL is lost. -/
theorem exists_resourceUrl_loses_fragment :
    ¬ ∀ (options : Options) (collaborators : Collaborators) (r : Resource)
        (source integrity fragment : Option String) (base : String),
      (resolveSource options r).outcome = .ok source →
      (resolveIntegrity collaborators r.id source r.hash).outcome = .ok integrity →
      (resolveUrl options { r with src := source }).outcome = .ok (withFragment base fragment) →
      '#' ∉ base.toList →
      (resourceUrl options collaborators r).outcome =
        .ok (withFragment base (joinedFragments integrity fragment)) := by
  intro h
  have hkept := h {} digestingCollaborators ⟨"lib", none, some "u#a#b", none⟩ none none
    (some "a#b") "u" rfl rfl rfl (by decide)
  have hlost : (resourceUrl {} digestingCollaborators
      ⟨"lib", none, some "u#a#b", none⟩).outcome = .ok "u#a" := rfl
  rw [hlost] at hkept
  exact absurd (Except.ok.inj hkept) (by decide)

end Userscript
