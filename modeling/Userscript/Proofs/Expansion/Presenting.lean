import Userscript.Proofs.Expansion.Extending
import Userscript.Proofs.Expansion.Translating

/-! Arrays of short texts and descriptors. The values are expanded one after another,
each on the draft that those before it left, up to the first that fails. What stands
behind that one is as good as not there. -/

namespace Userscript

open Expansion

section Loop

variable {α : Type} {f : α → Expansion Unit} {xs : List α} {d d' : Draft}

theorem forM_append_eq (xs ys : List α) :
    (xs ++ ys).forM f = xs.forM f >>= fun _ => ys.forM f :=
  List.forM_append

theorem on_forM_append_of_ok (ys : List α) (h : (xs.forM f).on d = (.ok (), d')) :
    ((xs ++ ys).forM f).on d = (ys.forM f).on d' := by
  rw [forM_append_eq, on_bind, h]

theorem on_forM_cons_of_ok {a : α} (as : List α) (h : (f a).on d = (.ok (), d')) :
    ((a :: as).forM f).on d = (as.forM f).on d' := by
  change (f a >>= fun _ => as.forM f).on d = _
  rw [on_bind, h]

theorem on_forM_cons_of_error {a : α} (as : List α) {e : HeaderError}
    (h : (f a).on d = (.error e, d')) : ((a :: as).forM f).on d = (.error e, d') := by
  change (f a >>= fun _ => as.forM f).on d = _
  rw [on_bind, h]

end Loop

def tagDraft (tag : String) (values : List String) : Draft :=
  { lines := (values.map (tagLine tag)).toArray }

section Texts

variable {tag : String}

theorem on_forM_expandText_of_fits (htag : isTagName tag = true) {values : List String}
    (hfits : ∀ v ∈ values, FitsLine v) (d : Draft) :
    (values.forM fun v => expandText tag (some v)).on d = (.ok (), d ++ tagDraft tag values) := by
  induction values generalizing d with
  | nil => exact congrArg _ (Draft.append_empty d).symm
  | cons v values ih =>
    rw [List.forall_mem_cons] at hfits
    rw [on_forM_cons_of_ok values (on_expandText_of_fits htag hfits.1 d)]
    refine (ih hfits.2 _).trans (congrArg _ ?_)
    rw [Draft.append_assoc]
    refine congrArg (d ++ ·) ?_
    change Draft.mk _ _ _ = Draft.mk _ _ _
    simp [tagDraft]

theorem on_forM_expandText_of_broken (htag : isTagName tag = true) {front back : List String}
    {bad : String} (hfits : ∀ v ∈ front, FitsLine v) (hbad : ¬ FitsLine bad) (d : Draft) :
    ((front ++ bad :: back).forM fun v => expandText tag (some v)).on d =
      (.error (.brokenLine tag bad), d ++ tagDraft tag front) := by
  rw [on_forM_append_of_ok _ (on_forM_expandText_of_fits htag hfits d)]
  exact on_forM_cons_of_error back (on_expandText_of_not_fits htag hbad _)

end Texts

/-- Whether a value goes to the transformer. -/
def TextPolicy.transforms {α : Type} (policy : TextPolicy) : TextOr α → Bool
  | .text _ => policy = .transform
  | .descriptor _ => true

/-- The transformer with a mark in the draft for each value that it is run on. -/
def Transformer.noting {α : Type} (mark : TextOr α → Call) (transformer : Transformer α) :
    Transformer α := fun value tag =>
  note (mark value) >>= fun _ => transformer value tag

theorem Transformer.on_noting {α : Type} (mark : TextOr α → Call) (transformer : Transformer α)
    (value : TextOr α) (tag : String) (d : Draft) :
    (transformer.noting mark value tag).on d =
      (transformer value tag).on { d with calls := d.calls.push (mark value) } :=
  on_bind (note (mark value)) _ d

/-- A transformer that makes no calls of its own. -/
def Transformer.Quiet {α : Type} (transformer : Transformer α) : Prop :=
  ∀ value tag d, ((transformer value tag).on d).2.calls = d.calls

namespace Presenting

section

variable {α : Type} (tag : String) (policy : TextPolicy) (transformer : Transformer α)

/-- The transformer is run on a value and puts lines of its own behind those there are. -/
structure Transforms (value : TextOr α) (d : Draft) (result : Except HeaderError Emission)
    (pushed : List String) (d' : Draft) : Prop where
  asked : policy.transforms value = true
  run : (transformer value tag).on d = (result, d')
  lines : d'.lines.toList = d.lines.toList ++ pushed

/-- The lines that a value contributes to a draft, with which outcome and what draft. -/
inductive Contributes :
    TextOr α → Draft → Except HeaderError Unit → List String → Draft → Prop where
  | kept {s : String} {d : Draft} (hpolicy : policy = .keep) (hfits : FitsLine s) :
      Contributes (.text s) d (.ok ()) [tagLine tag s] (d ++ tagDraft tag [s])
  | keptBroken {s : String} {d : Draft} (hpolicy : policy = .keep) (hbad : ¬ FitsLine s) :
      Contributes (.text s) d (.error (.brokenLine tag s)) [] d
  | refused {s : String} {d : Draft} (hpolicy : policy = .refuse) :
      Contributes (.text s) d (.error (.textRefused tag)) [] d
  | failed {value : TextOr α} {d d' : Draft} {e : HeaderError} {pushed : List String}
      (h : Transforms tag policy transformer value d (.error e) pushed d') :
      Contributes value d (.error e) pushed d'
  | emitted {value : TextOr α} {d d' : Draft} {emission : Emission} {pushed : List String}
      (h : Transforms tag policy transformer value d (.ok emission) pushed d')
      (hfits : ∀ v ∈ emission.texts, FitsLine v) :
      Contributes value d (.ok ()) (pushed ++ emission.texts.map (tagLine tag))
        (d' ++ tagDraft tag emission.texts)
  | emittedBroken {value : TextOr α} {d d' : Draft} {emission : Emission}
      {pushed front back : List String} {bad : String}
      (h : Transforms tag policy transformer value d (.ok emission) pushed d')
      (hsplit : emission.texts = front ++ bad :: back)
      (hfits : ∀ v ∈ front, FitsLine v) (hbad : ¬ FitsLine bad) :
      Contributes value d (.error (.brokenLine tag bad)) (pushed ++ front.map (tagLine tag))
        (d' ++ tagDraft tag front)

/-- All of some values succeed, each on the draft that those before it left. -/
inductive Passes : List (TextOr α) → Draft → List String → Draft → Prop where
  | nil (d : Draft) : Passes [] d [] d
  | cons {value : TextOr α} {values : List (TextOr α)} {d d' d'' : Draft}
      {own rest : List String} (h : Contributes tag policy transformer value d (.ok ()) own d')
      (hrest : Passes values d' rest d'') : Passes (value :: values) d (own ++ rest) d''

end

variable {α : Type} {tag : String} {policy : TextPolicy} {transformer : Transformer α}

theorem Contributes.lines {value : TextOr α} {d d' : Draft} {r : Except HeaderError Unit}
    {own : List String} (h : Contributes tag policy transformer value d r own d') :
    d'.lines.toList = d.lines.toList ++ own := by
  cases h with
  | kept => simp [tagDraft]
  | keptBroken => simp
  | refused => simp
  | failed h => exact h.lines
  | emitted h => simp [tagDraft, h.lines]
  | emittedBroken h => simp [tagDraft, h.lines]

theorem Passes.lines {values : List (TextOr α)} {d d' : Draft} {own : List String}
    (h : Passes tag policy transformer values d own d') :
    d'.lines.toList = d.lines.toList ++ own := by
  induction h with
  | nil d => simp
  | cons h _ ih => rw [ih, h.lines, List.append_assoc]

theorem expandTransformed_eq (htag : isTagName tag = true) (value : TextOr α) :
    expandTransformed tag value transformer = transformer value tag >>= fun emission =>
      emission.texts.forM fun v => expandText tag (some v) := by
  refine bind_congr fun emission => ?_
  cases emission with
  | nothing => rfl
  | one v =>
    change (checkTagName tag >>= fun _ => _) = _
    rw [checkTagName_bind, if_pos htag]
    rfl
  | many vs =>
    change (checkTagName tag >>= fun _ => _) = _
    rw [checkTagName_bind, if_pos htag]
    rfl

theorem expandDescriptor_of_transforms (htag : isTagName tag = true) {value : TextOr α}
    {options : DescriptorOptions} (h : options.texts.transforms value = true) :
    expandDescriptor tag (some value) transformer options =
      expandTransformed tag value transformer := by
  obtain ⟨checkNull, texts⟩ := options
  cases value with
  | text s =>
    obtain rfl : texts = .transform := by simpa [TextPolicy.transforms] using h
    change (checkTagName tag >>= fun _ => _) = _
    rw [checkTagName_bind, if_pos htag]
  | descriptor v =>
    change (checkTagName tag >>= fun _ => _) = _
    rw [checkTagName_bind, if_pos htag]

theorem expandDescriptor_of_keep (htag : isTagName tag = true) (s : String) (checkNull : Bool) :
    expandDescriptor tag (some (.text s)) transformer ⟨checkNull, .keep⟩ =
      expandText tag (some s) := by
  change (checkTagName tag >>= fun _ => expandText tag (some s) checkNull) = _
  rw [checkTagName_bind, if_pos htag]
  rfl

theorem expandDescriptor_of_refuse (htag : isTagName tag = true) (s : String)
    (checkNull : Bool) :
    expandDescriptor tag (some (.text s)) transformer ⟨checkNull, .refuse⟩ =
      throw (.textRefused tag) := by
  change (checkTagName tag >>= fun _ => throw (.textRefused tag)) = _
  rw [checkTagName_bind, if_pos htag]

variable {options : DescriptorOptions}

/-- What a value contributes is what its expansion does. -/
theorem Contributes.on_eq (htag : isTagName tag = true) {value : TextOr α} {d d' : Draft}
    {r : Except HeaderError Unit} {own : List String}
    (h : Contributes tag options.texts transformer value d r own d') :
    (expandDescriptor tag (some value) transformer options).on d = (r, d') := by
  obtain ⟨checkNull, texts⟩ := options
  cases h with
  | kept hpolicy hfits =>
    obtain rfl : texts = .keep := hpolicy
    rw [expandDescriptor_of_keep htag]
    exact on_expandText_of_fits htag hfits d
  | keptBroken hpolicy hbad =>
    obtain rfl : texts = .keep := hpolicy
    rw [expandDescriptor_of_keep htag]
    exact on_expandText_of_not_fits htag hbad d
  | refused hpolicy =>
    obtain rfl : texts = .refuse := hpolicy
    rw [expandDescriptor_of_refuse htag, on_throw]
  | failed h =>
    rw [expandDescriptor_of_transforms htag h.asked, expandTransformed_eq htag, on_bind, h.run]
  | emitted h hfits =>
    rw [expandDescriptor_of_transforms htag h.asked, expandTransformed_eq htag, on_bind, h.run]
    exact on_forM_expandText_of_fits htag hfits _
  | emittedBroken h hsplit hfits hbad =>
    rw [expandDescriptor_of_transforms htag h.asked, expandTransformed_eq htag, on_bind, h.run]
    dsimp only
    rw [hsplit]
    exact on_forM_expandText_of_broken htag hfits hbad _

theorem exists_contributes_of_transforms (ht : ∀ value, (transformer value tag).Extends)
    {value : TextOr α} (hasked : policy.transforms value = true) (d : Draft) :
    ∃ r own d', Contributes tag policy transformer value d r own d' := by
  obtain ⟨pushed, hpushed⟩ := ht value d
  rcases hrun : (transformer value tag).on d with ⟨e | emission, d'⟩
  · rw [hrun] at hpushed
    exact ⟨_, _, _, .failed ⟨hasked, hrun, hpushed.symm⟩⟩
  · rw [hrun] at hpushed
    have htransforms : Transforms tag policy transformer value d (.ok emission) pushed d' :=
      ⟨hasked, hrun, hpushed.symm⟩
    by_cases hfits : ∀ v ∈ emission.texts, FitsLine v
    · exact ⟨_, _, _, .emitted htransforms hfits⟩
    · obtain ⟨front, bad, back, hsplit, hfront, hbad⟩ := exists_first_not hfits
      exact ⟨_, _, _, .emittedBroken htransforms hsplit hfront hbad⟩

theorem exists_contributes (ht : ∀ value, (transformer value tag).Extends)
    (policy : TextPolicy) (value : TextOr α) (d : Draft) :
    ∃ r own d', Contributes tag policy transformer value d r own d' := by
  cases value with
  | descriptor v => exact exists_contributes_of_transforms ht rfl d
  | text s =>
    cases policy with
    | transform => exact exists_contributes_of_transforms ht rfl d
    | refuse => exact ⟨_, _, _, .refused rfl⟩
    | keep =>
      by_cases hfits : FitsLine s
      · exact ⟨_, _, _, .kept rfl hfits⟩
      · exact ⟨_, _, _, .keptBroken rfl hfits⟩

theorem on_expandDescriptor_iff (htag : isTagName tag = true)
    (ht : ∀ value, (transformer value tag).Extends) {value : TextOr α} {d d' : Draft}
    {r : Except HeaderError Unit} :
    (expandDescriptor tag (some value) transformer options).on d = (r, d') ↔
      ∃ own, Contributes tag options.texts transformer value d r own d' := by
  constructor
  · intro h
    obtain ⟨r', own, d'', hcontributes⟩ := exists_contributes ht options.texts value d
    obtain ⟨rfl, rfl⟩ := Prod.mk.inj ((hcontributes.on_eq htag).symm.trans h)
    exact ⟨own, hcontributes⟩
  · rintro ⟨own, hcontributes⟩
    exact hcontributes.on_eq htag

def expandAll (tag : String) (transformer : Transformer α) (options : DescriptorOptions)
    (values : List (TextOr α)) : Expansion Unit :=
  values.forM fun v => expandDescriptor tag (some v) transformer options

theorem expandDescriptors_many (htag : isTagName tag = true) (values : List (TextOr α)) :
    expandDescriptors tag (.many values) transformer options =
      expandAll tag transformer options values := by
  change (checkTagName tag >>= fun _ => _) = _
  rw [checkTagName_bind, if_pos htag]
  rfl

theorem on_expandAll_eq_ok (htag : isTagName tag = true)
    (ht : ∀ value, (transformer value tag).Extends) {values : List (TextOr α)} {d d' : Draft} :
    (expandAll tag transformer options values).on d = (.ok (), d') ↔
      ∃ own, Passes tag options.texts transformer values d own d' := by
  induction values generalizing d with
  | nil =>
    constructor
    · intro h
      obtain ⟨_, rfl⟩ := Prod.mk.inj h
      exact ⟨[], .nil d⟩
    · rintro ⟨_, ⟨⟩⟩
      rfl
  | cons value values ih =>
    constructor
    · intro h
      rcases hvalue : (expandDescriptor tag (some value) transformer options).on d with
        ⟨e | u, d0⟩
      · have herror := (on_forM_cons_of_error values hvalue).symm.trans h
        cases herror
      · obtain ⟨rest, hrest⟩ := ih.mp ((on_forM_cons_of_ok values hvalue).symm.trans h)
        obtain ⟨own, hown⟩ := (on_expandDescriptor_iff htag ht).mp hvalue
        exact ⟨own ++ rest, .cons hown hrest⟩
    · rintro ⟨_, _ | ⟨hown, hrest⟩⟩
      exact (on_forM_cons_of_ok values (hown.on_eq htag)).trans (ih.mpr ⟨_, hrest⟩)

theorem on_expandAll_eq_error (htag : isTagName tag = true)
    (ht : ∀ value, (transformer value tag).Extends) {values : List (TextOr α)} {d d' : Draft}
    {e : HeaderError} :
    (expandAll tag transformer options values).on d = (.error e, d') ↔
      ∃ before bad after own d0 last, values = before ++ bad :: after ∧
        Passes tag options.texts transformer before d own d0 ∧
        Contributes tag options.texts transformer bad d0 (.error e) last d' := by
  constructor
  · intro h
    induction values generalizing d with
    | nil => cases h
    | cons value values ih =>
      rcases hvalue : (expandDescriptor tag (some value) transformer options).on d with
        ⟨e' | u, d0⟩
      · have hstopped := (on_forM_cons_of_error values hvalue).symm.trans h
        obtain ⟨last, hlast⟩ := (on_expandDescriptor_iff htag ht).mp (hvalue.trans hstopped)
        exact ⟨[], value, values, [], d, last, rfl, .nil d, hlast⟩
      · obtain ⟨before, bad, after, rest, d1, last, rfl, hbefore, hbad⟩ :=
          ih ((on_forM_cons_of_ok values hvalue).symm.trans h)
        obtain ⟨own, hown⟩ := (on_expandDescriptor_iff htag ht).mp hvalue
        exact ⟨value :: before, bad, after, own ++ rest, d1, last, rfl, .cons hown hbefore, hbad⟩
  · rintro ⟨before, bad, after, own, d0, last, rfl, hbefore, hbad⟩
    have hpassed := (on_expandAll_eq_ok htag ht).mpr ⟨own, hbefore⟩
    exact (on_forM_append_of_ok (bad :: after) hpassed).trans
      (on_forM_cons_of_error after (hbad.on_eq htag))

/-- What the transformer does with values that it is not run on makes no difference. -/
theorem expandDescriptor_congr (htag : isTagName tag = true) {transformer' : Transformer α}
    {value : TextOr α}
    (hsame : options.texts.transforms value = true →
      transformer' value tag = transformer value tag) :
    expandDescriptor tag (some value) transformer' options =
      expandDescriptor tag (some value) transformer options := by
  by_cases hasked : options.texts.transforms value = true
  · rw [expandDescriptor_of_transforms htag hasked, expandDescriptor_of_transforms htag hasked,
      expandTransformed_eq htag, expandTransformed_eq htag, hsame hasked]
  · obtain ⟨checkNull, texts⟩ := options
    cases value with
    | descriptor v => exact absurd rfl hasked
    | text s =>
      cases texts with
      | transform => exact absurd rfl hasked
      | keep => rw [expandDescriptor_of_keep htag, expandDescriptor_of_keep htag]
      | refuse => rw [expandDescriptor_of_refuse htag, expandDescriptor_of_refuse htag]

theorem expandAll_congr (htag : isTagName tag = true) {transformer' : Transformer α}
    {values : List (TextOr α)}
    (hsame : ∀ v ∈ values, options.texts.transforms v = true →
      transformer' v tag = transformer v tag) :
    expandAll tag transformer' options values = expandAll tag transformer options values := by
  induction values with
  | nil => rfl
  | cons value values ih =>
    rw [List.forall_mem_cons] at hsame
    have hvalue := expandDescriptor_congr htag hsame.1
    have hrest := ih hsame.2
    change (expandDescriptor tag (some value) transformer' options >>= fun _ =>
      expandAll tag transformer' options values) = _
    rw [hvalue, hrest]
    rfl

theorem extends_noting (mark : TextOr α → Call)
    (ht : ∀ value, (transformer value tag).Extends) (value : TextOr α) :
    (transformer.noting mark value tag).Extends :=
  (appends_note (mark value)).extends.bind fun _ => ht value

section Marks

variable {mark : TextOr α → Call} (hquiet : transformer.Quiet)

include hquiet

theorem Transforms.calls {value : TextOr α} {d d' : Draft} {pushed : List String}
    {result : Except HeaderError Emission}
    (h : Transforms tag policy (transformer.noting mark) value d result pushed d') :
    d'.calls.toList = d.calls.toList ++ ([value].filter policy.transforms).map mark := by
  have hrun := h.run
  rw [Transformer.on_noting] at hrun
  have hcalls := hquiet value tag { d with calls := d.calls.push (mark value) }
  rw [hrun] at hcalls
  rw [hcalls, List.filter_cons_of_pos h.asked]
  simp

theorem Contributes.calls {value : TextOr α} {d d' : Draft} {r : Except HeaderError Unit}
    {own : List String}
    (h : Contributes tag policy (transformer.noting mark) value d r own d') :
    d'.calls.toList = d.calls.toList ++ ([value].filter policy.transforms).map mark := by
  cases h with
  | kept hpolicy => simp [hpolicy, TextPolicy.transforms, tagDraft]
  | keptBroken hpolicy => simp [hpolicy, TextPolicy.transforms]
  | refused hpolicy => simp [hpolicy, TextPolicy.transforms]
  | failed h => exact h.calls hquiet
  | emitted h => simpa [tagDraft] using h.calls hquiet
  | emittedBroken h => simpa [tagDraft] using h.calls hquiet

theorem Passes.calls {values : List (TextOr α)} {d d' : Draft} {own : List String}
    (h : Passes tag policy (transformer.noting mark) values d own d') :
    d'.calls.toList = d.calls.toList ++ (values.filter policy.transforms).map mark := by
  induction h with
  | nil d => simp
  | @cons value values _ _ _ _ _ h _ ih =>
    rw [ih, h.calls hquiet, List.append_assoc, ← List.map_append, ← List.filter_append,
      List.singleton_append]

end Marks

end Presenting

open Presenting in
/-- An array is expanded in order. An array in two parts is the first part and then, if
that succeeds, the second. Success means that all values pass and failure that one of
them fails behind others that pass; the lines are what these contribute, one behind the
other. What a transformer would do with values that are kept or refused, or that stand
behind the failing one, makes no difference. With a mark for each run, it turns out to be
run on the other values, once on each. What is not an array is refused at once. -/
theorem expandDescriptors_in_order {α : Type} {tag : String} (htag : isTagName tag = true)
    {transformer : Transformer α} (ht : ∀ value, (transformer value tag).Extends)
    (options : DescriptorOptions) :
    (∀ xs ys, expandDescriptors tag (.many (xs ++ ys)) transformer options =
      expandDescriptors tag (.many xs) transformer options >>= fun _ =>
        expandDescriptors tag (.many ys) transformer options) ∧
    (∀ values d d', (expandDescriptors tag (.many values) transformer options).on d =
        (.ok (), d') ↔
      ∃ own, Passes tag options.texts transformer values d own d' ∧
        d'.lines.toList = d.lines.toList ++ own) ∧
    (∀ values d e d', (expandDescriptors tag (.many values) transformer options).on d =
        (.error e, d') ↔
      ∃ before bad after own d0 last, values = before ++ bad :: after ∧
        Passes tag options.texts transformer before d own d0 ∧
        Contributes tag options.texts transformer bad d0 (.error e) last d' ∧
        d'.lines.toList = d.lines.toList ++ (own ++ last)) ∧
    (∀ (transformer' : Transformer α) before bad after d d0 e d',
      (expandDescriptors tag (.many before) transformer options).on d = (.ok (), d0) →
      (expandDescriptor tag (some bad) transformer options).on d0 = (.error e, d') →
      (∀ v ∈ before ++ [bad], options.texts.transforms v = true →
        transformer' v tag = transformer v tag) →
      (expandDescriptors tag (.many (before ++ bad :: after)) transformer' options).on d =
        (.error e, d')) ∧
    (∀ (mark : TextOr α → Call) before bad after d d0 e d', transformer.Quiet →
      (expandDescriptors tag (.many before) (transformer.noting mark) options).on d =
        (.ok (), d0) →
      (expandDescriptor tag (some bad) (transformer.noting mark) options).on d0 =
        (.error e, d') →
      (expandDescriptors tag (.many (before ++ bad :: after)) (transformer.noting mark)
          options).on d = (.error e, d') ∧
        d'.calls.toList = d.calls.toList ++
          ((before ++ [bad]).filter options.texts.transforms).map mark) ∧
    ∀ value d, (expandDescriptors tag (.one value) transformer options).on d =
      (.error (.noArray tag), d) := by
  refine ⟨fun xs ys => ?_, fun values d d' => ?_, fun values d e d' => ?_, ?_, ?_,
    fun value d => ?_⟩
  · simp only [expandDescriptors_many htag]
    exact forM_append_eq xs ys
  · rw [expandDescriptors_many htag, on_expandAll_eq_ok htag ht]
    exact exists_congr fun own => ⟨fun h => ⟨h, h.lines⟩, And.left⟩
  · rw [expandDescriptors_many htag, on_expandAll_eq_error htag ht]
    constructor
    · rintro ⟨before, bad, after, own, d0, last, hsplit, hbefore, hbad⟩
      refine ⟨before, bad, after, own, d0, last, hsplit, hbefore, hbad, ?_⟩
      rw [hbad.lines, hbefore.lines, List.append_assoc]
    · rintro ⟨before, bad, after, own, d0, last, hsplit, hbefore, hbad, _⟩
      exact ⟨before, bad, after, own, d0, last, hsplit, hbefore, hbad⟩
  · intro transformer' before bad after d d0 e d' hbefore hbad hsame
    rw [List.forall_mem_append, List.forall_mem_singleton] at hsame
    rw [expandDescriptors_many htag] at hbefore ⊢
    rw [← expandAll_congr htag hsame.1] at hbefore
    rw [← expandDescriptor_congr htag hsame.2] at hbad
    exact (on_forM_append_of_ok (bad :: after) hbefore).trans (on_forM_cons_of_error after hbad)
  · intro mark before bad after d d0 e d' hquiet hbefore hbad
    have hmarked := extends_noting mark ht
    rw [expandDescriptors_many htag] at hbefore ⊢
    obtain ⟨own, hpasses⟩ := (on_expandAll_eq_ok htag hmarked).mp hbefore
    obtain ⟨last, hlast⟩ := (on_expandDescriptor_iff htag hmarked).mp hbad
    refine ⟨(on_expandAll_eq_error htag hmarked).mpr
      ⟨before, bad, after, own, d0, last, rfl, hpasses, hlast⟩, ?_⟩
    rw [hlast.calls hquiet, hpasses.calls hquiet, List.append_assoc, ← List.map_append,
      ← List.filter_append]
  · change (checkTagName tag >>= fun _ => throw (.noArray tag)).on d = _
    rw [checkTagName_bind, if_pos htag, on_throw]

/-- Writes a line of its own and leaves three values to be written, the second of which
has two lines. -/
def brokenTransformer : Transformer User := fun _ _ =>
  emit "// note" >>= fun _ => pure (.many ["Bob", "a\nb", "c"])

theorem expandDescriptors_in_order_of_broken :
    isTagName "author" = true ∧ (∀ value, (brokenTransformer value "author").Extends) ∧
      (expandDescriptors "author" (.many [.text "Ann", .descriptor ⟨"Bob", none, none⟩,
          .descriptor ⟨"Cid", none, none⟩]) brokenTransformer {}).on {} =
        (.error (.brokenLine "author" "a\nb"),
          { lines := #["@author Ann", "// note", "@author Bob"] }) := by
  have hauthor : isTagName "author" = true := by decide
  have hextends : ∀ value, (brokenTransformer value "author").Extends := fun value =>
    ((appends_emit "// note").bind fun _ => appends_pure _).extends
  have hann : Presenting.Passes "author" .keep brokenTransformer [.text "Ann"] {}
      [tagLine "author" "Ann"] { lines := #["@author Ann"] } :=
    .cons (.kept rfl (by decide)) (.nil _)
  have hrun : Presenting.Transforms "author" .keep brokenTransformer
      (.descriptor ⟨"Bob", none, none⟩) { lines := #["@author Ann"] }
      (.ok (.many (["Bob"] ++ "a\nb" :: ["c"]))) ["// note"]
      { lines := #["@author Ann", "// note"] } := ⟨rfl, rfl, rfl⟩
  have hbob : Presenting.Contributes "author" .keep brokenTransformer
      (.descriptor ⟨"Bob", none, none⟩) { lines := #["@author Ann"] }
      (.error (.brokenLine "author" "a\nb")) (["// note"] ++ [tagLine "author" "Bob"])
      { lines := #["@author Ann", "// note", "@author Bob"] } :=
    Presenting.Contributes.emittedBroken hrun rfl (by decide) (by decide)
  obtain ⟨_, _, hfailed, _⟩ := expandDescriptors_in_order hauthor hextends {}
  exact ⟨hauthor, hextends, (hfailed _ {} _ _).mpr
    ⟨[.text "Ann"], _, [.descriptor ⟨"Cid", none, none⟩], _, _, _, rfl, hann, hbob, rfl⟩⟩

end Userscript
