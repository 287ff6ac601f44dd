import Userscript.Proofs.Expansion.Success

/-! Calls of expanders on one draft. Lines are only ever added at its end, whichever
calls fail, and a call under a name that is not legal does nothing but fail. -/

namespace Userscript

open Expansion

def Draft.LinesPrefix (d d' : Draft) : Prop := d.lines.toList <+: d'.lines.toList

theorem Draft.LinesPrefix.trans {a b c : Draft} (h : a.LinesPrefix b) (h' : b.LinesPrefix c) :
    a.LinesPrefix c := List.IsPrefix.trans h h'

theorem Draft.linesPrefix_append (d e : Draft) : d.LinesPrefix (d ++ e) :=
  ⟨e.lines.toList, Array.toList_append.symm⟩

namespace Expansion

variable {α β : Type} {x : Expansion α}

/-- The lines that were there stay in front, also where the expansion fails. Unlike
one that `Appends`, the expansion may look at the draft. -/
def Extends (x : Expansion α) : Prop := ∀ d : Draft, d.LinesPrefix (x.on d).2

theorem Appends.extends (h : x.Appends) : x.Extends := by
  intro d
  rw [h.on_eq]
  exact d.linesPrefix_append x.written

theorem Extends.bind {f : α → Expansion β} (hx : x.Extends) (hf : ∀ a, (f a).Extends) :
    (x >>= f).Extends := by
  intro d
  have hfirst := hx d
  rw [on_bind]
  rcases h : x.on d with ⟨e | a, d'⟩
  · rwa [h] at hfirst
  · rw [h] at hfirst
    exact hfirst.trans (hf a d')

theorem Extends.forM {xs : List α} {f : α → Expansion Unit} (hf : ∀ a, (f a).Extends) :
    (xs.forM f).Extends := by
  induction xs with
  | nil => exact (appends_pure ()).extends
  | cons a as ih => exact (hf a).bind fun _ => ih

end Expansion

section Descriptor

variable {α : Type} {transformer : Transformer α}

theorem extends_checkTagName_bind {tag : String} {next : Unit → Expansion Unit}
    (h : (next ()).Extends) : (checkTagName tag >>= next).Extends := by
  rw [checkTagName_bind]
  split
  · exact h
  · exact (appends_throw _).extends

theorem extends_expandTransformed (ht : ∀ value tag, (transformer value tag).Extends)
    (tag : String) (value : TextOr α) : (expandTransformed tag value transformer).Extends := by
  refine (ht value tag).bind fun emission => ?_
  cases emission with
  | nothing => exact (appends_pure ()).extends
  | one v => exact (appends_expandTexts tag (.one v)).extends
  | many vs => exact (appends_expandTexts tag (.many vs)).extends

theorem extends_expandDescriptor (ht : ∀ value tag, (transformer value tag).Extends)
    (tag : String) (value : Option (TextOr α)) (options : DescriptorOptions) :
    (expandDescriptor tag value transformer options).Extends := by
  refine extends_checkTagName_bind ?_
  split
  · exact (appends_expandText tag none options.checkNull).extends
  · exact (appends_expandText tag _ options.checkNull).extends
  · exact (appends_throw _).extends
  · exact extends_expandTransformed ht tag _

theorem extends_expandDescriptors (ht : ∀ value tag, (transformer value tag).Extends)
    (tag : String) (values : OneOrMany (TextOr α)) (options : DescriptorOptions) :
    (expandDescriptors tag values transformer options).Extends := by
  refine extends_checkTagName_bind ?_
  cases values with
  | one v => exact (appends_throw _).extends
  | many vs => exact Extends.forM fun v => extends_expandDescriptor ht tag (some v) options

end Descriptor

inductive ExpanderCall : Type 1 where
  | flag (tag : String) (condition : Bool)
  | text (tag : String) (value : Option String) (checkNull : Bool)
  | scalar (tag : String) (value : Json)
  | texts (tag : String) (values : OneOrMany String)
  | localizedText (locales : LocaleRule) (tag : String) (value : LocalizedText)
      (transform : String → String)
  | localizedTexts (locales : LocaleRule) (tag : String)
      (value : Option (OneOrMany LocalizedText)) (options : LocalizedOptions)
  | descriptor {α : Type} (tag : String) (value : Option (TextOr α))
      (transformer : Transformer α) (options : DescriptorOptions)
  | descriptors {α : Type} (tag : String) (values : OneOrMany (TextOr α))
      (transformer : Transformer α) (options : DescriptorOptions)

namespace ExpanderCall

def tag : ExpanderCall → String
  | flag tag _ => tag
  | text tag _ _ => tag
  | scalar tag _ => tag
  | texts tag _ => tag
  | localizedText _ tag _ _ => tag
  | localizedTexts _ tag _ _ => tag
  | descriptor tag _ _ _ => tag
  | descriptors tag _ _ _ => tag

def expand : ExpanderCall → Expansion Unit
  | flag tag condition => expandFlag tag condition
  | text tag value checkNull => expandText tag value checkNull
  | scalar tag value => expandScalar tag value
  | texts tag values => expandTexts tag values
  | localizedText locales tag value transform => expandLocalizedText locales tag value transform
  | localizedTexts locales tag value options => expandLocalizedTexts locales tag value options
  | descriptor tag value transformer options => expandDescriptor tag value transformer options
  | descriptors tag values transformer options => expandDescriptors tag values transformer options

/-- The transformer that the call is given, if there is one, leaves the lines alone
that it finds. -/
def TransformerExtends : ExpanderCall → Prop
  | descriptor _ _ transformer _ => ∀ value tag, (transformer value tag).Extends
  | descriptors _ _ transformer _ => ∀ value tag, (transformer value tag).Extends
  | _ => True

theorem extends_expand (call : ExpanderCall) (h : call.TransformerExtends) :
    call.expand.Extends := by
  cases call with
  | flag tag condition =>
    exact (writes_expandFlag (P := fun _ => True) trivial condition).toAppends.extends
  | text tag value checkNull => exact (appends_expandText tag value checkNull).extends
  | scalar tag value => exact (appends_expandScalar tag value).extends
  | texts tag values => exact (appends_expandTexts tag values).extends
  | localizedText locales tag value transform =>
    exact (writes_expandLocalizedText (P := fun _ => True) (by simp) ..).toAppends.extends
  | localizedTexts locales tag value options =>
    exact (writes_expandLocalizedTexts (P := fun _ => True) (by simp) locales tag value options
      (by simp)).toAppends.extends
  | descriptor tag value transformer options =>
    exact extends_expandDescriptor h tag value options
  | descriptors tag values transformer options =>
    exact extends_expandDescriptors h tag values options

/-- Each expander checks the name before it looks at anything else. -/
theorem expand_of_badTag (call : ExpanderCall) (h : isTagName call.tag = false) :
    call.expand = throw (.badTagName call.tag) := by
  have hchecked : ∀ {tag : String} {next : Unit → Expansion Unit}, isTagName tag = false →
      (checkTagName tag >>= next) = throw (.badTagName tag) := by
    intro tag next htag
    rw [checkTagName_bind, htag]
    rfl
  cases call with
  | localizedText locales tag value transform =>
    cases value with
    | plain text => exact hchecked h
    | translated t =>
      have hbase : expandText tag (some (transform t.base)) = throw (.badTagName tag) :=
        hchecked h
      change (expandText tag (some (transform t.base)) >>= fun _ => _) = throw (.badTagName tag)
      rw [hbase]
      rfl
  | flag tag condition => exact hchecked h
  | text tag value checkNull => exact hchecked h
  | scalar tag value => exact hchecked h
  | texts tag values => exact hchecked h
  | localizedTexts locales tag value options => exact hchecked h
  | descriptor tag value transformer options => exact hchecked h
  | descriptors tag values transformer options => exact hchecked h

end ExpanderCall

/-- The drafts that calls leave one after another, whether or not they succeed. -/
def draftsAfter (d : Draft) : List ExpanderCall → List Draft
  | [] => []
  | call :: calls => (call.expand.on d).2 :: draftsAfter (call.expand.on d).2 calls

theorem pairwise_draftsAfter (d : Draft) {calls : List ExpanderCall}
    (h : ∀ call ∈ calls, call.TransformerExtends) :
    (d :: draftsAfter d calls).Pairwise Draft.LinesPrefix := by
  induction calls generalizing d with
  | nil => exact List.pairwise_singleton _ _
  | cons call calls ih =>
    rw [List.forall_mem_cons] at h
    have hstep : d.LinesPrefix (call.expand.on d).2 := call.extends_expand h.1 d
    have hrest := ih (call.expand.on d).2 h.2
    refine List.pairwise_cons.mpr ⟨fun d' hd' => ?_, hrest⟩
    -- the first of the later drafts extends `d`, and the others extend that one
    rcases List.mem_cons.mp hd' with rfl | hlater
    · exact hstep
    · exact hstep.trans ((List.pairwise_cons.mp hrest).1 d' hlater)

/-- Letters and digits of ASCII, colon, hyphen and underscore. -/
def TagLetter (c : Char) : Prop :=
  ('A' ≤ c ∧ c ≤ 'Z') ∨ ('a' ≤ c ∧ c ≤ 'z') ∨ ('0' ≤ c ∧ c ≤ '9') ∨ c = ':' ∨ c = '-' ∨ c = '_'

theorem isTagChar_iff {c : Char} : isTagChar c = true ↔ TagLetter c := by
  have hupper : c.isUpper = true ↔ 'A' ≤ c ∧ c ≤ 'Z' := decide_eq_true_iff
  have hlower : c.isLower = true ↔ 'a' ≤ c ∧ c ≤ 'z' := Bool.and_eq_true_iff.trans
    (and_congr decide_eq_true_iff decide_eq_true_iff)
  have hdigit : c.isDigit = true ↔ '0' ≤ c ∧ c ≤ '9' := Bool.and_eq_true_iff.trans
    (and_congr decide_eq_true_iff decide_eq_true_iff)
  have hclass : isTagChar c =
      (c.isUpper || c.isLower || c.isDigit || c = ':' || c = '-' || c = '_') := rfl
  simp only [hclass, TagLetter, Bool.or_eq_true, hupper, hlower, hdigit, decide_eq_true_eq,
    or_assoc]

theorem isTagName_eq_false_iff {name : String} :
    isTagName name = false ↔ name = "" ∨ ∃ c ∈ name.toList, ¬ TagLetter c := by
  simp only [isTagName, Bool.and_eq_false_iff, Bool.not_eq_false', List.isEmpty_iff,
    List.all_eq_false, isTagChar_iff, String.toList_eq_nil_iff]

/-- Whatever is called on a draft, in whichever order and with whichever outcome, each
draft begins with the lines of those before it, as long as the transformers only add
lines. A call under a name that is empty or has a character outside the class fails for
the name, and the draft shows that nothing else was done: no line, no warning, no
question for a locale, and no run of the transformer, whatever that does. -/
theorem expanderCalls_extend (d : Draft) :
    (∀ calls : List ExpanderCall, (∀ call ∈ calls, call.TransformerExtends) →
      (d :: draftsAfter d calls).Pairwise Draft.LinesPrefix) ∧
    ∀ call : ExpanderCall, (call.tag = "" ∨ ∃ c ∈ call.tag.toList, ¬ TagLetter c) →
      call.expand.on d = (.error (.badTagName call.tag), d) := by
  refine ⟨fun calls h => pairwise_draftsAfter d h, fun call h => ?_⟩
  rw [call.expand_of_badTag (isTagName_eq_false_iff.mpr h)]
  exact on_throw _ d

/-- Writes a line of its own and then fails. -/
def failingTransformer : Transformer User := fun _ tag =>
  emit "// note" >>= fun _ => throw (.objectValue tag)

/-- A call that fails behind a line, one with a bad name and one that succeeds. -/
def mixedCalls : List ExpanderCall := [
  .descriptors "author" (.many [.text "Ann", .descriptor ⟨"Bob", none, none⟩])
    failingTransformer {},
  .descriptor "no tag" (some (.text "Ann")) failingTransformer { texts := .refuse },
  .text "version" (some "1") true]

theorem expanderCalls_extend_of_mixed :
    ((∀ call ∈ mixedCalls, call.TransformerExtends) ∧
      ({} :: draftsAfter {} mixedCalls).Pairwise Draft.LinesPrefix) ∧
    (∃ c ∈ "no tag".toList, ¬ TagLetter c) ∧
      (expandDescriptor "no tag" (some (.text "Ann")) failingTransformer { texts := .refuse }).on
        { lines := #["// note"] } =
          (.error (.badTagName "no tag"), { lines := #["// note"] }) := by
  have htransformer : ∀ value tag, (failingTransformer value tag).Extends := fun value tag =>
    ((appends_emit "// note").bind fun _ => appends_throw (.objectValue tag)).extends
  have hcalls : ∀ call ∈ mixedCalls, call.TransformerExtends := by
    simp only [mixedCalls, List.forall_mem_cons, List.not_mem_nil, false_implies, implies_true,
      and_true]
    exact ⟨htransformer, htransformer, trivial⟩
  have hblank : ∃ c ∈ "no tag".toList, ¬ TagLetter c :=
    ⟨' ', by decide, fun h => absurd (isTagChar_iff.mpr h) (by decide)⟩
  exact ⟨⟨hcalls, (expanderCalls_extend {}).1 mixedCalls hcalls⟩, hblank,
    (expanderCalls_extend { lines := #["// note"] }).2
      (.descriptor "no tag" (some (.text "Ann")) failingTransformer { texts := .refuse })
      (.inr hblank)⟩

end Userscript
