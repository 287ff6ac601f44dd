import Userscript.Proofs.Expansion.Success
import Userscript.Proofs.Header.Segment

/-! Which digests a header depends on. An expansion notes each file before it
hashes it, so digests that agree on the files that were noted give the same
header, and the same calls. -/

namespace Userscript

open Expansion

abbrev Digests := String → HashAlgorithm → Except HashFailure String

def Collaborators.withDigests (collaborators : Collaborators) (digests : Digests) :
    Collaborators :=
  { collaborators with digestFile := digests }

/-- Digests that agree where the calls of a draft ask for them. -/
def AgreeOn (d : Draft) (digests digests' : Digests) : Prop :=
  ∀ path algorithm, .hash path algorithm ∈ d.calls →
    digests' path algorithm = digests path algorithm

section

variable {d e : Draft} {digests digests' : Digests}

theorem AgreeOn.left (h : AgreeOn (d ++ e) digests digests') : AgreeOn d digests digests' :=
  fun path algorithm hm => h path algorithm (Array.mem_append.mpr (.inl hm))

theorem AgreeOn.right (h : AgreeOn (d ++ e) digests digests') : AgreeOn e digests digests' :=
  fun path algorithm hm => h path algorithm (Array.mem_append.mpr (.inr hm))

end

namespace Expansion

variable {α β : Type}

theorem ext_on {x y : Expansion α} (h : ∀ d, x.on d = y.on d) : x = y :=
  funext h

/-- An expansion that uses only the digests that it asks for. -/
structure UsesAsked (f : Digests → Expansion α) : Prop where
  appends : ∀ digests, (f digests).Appends
  congr : ∀ digests digests', AgreeOn (f digests).written digests digests' → f digests' = f digests

theorem UsesAsked.const {x : Expansion α} (h : x.Appends) : UsesAsked fun _ => x :=
  ⟨fun _ => h, fun _ _ _ => rfl⟩

theorem UsesAsked.bind {f : Digests → Expansion α} {k : Digests → α → Expansion β}
    (hf : UsesAsked f) (hk : ∀ a, UsesAsked fun digests => k digests a) :
    UsesAsked fun digests => f digests >>= k digests := by
  refine ⟨fun digests => (hf.appends digests).bind fun a => (hk a).appends digests,
    fun digests digests' h => ?_⟩
  have hcont : ∀ a, (k digests a).Appends := fun a => (hk a).appends digests
  cases ho : (f digests).outcome with
  | error e =>
    rw [written_bind_of_error ho] at h
    refine ext_on fun d => ?_
    rw [hf.congr digests digests' h, on_bind, on_bind, (hf.appends digests).on_eq, ho]
  | ok a =>
    -- what follows is asked only with the value that `f` gives
    rw [written_bind_of_ok hcont ho] at h
    have hnext : k digests' a = k digests a := (hk a).congr digests digests' h.right
    refine ext_on fun d => ?_
    rw [hf.congr digests digests' h.left, on_bind, on_bind, (hf.appends digests).on_eq, ho]
    exact congrArg (Expansion.on · _) hnext

theorem UsesAsked.seq {x : Expansion α} {f : Digests → Expansion β} (hx : x.Appends)
    (hf : UsesAsked f) : UsesAsked fun digests => x >>= fun _ => f digests :=
  (UsesAsked.const hx).bind fun _ => hf

theorem UsesAsked.forM {xs : List α} {f : Digests → α → Expansion Unit}
    (hf : ∀ a, UsesAsked fun digests => f digests a) :
    UsesAsked fun digests => xs.forM (f digests) := by
  induction xs with
  | nil => exact .const (appends_pure ())
  | cons a as ih => exact (hf a).bind fun _ => ih

end Expansion

theorem appends_checkTagName (tag : String) : (checkTagName tag).Appends := by
  unfold checkTagName
  split
  · exact appends_pure ()
  · exact appends_throw _

section ResourceUrl

variable (options : Options) (collaborators : Collaborators)

theorem appends_orHashFailure (result : Except HashFailure String) :
    (orHashFailure result).Appends :=
  (writes_orHashFailure (P := fun _ => True) result).toAppends

/-- What becomes of a source once its absolute path is known. -/
theorem usesAsked_digestFile (path : String) (algorithm : HashAlgorithm) :
    UsesAsked fun digests =>
      note (.hash path algorithm) >>= fun _ => orHashFailure (digests path algorithm) := by
  refine ⟨fun digests => (appends_note _).bind fun _ => appends_orHashFailure _,
    fun digests digests' h => ?_⟩
  rw [written_bind_of_ok (fun _ => appends_orHashFailure _) (outcome_note _)] at h
  have hasked := h.left path algorithm (by
    rw [written_note]
    exact Array.mem_singleton.mpr rfl)
  simp only [hasked]

theorem usesAsked_hashSource (path : String) (algorithm : HashAlgorithm) :
    UsesAsked fun digests => hashSource (collaborators.withDigests digests) path algorithm :=
  (UsesAsked.const (appends_orHashFailure (collaborators.absolutePath path))).bind fun path =>
    usesAsked_digestFile path algorithm

theorem usesAsked_resolveIntegrity (id : String) (source : Option String) (h : Option Integrity) :
    UsesAsked fun digests =>
      resolveIntegrity (collaborators.withDigests digests) id source h := by
  cases h with
  | none => exact .const (appends_pure _)
  | some h =>
    refine UsesAsked.bind ?_ fun _ => .const (appends_pure _)
    unfold resolveDigest
    split
    · exact .const (appends_pure _)
    · exact usesAsked_hashSource ..
    · exact .const (appends_throw _)

theorem usesAsked_resourceUrl (r : Resource) :
    UsesAsked fun digests => resourceUrl options (collaborators.withDigests digests) r := by
  have hsource : (resolveSource options r).Appends :=
    (writes_resolveSource (P := fun _ => True) options r).toAppends
  refine (UsesAsked.const hsource).bind fun source => ?_
  refine (usesAsked_resolveIntegrity collaborators r.id source r.hash).bind fun integrity => ?_
  have hurl : (resolveUrl options { r with src := source }).Appends :=
    (writes_resolveUrl (P := fun _ => True) options _).toAppends
  exact .const (hurl.bind fun _ => appends_pure _)

theorem usesAsked_presentScript (value : TextOr Resource) (tag : String) :
    UsesAsked fun digests =>
      presentScript options (collaborators.withDigests digests) value tag := by
  cases value with
  | text s => exact .const (appends_pure _)
  | descriptor r => exact (usesAsked_resourceUrl ..).bind fun _ => .const (appends_pure _)

theorem usesAsked_presentResource (value : TextOr Resource) (tag : String) :
    UsesAsked fun digests =>
      presentResource options (collaborators.withDigests digests) value tag := by
  cases value with
  | text s => exact .const (appends_pure _)
  | descriptor r => exact (usesAsked_resourceUrl ..).bind fun _ => .const (appends_pure _)

end ResourceUrl

section Descriptor

variable {α : Type} {transformer : Digests → Transformer α}

theorem usesAsked_expandDescriptor (tag : String) (value : Option (TextOr α))
    (options : DescriptorOptions)
    (ht : ∀ value tag, UsesAsked fun digests => transformer digests value tag) :
    UsesAsked fun digests => expandDescriptor tag value (transformer digests) options := by
  unfold expandDescriptor
  refine .seq (appends_checkTagName tag) ?_
  split
  · exact .const (appends_expandText ..)
  · exact .const (appends_expandText ..)
  · exact .const (appends_throw _)
  · refine (ht _ tag).bind fun emission => ?_
    cases emission with
    | nothing => exact .const (appends_pure ())
    | one v => exact .const (appends_expandTexts ..)
    | many vs => exact .const (appends_expandTexts ..)

theorem usesAsked_expandDescriptors (tag : String) (values : OneOrMany (TextOr α))
    (ht : ∀ value tag, UsesAsked fun digests => transformer digests value tag) :
    UsesAsked fun digests => expandDescriptors tag values (transformer digests) := by
  unfold expandDescriptors
  refine .seq (appends_checkTagName tag) ?_
  cases values with
  | one v => exact .const (appends_throw _)
  | many vs => exact .forM fun v => usesAsked_expandDescriptor tag (some v) {} ht

theorem usesAsked_whenSome {value : Option α} {expand : Digests → α → Expansion Unit}
    (h : ∀ v, UsesAsked fun digests => expand digests v) :
    UsesAsked fun digests => whenSome value (expand digests) := by
  cases value with
  | none => exact .const (appends_pure ())
  | some v => exact h v

end Descriptor

section Header

variable (options : Options) (collaborators : Collaborators) (record : Record)

theorem usesAsked_expandPresent (field : Field) :
    UsesAsked fun digests =>
      field.expandPresent options (collaborators.withDigests digests) record := by
  have happ : (field.expandPresent options collaborators record).Appends :=
    (field.writes_expandPresent (P := fun _ => True) (by simp) options collaborators record
      (by simp)).toAppends
  unfold Field.expandPresent at happ ⊢
  cases h : field.content with
  | scripts read =>
    exact usesAsked_whenSome fun values => usesAsked_expandDescriptors field.tag values
      (usesAsked_presentScript options collaborators)
  | resources read =>
    exact usesAsked_whenSome fun values => usesAsked_expandDescriptors field.tag values
      (usesAsked_presentResource options collaborators)
  | _ =>
    -- no other field looks at a digest
    simp only [h] at happ
    exact .const happ

theorem usesAsked_expandRecord :
    UsesAsked fun digests => expandRecord options (collaborators.withDigests digests) record := by
  simp only [expandRecord_eq]
  refine .seq (appends_expandMarker options blockStart) ?_
  refine UsesAsked.bind (.forM fun field => ?_) fun _ =>
    .const (appends_expandMarker options blockEnd)
  unfold Field.expand
  split
  · exact usesAsked_expandPresent options collaborators record field
  · split
    · exact .const (appends_throw _)
    · exact .const (appends_pure ())

/-- A header is the same with digests that agree on the files it hashed. -/
theorem draftHeader_withDigests {digests : Digests}
    (h : AgreeOn (draftHeader options collaborators record).2 collaborators.digestFile digests) :
    draftHeader options (collaborators.withDigests digests) record =
      draftHeader options collaborators record :=
  congrArg (Expansion.on · {})
    ((usesAsked_expandRecord options collaborators record).congr collaborators.digestFile digests h)

end Header

end Userscript
