import Userscript.FileTree.Hash
import Userscript.Proofs.Config.Templates
import Userscript.Proofs.Digest.Streaming
import Userscript.Proofs.Expansion.Failing
import Userscript.Proofs.Expansion.Presenting
import Userscript.Proofs.Expansion.ResourceCalls
import Userscript.Proofs.Header.Decoration

/-! What the templates of a configuration do for resources. With a template for URLs
no URL is unknown, and as far as the parts of a resource go into one line, so does the
URL that is made of them. -/

namespace Userscript

open Expansion

section FitsLine

variable {piece text template id digest : String} {integrity : Option String} {sep : Char}

theorem fitsLine_of_mem_splitText (h : FitsLine text) (hpiece : piece ∈ splitText sep text) :
    FitsLine piece := by
  obtain ⟨front, back, htext, _⟩ := (mem_splitText_iff_isRun.mp hpiece).maximal
  have hpart : piece.toList <:+: text.toList := ⟨front, back, htext.symm⟩
  exact fun hmem => h (hpart.subset hmem)

theorem fitsLine_append {front back : String} (hfront : FitsLine front) (hback : FitsLine back) :
    FitsLine (front ++ back) := by
  rw [FitsLine, String.toList_append, List.mem_append]
  exact fun h => h.elim hfront hback

theorem fitsLine_fillTemplate (htemplate : FitsLine template) (hid : FitsLine id) :
    FitsLine (fillTemplate template id) := by
  rw [FitsLine, fillTemplate, String.toList_ofList]
  exact fun h => (mem_fillChars h).elim hid htemplate

theorem fitsLine_mergeFragments {existing : Option String}
    (hintegrity : ∀ i ∈ integrity, FitsLine i) (hexisting : ∀ e ∈ existing, FitsLine e) :
    ∀ fragment ∈ mergeFragments integrity existing, FitsLine fragment := by
  intro fragment h
  have hmerged := (Option.filter_eq_some_iff.mp h).1
  rcases integrity with _ | i
  · exact hexisting fragment hmerged
  · have hi := hintegrity i rfl
    rcases existing with _ | e
    · obtain rfl := Option.some.inj hmerged
      exact hi
    · obtain rfl := Option.some.inj hmerged
      exact fitsLine_append (fitsLine_append hi (by decide)) (hexisting e rfl)

theorem fitsLine_addIntegrity {url : String} (hurl : FitsLine url)
    (hintegrity : ∀ i ∈ integrity, FitsLine i) : FitsLine (addIntegrity url integrity) := by
  have hpieces : ∀ piece ∈ splitText '#' url, FitsLine piece := fun _ =>
    fitsLine_of_mem_splitText hurl
  have hbase : FitsLine ((splitText '#' url).headD "") := by
    cases hsplit : splitText '#' url with
    | nil => decide
    | cons base rest => exact hpieces base (by simp [hsplit])
  have hfragment := fitsLine_mergeFragments hintegrity fun e (he : e ∈ (splitText '#' url)[1]?) =>
    hpieces e (List.mem_of_getElem? he)
  rw [addIntegrity]
  cases hmerged : mergeFragments integrity (splitText '#' url)[1]? with
  | none => exact hbase
  | some fragment =>
    exact fitsLine_append (fitsLine_append hbase (by decide)) (hfragment fragment hmerged)

theorem fitsLine_integrityText (algorithm : HashAlgorithm) (h : FitsLine digest) :
    FitsLine (integrityText algorithm digest) := by
  have hlabel : FitsLine algorithm.label := by cases algorithm <;> decide
  exact fitsLine_append (fitsLine_append hlabel (by decide)) h

theorem fitsLine_of_digestFile {t : FileTree} {path : String} {algorithm : HashAlgorithm}
    (h : t.digestFile path algorithm = .ok digest) : FitsLine digest := by
  unfold FileTree.digestFile at h
  split at h
  · cases h
  · rw [HashAlgorithm.digestReads_fileReads] at h
    obtain rfl := Except.ok.inj h
    rw [FitsLine, HashAlgorithm.digestHex, String.toList_ofList]
    exact fun hmem => absurd (mem_lowerHexDigits_of_mem_hexChars hmem) (by decide)

end FitsLine

section Element

variable {options : Options} {collaborators : Collaborators} {r : Resource} {url : String}

theorem lines_resourceUrl : (resourceUrl options collaborators r).written.lines = #[] := by
  have hnone := (writes_resourceUrl (P := fun _ => False) options collaborators r).lines
  exact Array.eq_empty_iff_forall_not_mem.mpr hnone

/-- A resource whose URL is known takes up one line. -/
theorem on_expandDescriptor_presentUrl (tag : String) (present : Resource → String → String)
    (htag : isTagName tag = true) (hurl : (resourceUrl options collaborators r).outcome = .ok url)
    (hfits : FitsLine (present r url)) (d : Draft) :
    let x := expandDescriptor tag (some (.descriptor r)) (presentUrl options collaborators present)
    (x.on d).1 = .ok () ∧ (x.on d).2.lines = d.lines.push (tagLine tag (present r url)) := by
  have hpresent : (presentUrl options collaborators present (.descriptor r) tag).on d =
      (.ok (.one (present r url)), d ++ (resourceUrl options collaborators r).written) := by
    change (resourceUrl options collaborators r >>= _).on d = _
    rw [on_bind, (writes_resourceUrl (P := fun _ => True) options collaborators r).on_eq, hurl]
    rfl
  have hexpand : (expandDescriptor tag (some (.descriptor r))
      (presentUrl options collaborators present)).on d =
      (.ok (), d ++ (resourceUrl options collaborators r).written ++
        tagDraft tag [present r url]) := by
    rw [Presenting.expandDescriptor_of_transforms htag rfl, Presenting.expandTransformed_eq htag,
      on_bind, hpresent]
    exact on_forM_expandText_of_fits htag (by simpa [Emission.texts] using hfits) _
  intro x
  rw [hexpand]
  refine ⟨rfl, ?_⟩
  simp [lines_resourceUrl, tagDraft]

theorem resourceUrl_of_hasIntegrity {integrity : Option String}
    (hurl : r.knownUrl options = some url) (h : r.HasIntegrity options collaborators integrity) :
    (resourceUrl options collaborators r).outcome = .ok (addIntegrity url integrity) := by
  have hok := integrityOutcome_of_hasIntegrity options collaborators r h
  rw [(resourceUrl_of_ok options collaborators r hok).1, hurl]
  rfl

/-- Where a header fails with a complaint about a resource, so does a resolution. -/
theorem exists_resolution_of_headerText {record : Record} {e : HeaderError}
    (he : e.AboutResource) (h : headerText options collaborators record = .error e) :
    ∃ (r : Resource) (calls : List Call), r.Resolution options collaborators (.error e) calls := by
  obtain ⟨r, hr⟩ := exists_resourceUrl_of_draftHeader he (headerText_eq_error.mp h)
  obtain ⟨outcome, calls, hresolution, houtcome, _⟩ := exists_resolution options collaborators r
  rw [houtcome.symm.trans hr] at hresolution
  exact ⟨r, calls, hresolution⟩

theorem Resource.HasIntegrity.fitsLine {t : FileTree} {integrity : Option String}
    (h : r.HasIntegrity options t.collaborators integrity)
    (hgiven : ∀ digest algorithm, r.hash = some ⟨.given digest, algorithm⟩ → FitsLine digest) :
    ∀ i ∈ integrity, FitsLine i := by
  intro i hi
  cases h with
  | absent _ => cases hi
  | given hhash =>
    obtain rfl := Option.some.inj hi
    exact fitsLine_integrityText _ (hgiven _ _ hhash)
  | computed _ hdigest =>
    obtain rfl := Option.some.inj hi
    exact fitsLine_integrityText _ (fitsLine_of_digestFile hdigest)

end Element

namespace Config

variable {config : Config} {collaborators : Collaborators} {record : Record} {r : Resource}
  {template : String}

theorem knownUrl_eq (h : config.urlTemplate = some template) (hurl : r.url = none) :
    r.knownUrl config.options = some (fillTemplate template r.id) := by
  simp only [Resource.knownUrl, hurl, options, h, Option.none_or]
  rfl

theorem headerText_ne_unknownUrl (h : config.urlTemplate.isSome = true) (id : String) :
    headerText config.options collaborators record ≠ .error (.unknownUrl id) := by
  intro herror
  have habout : (HeaderError.unknownUrl id).AboutResource := trivial
  obtain ⟨r, calls, hresolution⟩ := exists_resolution_of_headerText habout herror
  obtain ⟨_, _, hnone⟩ := (hresolution.unknownUrl id).mp rfl
  obtain ⟨template, htemplate⟩ := Option.isSome_iff_exists.mp h
  cases hurl : r.url with
  | none => simp [knownUrl_eq htemplate hurl] at hnone
  | some url => simp [Resource.knownUrl, hurl] at hnone

theorem headerText_ne_unknownSource (h : config.sourceTemplate.isSome = true) (id : String) :
    headerText config.options collaborators record ≠ .error (.unknownSource id) := by
  intro herror
  have habout : (HeaderError.unknownSource id).AboutResource := trivial
  obtain ⟨r, calls, hresolution⟩ := exists_resolution_of_headerText habout herror
  obtain ⟨_, _, hnone⟩ := (hresolution.unknownSource id).mp rfl
  obtain ⟨template, htemplate⟩ := Option.isSome_iff_exists.mp h
  simp [Resource.knownSource, options, htemplate] at hnone

/-- Resources without a URL of their own take up one line, in which their identifiers
stand for the placeholders of the template. -/
def GivesLines (config : Config) (t : FileTree) (template : String) : Prop :=
  ∀ (r : Resource) (integrity : Option String), r.url = none → FitsLine r.id →
    (∀ digest algorithm, r.hash = some ⟨.given digest, algorithm⟩ → FitsLine digest) →
    r.HasIntegrity config.options t.collaborators integrity → ∀ d,
      let url := addIntegrity (fillTemplate template r.id) integrity
      let script := expandDescriptor "require" (some (.descriptor r))
        (presentScript config.options t.collaborators)
      let resource := expandDescriptor "resource" (some (.descriptor r))
        (presentResource config.options t.collaborators)
      (script.on d).1 = .ok () ∧ (script.on d).2.lines = d.lines.push (tagLine "require" url) ∧
        (resource.on d).1 = .ok () ∧
        (resource.on d).2.lines = d.lines.push (tagLine "resource" (r.id ++ " " ++ url))

theorem givesLines (hcheck : config.check = .ok ()) (h : config.urlTemplate = some template)
    (t : FileTree) : config.GivesLines t template := by
  intro r integrity hurl hid hgiven hintegrity d url script resource
  have htemplate : FitsLine template := ((check_eq_ok_iff.mp hcheck).2 template h).lineFeed
  have hfits : FitsLine url :=
    fitsLine_addIntegrity (fitsLine_fillTemplate htemplate hid) (hintegrity.fitsLine hgiven)
  have hknown : (resourceUrl config.options t.collaborators r).outcome = .ok url :=
    resourceUrl_of_hasIntegrity (knownUrl_eq h hurl) hintegrity
  have hfits' : FitsLine (r.id ++ " " ++ url) :=
    fitsLine_append (fitsLine_append hid (by decide)) hfits
  obtain ⟨hscript, hscriptLines⟩ := on_expandDescriptor_presentUrl "require"
    (fun _ url => url) (by decide) hknown hfits d
  obtain ⟨hresource, hresourceLines⟩ := on_expandDescriptor_presentUrl "resource"
    (fun r url => r.id ++ " " ++ url) (by decide) hknown hfits' d
  rw [← presentScript_eq] at hscript hscriptLines
  rw [← presentResource_eq] at hresource hresourceLines
  exact ⟨hscript, hscriptLines, hresource, hresourceLines⟩

section Own

variable {source url : String}

theorem absolutePath_of_src (h : r.src = some source) {path : String} {algorithm : HashAlgorithm}
    (hcall : .hash path algorithm ∈ (resourceUrl config.options collaborators r).written.calls) :
    collaborators.absolutePath source = .ok path := by
  obtain ⟨outcome, calls, hresolution, _, hwritten⟩ :=
    exists_resolution config.options collaborators r
  have hwants := (hresolution.hash path algorithm).mp (by simpa [hwritten] using hcall)
  obtain ⟨_, known, hknown, hpath⟩ := hwants
  rw [Resource.knownSource, h] at hknown
  obtain rfl : source = known := Option.some.inj hknown
  exact hpath

theorem resourceUrl_sourceTemplate (h : r.src = some source) (template : Option String) :
    resourceUrl { config with sourceTemplate := template }.options collaborators r =
      resourceUrl config.options collaborators r := by
  obtain ⟨id, src, url, hash⟩ := r
  obtain rfl : src = some source := h
  rfl

theorem exists_integrity_of_url (h : r.url = some url) {text : String}
    (htext : (resourceUrl config.options collaborators r).outcome = .ok text) :
    ∃ integrity, r.HasIntegrity config.options collaborators integrity ∧
      addIntegrity url integrity = text := by
  obtain ⟨outcome, calls, hresolution, houtcome, _⟩ :=
    exists_resolution config.options collaborators r
  obtain ⟨known, integrity, hknown, hintegrity, hadd⟩ :=
    (hresolution.text text).mp (houtcome.symm.trans htext)
  rw [Resource.knownUrl, h] at hknown
  obtain rfl : url = known := Option.some.inj hknown
  exact ⟨integrity, hintegrity, hadd⟩

theorem resourceUrl_urlTemplate (h : r.url = some url) (template : Option String) :
    resourceUrl { config with urlTemplate := template }.options collaborators r =
      resourceUrl config.options collaborators r := by
  obtain ⟨id, src, own, hash⟩ := r
  obtain rfl : own = some url := h
  rfl

end Own

/-- With a template for URLs no header fails for an unknown URL, and with one for sources
none for an unknown source. A source or URL that a resource names itself comes first. -/
theorem resolution_of_templates (config : Config) :
    (config.urlTemplate.isSome = true → ∀ collaborators record id,
      headerText config.options collaborators record ≠ .error (.unknownUrl id)) ∧
    (config.sourceTemplate.isSome = true → ∀ collaborators record id,
      headerText config.options collaborators record ≠ .error (.unknownSource id)) ∧
    (config.check = .ok () → ∀ template ∈ config.urlTemplate, ∀ t,
      config.GivesLines t template) ∧
    (∀ (r : Resource) (source : String), r.src = some source → ∀ collaborators,
      (∀ path algorithm,
        .hash path algorithm ∈ (resourceUrl config.options collaborators r).written.calls →
          collaborators.absolutePath source = .ok path) ∧
      ∀ template, resourceUrl { config with sourceTemplate := template }.options collaborators r =
        resourceUrl config.options collaborators r) ∧
    ∀ (r : Resource) (url : String), r.url = some url → ∀ collaborators,
      (∀ text, (resourceUrl config.options collaborators r).outcome = .ok text →
        ∃ integrity, r.HasIntegrity config.options collaborators integrity ∧
          addIntegrity url integrity = text) ∧
      ∀ template, resourceUrl { config with urlTemplate := template }.options collaborators r =
        resourceUrl config.options collaborators r := by
  refine ⟨fun h _ _ id => headerText_ne_unknownUrl h id,
    fun h _ _ id => headerText_ne_unknownSource h id,
    fun hcheck template h t => givesLines hcheck h t, ?_, ?_⟩
  · intro r source hsource collaborators
    exact ⟨fun path algorithm hcall => absolutePath_of_src hsource hcall,
      resourceUrl_sourceTemplate hsource⟩
  · intro r url hurl collaborators
    exact ⟨fun text htext => exists_integrity_of_url hurl htext, resourceUrl_urlTemplate hurl⟩

end Config

end Userscript
