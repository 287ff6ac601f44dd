import Userscript.Header.Generate
import Userscript.Proofs.Expansion.Expanders

/-! A header as a concatenation. Each field has a segment, which is what its
expander leaves on an empty draft, and the draft of a header is the segments in
the order of the fields, up to the first field that fails. -/

namespace Userscript

open Expansion

/-- The line of a marker, if the options ask for one. -/
def markerDraft (options : Options) (line : String) : Draft :=
  if options.includeBlock then { lines := #[line] } else {}

namespace FieldContent

/-- Two records that have the same value in a field. -/
def Agrees (content : FieldContent) (r r' : Record) : Prop :=
  match content with
  | text read => read r = read r'
  | flag read => read r = read r'
  | texts read => read r = read r'
  | localized read => read r = read r'
  | user read => read r = read r'
  | users read => read r = read r'
  | icon read => read r = read r'
  | patterns read => read r = read r'
  | antiFeatures read => read r = read r'
  | scripts read => read r = read r'
  | resources read => read r = read r'
  | custom read => read r = read r'

end FieldContent

namespace Field

variable (options : Options) (collaborators : Collaborators) (record : Record)

theorem appends_expand (field : Field) : (field.expand options collaborators record).Appends :=
  (field.writes_expand (P := fun _ => True) (by simp) options collaborators record
    (by simp)).toAppends

/-- What the expander of a field leaves on an empty draft; a field that the
record does not have leaves nothing. -/
def segment (field : Field) : Draft :=
  if field.content.present record then
    ((field.expandPresent options collaborators record).on {}).2
  else {}

/-- A field that a header can leave out, or whose expander succeeds alone. -/
def Passes (field : Field) : Prop :=
  if field.content.present record then
    ((field.expandPresent options collaborators record).on {}).1 = .ok ()
  else field.required = false

/-- A field that a header needs and the record does not have, or whose expander
fails alone. -/
def FailsWith (e : HeaderError) (field : Field) : Prop :=
  if field.content.present record then
    ((field.expandPresent options collaborators record).on {}).1 = .error e
  else field.required = true ∧ e = .missingValue field.tag

variable {options collaborators record}

theorem written_expand (field : Field) :
    (field.expand options collaborators record).written =
      field.segment options collaborators record := by
  unfold expand segment
  split
  · rfl
  · split <;> rfl

theorem outcome_expand_eq_ok {field : Field} :
    (field.expand options collaborators record).outcome = .ok () ↔
      field.Passes options collaborators record := by
  unfold expand Passes
  split
  · exact Iff.rfl
  · cases field.required <;> simp

theorem passes_iff {field : Field} :
    field.Passes options collaborators record ↔
      (field.required = true → field.content.present record = true) ∧
        (field.content.present record = true →
          (field.expandPresent options collaborators record).outcome = .ok ()) := by
  unfold Passes
  split
  · next h => simp [h, outcome]
  · next h => simp [h]

theorem outcome_expand_eq_error {field : Field} {e : HeaderError} :
    (field.expand options collaborators record).outcome = .error e ↔
      field.FailsWith options collaborators record e := by
  unfold expand FailsWith
  split
  · exact Iff.rfl
  · cases field.required <;> simp [eq_comm]

theorem exists_failsWith {field : Field} (h : ¬ field.Passes options collaborators record) :
    ∃ e, field.FailsWith options collaborators record e := by
  rw [← outcome_expand_eq_ok] at h
  cases ho : (field.expand options collaborators record).outcome with
  | ok u => exact absurd ho h
  | error e => exact ⟨e, outcome_expand_eq_error.mp ho⟩

theorem segment_congr {field : Field} {changed : Record}
    (h : field.content.Agrees record changed) :
    field.segment options collaborators record = field.segment options collaborators changed := by
  unfold segment expandPresent FieldContent.present
  unfold FieldContent.Agrees at h
  split at h <;> simp_all only

end Field

section Header

variable (options : Options) (collaborators : Collaborators) (record : Record)

def segments (fields : List Field) : Draft :=
  Draft.concat (fields.map (Field.segment options collaborators record))

def expandMarker (line : String) : Expansion Unit :=
  if options.includeBlock then emit line else pure ()

theorem appends_expandMarker (line : String) : (expandMarker options line).Appends := by
  unfold expandMarker
  split
  · exact appends_emit line
  · exact appends_pure ()

theorem on_expandMarker (line : String) :
    (expandMarker options line).outcome = .ok () ∧
      (expandMarker options line).written = markerDraft options line := by
  unfold expandMarker markerDraft
  cases options.includeBlock <;> exact ⟨rfl, rfl⟩

theorem expandRecord_eq :
    expandRecord options collaborators record =
      expandMarker options blockStart >>= fun _ =>
        headerFields.forM (Field.expand options collaborators record) >>= fun _ =>
          expandMarker options blockEnd := by
  unfold expandRecord expandMarker
  cases options.includeBlock <;> rfl

variable {options collaborators record}

theorem draftHeader_eq_loop :
    draftHeader options collaborators record =
      ((headerFields.forM (Field.expand options collaborators record)).outcome,
        markerDraft options blockStart ++
          ((headerFields.forM (Field.expand options collaborators record)) >>= fun _ =>
            expandMarker options blockEnd).written) := by
  have hm := on_expandMarker options blockStart
  have hloop : (headerFields.forM (Field.expand options collaborators record)).Appends :=
    Appends.forM fun f => f.appends_expand options collaborators record
  have hrest := hloop.bind fun _ => appends_expandMarker options blockEnd
  have ho : (expandRecord options collaborators record).outcome =
      (headerFields.forM (Field.expand options collaborators record)).outcome := by
    rw [expandRecord_eq, outcome_bind fun _ => hrest, hm.1]
    change (headerFields.forM _ >>= fun _ => expandMarker options blockEnd).outcome = _
    rw [outcome_bind fun _ => appends_expandMarker options blockEnd]
    cases (headerFields.forM (Field.expand options collaborators record)).outcome with
    | error e => rfl
    | ok u => exact (on_expandMarker options blockEnd).1
  have hw : (expandRecord options collaborators record).written = markerDraft options blockStart ++
      (headerFields.forM (Field.expand options collaborators record) >>= fun _ =>
        expandMarker options blockEnd).written := by
    rw [expandRecord_eq, written_bind_of_ok (fun _ => hrest) hm.1, hm.2]
  exact Prod.ext ho hw

theorem draftHeader_fst_eq_ok :
    (draftHeader options collaborators record).1 = .ok () ↔
      ∀ f ∈ headerFields, f.Passes options collaborators record := by
  rw [draftHeader_eq_loop,
    outcome_forM_eq_ok fun f : Field => f.appends_expand options collaborators record]
  simp only [Field.outcome_expand_eq_ok]

theorem draftHeader_of_passes
    (h : ∀ f ∈ headerFields, f.Passes options collaborators record) :
    draftHeader options collaborators record =
      (.ok (), markerDraft options blockStart ++
        (segments options collaborators record headerFields ++ markerDraft options blockEnd)) := by
  have happ := fun f : Field => f.appends_expand options collaborators record
  have hok : ∀ f ∈ headerFields, (f.expand options collaborators record).outcome = .ok () :=
    fun f hf => Field.outcome_expand_eq_ok.mpr (h f hf)
  have ho := (outcome_forM_eq_ok happ).mpr hok
  rw [draftHeader_eq_loop, written_bind_of_ok (fun _ => appends_expandMarker _ _) ho, ho,
    (on_expandMarker options blockEnd).2, written_forM happ hok]
  simp only [Field.written_expand]
  rfl

theorem draftHeader_of_failsWith {before after : List Field} {field : Field} {e : HeaderError}
    (hs : headerFields = before ++ field :: after)
    (hb : ∀ f ∈ before, f.Passes options collaborators record)
    (hf : field.FailsWith options collaborators record e) :
    draftHeader options collaborators record =
      (.error e, markerDraft options blockStart ++ (segments options collaborators record before ++
        field.segment options collaborators record)) := by
  have happ := fun f : Field => f.appends_expand options collaborators record
  obtain ⟨ho, hw⟩ := forM_of_error happ
    (fun f hf => Field.outcome_expand_eq_ok.mpr (hb f hf)) (Field.outcome_expand_eq_error.mpr hf)
    after
  rw [← hs] at ho hw
  rw [draftHeader_eq_loop, written_bind_of_error ho, ho, hw]
  simp only [Field.written_expand]
  rfl

theorem headerText_eq_ok {text : String} :
    headerText options collaborators record = .ok text ↔
      ∃ d, draftHeader options collaborators record = (.ok (), d) ∧
        options.style.render d.lines.toList = text := by
  rw [headerText]
  rcases draftHeader options collaborators record with ⟨_ | u, d⟩
  · simp
  · simp

theorem segments_congr {fields : List Field} {changed : Record}
    (h : ∀ f ∈ fields, f.content.Agrees record changed) :
    segments options collaborators record fields = segments options collaborators changed fields :=
  congrArg Draft.concat (List.map_congr_left fun f hf => Field.segment_congr (h f hf))

theorem segments_split (before after : List Field) (field : Field) :
    segments options collaborators record (before ++ field :: after) =
      segments options collaborators record before ++
        (field.segment options collaborators record ++
          segments options collaborators record after) := by
  simp only [segments, List.map_append, List.map_cons, Draft.concat_append, Draft.concat_cons]

/-- A header is its segments one behind the other, between the markers; the
first field that fails decides the outcome, and nothing comes after it. Where
two records differ in one field only, so do their headers. -/
theorem draftHeader_is_concatenation (options : Options) (collaborators : Collaborators)
    (record : Record) :
    ((∀ f ∈ headerFields, f.Passes options collaborators record) →
      draftHeader options collaborators record =
        (.ok (), markerDraft options blockStart ++
          (segments options collaborators record headerFields ++
            markerDraft options blockEnd))) ∧
    ((¬ ∀ f ∈ headerFields, f.Passes options collaborators record) →
      ∃ before field after e, headerFields = before ++ field :: after ∧
        (∀ f ∈ before, f.Passes options collaborators record) ∧
        field.FailsWith options collaborators record e ∧
        draftHeader options collaborators record =
          (.error e, markerDraft options blockStart ++
            (segments options collaborators record before ++
              field.segment options collaborators record))) ∧
    (∀ changed before field after, headerFields = before ++ field :: after →
      (∀ f ∈ before ++ after, f.content.Agrees record changed) →
      (draftHeader options collaborators record).1 = .ok () →
      (draftHeader options collaborators changed).1 = .ok () →
      (draftHeader options collaborators record).2 =
          markerDraft options blockStart ++ (segments options collaborators record before ++
            (field.segment options collaborators record ++
              (segments options collaborators record after ++ markerDraft options blockEnd))) ∧
        (draftHeader options collaborators changed).2 =
          markerDraft options blockStart ++ (segments options collaborators record before ++
            (field.segment options collaborators changed ++
              (segments options collaborators record after ++ markerDraft options blockEnd)))) := by
  refine ⟨draftHeader_of_passes, fun h => ?_, ?_⟩
  · obtain ⟨before, field, after, hs, hb, hf⟩ := exists_first_not h
    obtain ⟨e, he⟩ := Field.exists_failsWith hf
    exact ⟨before, field, after, e, hs, hb, he, draftHeader_of_failsWith hs hb he⟩
  · intro changed before field after hs hagree hok hok'
    have hbefore : segments options collaborators record before =
        segments options collaborators changed before :=
      segments_congr fun f hf => hagree f (List.mem_append_left _ hf)
    have hafter : segments options collaborators record after =
        segments options collaborators changed after :=
      segments_congr fun f hf => hagree f (List.mem_append_right _ hf)
    rw [draftHeader_of_passes (draftHeader_fst_eq_ok.mp hok),
      draftHeader_of_passes (draftHeader_fst_eq_ok.mp hok'), hs, segments_split, segments_split,
      ← hbefore, ← hafter]
    simp only [Draft.append_assoc, and_self]

end Header

end Userscript
