import Userscript.Proofs.Command.Loading
import Userscript.Proofs.Header.Delimiting
import Userscript.Proofs.Header.LineComments
import Userscript.Proofs.Text.Marks

/-! Markers and comment styles as decoration. They change neither whether a
header can be made nor what is asked on the way, and the lines of its fields can
be read off the text in every style. -/

namespace Userscript

open Expansion

/-- The options with markers and a comment style of their own. -/
def Options.decorated (options : Options) (markers : Bool) (style : CommentStyle) : Options :=
  { options with includeBlock := markers, style := style }

def trimEnd (text : String) : String :=
  String.ofList (text.toList.rdropWhile isBlank)

/-- The second text is the first one with a backslash in each closing mark. -/
def MarksEscaped (text escaped : String) : Prop :=
  ∃ pieces : List (List Char), (∀ p ∈ pieces, ¬ closingMark <:+: p) ∧
    text.toList = closingMark.intercalate pieces ∧
      escaped.toList = escapedMark.intercalate pieces

section Escaping

theorem marksEscaped_escapeClosing (cs : List Char) :
    MarksEscaped (String.ofList cs) (String.ofList (escapeClosing cs)) := by
  have hmark : closingMark ≠ [] := List.cons_ne_nil _ _
  obtain ⟨pieces, hcut⟩ := exists_cutAt hmark cs
  have hchain : ∀ p ∈ pieces, p.IsChain NotClosing :=
    fun p hp => isChain_notClosing_iff.mpr (hcut.free p hp)
  refine ⟨pieces, hcut.free, by rw [String.toList_ofList, hcut.joined], ?_⟩
  rw [String.toList_ofList, ← hcut.joined, escapeClosing_intercalate hchain]

theorem escapeClosing_append_blank {blanks : List Char} (h : ∀ c ∈ blanks, isBlank c = true)
    (cs : List Char) : escapeClosing (cs ++ blanks) = escapeClosing cs ++ blanks := by
  induction cs with
  | nil =>
    have hfree : ¬ closingMark <:+: blanks := fun hm =>
      absurd (h '*' (hm.subset (by simp [closingMark]))) (by decide)
    exact escapeClosing_of_isChain (isChain_notClosing_iff.mpr hfree)
  | cons c cs ih =>
    have hslash : (cs ++ blanks).head? = some '/' ↔ cs.head? = some '/' := by
      cases cs with
      | nil =>
        refine ⟨fun hhead => ?_, fun hhead => by simp at hhead⟩
        exact absurd (h '/' (List.mem_of_head? hhead)) (by decide)
      | cons d cs => rfl
    rw [List.cons_append, escapeClosing_cons, escapeClosing_cons, head?_escapeClosing,
      head?_escapeClosing, ih]
    simp only [hslash]
    split <;> rfl

theorem getLast?_escapeClosing (cs : List Char) : (escapeClosing cs).getLast? = cs.getLast? := by
  induction cs with
  | nil => rfl
  | cons c cs ih =>
    rw [escapeClosing_cons]
    split
    · next hmark =>
      rw [head?_escapeClosing] at hmark
      obtain ⟨rest, rfl⟩ := List.head?_eq_some_iff.mp hmark.2
      simp only [List.getLast?_cons, ih]
      simp
    · simp only [List.getLast?_cons, ih]

theorem trimChars_escapeClosing {c : Char} (h : isBlank c = false) (cs : List Char) :
    trimChars (escapeClosing (c :: cs)) = escapeClosing ((c :: cs).rdropWhile isBlank) := by
  obtain ⟨rest, hrest⟩ := List.head?_eq_some_iff.mp (head?_escapeClosing (c :: cs))
  have hblank : ∀ d ∈ (c :: cs).rtakeWhile isBlank, isBlank d = true :=
    fun d hd => List.mem_rtakeWhile_imp hd
  -- escaping keeps the last character, so nothing more is trimmed
  have hlast : (escapeClosing ((c :: cs).rdropWhile isBlank)).rdropWhile isBlank =
      escapeClosing ((c :: cs).rdropWhile isBlank) := by
    refine List.rdropWhile_eq_self_iff.mpr fun hne hb => ?_
    have hlast? := getLast?_escapeClosing ((c :: cs).rdropWhile isBlank)
    rw [List.getLast?_eq_some_getLast hne] at hlast?
    have hne' : (c :: cs).rdropWhile isBlank ≠ [] := fun he => by simp [he] at hlast?
    rw [List.getLast?_eq_some_getLast hne', Option.some.injEq] at hlast?
    rw [hlast?] at hb
    exact List.rdropWhile_last_not isBlank _ hne' hb
  calc trimChars (escapeClosing (c :: cs))
    _ = (escapeClosing (c :: cs)).rdropWhile isBlank := by rw [hrest, trimChars_of_head h]
    _ = (escapeClosing ((c :: cs).rdropWhile isBlank ++ (c :: cs).rtakeWhile isBlank)).rdropWhile
          isBlank := by rw [List.rdropWhile_append_rtakeWhile]
    _ = escapeClosing ((c :: cs).rdropWhile isBlank) := by
      rw [escapeClosing_append_blank hblank, rdropWhile_append_of_all hblank, hlast]

end Escaping

section Rendering

/-- A line that does not begin with a blank character. -/
def StartsVisibly (line : String) : Prop :=
  ∃ c cs, line.toList = c :: cs ∧ isBlank c = false

theorem commentLine_eq {line : String} (h : StartsVisibly line) :
    commentLine line = "// " ++ trimEnd line := by
  obtain ⟨c, cs, hline, hc⟩ := h
  rw [commentLine, trim, trimEnd, hline, trimChars_of_head hc]

theorem marksEscaped_blockLine {line : String} (h : StartsVisibly line) :
    MarksEscaped (trimEnd line) (blockLine line) := by
  obtain ⟨c, cs, hline, hc⟩ := h
  rw [blockLine, trimEnd, hline, trimChars_escapeClosing hc]
  exact marksEscaped_escapeClosing _

theorem mem_of_mem_escapeClosing {c : Char} (hc : c ≠ '\\') {cs : List Char}
    (h : c ∈ escapeClosing cs) : c ∈ cs := by
  induction cs with
  | nil => exact h
  | cons d cs ih =>
    rw [escapeClosing_cons] at h
    split at h
    · next hmark =>
      simp only [List.mem_cons, hc, false_or] at h
      rcases h with rfl | h
      · rw [hmark.1]
        exact List.mem_cons_self
      · exact List.mem_cons_of_mem d (ih h)
    · rcases List.mem_cons.mp h with rfl | h
      · exact List.mem_cons_self
      · exact List.mem_cons_of_mem d (ih h)

theorem not_mem_lineFeed_blockLine {line : String} (h : '\n' ∉ line.toList) :
    '\n' ∉ (blockLine line).toList := by
  rw [blockLine, String.toList_ofList]
  exact fun hm => h (mem_of_mem_escapeClosing (by decide) ((trimChars_isInfix _).subset hm))

theorem exists_blockComment_lines {lines : List String} (hlen : 2 ≤ lines.length)
    (h : ∀ line ∈ lines, '\n' ∉ line.toList) :
    ∃ inner, blockComment lines = "/*\n" ++ inner ++ "\n*/" ∧
      splitText '\n' inner = lines.map blockLine := by
  obtain ⟨first, second, rest, rfl⟩ : ∃ first second rest, lines = first :: second :: rest := by
    match lines, hlen with
    | first :: second :: rest, _ => exact ⟨first, second, rest, rfl⟩
  refine ⟨_, rfl, splitText_joinText (by simp) fun piece hm => ?_⟩
  obtain ⟨line, hline, rfl⟩ := List.mem_map.mp hm
  exact not_mem_lineFeed_blockLine (h line hline)

end Rendering

section Fields

variable (options : Options) (collaborators : Collaborators) (record : Record)

def expandFields : Expansion Unit :=
  headerFields.forM (Field.expand options collaborators record)

theorem expandFields_decorated (markers : Bool) (style : CommentStyle) :
    expandFields (options.decorated markers style) collaborators record =
      expandFields options collaborators record := rfl

theorem markerDraft_apart_from_lines (line : String) :
    (markerDraft options line).warnings = #[] ∧ (markerDraft options line).calls = #[] := by
  unfold markerDraft
  split <;> exact ⟨rfl, rfl⟩

theorem draftHeader_apart_from_lines :
    (draftHeader options collaborators record).1 =
        (expandFields options collaborators record).outcome ∧
      (draftHeader options collaborators record).2.warnings =
        (expandFields options collaborators record).written.warnings ∧
      (draftHeader options collaborators record).2.calls =
        (expandFields options collaborators record).written.calls := by
  obtain ⟨hwarnings, hcalls⟩ := markerDraft_apart_from_lines options blockStart
  obtain ⟨hwarnings', hcalls'⟩ := markerDraft_apart_from_lines options blockEnd
  rw [draftHeader_eq_loop, expandFields]
  refine ⟨rfl, ?_⟩
  cases h : (headerFields.forM (Field.expand options collaborators record)).outcome with
  | error e =>
    rw [written_bind_of_error h]
    simp [hwarnings, hcalls]
  | ok u =>
    rw [written_bind_of_ok (fun _ => appends_expandMarker options blockEnd) h,
      (on_expandMarker options blockEnd).2]
    simp [hwarnings, hcalls, hwarnings', hcalls']

end Fields

section Decorated

variable (options : Options) (collaborators : Collaborators) (record : Record)

/-- The lines of the fields of a record, as headers show them with and without
markers, and in each style. -/
structure ShowsBody (body : List String) : Prop where
  several : 3 ≤ body.length
  tagged : ∀ line ∈ body, IsFieldLine line
  lines : ∀ markers style,
    (draftHeader (options.decorated markers style) collaborators record).2.lines.toList =
      framedLines markers body
  plain : ∀ markers, headerText (options.decorated markers .plain) collaborators record =
    .ok (joinText '\n' (framedLines markers body))
  slashes : ∀ markers, ∃ text,
    headerText (options.decorated markers .slashes) collaborators record = .ok text ∧
      splitText '\n' text = (framedLines markers body).map fun line => "// " ++ trimEnd line
  block : ∀ markers, ∃ inner,
    headerText (options.decorated markers .block) collaborators record =
        .ok ("/*\n" ++ inner ++ "\n*/") ∧
      List.Forall₂ (fun line piece => MarksEscaped (trimEnd line) piece)
        (framedLines markers body) (splitText '\n' inner)

theorem IsFieldLine.startsVisibly {line : String} (h : IsFieldLine line) : StartsVisibly line := by
  obtain ⟨cs, hcs⟩ := List.head?_eq_some_iff.mp h.head_eq
  exact ⟨'@', cs, hcs, by decide⟩

section Framed

variable {markers : Bool} {body : List String}

theorem two_le_length_framedLines (h : 3 ≤ body.length) :
    2 ≤ (framedLines markers body).length := by
  simp only [framedLines, List.length_append]
  omega

section

variable (h : ∀ line ∈ body, IsFieldLine line)

include h

theorem startsVisibly_of_mem_framedLines :
    ∀ line ∈ framedLines markers body, StartsVisibly line := by
  intro line hm
  rcases mem_framedLines hm with rfl | rfl | hm
  · exact ⟨'=', _, rfl, by decide⟩
  · exact ⟨'=', _, rfl, by decide⟩
  · exact (h line hm).startsVisibly

theorem not_mem_lineFeed_of_mem_framedLines :
    ∀ line ∈ framedLines markers body, '\n' ∉ line.toList := by
  intro line hm
  rcases mem_framedLines hm with rfl | rfl | hm
  · decide
  · decide
  · exact (h line hm).not_mem_lineFeed

theorem splitText_slashes_framedLines (hlen : 3 ≤ body.length) :
    splitText '\n' (CommentStyle.slashes.render (framedLines markers body)) =
      (framedLines markers body).map fun line => "// " ++ trimEnd line := by
  have hne : framedLines markers body ≠ [] :=
    List.ne_nil_of_length_pos (Nat.lt_of_lt_of_le (by decide) (two_le_length_framedLines hlen))
  refine (splitText_lineComments hne (not_mem_lineFeed_of_mem_framedLines h)).trans ?_
  exact List.map_congr_left fun line hm =>
    commentLine_eq (startsVisibly_of_mem_framedLines h line hm)

theorem exists_block_framedLines (hlen : 3 ≤ body.length) :
    ∃ inner, CommentStyle.block.render (framedLines markers body) = "/*\n" ++ inner ++ "\n*/" ∧
      List.Forall₂ (fun line piece => MarksEscaped (trimEnd line) piece)
        (framedLines markers body) (splitText '\n' inner) := by
  obtain ⟨inner, hinner, hsplit⟩ := exists_blockComment_lines (two_le_length_framedLines hlen)
    (not_mem_lineFeed_of_mem_framedLines h)
  refine ⟨inner, hinner, ?_⟩
  rw [hsplit, List.forall₂_map_right_iff, List.forall₂_same]
  exact fun line hm => marksEscaped_blockLine (startsVisibly_of_mem_framedLines h line hm)

end

end Framed

variable {options collaborators record}

theorem headerText_decorated (h : ∀ f ∈ headerFields, f.Passes options collaborators record)
    (markers : Bool) (style : CommentStyle) :
    ∃ d, draftHeader (options.decorated markers style) collaborators record = (.ok (), d) ∧
      d.lines.toList =
        framedLines markers (segments options collaborators record headerFields).lines.toList ∧
      headerText (options.decorated markers style) collaborators record =
        .ok (style.render d.lines.toList) := by
  have hd : draftHeader (options.decorated markers style) collaborators record = _ :=
    draftHeader_of_passes h
  exact ⟨_, hd, toList_lines_of_ok hd, headerText_eq_ok.mpr ⟨_, hd, rfl⟩⟩

theorem showsBody_of_passes (h : ∀ f ∈ headerFields, f.Passes options collaborators record) :
    ShowsBody options collaborators record
      (segments options collaborators record headerFields).lines.toList := by
  have hseveral := three_le_size_segments h
  have htagged := @isFieldLine_of_mem_segments options collaborators record
  have hheader := headerText_decorated h
  rw [← Array.length_toList] at hseveral
  simp only [← Array.mem_toList_iff] at htagged
  -- beyond these three facts it does not matter which lines the fields have
  generalize (segments options collaborators record headerFields).lines.toList = body at *
  refine ⟨hseveral, htagged, fun markers style => ?_, fun markers => ?_, fun markers => ?_,
    fun markers => ?_⟩
  · obtain ⟨d, hd, hlines, _⟩ := hheader markers style
    rw [hd, hlines]
  · obtain ⟨d, _, hlines, htext⟩ := hheader markers .plain
    rw [htext, hlines]
    rfl
  · obtain ⟨d, _, hlines, htext⟩ := hheader markers .slashes
    rw [hlines] at htext
    exact ⟨_, htext, splitText_slashes_framedLines htagged hseveral⟩
  · obtain ⟨d, _, hlines, htext⟩ := hheader markers .block
    obtain ⟨inner, hinner, hpieces⟩ := exists_block_framedLines htagged hseveral
    rw [hlines, hinner] at htext
    exact ⟨inner, htext, hpieces⟩

theorem headerText_eq_error {e : HeaderError} :
    headerText options collaborators record = .error e ↔
      (draftHeader options collaborators record).1 = .error e := by
  rw [headerText]
  rcases draftHeader options collaborators record with ⟨_ | u, d⟩ <;> simp

theorem draftHeader_decorated_fst (markers : Bool) (style : CommentStyle) :
    (draftHeader (options.decorated markers style) collaborators record).1 =
      (draftHeader options collaborators record).1 := by
  rw [(draftHeader_apart_from_lines ..).1, (draftHeader_apart_from_lines ..).1,
    expandFields_decorated]

/-- What is asked for on the command line has no say in whether a header is
made, and only picks the way it is shown. -/
inductive OverridesDecorate (t : FileTree) (environment : Option String)
    (request : HeaderRequest) : Prop where
  | refused (e : CommandError)
      (h : ∀ overrides,
        makeHeader t environment { request with overrides := overrides } = .error e)
  | shown (record : Record) (config : Config) (body : List String)
      (hrecord : loadRecord t request.recordPath = .ok record)
      (hconfig : Config.loadOptional t request.configPath environment = .ok config)
      (hbody : ShowsBody config.options t.collaborators record body)
      (h : ∀ overrides : Overrides, ∃ text,
        makeHeader t environment { request with overrides := overrides } = .ok text ∧
          headerText (config.options.decorated
            (config.options.includeBlock && !overrides.noBlock)
            (overrides.style.getD config.options.style)) t.collaborators record = .ok text)

theorem overridesDecorate (t : FileTree) (environment : Option String)
    (request : HeaderRequest) : OverridesDecorate t environment request := by
  cases hrecord : loadRecord t request.recordPath with
  | error e => exact .refused e fun overrides => by simp only [makeHeader, hrecord]; rfl
  | ok record =>
    cases hconfig : Config.loadOptional t request.configPath environment with
    | error e =>
      exact .refused (.config e) fun overrides => by simp only [makeHeader, hrecord, hconfig]; rfl
    | ok config =>
      have hfst : ∀ overrides : Overrides,
          (draftHeader (overrides.apply config.options) t.collaborators record).1 =
            (draftHeader config.options t.collaborators record).1 :=
        fun overrides => draftHeader_decorated_fst _ _
      cases h : (draftHeader config.options t.collaborators record).1 with
      | error e =>
        refine .refused (.header e) fun overrides => ?_
        have htext := headerText_eq_error.mpr ((hfst overrides).trans h)
        simp only [makeHeader, hrecord, hconfig, bind, Except.bind, htext]
      | ok u =>
        refine .shown record config _ hrecord hconfig
          (showsBody_of_passes (draftHeader_fst_eq_ok.mp h)) fun overrides => ?_
        have htext := headerText_eq_ok.mpr ⟨_, Prod.ext ((hfst overrides).trans h) rfl, rfl⟩
        exact ⟨_, makeHeader_eq_ok.mpr ⟨record, config, hrecord, hconfig, htext⟩, htext⟩

/-- Headers that differ in markers and style only are made for the same records,
with the same errors, warnings and calls, and show the same lines of fields. -/
theorem draftHeader_decorated (options : Options) (collaborators : Collaborators)
    (record : Record) :
    (∀ markers markers' style style',
      let drafted := draftHeader (options.decorated markers style) collaborators record
      let drafted' := draftHeader (options.decorated markers' style') collaborators record
      drafted.1 = drafted'.1 ∧ drafted.2.warnings = drafted'.2.warnings ∧
        drafted.2.calls = drafted'.2.calls) ∧
    ((draftHeader options collaborators record).1 = .ok () ↔
      ∃ body, ShowsBody options collaborators record body) ∧
    ∀ t environment request, OverridesDecorate t environment request := by
  refine ⟨fun markers markers' style style' => ?_, ⟨fun h => ?_, ?_⟩, overridesDecorate⟩
  · obtain ⟨ho, hw, hc⟩ :=
      draftHeader_apart_from_lines (options.decorated markers style) collaborators record
    obtain ⟨ho', hw', hc'⟩ :=
      draftHeader_apart_from_lines (options.decorated markers' style') collaborators record
    exact ⟨ho.trans ho'.symm, hw.trans hw'.symm, hc.trans hc'.symm⟩
  · exact ⟨_, showsBody_of_passes (draftHeader_fst_eq_ok.mp h)⟩
  · rintro ⟨body, h⟩
    obtain ⟨d, hd, _⟩ := headerText_eq_ok.mp (h.plain true)
    exact (draftHeader_decorated_fst true .plain).symm.trans (congrArg Prod.fst hd)

end Decorated

end Userscript
