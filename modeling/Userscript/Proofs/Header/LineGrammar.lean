import Userscript.Proofs.Expansion.Success
import Userscript.Proofs.Header.Required
import Userscript.Proofs.Text.Splitting

/-! The lines of a header. Between the markers each line is a tag with a value
that holds no line feed, or the flag for frames, so no value can end its line or
look like a marker. -/

namespace Userscript

open Expansion

/-- What stands before the first space of a line, and what stands behind it. -/
def cutAtSpace (line : String) : String × String :=
  (String.ofList (line.toList.takeWhile (· ≠ ' ')),
    String.ofList ((line.toList.dropWhile (· ≠ ' ')).drop 1))

def IsFieldLine (line : String) : Prop :=
  line = "@noframes" ∨ ∃ tag value, isTagName tag = true ∧ '\n' ∉ value.toList ∧
    line = tagLine tag value

/-- Lines between markers, if there are to be any. -/
def framedLines (markers : Bool) (body : List String) : List String :=
  (if markers then [blockStart] else []) ++ (body ++ if markers then [blockEnd] else [])

/-- The lines of a header: markers at both ends and nowhere else, if there are
any, and between them the flag for frames and tags with values. The first space
of a tag with a value ends the tag, and the lines joined by line feeds are cut
apart again at line feeds. -/
structure LineGrammar (markers : Bool) (body lines : List String) : Prop where
  framed : lines = framedLines markers body
  ne_marker : ∀ line ∈ body, line ≠ blockStart ∧ line ≠ blockEnd
  tagged : ∀ line ∈ body, line = "@noframes" ∨
    ∃ tag value, isTagName tag = true ∧ '\n' ∉ value.toList ∧ line = tagLine tag value ∧
      cutAtSpace line = ("@" ++ tag, value) ∧
      ∀ tag' value', isTagName tag' = true → line = tagLine tag' value' →
        tag' = tag ∧ value' = value
  splits : splitText '\n' (CommentStyle.plain.render lines) = lines

theorem not_mem_tagName {tag : String} {c : Char} (h : isTagName tag = true)
    (hc : isTagChar c = false) : c ∉ tag.toList := by
  intro hm
  simp only [isTagName, Bool.and_eq_true, List.all_eq_true] at h
  rw [h.2 c hm] at hc
  cases hc

theorem toList_tagLine (tag value : String) :
    (tagLine tag value).toList = '@' :: tag.toList ++ ' ' :: value.toList := by
  simp [tagLine]

theorem cutAtSpace_tagLine {tag : String} (h : isTagName tag = true) (value : String) :
    cutAtSpace (tagLine tag value) = ("@" ++ tag, value) := by
  have hspace : ' ' ∉ '@' :: tag.toList := fun hm =>
    (List.mem_cons.mp hm).elim (absurd · (by decide)) (not_mem_tagName h (by decide))
  have hall := forall_ne_of_not_mem hspace
  have htake : (tagLine tag value).toList.takeWhile (· ≠ ' ') = '@' :: tag.toList := by
    rw [toList_tagLine, List.takeWhile_append_of_pos hall]
    simp
  have hdrop : (tagLine tag value).toList.dropWhile (· ≠ ' ') = ' ' :: value.toList := by
    rw [toList_tagLine, List.dropWhile_append_of_pos hall]
    simp
  rw [cutAtSpace, htake, hdrop]
  simp

theorem tagLine_inj {tag tag' value value' : String} (h : isTagName tag = true)
    (h' : isTagName tag' = true) (he : tagLine tag value = tagLine tag' value') :
    tag = tag' ∧ value = value' := by
  have hc := congrArg cutAtSpace he
  rw [cutAtSpace_tagLine h, cutAtSpace_tagLine h'] at hc
  simpa [← String.toList_inj] using hc

namespace IsFieldLine

variable {line : String}

theorem head_eq (h : IsFieldLine line) : line.toList.head? = some '@' := by
  rcases h with rfl | ⟨tag, value, _, _, rfl⟩
  · rfl
  · rw [toList_tagLine]
    rfl

theorem not_mem_lineFeed (h : IsFieldLine line) : '\n' ∉ line.toList := by
  rcases h with rfl | ⟨tag, value, htag, hvalue, rfl⟩
  · decide
  · have ht : '\n' ∉ tag.toList := not_mem_tagName htag (by decide)
    simp [toList_tagLine, ht, hvalue]

theorem ne_marker (h : IsFieldLine line) : line ≠ blockStart ∧ line ≠ blockEnd := by
  constructor
  · rintro rfl
    exact absurd h.head_eq (by decide)
  · rintro rfl
    exact absurd h.head_eq (by decide)

end IsFieldLine

theorem bareLine_of_flag :
    ∀ f ∈ headerFields, ∀ read, f.content = .flag read → IsFieldLine (bareLine f.tag) := by
  simp only [headerFields, List.forall_mem_cons]
  simp [IsFieldLine, bareLine]

section

variable {options : Options} {collaborators : Collaborators} {record : Record}

theorem isFieldLine_of_mem_segment {field : Field} (hf : field ∈ headerFields) :
    ∀ line ∈ (field.segment options collaborators record).lines, IsFieldLine line := by
  rw [← Field.written_expand]
  exact (field.writes_expand (fun tag value ht hv => .inr ⟨tag, value, ht, hv, rfl⟩)
    options collaborators record (bareLine_of_flag field hf)).lines

theorem isFieldLine_of_mem_segments :
    ∀ line ∈ (segments options collaborators record headerFields).lines, IsFieldLine line := by
  intro line hm
  obtain ⟨d, hd, hl⟩ := Draft.mem_lines_concat.mp hm
  obtain ⟨field, hf, rfl⟩ := List.mem_map.mp hd
  exact isFieldLine_of_mem_segment hf line hl

theorem toList_markerDraft (line : String) :
    (markerDraft options line).lines.toList = if options.includeBlock then [line] else [] := by
  unfold markerDraft
  split <;> rfl

theorem mem_framedLines {markers : Bool} {body : List String} {line : String}
    (h : line ∈ framedLines markers body) :
    line = blockStart ∨ line = blockEnd ∨ line ∈ body := by
  rw [framedLines, List.mem_append, List.mem_append] at h
  rcases h with h | h | h
  · exact .inl (by split at h <;> simp_all)
  · exact .inr (.inr h)
  · exact .inr (.inl (by split at h <;> simp_all))

section Success

variable {d : Draft} (h : draftHeader options collaborators record = (.ok (), d))

include h

theorem toList_lines_of_ok :
    d.lines.toList = framedLines options.includeBlock
      (segments options collaborators record headerFields).lines.toList := by
  have hpass := draftHeader_fst_eq_ok.mp (congrArg Prod.fst h)
  rw [draftHeader_of_passes hpass] at h
  obtain rfl : _ = d := congrArg Prod.snd h
  simp only [Draft.lines_append, Array.toList_append, toList_markerDraft, framedLines]

theorem lines_ne_nil_of_ok : d.lines.toList ≠ [] := by
  have hsize := three_le_size_segments (draftHeader_fst_eq_ok.mp (congrArg Prod.fst h))
  rw [← Array.length_toList] at hsize
  rw [toList_lines_of_ok h]
  refine List.ne_nil_of_length_pos ?_
  simp only [framedLines, List.length_append]
  omega

/-- Each line is a marker or the line of a field. -/
theorem mem_lines_of_ok {line : String} (hm : line ∈ d.lines.toList) :
    line = blockStart ∨ line = blockEnd ∨ IsFieldLine line := by
  rw [toList_lines_of_ok h] at hm
  refine (mem_framedLines hm).imp_right fun hm => hm.imp_right fun hm => ?_
  exact isFieldLine_of_mem_segments line (Array.mem_toList_iff.mp hm)

theorem not_mem_lineFeed_of_ok : ∀ line ∈ d.lines.toList, '\n' ∉ line.toList := by
  intro line hm
  rcases mem_lines_of_ok h hm with rfl | rfl | hline
  · decide
  · decide
  · exact hline.not_mem_lineFeed

/-- The lines of a header can be told apart and read in one way only, and no
value, locale, digest or URL in it adds, ends or hides a line. -/
theorem draftHeader_line_grammar :
    ∃ body, LineGrammar options.includeBlock body d.lines.toList := by
  have hbody : ∀ line ∈ (segments options collaborators record headerFields).lines.toList,
      IsFieldLine line := fun line hm => isFieldLine_of_mem_segments line (Array.mem_toList_iff.mp hm)
  refine ⟨_, toList_lines_of_ok h, fun line hm => (hbody line hm).ne_marker, fun line hm => ?_, ?_⟩
  · rcases hbody line hm with hflag | ⟨tag, value, htag, hvalue, rfl⟩
    · exact .inl hflag
    · refine .inr ⟨tag, value, htag, hvalue, rfl, cutAtSpace_tagLine htag value, ?_⟩
      exact fun tag' value' htag' he => tagLine_inj htag' htag he.symm
  · exact splitText_joinText (lines_ne_nil_of_ok h) (not_mem_lineFeed_of_ok h)

end Success

end

/-- Values that look like markers and lines of their own, and a digest and a
locale that come from outside. -/
def forgingRecord : Record :=
  { Record.ofRequired "" "==/UserScript==" "a\x0d@name b" with
    name := some (.one (.translated ((Translations.ofBase " x ").add "zz" "==UserScript==")))
    requires := some (.many [.descriptor ⟨"lib", none, none, some ⟨.given "d @name c", .md5⟩⟩])
    noFrames := some true
    customTags := some (Dict.ofList [("noframes", .string "@name d")]) }

def forgingOptions : Options := { urlOf := some fun r => some ("u #" ++ r.id) }

def forgingCollaborators : Collaborators :=
  ⟨fun key => (.ok (key ++ "-name"), []), fun _ _ => .ok "", .ok "/"⟩

theorem forgingRecord_line_grammar :
    draftHeader forgingOptions forgingCollaborators forgingRecord =
        (.ok (), (draftHeader forgingOptions forgingCollaborators forgingRecord).2) ∧
      ∃ body, LineGrammar true body
        (draftHeader forgingOptions forgingCollaborators forgingRecord).2.lines.toList :=
  have h : (draftHeader forgingOptions forgingCollaborators forgingRecord).1 = .ok () := rfl
  ⟨Prod.ext h rfl, draftHeader_line_grammar (Prod.ext h rfl)⟩

end Userscript
