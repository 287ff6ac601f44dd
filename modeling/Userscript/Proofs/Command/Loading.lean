import Userscript.Command.Render
import Userscript.Proofs.FileTree.Walking

/-! What a header is made from. The record and the configuration each come from
one file, or the configuration from none. -/

namespace Userscript

variable {t t' : FileTree} {environment : Option String} {request : HeaderRequest}

theorem fromUTF8?_toUTF8 (s : String) : String.fromUTF8? s.toUTF8 = some s :=
  dif_pos s.isValidUTF8

theorem FileTree.readText_of_read {t : FileTree} {path text : String}
    (h : t.read path = .ok text.toUTF8) : t.readText path = .ok text := by
  rw [readText, h]
  simp only [bind, Except.bind, fromUTF8?_toUTF8]

theorem FileTree.contains_of_read {path : String} {contents : ByteArray}
    (h : t.read path = .ok contents) : t.contains path = true := by
  obtain ⟨place, hfind, _⟩ := FileTree.read_eq_ok.mp h
  simp [FileTree.contains, hfind, Except.toOption]

theorem loadRecord_congr {path : String} (h : t'.read path = t.read path) :
    loadRecord t' path = loadRecord t path := by
  unfold loadRecord
  rw [h]

theorem loadRecord_of_read {path text : String} {record : Record}
    (hread : t.read path = .ok text.toUTF8) (hsize : text.toUTF8.size ≤ maxRecordSize)
    (htext : Record.ofText? text = some record) : loadRecord t path = .ok record := by
  have hbytes : Record.ofBytes text.toUTF8 = .ok record := by
    simp only [Record.ofBytes, if_neg (Nat.not_lt.mpr hsize), fromUTF8?_toUTF8, htext]
  simp only [loadRecord, hread, hbytes]

namespace Config

variable {argument : Option String} {config : Config} {path : String}

theorem loadFile_congr (h : t'.read path = t.read path) : loadFile t' path = loadFile t path := by
  unfold loadFile
  rw [h]

theorem loadFile_of_read {text : String} (hpath : checkPathSize "config file path" path = .ok ())
    (hread : t.read path = .ok text.toUTF8) (hsize : text.toUTF8.size ≤ maxConfigSize)
    (htext : ofText text = .ok config) : loadFile t path = .ok config := by
  simp only [loadFile, hpath, hread, ofBytes, if_neg (Nat.not_lt.mpr hsize), fromUTF8?_toUTF8,
    htext]

theorem exists_read_of_loadFile (h : loadFile t path = .ok config) :
    ∃ contents, t.read path = .ok contents := by
  unfold loadFile at h
  split at h
  · cases h
  · cases hread : t.read path with
    | error e =>
      rw [hread] at h
      cases h
    | ok contents => exact ⟨contents, rfl⟩

theorem choosePath_eq_ok (h : choosePath argument environment = .ok path) :
    path = (argument <|> environment).getD defaultConfigPath := by
  rcases argument with _ | chosen
  · rcases environment with _ | named
    · exact (Except.ok.inj h).symm
    · simp only [choosePath] at h
      split at h
      · exact (Except.ok.inj h).symm
      · cases h
  · exact (Except.ok.inj h).symm

theorem load_eq_ok :
    load t argument environment = .ok config ↔
      ∃ path, choosePath argument environment = .ok path ∧ loadFile t path = .ok config :=
  bind_eq_ok

theorem loadOptional_of_absent (h : t.contains defaultConfigPath = false) :
    loadOptional t none none = .ok {} := by
  simp [loadOptional, h]

theorem loadOptional_eq_load (h : ¬ (argument = none ∧ environment = none ∧
    t.contains defaultConfigPath = false)) :
    loadOptional t argument environment = load t argument environment := by
  refine if_neg fun hc => h ?_
  simpa [and_assoc] using hc

end Config

theorem commandResult_eq_ok {result : Except HeaderError String} {header : String} :
    (match result with
      | .ok header => .ok header
      | .error e => .error (.header e) : Except CommandError String) = .ok header ↔
      result = .ok header := by
  cases result with
  | error e => simp
  | ok text => simp

theorem makeHeader_eq_ok {header : String} :
    makeHeader t environment request = .ok header ↔
      ∃ record config, loadRecord t request.recordPath = .ok record ∧
        Config.loadOptional t request.configPath environment = .ok config ∧
        headerText (request.overrides.apply config.options) t.collaborators record =
          .ok header := by
  unfold makeHeader
  cases loadRecord t request.recordPath with
  | error e =>
    constructor
    · exact fun h => nomatch h
    · exact fun ⟨_, _, h, _⟩ => nomatch h
  | ok record =>
    cases Config.loadOptional t request.configPath environment with
    | error e =>
      constructor
      · exact fun h => nomatch h
      · exact fun ⟨_, _, _, h, _⟩ => nomatch h
    | ok config =>
      refine commandResult_eq_ok.trans ⟨fun h => ⟨record, config, rfl, rfl, h⟩, ?_⟩
      rintro ⟨_, _, ⟨⟩, ⟨⟩, h⟩
      exact h

end Userscript
