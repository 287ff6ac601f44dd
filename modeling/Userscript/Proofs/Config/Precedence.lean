import Userscript.Proofs.Command.Loading
import Userscript.Proofs.Config.Templates

/-! Which file a configuration is loaded from, and which failure is told of where
there is none. Only a default file that is missing goes unnoticed. -/

namespace Userscript

theorem fromUTF8?_eq_some {bytes : ByteArray} {text : String} :
    String.fromUTF8? bytes = some text ↔ bytes = text.toUTF8 := by
  constructor
  · intro h
    rw [String.fromUTF8?] at h
    split at h
    · obtain rfl := Option.some.inj h
      rfl
    · cases h
  · rintro rfl
    exact fromUTF8?_toUTF8 text

theorem fromUTF8?_eq_none {bytes : ByteArray} :
    String.fromUTF8? bytes = none ↔ ∀ text : String, bytes ≠ text.toUTF8 := by
  rw [Option.eq_none_iff_forall_ne_some]
  exact forall_congr' fun _ => not_congr fromUTF8?_eq_some

theorem FileTree.read_ne_ok {t : FileTree} (h : ∀ e ∈ t.entries, e.2 = .directory)
    (path : String) (contents : ByteArray) : t.read path ≠ .ok contents := by
  intro hread
  obtain ⟨place, _, hentry⟩ := FileTree.read_eq_ok.mp hread
  rw [FileTree.entryAt] at hentry
  split at hentry
  · cases hentry
  · obtain ⟨before, after, hentries, _⟩ := List.lookup_eq_some_iff.mp hentry
    have hfile := h (place, .file contents) (by simp [hentries])
    cases hfile

namespace Config

variable {t : FileTree} {argument environment : Option String} {path text : String}
  {bytes : ByteArray} {config : Config} {result : Except ConfigError Config}

/-- What comes of a text. -/
inductive Parses (text : String) : Except ConfigError Config → Prop where
  | malformed (h : (Toml.read text).bind ofEntries? = none) : Parses text (.error .malformed)
  | refused {config : Config} {p : ConfigProblem}
      (h : (Toml.read text).bind ofEntries? = some config) (hcheck : config.check = .error p) :
      Parses text (.error (.invalid p))
  | accepted {config : Config} (h : (Toml.read text).bind ofEntries? = some config)
      (hcheck : config.check = .ok ()) : Parses text (.ok config)

/-- What comes of the contents of a file. -/
inductive Decodes (bytes : ByteArray) : Except ConfigError Config → Prop where
  | tooLarge (h : 1048576 < bytes.size) : Decodes bytes (.error (.invalid .fileTooLarge))
  | notText (hsize : bytes.size ≤ 1048576) (h : ∀ text : String, bytes ≠ text.toUTF8) :
      Decodes bytes (.error (.invalid .invalidText))
  | text {text : String} {result : Except ConfigError Config} (hsize : bytes.size ≤ 1048576)
      (h : bytes = text.toUTF8) (htext : Parses text result) : Decodes bytes result

/-- What comes of a path, where `file` is what there is to read. -/
inductive Loads (path : String) (file : Except FileError ByteArray) :
    Except ConfigError Config → Prop where
  | refused {p : ConfigProblem} (h : checkPathSize "config file path" path = .error p) :
      Loads path file (.error (.invalid p))
  | unreadable {e : FileError} (hpath : PathFits path) (h : file = .error e) :
      Loads path file (.error (.file e))
  | contents {bytes : ByteArray} {result : Except ConfigError Config} (hpath : PathFits path)
      (h : file = .ok bytes) (hbytes : Decodes bytes result) : Loads path file result

theorem ofText_eq_iff : ofText text = result ↔ Parses text result := by
  constructor
  · rintro rfl
    unfold ofText
    split
    · exact .malformed ‹_›
    · split
      · exact .accepted ‹_› ‹_›
      · exact .refused ‹_› ‹_›
  · intro h
    cases h with
    | malformed h => simp only [ofText, h]
    | refused h hcheck => simp only [ofText, h, hcheck]
    | accepted h hcheck => simp only [ofText, h, hcheck]

theorem ofBytes_eq_iff : ofBytes bytes = result ↔ Decodes bytes result := by
  constructor
  · rintro rfl
    unfold ofBytes
    split
    · exact .tooLarge ‹_›
    · next hsize =>
      split
      · next htext =>
        exact .text (Nat.not_lt.mp hsize) (fromUTF8?_eq_some.mp htext) (ofText_eq_iff.mp rfl)
      · next htext => exact .notText (Nat.not_lt.mp hsize) (fromUTF8?_eq_none.mp htext)
  · intro h
    cases h with
    | tooLarge h => exact if_pos h
    | notText hsize h =>
      simp only [ofBytes, maxConfigSize, Nat.not_lt.mpr hsize, if_false, fromUTF8?_eq_none.mpr h]
    | text hsize h htext =>
      simp only [ofBytes, maxConfigSize, Nat.not_lt.mpr hsize, if_false, fromUTF8?_eq_some.mpr h]
      exact ofText_eq_iff.mpr htext

theorem loadFile_eq_iff : loadFile t path = result ↔ Loads path (t.read path) result := by
  constructor
  · rintro rfl
    unfold loadFile
    split
    · exact .refused ‹_›
    · next hpath =>
      have hfits := checkPathSize_eq_ok_iff.mp hpath
      split
      · exact .unreadable hfits ‹_›
      · exact .contents hfits ‹_› (ofBytes_eq_iff.mp rfl)
  · intro h
    cases h with
    | refused h => simp only [loadFile, h]
    | unreadable hpath h => simp only [loadFile, checkPathSize_eq_ok_iff.mpr hpath, h]
    | contents hpath h hbytes =>
      simp only [loadFile, checkPathSize_eq_ok_iff.mpr hpath, h]
      exact ofBytes_eq_iff.mpr hbytes

theorem check_of_ofText (h : ofText text = .ok config) : config.check = .ok () := by
  cases ofText_eq_iff.mp h with
  | accepted _ hcheck => exact hcheck

theorem check_of_loadFile (h : loadFile t path = .ok config) : config.check = .ok () := by
  cases loadFile_eq_iff.mp h with
  | contents _ _ hbytes =>
    cases hbytes with
    | text _ _ htext => exact check_of_ofText (ofText_eq_iff.mpr htext)

theorem check_of_load (h : load t argument environment = .ok config) : config.check = .ok () := by
  obtain ⟨path, _, hload⟩ := load_eq_ok.mp h
  exact check_of_loadFile hload

theorem check_of_loadOptional (h : loadOptional t argument environment = .ok config) :
    config.check = .ok () := by
  by_cases hunread : argument = none ∧ environment = none ∧ t.contains defaultConfigPath = false
  · obtain ⟨rfl, rfl, habsent⟩ := hunread
    rw [loadOptional_of_absent habsent] at h
    obtain rfl := Except.ok.inj h
    rfl
  · rw [loadOptional_eq_load hunread] at h
    exact check_of_load h

/-- There are trees without any file that agree with a given one about whether
there is something in the default place. -/
theorem exists_without_file (t : FileTree) :
    ∃ t' : FileTree, t'.contains defaultConfigPath = t.contains defaultConfigPath ∧
      ∀ e ∈ t'.entries, e.2 = .directory := by
  cases t.contains defaultConfigPath with
  | false => exact ⟨⟨[], []⟩, by decide, by simp⟩
  | true => exact ⟨⟨[([defaultConfigPath], .directory)], []⟩, by decide, by simp⟩

/-- The default configuration comes of no file exactly if none is named and there
is nothing in the default place. -/
theorem loadOptional_unread_iff :
    (∀ t' : FileTree, t'.contains defaultConfigPath = t.contains defaultConfigPath →
      loadOptional t' argument environment = .ok {}) ↔
    argument = none ∧ environment = none ∧ t.contains defaultConfigPath = false := by
  constructor
  · intro hall
    by_contra hnot
    obtain ⟨t', hcontains, hentries⟩ := exists_without_file t
    have hload := hall t' hcontains
    rw [loadOptional_eq_load (by rwa [hcontains])] at hload
    obtain ⟨path, _, hfile⟩ := load_eq_ok.mp hload
    obtain ⟨contents, hread⟩ := exists_read_of_loadFile hfile
    exact FileTree.read_ne_ok hentries path contents hread
  · rintro ⟨rfl, rfl, habsent⟩ t' hcontains
    exact loadOptional_of_absent (hcontains.trans habsent)

/-- A configuration comes from the file that is asked for, else from the one that
the environment names, if its path fits, else from the default one. The default
configuration takes the place of the last only where there is nothing; all other
failures are told, the first one first, and whatever is loaded is valid. -/
theorem loadOptional_iff (t : FileTree) (argument environment : Option String) :
    ((∀ t' : FileTree, t'.contains "userscript-meta.toml" = t.contains "userscript-meta.toml" →
        loadOptional t' argument environment = .ok {}) ↔
      argument = none ∧ environment = none ∧ t.contains "userscript-meta.toml" = false) ∧
    (∀ path result, argument = some path →
      (loadOptional t argument environment = result ↔ Loads path (t.read path) result)) ∧
    (∀ path result, argument = none → environment = some path → PathFits path →
      (loadOptional t argument environment = result ↔ Loads path (t.read path) result)) ∧
    (∀ path p, argument = none → environment = some path →
      checkPathSize "USERSCRIPT_META_CONFIG" path = .error p →
      loadOptional t argument environment = .error (.invalid p)) ∧
    (∀ result, argument = none → environment = none →
      t.contains "userscript-meta.toml" = true →
      (loadOptional t argument environment = result ↔
        Loads "userscript-meta.toml" (t.read "userscript-meta.toml") result)) ∧
    (∀ config, loadOptional t argument environment = .ok config → config.check = .ok ()) ∧
    (∀ config, load t argument environment = .ok config → config.check = .ok ()) ∧
    ∀ text config, ofText text = .ok config → config.check = .ok () := by
  refine ⟨loadOptional_unread_iff, ?_, ?_, ?_, ?_, fun _ => check_of_loadOptional,
    fun _ => check_of_load, fun _ _ => check_of_ofText⟩
  · rintro path result rfl
    rw [loadOptional_eq_load (by simp)]
    exact loadFile_eq_iff
  · rintro path result rfl rfl hpath
    have hchosen : choosePath none (some path) = .ok path := by
      simp only [choosePath, checkPathSize_eq_ok_iff.mpr hpath]
    rw [loadOptional_eq_load (by simp), load, hchosen]
    exact loadFile_eq_iff
  · rintro path p rfl rfl hpath
    have hchosen : choosePath none (some path) = .error (.invalid p) := by
      simp only [choosePath, configVariable, hpath]
    rw [loadOptional_eq_load (by simp), load, hchosen]
    rfl
  · rintro result rfl rfl hcontains
    rw [loadOptional_eq_load (by simp [defaultConfigPath, hcontains])]
    change loadFile t "userscript-meta.toml" = result ↔ _
    exact loadFile_eq_iff

end Config

end Userscript
