import Userscript.Proofs.Config.Templates

/-! The paths that come of a source template. A template is checked without the
white space around it and used with it, so a template that is accepted gives
usable paths only if the white space leaves its segments short. -/

namespace Userscript

open String (utf8Len)

section Filled

variable {template id : String}

theorem utf8Len_le_placeholder (hid : id.utf8ByteSize ≤ 4) :
    utf8Len id.toList ≤ utf8Len placeholder := by
  rw [String.utf8Len_toList]
  exact hid

theorem utf8ByteSize_fillTemplate_le (template : String) (hid : id.utf8ByteSize ≤ 4) :
    (fillTemplate template id).utf8ByteSize ≤ template.utf8ByteSize := by
  have h := utf8Len_fillChars_le (utf8Len_le_placeholder hid) template.toList
  rwa [fillTemplate, String.utf8ByteSize_ofList, ← String.utf8Len_toList template]

/-- What is put in for a placeholder is no longer than it and has no slash, so it
makes no run longer. -/
theorem ShortRuns.fillTemplate (h : ShortRuns template) (hid : id.utf8ByteSize ≤ 4)
    (hslash : '/' ∉ id.toList) : ShortRuns (fillTemplate template id) := by
  intro run hrun
  rw [Userscript.fillTemplate, String.toList_ofList, ← mem_splitChars_iff_isRun,
    splitChars_fillChars (by decide) hslash, List.mem_map] at hrun
  obtain ⟨piece, hpiece, rfl⟩ := hrun
  have hgrow := utf8Len_fillChars_le (utf8Len_le_placeholder hid) piece
  have hshort := h piece (mem_splitChars_iff_isRun.mp hpiece)
  omega

end Filled

namespace Config

variable {config : Config} {template : String}

def sourcePath (config : Config) (r : Resource) : Option String :=
  config.options.sourceOf.bind fun resolve => resolve r

theorem sourcePath_eq (h : config.sourceTemplate = some template) (r : Resource) :
    config.sourcePath r = some (fillTemplate template r.id) := by
  simp [sourcePath, options, h]

/-- An accepted source template gives no path that is too long as a whole. All its
paths are usable exactly if its segments are short together with the white space
around it, as they are where there is none. -/
theorem sourcePath_fits_iff (hcheck : config.check = .ok ())
    (htemplate : config.sourceTemplate = some template) :
    (∀ r : Resource, r.id.utf8ByteSize ≤ 4 → '/' ∉ r.id.toList →
      ∃ path, config.sourcePath r = some path ∧ path.utf8ByteSize ≤ 4096) ∧
    ((∀ r : Resource, r.id.utf8ByteSize ≤ 4 → '/' ∉ r.id.toList →
        ∃ path, config.sourcePath r = some path ∧ PathFits path) ↔
      ∀ run, IsRun '/' template.toList run → utf8Len run ≤ 255) ∧
    (trim template = template → ∀ run, IsRun '/' template.toList run → utf8Len run ≤ 255) := by
  obtain ⟨hisTemplate, htrimmed⟩ := (check_eq_ok_iff.mp hcheck).1 template htemplate
  have hsize : ∀ r : Resource, r.id.utf8ByteSize ≤ 4 →
      (fillTemplate template r.id).utf8ByteSize ≤ 4096 := by
    intro r hid
    have hle := utf8ByteSize_fillTemplate_le template hid
    have hshort := hisTemplate.size
    omega
  refine ⟨fun r hid _ => ⟨_, sourcePath_eq htemplate r, hsize r hid⟩, ⟨fun h => ?_, ?_⟩, ?_⟩
  · -- filled with the placeholder itself, the template is one of its paths
    let r := Resource.ofId (String.ofList placeholder)
    obtain ⟨path, hpath, hfits⟩ := h r (by decide) (by decide)
    rw [sourcePath_eq htemplate] at hpath
    obtain rfl := Option.some.inj hpath
    have hruns := (pathFits_iff.mp hfits).2
    rwa [show r.id = String.ofList placeholder from rfl, fillTemplate_placeholder] at hruns
  · intro hruns r hid hslash
    have hfilled : ShortRuns (fillTemplate template r.id) :=
      ShortRuns.fillTemplate hruns hid hslash
    exact ⟨_, sourcePath_eq htemplate r, pathFits_iff.mpr ⟨hsize r hid, hfilled⟩⟩
  · intro htrim
    rw [htrim] at htrimmed
    exact htrimmed

theorem shortRuns_of_size {path : String} (h : path.utf8ByteSize ≤ 255) : ShortRuns path := by
  intro run hrun
  have hle := hrun.utf8Len_le
  rw [String.utf8Len_toList] at hle
  omega

theorem not_shortRuns_of_size {path : String} (hslash : '/' ∉ path.toList)
    (h : 255 < path.utf8ByteSize) : ¬ ShortRuns path := by
  intro hshort
  have hle := hshort _ (isRun_self hslash)
  rw [String.utf8Len_toList] at hle
  omega

def indentedTemplate : String := "  dist/\x7bid\x7d.js"

def indentedConfig : Config := { sourceTemplate := some indentedTemplate }

theorem check_indentedConfig : indentedConfig.check = .ok () := rfl

/-- White space in front of a short segment does no harm. -/
theorem sourcePath_fits_of_indented :
    indentedConfig.check = .ok () ∧ indentedConfig.sourceTemplate = some indentedTemplate ∧
      ∀ r : Resource, r.id.utf8ByteSize ≤ 4 → '/' ∉ r.id.toList →
        ∃ path, indentedConfig.sourcePath r = some path ∧ PathFits path := by
  have hshort : ShortRuns indentedTemplate := shortRuns_of_size (by decide)
  exact ⟨check_indentedConfig, rfl, (sourcePath_fits_iff check_indentedConfig rfl).2.1.mpr hshort⟩

/-- As much white space as makes a path of four bytes too long. -/
def paddedTemplate : String := String.ofList (List.replicate 252 ' ' ++ placeholder)

def paddedConfig : Config := { sourceTemplate := some paddedTemplate }

def paddedPath : String := String.ofList (List.replicate 252 ' ' ++ "abcd".toList)

theorem trim_paddedTemplate : trim paddedTemplate = String.ofList placeholder := by
  have hblank : ∀ c ∈ List.replicate 252 ' ', isBlank c = true := fun c hc => by
    rw [List.eq_of_mem_replicate hc]
    decide
  rw [trim, paddedTemplate, String.toList_ofList, trimChars, List.dropWhile_append_of_pos hblank]
  decide

theorem check_paddedConfig : paddedConfig.check = .ok () := by
  rw [check_eq_ok_iff]
  refine ⟨fun template htemplate => ?_, fun _ h => nomatch h⟩
  obtain rfl : paddedTemplate = template := Option.some.inj htemplate
  have hfree : ∀ c : Char, c ≠ ' ' → c ∉ placeholder → c ∉ paddedTemplate.toList := by
    intro c hspace hplaceholder hc
    rw [paddedTemplate, String.toList_ofList, List.mem_append, List.mem_replicate] at hc
    exact hc.elim (fun h => hspace h.2) hplaceholder
  refine ⟨⟨by decide +kernel, hfree _ (by decide) (by decide), hfree _ (by decide) (by decide), ?_⟩,
    ?_⟩
  · rw [paddedTemplate, String.toList_ofList]
    exact (List.suffix_append _ _).isInfix
  · rw [trim_paddedTemplate]
    exact shortRuns_of_size (by decide)

theorem sourcePath_paddedConfig :
    paddedConfig.sourcePath (Resource.ofId "abcd") = some paddedPath := by
  have hfree : '\x7b' ∉ List.replicate 252 ' ' := fun h =>
    absurd (List.eq_of_mem_replicate h) (by decide)
  have hfilled : fillTemplate paddedTemplate "abcd" = paddedPath := by
    simp only [fillTemplate, paddedTemplate, String.toList_ofList,
      fillChars_append_of_not_mem hfree]
    rfl
  rw [sourcePath_eq rfl]
  exact congrArg some hfilled

theorem not_mem_slash_paddedPath : '/' ∉ paddedPath.toList := by
  have hslash : '/' ∉ List.replicate 252 ' ' ++ "abcd".toList := by decide +kernel
  exact String.toList_ofList.symm ▸ hslash

theorem not_pathFits_paddedPath : ¬ PathFits paddedPath := by
  have hsize : 255 < paddedPath.utf8ByteSize := by decide +kernel
  exact fun h => not_shortRuns_of_size not_mem_slash_paddedPath hsize (pathFits_iff.mp h).2

/-- An accepted source template can give a path with a segment that is too long,
since the white space around it is used but not checked. -/
theorem exists_sourcePath_too_long :
    ¬ ∀ (config : Config) (r : Resource), config.check = .ok () →
      config.sourceTemplate.isSome = true → r.id.utf8ByteSize ≤ 4 → '/' ∉ r.id.toList →
      ∃ path, config.sourcePath r = some path ∧ PathFits path := by
  intro h
  obtain ⟨path, hpath, hfits⟩ :=
    h paddedConfig (Resource.ofId "abcd") check_paddedConfig rfl (by decide) (by decide)
  rw [sourcePath_paddedConfig] at hpath
  obtain rfl := Option.some.inj hpath
  exact not_pathFits_paddedPath hfits

end Config

end Userscript
