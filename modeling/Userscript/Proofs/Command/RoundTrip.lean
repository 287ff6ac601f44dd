import Userscript.Proofs.Command.Atomicity
import Userscript.Proofs.Command.Drift
import Userscript.Proofs.Digest.Streaming
import Userscript.Proofs.Expansion.Digests

/-! Generating and then checking. A header depends on the tree through the files
that were looked up on the way, so a script that was just written passes the
check as long as writing it left those files alone. -/

namespace Userscript

variable {t t' : FileTree} {environment : Option String} {request : HeaderRequest}

theorem FileTree.collaborators_eq (h : t'.workingPlace = t.workingPlace) :
    t'.collaborators = t.collaborators.withDigests t'.digestFile := by
  simp only [FileTree.collaborators, Collaborators.withDigests, h]

theorem FileTree.digestFile_congr {path : String} (h : t'.read path = t.read path)
    (algorithm : HashAlgorithm) : t'.digestFile path algorithm = t.digestFile path algorithm := by
  unfold FileTree.digestFile
  rw [h]

namespace HeaderRequest

def configFile (request : HeaderRequest) (environment : Option String) : String :=
  (request.configPath <|> environment).getD defaultConfigPath

/-- No configuration is named, and there is none under the default name. -/
def NeedsNoConfig (request : HeaderRequest) (environment : Option String) (t : FileTree) : Prop :=
  request.configPath = none ∧ environment = none ∧ t.contains defaultConfigPath = false

/-- The draft that a request leaves, if a record and a configuration are found. -/
def draft (request : HeaderRequest) (environment : Option String) (t : FileTree) : Draft :=
  match loadRecord t request.recordPath,
      Config.loadOptional t request.configPath environment with
  | .ok record, .ok config =>
    (draftHeader (request.overrides.apply config.options) t.collaborators record).2
  | _, _ => {}

/-- What a request has looked up in one tree is the same in another: the record,
the configuration or that there is none, and the files that were hashed. -/
structure FindsSame (request : HeaderRequest) (environment : Option String) (t t' : FileTree) :
    Prop where
  record : t'.read request.recordPath = t.read request.recordPath
  config : ¬ request.NeedsNoConfig environment t →
    t'.read (request.configFile environment) = t.read (request.configFile environment)
  noConfig : request.NeedsNoConfig environment t → t'.contains defaultConfigPath = false
  hashed : ∀ path algorithm, .hash path algorithm ∈ (request.draft environment t).calls →
    t'.read path = t.read path

end HeaderRequest

theorem HeaderRequest.FindsSame.loadOptional_eq_ok {config : Config}
    (h : request.FindsSame environment t t')
    (hconfig : Config.loadOptional t request.configPath environment = .ok config) :
    Config.loadOptional t' request.configPath environment = .ok config := by
  by_cases hneeds : request.NeedsNoConfig environment t
  · have hnone := h.noConfig hneeds
    obtain ⟨hpath, henv, hcontains⟩ := hneeds
    rw [hpath, henv, Config.loadOptional_of_absent hcontains] at hconfig
    rw [hpath, henv, Config.loadOptional_of_absent hnone]
    exact hconfig
  · have hread := h.config hneeds
    rw [Config.loadOptional_eq_load hneeds, Config.load_eq_ok] at hconfig
    obtain ⟨path, hchoose, hload⟩ := hconfig
    obtain rfl : path = request.configFile environment := Config.choosePath_eq_ok hchoose
    obtain ⟨contents, hcontents⟩ := Config.exists_read_of_loadFile hload
    have hneeds' : ¬ request.NeedsNoConfig environment t' := by
      rintro ⟨hpath, henv, hcontains⟩
      have hfile : request.configFile environment = defaultConfigPath := by
        simp [HeaderRequest.configFile, hpath, henv]
      rw [hfile] at hread hcontents
      have hthere := FileTree.contains_of_read (hread.trans hcontents)
      rw [hcontains] at hthere
      cases hthere
    rw [Config.loadOptional_eq_load hneeds', Config.load_eq_ok]
    exact ⟨_, hchoose, (Config.loadFile_congr hread).trans hload⟩

theorem HeaderRequest.draft_of_load {record : Record} {config : Config}
    (hrecord : loadRecord t request.recordPath = .ok record)
    (hconfig : Config.loadOptional t request.configPath environment = .ok config) :
    request.draft environment t =
      (draftHeader (request.overrides.apply config.options) t.collaborators record).2 := by
  simp only [HeaderRequest.draft, hrecord, hconfig]

/-- A header is made again from a tree in which everything it was made from is
the same. -/
theorem makeHeader_of_findsSame {header : String} (hworking : t'.workingPlace = t.workingPlace)
    (hsame : request.FindsSame environment t t')
    (h : makeHeader t environment request = .ok header) :
    makeHeader t' environment request = .ok header := by
  obtain ⟨record, config, hrecord, hconfig, hheader⟩ := makeHeader_eq_ok.mp h
  -- the trees may differ in other files, but on those that were hashed the digests agree
  have hagree : AgreeOn (request.draft environment t) t.digestFile t'.digestFile :=
    fun path algorithm hcall =>
      FileTree.digestFile_congr (hsame.hashed path algorithm hcall) algorithm
  rw [HeaderRequest.draft_of_load hrecord hconfig] at hagree
  have hcongr := draftHeader_withDigests _ t.collaborators record hagree
  refine makeHeader_eq_ok.mpr ⟨record, config, ?_, hsame.loadOptional_eq_ok hconfig, ?_⟩
  · rw [loadRecord_congr hsame.record, hrecord]
  · rw [headerText, FileTree.collaborators_eq hworking, hcongr]
    exact hheader

/-- A script that was written passes the check of the same request, if writing it
left alone what the header was made from. -/
theorem runWith_check_of_generate {out s : String} {files files' : TemporaryFiles}
    (h : (Command.generate request (some out)).runWith files t environment = (.ok s, t'))
    (hsame : request.FindsSame environment t t') :
    (Command.check request out).runWith files' t' environment = (.ok "", t') := by
  obtain ⟨_, header, hheader, hwrite⟩ := runWith_generate_eq_ok h
  obtain ⟨place, hworking, hfind, hplace, _⟩ := FileTree.exists_place_of_writeWith_ok hwrite
  have hread : t'.read out = .ok (header ++ "\n").toUTF8 :=
    FileTree.read_eq_ok.mpr ⟨place, hfind, hplace⟩
  have hbegins : beginsWithHeader header.toList (header ++ "\n").toList = true :=
    beginsWithHeader_eq_true.mpr (.inr ⟨'\n', [], .inl rfl, by simp⟩)
  have hverify : verifyScript t' out header = .ok () := by
    rw [verifyScript_of_read hread, if_pos hbegins]
  simp only [Command.runWith, makeHeader_of_findsSame hworking hsame hheader, hverify]
  rfl

/-! A script whose header holds the digest of a file, written into a directory
that is made for it. -/

section Hashed

def hashedRecordText : String :=
  "\x7b\"name\":\"a\",\"version\":\"1\",\"author\":\"me\",\"require\":[" ++
    "\x7b\"id\":\"l\",\"src\":\"l.js\",\"url\":\"u\",\"hash\":[\"auto\",\"md5\"]\x7d]\x7d"

def slashesConfigText : String := "[output]\ncomment_style = \"slashes\"\n"

def hashedRecord : Record :=
  { Record.ofRequired "a" "1" "me" with
    requires := some (.many [.descriptor ⟨"l", some "l.js", some "u", some ⟨.computed, .md5⟩⟩]) }

def hashedRequest : HeaderRequest := ⟨"meta.json", none, {}⟩

def hashedTree : FileTree where
  entries := [
    (["meta.json"], .file hashedRecordText.toUTF8),
    (["userscript-meta.toml"], .file slashesConfigText.toUTF8),
    (["l.js"], .file "x".toUTF8)]
  workingPlace := []

def hashedTreeWith (script : ByteArray) : FileTree :=
  { hashedTree with
    entries := (["a.js", "dist"], .file script) :: (["dist"], .directory) :: hashedTree.entries }

def hashedDraft : Draft where
  lines := #["==UserScript==", "@name a", "@version 1", "@author me",
    "@require u#md5=9dd4e461268c8034f5c8564e155c67a6", "==/UserScript=="]
  calls := #[.hash "/l.js" .md5]

def hashedHeader : String := CommentStyle.slashes.render hashedDraft.lines.toList

theorem read_hashedRecordText :
    Document.read hashedRecordText = some (.object [("name", some (.string "a")),
      ("version", some (.string "1")), ("author", some (.string "me")),
      ("require", some (.array [.object [("id", .string "l"), ("src", .string "l.js"),
        ("url", .string "u"), ("hash", .array [.string "auto", .string "md5"])]]))]) := by
  cbv

set_option maxRecDepth 2000 in
theorem loadRecord_hashedTree :
    loadRecord hashedTree hashedRequest.recordPath = .ok hashedRecord := by
  refine loadRecord_of_read rfl (by decide) ?_
  rw [Record.ofText?, read_hashedRecordText]
  rfl

set_option maxRecDepth 2000 in
theorem loadOptional_hashedTree :
    Config.loadOptional hashedTree hashedRequest.configPath none = .ok { style := .slashes } := by
  have hread : hashedTree.read defaultConfigPath = .ok slashesConfigText.toUTF8 := rfl
  exact Config.loadFile_of_read rfl hread (by decide) rfl

theorem digestFile_hashedTree :
    hashedTree.digestFile "/l.js" .md5 = .ok "9dd4e461268c8034f5c8564e155c67a6" := by
  have hread : hashedTree.read "/l.js" = .ok "x".toUTF8 := rfl
  have hdigest : HashAlgorithm.md5.digestHex "x".toUTF8.data.toList =
      "9dd4e461268c8034f5c8564e155c67a6" := by decide +kernel
  simp only [FileTree.digestFile, hread, HashAlgorithm.digestReads_fileReads, hdigest]

/-- What the tree offers, with the digest given instead of computed. -/
def givenDigest : Collaborators :=
  hashedTree.collaborators.withDigests fun _ _ => .ok "9dd4e461268c8034f5c8564e155c67a6"

set_option maxRecDepth 4000 in
theorem draftHeader_givenDigest :
    draftHeader { style := .slashes } givenDigest hashedRecord = (.ok (), hashedDraft) := rfl

theorem eq_of_mem_calls_hashedDraft {path : String} {algorithm : HashAlgorithm}
    (h : .hash path algorithm ∈ hashedDraft.calls) : path = "/l.js" ∧ algorithm = .md5 := by
  simpa [hashedDraft] using h

theorem agreeOn_hashedDraft :
    AgreeOn hashedDraft givenDigest.digestFile hashedTree.digestFile := by
  intro path algorithm hcall
  obtain ⟨rfl, rfl⟩ := eq_of_mem_calls_hashedDraft hcall
  exact digestFile_hashedTree

theorem draftHeader_hashedTree :
    draftHeader (hashedRequest.overrides.apply ({ style := .slashes } : Config).options)
      hashedTree.collaborators hashedRecord = (.ok (), hashedDraft) := by
  have hoptions : hashedRequest.overrides.apply ({ style := .slashes } : Config).options =
      { style := .slashes } := rfl
  have hcollaborators : hashedTree.collaborators = givenDigest.withDigests hashedTree.digestFile :=
    rfl
  have hagree : AgreeOn (draftHeader { style := .slashes } givenDigest hashedRecord).2
      givenDigest.digestFile hashedTree.digestFile := by
    rw [draftHeader_givenDigest]
    exact agreeOn_hashedDraft
  rw [hoptions, hcollaborators, draftHeader_withDigests _ _ _ hagree, draftHeader_givenDigest]

theorem makeHeader_hashedTree : makeHeader hashedTree none hashedRequest = .ok hashedHeader := by
  refine makeHeader_eq_ok.mpr ⟨_, _, loadRecord_hashedTree, loadOptional_hashedTree, ?_⟩
  rw [headerText, draftHeader_hashedTree]
  rfl

theorem writeWith_hashedTree (script : ByteArray) :
    hashedTree.writeWith .numbered "dist/a.js" script = (.ok (), hashedTreeWith script) := by
  have habove : pathsAbove "dist/a.js" = ["dist"] := by cbv
  simp only [FileTree.writeWith, habove]
  rfl

theorem findsSame_hashedTreeWith (script : ByteArray) :
    hashedRequest.FindsSame none hashedTree (hashedTreeWith script) := by
  have hconfig : hashedTree.contains defaultConfigPath = true := rfl
  refine ⟨rfl, fun _ => rfl, fun hneeds => ?_, fun path algorithm hcall => ?_⟩
  · exact Bool.noConfusion (hconfig.symm.trans hneeds.2.2)
  · rw [HeaderRequest.draft_of_load loadRecord_hashedTree loadOptional_hashedTree,
      draftHeader_hashedTree] at hcall
    obtain ⟨rfl, rfl⟩ := eq_of_mem_calls_hashedDraft hcall
    rfl

theorem runWith_check_of_generate_hashed :
    (Command.generate hashedRequest (some "dist/a.js")).runWith .numbered hashedTree none =
        (.ok "", hashedTreeWith (hashedHeader ++ "\n").toUTF8) ∧
      (Command.check hashedRequest "dist/a.js").runWith .numbered
          (hashedTreeWith (hashedHeader ++ "\n").toUTF8) none =
        (.ok "", hashedTreeWith (hashedHeader ++ "\n").toUTF8) := by
  have hgenerate := runWith_generate_of_write makeHeader_hashedTree
    (writeWith_hashedTree (hashedHeader ++ "\n").toUTF8)
  exact ⟨hgenerate, runWith_check_of_generate hgenerate (findsSame_hashedTreeWith _)⟩

end Hashed

end Userscript
