import Userscript.Command.Run
import Userscript.Proofs.Command.Loading
import Userscript.Proofs.FileTree.Writing

/-! What a command may change. A check changes nothing, and neither does a
header that cannot be made; a header that is written takes its place as a whole
or not at all. -/

namespace Userscript

variable {t t' : FileTree} {environment : Option String} {request : HeaderRequest} {out s : String}
  {files : TemporaryFiles}

theorem runWith_generate_of_error {e : CommandError}
    (h : makeHeader t environment request = .error e) (out : Option String) :
    (Command.generate request out).runWith files t environment = (.error e, t) := by
  simp only [Command.runWith, h]

theorem runWith_generate_of_ok {header : String}
    (h : makeHeader t environment request = .ok header) :
    (Command.generate request none).runWith files t environment = (.ok (header ++ "\n"), t) := by
  simp only [Command.runWith, h]

theorem runWith_generate_of_write {header : String}
    (h : makeHeader t environment request = .ok header)
    (hw : t.writeWith files out (header ++ "\n").toUTF8 = (.ok (), t')) :
    (Command.generate request (some out)).runWith files t environment = (.ok "", t') := by
  simp only [Command.runWith, h, hw]

theorem runWith_generate_of_write_error {header : String} {e : WriteError}
    (h : makeHeader t environment request = .ok header)
    (hw : t.writeWith files out (header ++ "\n").toUTF8 = (.error e, t')) :
    (Command.generate request (some out)).runWith files t environment =
      (.error (.writing e), t') := by
  simp only [Command.runWith, h, hw]

theorem runWith_generate_eq_ok
    (h : (Command.generate request (some out)).runWith files t environment = (.ok s, t')) :
    s = "" ∧ ∃ header, makeHeader t environment request = .ok header ∧
      t.writeWith files out (header ++ "\n").toUTF8 = (.ok (), t') := by
  cases hheader : makeHeader t environment request with
  | error e =>
    rw [runWith_generate_of_error hheader] at h
    cases h
  | ok header =>
    rcases hwrite : t.writeWith files out (header ++ "\n").toUTF8 with ⟨e | u, t₁⟩
    · rw [runWith_generate_of_write_error hheader hwrite] at h
      cases h
    · rw [runWith_generate_of_write hheader hwrite] at h
      obtain ⟨hs, rfl⟩ := Prod.mk.inj h
      exact ⟨(Except.ok.inj hs).symm, header, rfl, hwrite⟩

/-- Where nothing was made or written, at most directories were added. -/
theorem grown_of_runWith_generate_error {e : CommandError}
    (h : (Command.generate request (some out)).runWith files t environment = (.error e, t')) :
    FileTree.Grown (pathsAbove out) t t' := by
  cases hheader : makeHeader t environment request with
  | error e' =>
    rw [runWith_generate_of_error hheader] at h
    obtain ⟨_, rfl⟩ := Prod.mk.inj h
    exact FileTree.Grown.refl _ t
  | ok header =>
    rcases hwrite : t.writeWith files out (header ++ "\n").toUTF8 with ⟨e' | u, t₁⟩
    · rw [runWith_generate_of_write_error hheader hwrite] at h
      obtain ⟨_, rfl⟩ := Prod.mk.inj h
      exact FileTree.grown_of_writeWith_error hwrite
    · rw [runWith_generate_of_write hheader hwrite] at h
      cases h

/-- Commands fail closed and write atomically: a check leaves the tree alone, and
so does a header that cannot be made, of which only the error is printed. A header
that is written stands where its path leads, with the text that is printed without
a path, and one that cannot be written leaves at most new directories above its
path. -/
theorem runWith_fails_closed (files : TemporaryFiles) (t : FileTree) (environment : Option String)
    (request : HeaderRequest) :
    (∀ script, ((Command.check request script).runWith files t environment).2 = t) ∧
    (∀ e, makeHeader t environment request = .error e → ∀ out,
      (Command.generate request out).runWith files t environment = (.error e, t) ∧
        Outcome.ofResult ((Command.generate request out).runWith files t environment).1 =
          ⟨1, "", e.message ++ "\n"⟩) ∧
    (∀ out s t', (Command.generate request (some out)).runWith files t environment = (.ok s, t') →
      Outcome.ofResult (.ok s) = ⟨0, "", ""⟩ ∧
      ∃ header place, makeHeader t environment request = .ok header ∧
        (Command.generate request none).runWith files t environment = (.ok (header ++ "\n"), t) ∧
        Outcome.ofResult ((Command.generate request none).runWith files t environment).1 =
          ⟨0, header ++ "\n", ""⟩ ∧
        t'.find out = .ok place ∧ t'.entryAt place = some (.file (header ++ "\n").toUTF8) ∧
        t'.workingPlace = t.workingPlace ∧
        ∀ other, other ≠ place → FileTree.KeptOrMade (pathsAbove out) t t' other) ∧
    (∀ out e t',
      (Command.generate request (some out)).runWith files t environment = (.error e, t') →
      Outcome.ofResult (.error e) = ⟨1, "", e.message ++ "\n"⟩ ∧
        FileTree.Grown (pathsAbove out) t t') := by
  refine ⟨fun script => ?_, ?_, ?_, fun out e t' h => ⟨rfl, grown_of_runWith_generate_error h⟩⟩
  · simp only [Command.runWith]
    split <;> rfl
  · intro e h out
    have hrun : (Command.generate request out).runWith files t environment = (.error e, t) :=
      runWith_generate_of_error h out
    rw [hrun]
    exact ⟨rfl, rfl⟩
  · intro out s t' h
    obtain ⟨rfl, header, hheader, hwrite⟩ := runWith_generate_eq_ok h
    obtain ⟨place, hworking, hfind, hplace, hother⟩ := FileTree.exists_place_of_writeWith_ok hwrite
    have hprint : (Command.generate request none).runWith files t environment =
        (.ok (header ++ "\n"), t) := runWith_generate_of_ok hheader
    rw [hprint]
    exact ⟨rfl, header, place, hheader, rfl, rfl, hfind, hplace, hworking, hother⟩

/-! A write that fails only at its end: the directory is made, the file fits
into it, but nothing can be moved to a path with a slash behind it. -/

section Slashed

def plainRecordText : String :=
  "\x7b\"name\":\"a\",\"version\":\"1\",\"author\":\"me\"\x7d"

def plainTree : FileTree where
  entries := [(["meta.json"], .file plainRecordText.toUTF8)]
  workingPlace := []

def plainTreeGrown : FileTree :=
  { plainTree with entries := (["dist"], .directory) :: plainTree.entries }

theorem loadRecord_plainTree :
    loadRecord plainTree "meta.json" = .ok (Record.ofRequired "a" "1" "me") := by
  have hread : Document.read plainRecordText = some (.object [("name", some (.string "a")),
      ("version", some (.string "1")), ("author", some (.string "me"))]) := by
    cbv
  refine loadRecord_of_read rfl (by decide) ?_
  rw [Record.ofText?, hread]
  rfl

theorem makeHeader_plainTree :
    makeHeader plainTree none ⟨"meta.json", none, {}⟩ = .ok
      "/*\n==UserScript==\n@name a\n@version 1\n@author me\n==/UserScript==\n*/" :=
  makeHeader_eq_ok.mpr ⟨_, _, loadRecord_plainTree, rfl, rfl⟩

theorem writeWith_plainTree (contents : ByteArray) :
    plainTree.writeWith .numbered "dist/lib/" contents =
      (.error (.replacing "dist/lib/" .notDirectory), plainTreeGrown) := by
  have habove : pathsAbove "dist/lib/" = ["dist"] := by cbv
  simp only [FileTree.writeWith, habove]
  rfl

theorem runWith_fails_closed_of_slash :
    (Command.generate ⟨"meta.json", none, {}⟩ (some "dist/lib/")).runWith .numbered plainTree none =
        (.error (.writing (.replacing "dist/lib/" .notDirectory)), plainTreeGrown) ∧
      Outcome.ofResult (.error (.writing (.replacing "dist/lib/" .notDirectory))) =
        ⟨1, "", "io error: dist/lib/: Not a directory (os error 20)\n"⟩ ∧
      FileTree.Grown (pathsAbove "dist/lib/") plainTree plainTreeGrown := by
  have hrun := runWith_generate_of_write_error makeHeader_plainTree (writeWith_plainTree _)
  exact ⟨hrun, (runWith_fails_closed .numbered plainTree none ⟨"meta.json", none, {}⟩).2.2.2 _ _ _
    hrun⟩

end Slashed

end Userscript
