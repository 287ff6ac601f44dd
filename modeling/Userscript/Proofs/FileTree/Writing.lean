import Userscript.Proofs.FileTree.Walking

/-! What a write may change. Every step of it adds a directory, adds or removes
the temporary file, or puts that file in the place of another one; so a write
that fails leaves nothing behind but directories above its path, and one that
succeeds changes no other file. -/

namespace Userscript

namespace FileTree

/-- What is at a place was there before, or it is a directory that one of the
paths leads to, where nothing was. -/
def KeptOrMade (paths : List String) (t t' : FileTree) (place : Place) : Prop :=
  t'.entryAt place = t.entryAt place ∨
    t.entryAt place = none ∧ t'.entryAt place = some .directory ∧
      ∃ path ∈ paths, t'.find path = .ok place

/-- A tree that nothing but directories was added to. -/
structure Grown (paths : List String) (t t' : FileTree) : Prop where
  workingPlace : t'.workingPlace = t.workingPlace
  keptOrMade : ∀ place, KeptOrMade paths t t' place

variable {paths : List String} {path directory : String} {t t' t₁ t₂ : FileTree} {place : Place}
  {contents : ByteArray}

theorem KeptOrMade.of_keeps (h : KeptOrMade paths t t₁ place) (hk : KeepsDirectories t₁ t')
    (he : t'.entryAt place = t₁.entryAt place) : KeptOrMade paths t t' place := by
  rcases h with h | ⟨hnone, hdir, path, hpath, hfind⟩
  · exact .inl (he.trans h)
  · refine .inr ⟨hnone, he.trans hdir, path, hpath, ?_⟩
    exact find_of_keeps hk hfind (isDirectory_iff.mpr hdir)

namespace Grown

theorem refl (paths : List String) (t : FileTree) : Grown paths t t :=
  ⟨rfl, fun _ => .inl rfl⟩

theorem mono {more : List String} (h : Grown paths t t') (hsub : paths ⊆ more) :
    Grown more t t' := by
  refine ⟨h.workingPlace, fun place => ?_⟩
  rcases h.keptOrMade place with he | ⟨hnone, hdir, path, hpath, hfind⟩
  · exact .inl he
  · exact .inr ⟨hnone, hdir, path, hsub hpath, hfind⟩

theorem keepsDirectories (h : Grown paths t t') : KeepsDirectories t t' := by
  refine ⟨h.workingPlace, fun place hd => ?_⟩
  have hentry := isDirectory_iff.mp hd
  rcases h.keptOrMade place with he | ⟨hnone, _⟩
  · exact isDirectory_iff.mpr (he.trans hentry)
  · rw [hnone] at hentry
    cases hentry

theorem trans (h : Grown paths t t₁) (h' : Grown paths t₁ t₂) : Grown paths t t₂ := by
  refine ⟨h'.workingPlace.trans h.workingPlace, fun place => ?_⟩
  rcases h'.keptOrMade place with he | ⟨hnone, hdir, hfind⟩
  · exact (h.keptOrMade place).of_keeps h'.keepsDirectories he
  · rcases h.keptOrMade place with he | ⟨_, hdir₁, _⟩
    · exact .inr ⟨he.symm.trans hnone, hdir, hfind⟩
    · rw [hnone] at hdir₁
      cases hdir₁

/-- A file that came and went leaves no trace. -/
theorem of_entryAt_eq (h : Grown paths t t₁) (hw : t'.workingPlace = t₁.workingPlace)
    (he : ∀ place, t'.entryAt place = t₁.entryAt place) : Grown paths t t' := by
  have hk : KeepsDirectories t₁ t' := ⟨hw, fun place hd => by
    rw [isDirectory_iff] at hd ⊢
    rw [he, hd]⟩
  exact ⟨hw.trans h.workingPlace, fun place => (h.keptOrMade place).of_keeps hk (he place)⟩

end Grown

theorem isDirectory_of_none (h : t.entryAt place = none) : t.isDirectory place = false := by
  simp [isDirectory, h]

theorem target_place_ne_nil (target : Target) : target.place ≠ [] := List.cons_ne_nil _ _

theorem makeDirectory_eq_ok (h : t.makeDirectory path = .ok t') :
    ∃ target, t.target path = .ok target ∧ target.isNamed = true ∧
      target.name.utf8ByteSize ≤ maxNameSize ∧ t.entryAt target.place = none ∧
      t' = t.put target.place .directory := by
  rw [makeDirectory] at h
  obtain ⟨target, htarget, h⟩ := bind_eq_ok.mp h
  by_cases hnamed : target.isNamed = true
  · by_cases hlong : maxNameSize < target.name.utf8ByteSize
    · simp [hnamed, hlong] at h
    · cases hentry : t.entryAt target.place with
      | some entry => simp [hnamed, hlong, hentry] at h
      | none =>
        simp only [hnamed, hlong, hentry, Bool.not_true, Bool.false_eq_true, if_false,
          Option.isSome_none, Except.ok.injEq] at h
        exact ⟨target, htarget, hnamed, Nat.not_lt.mp hlong, hentry, h.symm⟩
  · simp [hnamed] at h

theorem grown_of_makeDirectory (h : t.makeDirectory path = .ok t') : Grown [path] t t' := by
  obtain ⟨target, htarget, hnamed, hshort, hnone, rfl⟩ := makeDirectory_eq_ok h
  have hne := target_place_ne_nil target
  have hput := entryAt_put t target.place target.place .directory hne
  rw [if_pos rfl] at hput
  refine ⟨rfl, fun place => ?_⟩
  by_cases hplace : place = target.place
  · subst hplace
    have hk := KeepsDirectories.put hne (isDirectory_of_none hnone) .directory
    have hfind := find_of_target hk htarget hnamed hshort (by rw [hput]; rfl)
      fun _ => isDirectory_iff.mpr hput
    exact .inr ⟨hnone, hput, path, by simp, hfind⟩
  · refine .inl ?_
    rw [entryAt_put t target.place place .directory hne, if_neg hplace]

theorem grown_of_ensureDirectory (t : FileTree) (path : String) :
    Grown [path] t (t.ensureDirectory path).2 := by
  unfold ensureDirectory
  split
  · next h => exact grown_of_makeDirectory h
  · exact Grown.refl _ t

theorem grown_of_ensureDirectories (t : FileTree) (paths : List String) :
    Grown paths t (t.ensureDirectories paths).2 := by
  induction paths generalizing t with
  | nil => exact Grown.refl _ t
  | cons path above ih =>
    have habove : Grown (path :: above) t (t.ensureDirectories above).2 :=
      (ih t).mono (List.subset_cons_self path above)
    have hpath : ∀ t, Grown (path :: above) t (t.ensureDirectory path).2 :=
      fun t => (grown_of_ensureDirectory t path).mono (by simp)
    rw [ensureDirectories]
    split
    · split
      · next t₁ he =>
        rw [he] at habove
        exact habove.trans (hpath t₁)
      · exact habove
    · exact hpath t

theorem makeTemporary_eq_ok {files : TemporaryFiles}
    (h : t.makeTemporary files directory = .ok (place, t')) :
    place ≠ [] ∧ t.entryAt place = none ∧ t' = t.put place (.file ByteArray.empty) := by
  rw [makeTemporary] at h
  obtain ⟨parent, _, h⟩ := bind_eq_ok.mp h
  obtain ⟨name, hname, h⟩ := bind_eq_ok.mp h
  obtain ⟨_, _, h⟩ := bind_eq_ok.mp h
  by_cases hdir : t.isDirectory parent = true
  · rw [if_pos hdir] at h
    obtain ⟨rfl, rfl⟩ := Prod.mk.inj (Except.ok.inj h)
    exact ⟨List.cons_ne_nil _ _, files.name_fresh t parent name hname, rfl⟩
  · rw [if_neg hdir] at h
    cases h

theorem move_eq_ok (h : t.move place path = .ok t') :
    ∃ target entry, t.target path = .ok target ∧ target.isNamed = true ∧
      target.name.utf8ByteSize ≤ maxNameSize ∧ target.slashed = false ∧
      t.isDirectory target.place = false ∧ t.entryAt place = some entry ∧
      t' = (t.remove place).put target.place entry := by
  rw [move] at h
  obtain ⟨target, htarget, h⟩ := bind_eq_ok.mp h
  by_cases hnamed : target.isNamed = true
  · by_cases hlong : maxNameSize < target.name.utf8ByteSize
    · simp [hnamed, hlong] at h
    · by_cases hslashed : target.slashed = true
      · simp [hnamed, hlong, hslashed] at h
      · by_cases hdir : t.isDirectory target.place = true
        · simp [hnamed, hlong, hslashed, hdir] at h
        · cases hentry : t.entryAt place with
          | none => simp [hnamed, hlong, hslashed, hdir, hentry] at h
          | some entry =>
            simp only [hnamed, hlong, hslashed, hdir, hentry, Bool.not_true, Bool.false_eq_true,
              if_false, Except.ok.injEq] at h
            exact ⟨target, entry, htarget, hnamed, Nat.not_lt.mp hlong, by simpa using hslashed,
              by simpa using hdir, rfl, h.symm⟩
  · simp [hnamed] at h

/-- A write stops before or after the temporary file is made, which it then
removes, or it moves that file into place. -/
theorem writeWith_cases {files : TemporaryFiles} {r : Except WriteError Unit}
    (h : t.writeWith files path contents = (r, t'))
    (hensure : (t.ensureDirectories (pathsAbove path)).2 = t₁) :
    (∃ e, r = .error e ∧ (t' = t₁ ∨ ∃ temporary, temporary ≠ [] ∧ t₁.entryAt temporary = none ∧
      t' = (t₁.put temporary (.file ByteArray.empty)).remove temporary)) ∨
    (r = .ok () ∧ ∃ temporary, temporary ≠ [] ∧ t₁.entryAt temporary = none ∧
      ((t₁.put temporary (.file ByteArray.empty)).put temporary (.file contents)).move temporary
        path = .ok t') := by
  rw [writeWith] at h
  rcases hmade : t.ensureDirectories (pathsAbove path) with ⟨_ | _, t₂⟩
  · simp only [hmade, Prod.mk.injEq] at h hensure
    exact .inl ⟨_, h.1.symm, .inl (h.2.symm.trans hensure)⟩
  · simp only [hmade] at h hensure
    subst hensure
    cases htemporary : t₂.makeTemporary files ((pathsAbove path).headD ".") with
    | error e =>
      simp only [htemporary, Prod.mk.injEq] at h
      exact .inl ⟨_, h.1.symm, .inl h.2.symm⟩
    | ok made =>
      obtain ⟨temporary, t₃⟩ := made
      obtain ⟨hne, hnone, rfl⟩ := makeTemporary_eq_ok htemporary
      simp only [htemporary] at h
      cases hfill : files.fill (t₂.put temporary (.file ByteArray.empty)) temporary contents with
      | error e =>
        simp only [hfill, Prod.mk.injEq] at h
        exact .inl ⟨_, h.1.symm, .inr ⟨temporary, hne, hnone, h.2.symm⟩⟩
      | ok u =>
        simp only [hfill] at h
        split at h
        · next t₄ hmove =>
          simp only [Prod.mk.injEq] at h
          exact .inr ⟨h.1.symm, temporary, hne, hnone, h.2 ▸ hmove⟩
        · simp only [Prod.mk.injEq] at h
          exact .inl ⟨_, h.1.symm, .inr ⟨temporary, hne, hnone, h.2.symm⟩⟩

theorem entryAt_put_remove (hne : place ≠ []) (hnone : t.entryAt place = none) (entry : Entry)
    (other : Place) : ((t.put place entry).remove place).entryAt other = t.entryAt other := by
  by_cases hnil : other = []
  · rw [hnil, entryAt_nil, entryAt_nil]
  · rw [entryAt_remove _ _ _ hnil, entryAt_put _ _ _ _ hne]
    by_cases hother : other = place
    · rw [if_pos hother, hother, hnone]
    · rw [if_neg hother, if_neg hother]

theorem grown_of_writeWith_error {files : TemporaryFiles} {e : WriteError}
    (h : t.writeWith files path contents = (.error e, t')) : Grown (pathsAbove path) t t' := by
  have hgrown := grown_of_ensureDirectories t (pathsAbove path)
  rcases writeWith_cases h rfl with ⟨_, _, rfl | ⟨temporary, hne, hnone, rfl⟩⟩ | ⟨hok, _⟩
  · exact hgrown
  · exact hgrown.of_entryAt_eq rfl (entryAt_put_remove hne hnone _)
  · cases hok

theorem isDirectory_of_file (h : t.entryAt place = some (.file contents)) :
    t.isDirectory place = false := by
  simp [isDirectory, h]

theorem isDirectory_remove (source : Place) (hne : place ≠ []) (h : t.isDirectory place = false) :
    (t.remove source).isDirectory place = false := by
  rw [isDirectory, entryAt_remove t source place hne]
  by_cases hplace : place = source
  · simp [hplace]
  · rw [if_neg hplace]
    exact h

/-- A file that is moved stands where the path leads, and nowhere else does
anything change but where it was. -/
theorem exists_place_of_move {source : Place} (hne : source ≠ [])
    (hfile : t.entryAt source = some (.file contents)) (h : t.move source path = .ok t') :
    ∃ place, KeepsDirectories t t' ∧ t'.find path = .ok place ∧
      t'.entryAt place = some (.file contents) ∧
      ∀ other, other ≠ place →
        t'.entryAt other = if other = source then none else t.entryAt other := by
  obtain ⟨target, entry, htarget, hnamed, hshort, hslashed, hdir, hentry, rfl⟩ := move_eq_ok h
  obtain rfl : Entry.file contents = entry := Option.some.inj (hfile.symm.trans hentry)
  have hplace := target_place_ne_nil target
  have hk : KeepsDirectories t ((t.remove source).put target.place (.file contents)) :=
    (KeepsDirectories.remove (isDirectory_of_file hfile)).trans
      (KeepsDirectories.put hplace (isDirectory_remove source hplace hdir) _)
  have hput : ((t.remove source).put target.place (.file contents)).entryAt target.place =
      some (.file contents) := by
    rw [entryAt_put _ _ _ _ hplace, if_pos rfl]
  refine ⟨target.place, hk, ?_, hput, fun other hother => ?_⟩
  · exact find_of_target hk htarget hnamed hshort (by rw [hput]; rfl) fun hs => by
      rw [hslashed] at hs
      cases hs
  · rw [entryAt_put _ _ _ _ hplace, if_neg hother]
    by_cases hnil : other = []
    · rw [hnil, if_neg (Ne.symm hne), entryAt_nil, entryAt_nil]
    · exact entryAt_remove t source other hnil

/-- A write that succeeds puts the contents where its path leads, and has made
directories above it. -/
theorem exists_place_of_writeWith_ok {files : TemporaryFiles}
    (h : t.writeWith files path contents = (.ok (), t')) :
    ∃ place, t'.workingPlace = t.workingPlace ∧ t'.find path = .ok place ∧
      t'.entryAt place = some (.file contents) ∧
      ∀ other, other ≠ place → KeptOrMade (pathsAbove path) t t' other := by
  have hgrown := grown_of_ensureDirectories t (pathsAbove path)
  rcases writeWith_cases h rfl with ⟨_, herror, _⟩ | ⟨_, temporary, hne, hnone, hmove⟩
  · cases herror
  · have hempty : ((t.ensureDirectories (pathsAbove path)).2.put temporary
        (.file ByteArray.empty)).entryAt temporary = some (.file ByteArray.empty) := by
      rw [entryAt_put _ _ _ _ hne, if_pos rfl]
    have hfilled := entryAt_put ((t.ensureDirectories (pathsAbove path)).2.put temporary
      (.file ByteArray.empty)) temporary temporary (.file contents) hne
    rw [if_pos rfl] at hfilled
    obtain ⟨place, hk, hfind, hplace, hother⟩ := exists_place_of_move hne hfilled hmove
    have hkeeps := ((KeepsDirectories.put hne (isDirectory_of_none hnone) _).trans
      (KeepsDirectories.put hne (isDirectory_of_file hempty) _)).trans hk
    refine ⟨place, hkeeps.workingPlace.trans hgrown.workingPlace, hfind, hplace, fun other ho => ?_⟩
    refine (hgrown.keptOrMade other).of_keeps hkeeps ?_
    rw [hother other ho]
    by_cases htemporary : other = temporary
    · rw [if_pos htemporary, htemporary, hnone]
    · rw [if_neg htemporary, entryAt_put _ _ _ _ hne, if_neg htemporary, entryAt_put _ _ _ _ hne,
        if_neg htemporary]

end FileTree

end Userscript
