import Mathlib.Data.List.TakeWhile
import Userscript.FileTree.Write

/-! Following paths in a tree that changes. A path that leads to a directory
still leads there as long as directories stay what they are, since each step but
the last one starts from a directory. -/

namespace Userscript

theorem bind_eq_ok {ε α β : Type} {x : Except ε α} {f : α → Except ε β} {b : β} :
    (x >>= f) = .ok b ↔ ∃ a, x = .ok a ∧ f a = .ok b := by
  cases x with
  | error e =>
    refine ⟨fun h => ?_, fun ⟨a, h, _⟩ => ?_⟩
    · cases h
    · cases h
  | ok a =>
    refine ⟨fun h => ⟨a, rfl, h⟩, fun ⟨c, h, hf⟩ => ?_⟩
    obtain rfl : a = c := Except.ok.inj h
    exact hf

namespace FileTree

/-- Paths start from the same place, and directories stay directories. -/
structure KeepsDirectories (t t' : FileTree) : Prop where
  workingPlace : t'.workingPlace = t.workingPlace
  isDirectory : ∀ place, t.isDirectory place = true → t'.isDirectory place = true

variable {t t' t₁ t₂ : FileTree} {path piece : String} {pieces : List String}
  {start place next : Place}

theorem isDirectory_iff : t.isDirectory place = true ↔ t.entryAt place = some .directory := by
  simp [isDirectory]

namespace KeepsDirectories

theorem trans (h : KeepsDirectories t t₁) (h' : KeepsDirectories t₁ t₂) : KeepsDirectories t t₂ :=
  ⟨h'.workingPlace.trans h.workingPlace,
    fun place hd => h'.isDirectory place (h.isDirectory place hd)⟩

theorem put (hne : place ≠ []) (h : t.isDirectory place = false) (entry : Entry) :
    KeepsDirectories t (t.put place entry) := by
  refine ⟨rfl, fun other hd => ?_⟩
  have hother : other ≠ place := by
    rintro rfl
    rw [h] at hd
    cases hd
  rw [FileTree.isDirectory, entryAt_put t place other entry hne, if_neg hother]
  exact hd

theorem remove (h : t.isDirectory place = false) : KeepsDirectories t (t.remove place) := by
  refine ⟨rfl, fun other hd => ?_⟩
  have hother : other ≠ place := by
    rintro rfl
    rw [h] at hd
    cases hd
  by_cases hnil : other = []
  · rw [hnil]
    exact isDirectory_iff.mpr (entryAt_nil _)
  · rw [FileTree.isDirectory, entryAt_remove t place other hnil, if_neg hother]
    exact hd

end KeepsDirectories

/-- Each step starts from a directory and stays there, leads up, or leads to an
entry of it. -/
theorem step_eq_ok :
    t.step place piece = .ok next ↔ t.isDirectory place = true ∧
      (isIdlePiece piece = true ∧ next = place ∨
        isIdlePiece piece = false ∧ piece = ".." ∧ next = place.tail ∨
        isIdlePiece piece = false ∧ piece ≠ ".." ∧ piece.utf8ByteSize ≤ maxNameSize ∧
          (t.entryAt (piece :: place)).isSome = true ∧ next = piece :: place) := by
  rw [step, eq_comm (a := next), eq_comm (a := next), eq_comm (a := next)]
  by_cases hdir : t.isDirectory place = true
  · by_cases hidle : isIdlePiece piece = true
    · simp [hdir, hidle]
    · by_cases hup : piece = ".."
      · subst hup
        simp [hdir, hidle]
      · by_cases hlong : maxNameSize < piece.utf8ByteSize
        · simp [hdir, hidle, hup, hlong, Nat.not_le.mpr hlong]
        · have hshort := Nat.not_lt.mp hlong
          cases t.entryAt (piece :: place) with
          | none => simp [hdir, hidle, hup, hlong]
          | some entry => simp [hdir, hidle, hup, hlong, hshort]
  · simp [hdir]

theorem step_of_keeps (hk : KeepsDirectories t t') (h : t.step place piece = .ok next)
    (hnext : t.isDirectory next = true) : t'.step place piece = .ok next := by
  obtain ⟨hdir, hstep⟩ := step_eq_ok.mp h
  refine step_eq_ok.mpr ⟨hk.isDirectory place hdir, ?_⟩
  rcases hstep with hidle | hup | ⟨hidle, hup, hshort, _, rfl⟩
  · exact .inl hidle
  · exact .inr (.inl hup)
  · have hentry := isDirectory_iff.mp (hk.isDirectory _ hnext)
    exact .inr (.inr ⟨hidle, hup, hshort, by rw [hentry]; rfl, rfl⟩)

theorem foldlM_step_cons :
    (piece :: pieces).foldlM t.step start = .ok place ↔
      ∃ next, t.step start piece = .ok next ∧ pieces.foldlM t.step next = .ok place := by
  rw [List.foldlM_cons]
  exact bind_eq_ok

theorem foldlM_step_append {before : List String} :
    (before ++ pieces).foldlM t.step start = .ok place ↔
      ∃ next, before.foldlM t.step start = .ok next ∧ pieces.foldlM t.step next = .ok place := by
  rw [List.foldlM_append]
  exact bind_eq_ok

theorem isDirectory_of_foldlM (h : pieces.foldlM t.step start = .ok place)
    (hplace : t.isDirectory place = true) : t.isDirectory start = true := by
  cases pieces with
  | nil =>
    obtain rfl : start = place := Except.ok.inj h
    exact hplace
  | cons piece pieces =>
    obtain ⟨next, hstep, _⟩ := foldlM_step_cons.mp h
    exact (step_eq_ok.mp hstep).1

theorem foldlM_step_of_keeps (hk : KeepsDirectories t t')
    (h : pieces.foldlM t.step start = .ok place) (hplace : t.isDirectory place = true) :
    pieces.foldlM t'.step start = .ok place := by
  induction pieces generalizing start with
  | nil => exact h
  | cons piece pieces ih =>
    obtain ⟨next, hstep, hrest⟩ := foldlM_step_cons.mp h
    have hnext := isDirectory_of_foldlM hrest hplace
    exact foldlM_step_cons.mpr ⟨next, step_of_keeps hk hstep hnext, ih hrest⟩

theorem foldlM_step_empty (h : t.isDirectory place = true) (hpieces : ∀ p ∈ pieces, p = "") :
    pieces.foldlM t.step place = .ok place := by
  induction pieces with
  | nil => rfl
  | cons piece pieces ih =>
    have hstep : t.step place piece = .ok place :=
      step_eq_ok.mpr ⟨h, .inl ⟨by rw [hpieces piece (by simp)]; rfl, rfl⟩⟩
    exact foldlM_step_cons.mpr ⟨place, hstep, ih fun p hp => hpieces p (by simp [hp])⟩

theorem origin_eq (h : t'.workingPlace = t.workingPlace) : t'.origin path = t.origin path := by
  unfold origin
  rw [h]

theorem find_eq_ok :
    t.find path = .ok place ↔
      checkPath path = .ok () ∧ (t.origin path).2.foldlM t.step (t.origin path).1 = .ok place := by
  rw [find, bind_eq_ok]
  exact ⟨fun ⟨_, h⟩ => h, fun h => ⟨(), h⟩⟩

theorem find_of_keeps (hk : KeepsDirectories t t') (h : t.find path = .ok place)
    (hplace : t.isDirectory place = true) : t'.find path = .ok place := by
  obtain ⟨hcheck, hwalk⟩ := find_eq_ok.mp h
  refine find_eq_ok.mpr ⟨hcheck, ?_⟩
  rw [origin_eq hk.workingPlace]
  exact foldlM_step_of_keeps hk hwalk hplace

theorem read_eq_ok {contents : ByteArray} :
    t.read path = .ok contents ↔
      ∃ place, t.find path = .ok place ∧ t.entryAt place = some (.file contents) := by
  rw [read, bind_eq_ok]
  refine exists_congr fun place => and_congr_right fun _ => ?_
  rcases t.entryAt place with _ | ⟨_ | _⟩ <;> simp

theorem exists_slashes {name : String} {back : List String}
    (h : pieces.reverse.dropWhile (· = "") = name :: back) :
    ∃ slashes, pieces = back.reverse ++ name :: slashes ∧ (∀ p ∈ slashes, p = "") ∧
      (pieces.getLast? ≠ some "" → slashes = []) := by
  have hsplit := List.takeWhile_append_dropWhile (p := (· = "")) (l := pieces.reverse)
  rw [h] at hsplit
  have hpieces : pieces = back.reverse ++ name :: (pieces.reverse.takeWhile (· = "")).reverse := by
    simpa using (congrArg List.reverse hsplit).symm
  have hempty : ∀ p ∈ (pieces.reverse.takeWhile (· = "")).reverse, p = "" := fun p hp => by
    simpa using List.mem_takeWhile_imp (List.mem_reverse.mp hp)
  refine ⟨_, hpieces, hempty, fun hlast => ?_⟩
  rcases List.eq_nil_or_concat (pieces.reverse.takeWhile (· = "")).reverse with hnil | hconcat
  · exact hnil
  · obtain ⟨front, last, hconcat⟩ := hconcat
    have hend : pieces = (back.reverse ++ name :: front) ++ [last] := by
      rw [hpieces, hconcat]
      simp
    refine absurd ?_ hlast
    rw [hend, List.getLast?_concat, hempty last (by rw [hconcat]; simp)]

/-- The pieces of a path up to a name, behind which only slashes stand. -/
theorem exists_pieces_of_target {target : Target} (h : t.target path = .ok target)
    (hnamed : target.isNamed = true) :
    checkPath path = .ok () ∧ t.isDirectory target.directory = true ∧
      ∃ before slashes, (t.origin path).2 = before ++ target.name :: slashes ∧
        before.foldlM t.step (t.origin path).1 = .ok target.directory ∧
        (∀ p ∈ slashes, p = "") ∧ (target.slashed = false → slashes = []) := by
  rw [FileTree.target] at h
  obtain ⟨_, hcheck, h⟩ := bind_eq_ok.mp h
  rcases horigin : t.origin path with ⟨start, pieces⟩
  simp only [horigin] at h
  cases hdrop : pieces.reverse.dropWhile (· = "") with
  | nil =>
    simp only [hdrop] at h
    obtain rfl := Except.ok.inj h
    simp [Target.isNamed, isIdlePiece] at hnamed
  | cons name back =>
    simp only [hdrop] at h
    obtain ⟨directory, hwalk, h⟩ := bind_eq_ok.mp h
    obtain ⟨slashes, hpieces, hempty, hlast⟩ := exists_slashes hdrop
    by_cases hdir : t.isDirectory directory = true
    · rw [if_pos hdir] at h
      obtain rfl := Except.ok.inj h
      exact ⟨hcheck, hdir, back.reverse, slashes, hpieces, hwalk, hempty,
        fun hslash => hlast (by simpa using hslash)⟩
    · rw [if_neg hdir] at h
      cases h

/-- A path to a name leads to its entry, if slashes follow only a directory. -/
theorem find_of_target {target : Target} (hk : KeepsDirectories t t')
    (h : t.target path = .ok target) (hnamed : target.isNamed = true)
    (hshort : target.name.utf8ByteSize ≤ maxNameSize)
    (hentry : (t'.entryAt target.place).isSome = true)
    (hslashed : target.slashed = true → t'.isDirectory target.place = true) :
    t'.find path = .ok target.place := by
  obtain ⟨hcheck, hdir, before, slashes, hpieces, hwalk, hempty, hno⟩ :=
    exists_pieces_of_target h hnamed
  simp only [Target.isNamed, Bool.and_eq_true, Bool.not_eq_true', decide_eq_true_eq] at hnamed
  have hstep : t'.step target.directory target.name = .ok target.place :=
    step_eq_ok.mpr ⟨hk.isDirectory _ hdir, .inr (.inr ⟨hnamed.1, hnamed.2, hshort, hentry, rfl⟩)⟩
  have hrest : slashes.foldlM t'.step target.place = .ok target.place := by
    cases hs : target.slashed with
    | false =>
      rw [hno hs]
      rfl
    | true => exact foldlM_step_empty (hslashed hs) hempty
  refine find_eq_ok.mpr ⟨hcheck, ?_⟩
  rw [origin_eq hk.workingPlace, hpieces]
  exact foldlM_step_append.mpr ⟨_, foldlM_step_of_keeps hk hwalk hdir,
    foldlM_step_cons.mpr ⟨_, hstep, hrest⟩⟩

end FileTree

end Userscript
