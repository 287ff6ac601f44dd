/-! A tree of files and directories, as far as a program can see it. -/

namespace Userscript

inductive Entry where
  | file (contents : ByteArray)
  | directory

/-- Whether a file has the same bytes, or both are directories. -/
instance : DecidableEq Entry
  | .file a, .file b =>
    if h : a.data = b.data then isTrue (congrArg Entry.file (ByteArray.ext h))
    else isFalse fun he => h (congrArg ByteArray.data (Entry.file.inj he))
  | .directory, .directory => isTrue rfl
  | .file _, .directory => isFalse nofun
  | .directory, .file _ => isFalse nofun

/-- The names that lead to an entry, the last one first. -/
abbrev Place := List String

/-- Entries by place, and the directory that relative paths start from. -/
structure FileTree where
  entries : List (Place × Entry)
  workingPlace : Place

namespace FileTree

/-- The root is always a directory. -/
def entryAt (t : FileTree) (place : Place) : Option Entry :=
  if place = [] then some .directory else t.entries.lookup place

def isDirectory (t : FileTree) (place : Place) : Bool :=
  t.entryAt place = some .directory

def remove (t : FileTree) (place : Place) : FileTree :=
  { t with entries := t.entries.filter fun e => e.1 ≠ place }

def put (t : FileTree) (place : Place) (entry : Entry) : FileTree :=
  { t with entries := (place, entry) :: (t.remove place).entries }

/-- The directories that lead to a place, where there is nothing yet. -/
def putAbove (t : FileTree) : Place → FileTree
  | [] => t
  | _ :: above =>
    let t := t.putAbove above
    if (t.entryAt above).isSome then t else t.put above .directory

/-- Puts an entry in its place together with the directories that lead there. -/
def grow (t : FileTree) (place : Place) (entry : Entry) : FileTree :=
  (t.putAbove place).put place entry

/-- Nothing but a working directory. -/
def ofDirectory (place : Place) : FileTree :=
  FileTree.grow ⟨[], place⟩ place .directory

theorem entryAt_nil (t : FileTree) : t.entryAt [] = some .directory := by
  simp [entryAt]

theorem lookup_filter_ne (place other : Place) (es : List (Place × Entry)) :
    (es.filter fun e => e.1 ≠ place).lookup other =
      if other = place then none else es.lookup other := by
  induction es with
  | nil => simp
  | cons e es ih =>
    by_cases h : e.1 = place
    · rw [List.filter_cons_of_neg (by simpa using h), ih, List.lookup_cons]
      split <;> grind
    · rw [List.filter_cons_of_pos (by simpa using h), List.lookup_cons, List.lookup_cons, ih]
      split <;> grind

theorem entryAt_remove (t : FileTree) (place other : Place) (h : other ≠ []) :
    (t.remove place).entryAt other = if other = place then none else t.entryAt other := by
  simp only [entryAt, remove, h, if_false]
  exact lookup_filter_ne place other t.entries

theorem entryAt_put (t : FileTree) (place other : Place) (entry : Entry) (h : place ≠ []) :
    (t.put place entry).entryAt other = if other = place then some entry else t.entryAt other := by
  by_cases ho : other = []
  · have hne : ([] : Place) ≠ place := fun he => h he.symm
    simp [entryAt, ho, hne]
  · simp only [entryAt, put, remove, ho, if_false, List.lookup_cons, lookup_filter_ne]
    split <;> grind

end FileTree

end Userscript
