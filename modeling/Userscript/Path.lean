import Userscript.Text

/-! Paths as texts: their pieces between slashes, the components that count,
and the paths of the directories above. -/

namespace Userscript

def isAbsolutePath (path : String) : Bool := path.toList.head? = some '/'

/-- The path as seen from a directory. A directory that is empty or ends with a
slash gets none behind it. -/
def pathFrom (directory path : String) : String :=
  if isAbsolutePath path then path
  else if directory.toList.getLast?.all (· = '/') then directory ++ path
  else directory ++ "/" ++ path

def pathPieces (path : String) : List String := splitText '/' path

/-- A piece that leads nowhere else. -/
def isIdlePiece (piece : String) : Bool := piece = "" || piece = "."

/-- The components of a path. Of the pieces that lead nowhere else, only the
root and a `.` in front are components. -/
def pathComponents (path : String) : List String :=
  if path = "" then []
  else
    match pathPieces path with
    | [] => []
    | first :: rest =>
      (if first = "" then "/" else first) :: rest.filter fun piece => !isIdlePiece piece

/-- The path with a first piece and further pieces, the last one first. -/
def pathText (first : String) (back : List String) : String :=
  if first = "" && back.isEmpty then "/" else joinText '/' (first :: back.reverse)

/-- The pieces of a path, the last one first, without its last name. -/
def dropLastName (back : List String) : List String :=
  ((back.dropWhile isIdlePiece).drop 1).dropWhile isIdlePiece

theorem length_dropLastName_lt {back : List String} (h : back.all isIdlePiece = false) :
    (dropLastName back).length < back.length := by
  have h1 := (List.dropWhile_suffix (l := back) isIdlePiece).length_le
  have h2 := (List.dropWhile_suffix (l := (back.dropWhile isIdlePiece).drop 1) isIdlePiece).length_le
  have h3 : back.dropWhile isIdlePiece ≠ [] := by
    intro he
    have ha := List.all_takeWhile (l := back) (p := isIdlePiece)
    have hl := List.takeWhile_append_dropWhile (p := isIdlePiece) (l := back)
    rw [he, List.append_nil] at hl
    rw [hl, h] at ha
    exact absurd ha (by decide)
  have h4 := List.length_pos_iff.mpr h3
  simp only [List.length_drop] at h2
  unfold dropLastName
  omega

def directoriesAbove (first : String) (back : List String) : List String :=
  if back.all isIdlePiece then []
  else pathText first (dropLastName back) :: directoriesAbove first (dropLastName back)
  termination_by back.length
  decreasing_by
    next h => exact length_dropLastName_lt (by simpa using h)

/-- The paths of the directories above, the nearest one first. What lies in the
working directory under a single name has none. -/
def pathsAbove (path : String) : List String :=
  match pathPieces path with
  | [] => []
  | first :: rest => directoriesAbove first rest.reverse

end Userscript
