/-! Text as a list of characters: white space and its trimming, splitting at
a character, joining with one, and replacing a phrase. -/

namespace Userscript

/-- The twenty-five characters with the Unicode property White_Space. -/
def isBlank (c : Char) : Bool :=
  let n := c.toNat
  (0x09 ≤ n && n ≤ 0x0D) || n = 0x20 || n = 0x85 || n = 0xA0 || n = 0x1680 ||
    (0x2000 ≤ n && n ≤ 0x200A) || n = 0x2028 || n = 0x2029 || n = 0x202F || n = 0x205F ||
    n = 0x3000

def trimChars (cs : List Char) : List Char :=
  ((cs.dropWhile isBlank).reverse.dropWhile isBlank).reverse

def trim (s : String) : String :=
  String.ofList (trimChars s.toList)

def consHead (c : Char) : List (List Char) → List (List Char)
  | [] => [[c]]
  | p :: ps => (c :: p) :: ps

/-- The pieces between the occurrences of `sep`, one more than there are
occurrences; empty pieces are kept. -/
def splitChars (sep : Char) (cs : List Char) : List (List Char) :=
  cs.foldr (fun c pieces => if c = sep then [] :: pieces else consHead c pieces) [[]]

def splitText (sep : Char) (s : String) : List String :=
  (splitChars sep s.toList).map String.ofList

def joinChars (sep : Char) : List (List Char) → List Char
  | [] => []
  | [p] => p
  | p :: q :: ps => p ++ sep :: joinChars sep (q :: ps)

def joinText (sep : Char) (texts : List String) : String :=
  String.ofList (joinChars sep (texts.map String.toList))

def hasLineFeed (s : String) : Bool :=
  s.toList.contains '\n'

@[simp] theorem hasLineFeed_eq_false {s : String} : hasLineFeed s = false ↔ '\n' ∉ s.toList := by
  simp [hasLineFeed]

theorem splitChars_nil (sep : Char) : splitChars sep [] = [[]] := rfl

theorem splitChars_cons (sep c : Char) (cs : List Char) :
    splitChars sep (c :: cs) =
      if c = sep then [] :: splitChars sep cs else consHead c (splitChars sep cs) := rfl

theorem splitChars_ne_nil (sep : Char) (cs : List Char) : splitChars sep cs ≠ [] := by
  cases cs with
  | nil => simp [splitChars_nil]
  | cons c cs =>
    rw [splitChars_cons]
    split
    · simp
    · cases splitChars sep cs <;> simp [consHead]

theorem joinChars_consHead (sep c : Char) {ps : List (List Char)} (h : ps ≠ []) :
    joinChars sep (consHead c ps) = c :: joinChars sep ps := by
  cases ps with
  | nil => exact absurd rfl h
  | cons p ps => cases ps <;> simp [consHead, joinChars]

theorem joinChars_nil_cons (sep : Char) {ps : List (List Char)} (h : ps ≠ []) :
    joinChars sep ([] :: ps) = sep :: joinChars sep ps := by
  cases ps with
  | nil => exact absurd rfl h
  | cons p ps => rfl

theorem joinChars_splitChars (sep : Char) (cs : List Char) :
    joinChars sep (splitChars sep cs) = cs := by
  induction cs with
  | nil => rfl
  | cons c cs ih =>
    rw [splitChars_cons]
    split
    · next h => rw [joinChars_nil_cons sep (splitChars_ne_nil sep cs), ih, h]
    · rw [joinChars_consHead sep c (splitChars_ne_nil sep cs), ih]

end Userscript
