import Userscript.Json.Scan

/-! Reading a JSON text. The members of an outermost object are told apart by
whether their values can be held at all: a value that is well formed may still
be none, because a surrogate stands alone in it, a number is beyond the largest
one, or it is nested too deeply. -/

namespace Userscript

inductive Document where
  | object (members : List (String × Option Json))
  | value (v : Json)

/-- Arrays and objects may be nested this deep. -/
def maxNesting : Nat := 127

/-- An array or object that is not yet closed, its parts in reverse order. -/
inductive JsonFrame where
  /-- the outermost object, and the key that waits for its value -/
  | outer (members : List (String × Option Json)) (key : String)
  | array (items : Option (List Json))
  | object (members : Option (List (String × Json))) (key : Option String)

inductive JsonExpected where
  | value
  | itemOrClose
  | key
  | keyOrClose
  /-- a separator or a closing bracket, now that `v` is read -/
  | after (v : Option Json)
  /-- nothing, now that the outermost object is closed -/
  | closed (members : List (String × Option Json))

abbrev JsonState := List JsonFrame × JsonExpected

/-- Whether one more array or object may be opened inside the open ones. -/
def mayOpen (stack : List JsonFrame) : Bool :=
  (stack.drop (maxNesting - 1)).isEmpty

/-- Reads the opening bracket of an array or object, or a value without parts. -/
def openValue (stack : List JsonFrame) : List Char → Option (JsonState × List Char)
  | '[' :: rest =>
    some ((.array (if mayOpen stack then some [] else none) :: stack, .itemOrClose), rest)
  | '\x7b' :: rest =>
    let frame : JsonFrame :=
      if stack.isEmpty then .outer [] ""
      else .object (if mayOpen stack then some [] else none) none
    some ((frame :: stack, .keyOrClose), rest)
  | cs => (scanScalar cs).map fun (v, rest) => ((stack, .after v), rest)

/-- Reads a key and its colon. The keys of the outermost object must have a
value, those of other objects only if the object is to have one. -/
def readKey (stack : List JsonFrame) : List Char → Option (JsonState × List Char)
  | '"' :: rest =>
    match scanString ⟨some [], none⟩ rest with
    | none => none
    | some (key, rest) =>
      match skipJsonBlank rest, stack, key with
      | ':' :: rest, .outer members _ :: stack, some key =>
        some ((.outer members key :: stack, .value), rest)
      | ':' :: rest, .object members _ :: stack, key =>
        some ((.object members key :: stack, .value), rest)
      | _, _, _ => none
  | _ => none

def JsonFrame.add (frame : JsonFrame) (v : Option Json) : JsonFrame :=
  match frame with
  | .outer members key => .outer ((key, v) :: members) key
  | .array items => .array do return (← v) :: (← items)
  | .object members key => .object (do return (← key, ← v) :: (← members)) key

def JsonFrame.close : JsonFrame → JsonExpected
  | .outer members _ => .closed members.reverse
  | .array items => .after (items.map fun vs => .array vs.reverse)
  | .object members _ => .after (members.map fun ms => .object ms.reverse)

/-- One step of reading, which takes at least one character. -/
def readStep : JsonState → List Char → Option (JsonState × List Char)
  | (stack, .value), cs => openValue stack (skipJsonBlank cs)
  | (.array items :: stack, .itemOrClose), cs =>
    match skipJsonBlank cs with
    | ']' :: rest => some ((stack, (JsonFrame.array items).close), rest)
    | cs => openValue (.array items :: stack) cs
  | (stack, .key), cs => readKey stack (skipJsonBlank cs)
  | (frame :: stack, .keyOrClose), cs =>
    match skipJsonBlank cs with
    | '\x7d' :: rest => some ((stack, frame.close), rest)
    | cs => readKey (frame :: stack) cs
  | (.array items :: stack, .after v), cs =>
    match skipJsonBlank cs with
    | ',' :: rest => some (((JsonFrame.array items).add v :: stack, .value), rest)
    | ']' :: rest => some ((stack, ((JsonFrame.array items).add v).close), rest)
    | _ => none
  | (frame :: stack, .after v), cs =>
    match skipJsonBlank cs with
    | ',' :: rest => some ((frame.add v :: stack, .key), rest)
    | '\x7d' :: rest => some ((stack, (frame.add v).close), rest)
    | _ => none
  | _, _ => none

theorem length_openValue_lt {stack : List JsonFrame} {cs rest : List Char} {s : JsonState}
    (h : openValue stack cs = some (s, rest)) : rest.length < cs.length := by
  unfold openValue at h
  split at h
  · obtain ⟨-, rfl⟩ := Prod.mk.inj (Option.some.inj h)
    simp
  · obtain ⟨-, rfl⟩ := Prod.mk.inj (Option.some.inj h)
    simp
  · simp only [Option.map_eq_some_iff, Prod.mk.injEq] at h
    obtain ⟨⟨v, r⟩, hv, _, rfl⟩ := h
    exact length_scanScalar_lt hv

theorem length_readKey_lt {stack : List JsonFrame} {cs rest : List Char} {s : JsonState}
    (h : readKey stack cs = some (s, rest)) : rest.length < cs.length := by
  unfold readKey at h
  split at h
  · split at h
    · simp at h
    · next key r hs =>
      have h1 := length_scanString_lt hs
      have h2 := length_skipJsonBlank_le r
      split at h
      all_goals first
        | (next hr =>
            obtain ⟨-, rfl⟩ := Prod.mk.inj (Option.some.inj h)
            rw [hr, List.length_cons] at h2
            rw [List.length_cons]
            omega)
        | simp at h
  · simp at h

theorem length_readStep_lt {s t : JsonState} {cs rest : List Char}
    (h : readStep s cs = some (t, rest)) : rest.length < cs.length := by
  have hb := length_skipJsonBlank_le cs
  unfold readStep at h
  split at h
  · have := length_openValue_lt h; omega
  · split at h
    · next hr =>
      obtain ⟨-, rfl⟩ := Prod.mk.inj (Option.some.inj h)
      rw [hr, List.length_cons] at hb
      omega
    · have := length_openValue_lt h; omega
  · have := length_readKey_lt h; omega
  · split at h
    · next hr =>
      obtain ⟨-, rfl⟩ := Prod.mk.inj (Option.some.inj h)
      rw [hr, List.length_cons] at hb
      omega
    · have := length_readKey_lt h; omega
  · split at h
    · next hr =>
      obtain ⟨-, rfl⟩ := Prod.mk.inj (Option.some.inj h)
      rw [hr, List.length_cons] at hb
      omega
    · next hr =>
      obtain ⟨-, rfl⟩ := Prod.mk.inj (Option.some.inj h)
      rw [hr, List.length_cons] at hb
      omega
    · simp at h
  · split at h
    · next hr =>
      obtain ⟨-, rfl⟩ := Prod.mk.inj (Option.some.inj h)
      rw [hr, List.length_cons] at hb
      omega
    · next hr =>
      obtain ⟨-, rfl⟩ := Prod.mk.inj (Option.some.inj h)
      rw [hr, List.length_cons] at hb
      omega
    · simp at h
  · simp at h

def readOn (s : JsonState) (cs : List Char) : Option Document :=
  match s with
  | ([], .after v) => if (skipJsonBlank cs).isEmpty then v.map .value else none
  | ([], .closed members) => if (skipJsonBlank cs).isEmpty then some (.object members) else none
  | s =>
    match hstep : readStep s cs with
    | none => none
    | some (t, rest) =>
      have : rest.length < cs.length := length_readStep_lt hstep
      readOn t rest
  termination_by cs.length

/-- What a text says; none if it is no JSON text. -/
def Document.read (text : String) : Option Document :=
  readOn ([], .value) text.toList

/-- A document all of whose parts can be held, as one value. -/
def Document.value? : Document → Option Json
  | .value v => some v
  | .object members =>
    (members.mapM fun (m : String × Option Json) => m.2.map fun v => (m.1, v)).map .object

end Userscript
