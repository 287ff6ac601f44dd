import Userscript.Hex
import Userscript.Json.Number

/-! The tokens of a JSON text. Each scanner takes its token off the front of
the characters and leaves a rest that is no longer than what it was given. -/

namespace Userscript

def isJsonBlank (c : Char) : Bool :=
  c = ' ' || c = '\t' || c = '\n' || c = '\x0d'

def skipJsonBlank (cs : List Char) : List Char :=
  cs.dropWhile isJsonBlank

def hexUnit? (a b c d : Char) : Option Nat := do
  let a ← hexDigit? a
  let b ← hexDigit? b
  let c ← hexDigit? c
  let d ← hexDigit? d
  return ((a * 16 + b) * 16 + c) * 16 + d

def isHighSurrogate (n : Nat) : Bool := 0xD800 ≤ n && n < 0xDC00

def isLowSurrogate (n : Nat) : Bool := 0xDC00 ≤ n && n < 0xE000

def pairedSurrogates (high low : Nat) : Char :=
  Char.ofNat (0x10000 + (high - 0xD800) * 0x400 + (low - 0xDC00))

def shortEscape? : Char → Option Char
  | '"' => some '"'
  | '\\' => some '\\'
  | '/' => some '/'
  | 'b' => some '\x08'
  | 'f' => some '\x0c'
  | 'n' => some '\n'
  | 'r' => some '\x0d'
  | 't' => some '\t'
  | _ => none

/-- A string as far as it is read: its characters, the last one first, or none
once a surrogate stood alone; and a high surrogate that waits for a low one. -/
structure StringRead where
  chars : Option (List Char)
  high : Option Nat

namespace StringRead

/-- A waiting surrogate that nothing can follow leaves the string no value. -/
def settled (r : StringRead) : Option (List Char) :=
  if r.high.isSome then none else r.chars

def push (r : StringRead) (c : Char) : StringRead :=
  ⟨r.settled.map (c :: ·), none⟩

def pushUnit (r : StringRead) (n : Nat) : StringRead :=
  if isLowSurrogate n then
    ⟨r.high.bind fun high => r.chars.map (pairedSurrogates high n :: ·), none⟩
  else if isHighSurrogate n then ⟨r.settled, some n⟩
  else r.push (Char.ofNat n)

def value (r : StringRead) : Option String :=
  r.settled.map fun cs => String.ofList cs.reverse

end StringRead

/-- The rest of a string after its opening quote. A string in which a surrogate
stands alone is well formed but has no value. -/
def scanString (r : StringRead) : List Char → Option (Option String × List Char)
  | '"' :: rest => some (r.value, rest)
  | '\\' :: 'u' :: a :: b :: c :: d :: rest =>
    match hexUnit? a b c d with
    | some n => scanString (r.pushUnit n) rest
    | none => none
  | '\\' :: c :: rest =>
    match shortEscape? c with
    | some c => scanString (r.push c) rest
    | none => none
  | c :: rest => if c.toNat < 0x20 then none else scanString (r.push c) rest
  | [] => none

/-- Digits, at least one. -/
def scanDigits (cs : List Char) : Option (List Char × List Char) :=
  let digits := cs.takeWhile Char.isDigit
  if digits.isEmpty then none else some (digits, cs.dropWhile Char.isDigit)

/-- A whole part begins with a zero only if it is zero. -/
def scanWhole : List Char → Option (List Char × List Char)
  | '0' :: rest =>
    if (rest.head?.any Char.isDigit) then none else some (['0'], rest)
  | cs => scanDigits cs

def scanFraction : List Char → Option (List Char × List Char)
  | '.' :: rest => scanDigits rest
  | cs => some ([], cs)

def scanExponent : List Char → Option (Option (Bool × List Char) × List Char)
  | c :: rest =>
    if c = 'e' ∨ c = 'E' then
      match rest with
      | '-' :: rest => (scanDigits rest).map fun (digits, rest) => (some (true, digits), rest)
      | '+' :: rest => (scanDigits rest).map fun (digits, rest) => (some (false, digits), rest)
      | rest => (scanDigits rest).map fun (digits, rest) => (some (false, digits), rest)
    else some (none, c :: rest)
  | [] => some (none, [])

def scanMagnitude (negative : Bool) (cs : List Char) : Option (Numeral × List Char) := do
  let (whole, rest) ← scanWhole cs
  let (fraction, rest) ← scanFraction rest
  let (exponent, rest) ← scanExponent rest
  return (⟨negative, whole, fraction, exponent⟩, rest)

def scanNumber : List Char → Option (Numeral × List Char)
  | '-' :: rest => scanMagnitude true rest
  | cs => scanMagnitude false cs

/-- A string, a number or a word; none within is a value that cannot be held. -/
def scanScalar : List Char → Option (Option Json × List Char)
  | '"' :: rest => (scanString ⟨some [], none⟩ rest).map fun (s, rest) => (s.map Json.string, rest)
  | 'n' :: 'u' :: 'l' :: 'l' :: rest => some (some .null, rest)
  | 't' :: 'r' :: 'u' :: 'e' :: rest => some (some (.bool true), rest)
  | 'f' :: 'a' :: 'l' :: 's' :: 'e' :: rest => some (some (.bool false), rest)
  | cs => (scanNumber cs).map fun (n, rest) => (n.value?.map Json.number, rest)

theorem length_skipJsonBlank_le (cs : List Char) : (skipJsonBlank cs).length ≤ cs.length :=
  (List.dropWhile_suffix isJsonBlank).length_le

theorem length_scanString_lt {r : StringRead} {cs rest : List Char} {s : Option String}
    (h : scanString r cs = some (s, rest)) : rest.length < cs.length := by
  fun_induction scanString r cs with
  | case1 r rest' =>
    obtain ⟨-, rfl⟩ := Prod.mk.inj (Option.some.inj h)
    simp
  | case2 r a b c d rest' n hn ih => have := ih h; simp only [List.length_cons]; omega
  | case3 => simp at h
  | case4 r c rest' _ c' hc ih => have := ih h; simp only [List.length_cons]; omega
  | case5 => simp at h
  | case6 => simp at h
  | case7 r c rest' _ _ _ _ ih => have := ih h; simp only [List.length_cons]; omega
  | case8 => simp at h

theorem length_scanDigits_lt {cs digits rest : List Char}
    (h : scanDigits cs = some (digits, rest)) : rest.length < cs.length := by
  simp only [scanDigits] at h
  split at h
  · simp at h
  · next hd =>
    simp only [Option.some.injEq, Prod.mk.injEq] at h
    have hl := congrArg List.length (List.takeWhile_append_dropWhile (p := Char.isDigit) (l := cs))
    simp only [List.length_append] at hl
    rw [← h.2]
    have : 0 < (cs.takeWhile Char.isDigit).length := by
      rw [List.length_pos_iff]
      simpa using hd
    omega

theorem length_scanWhole_lt {cs digits rest : List Char}
    (h : scanWhole cs = some (digits, rest)) : rest.length < cs.length := by
  unfold scanWhole at h
  split at h
  · split at h
    · simp at h
    · simp only [Option.some.injEq, Prod.mk.injEq] at h
      simp [h.2]
  · exact length_scanDigits_lt h

theorem length_scanFraction_le {cs digits rest : List Char}
    (h : scanFraction cs = some (digits, rest)) : rest.length ≤ cs.length := by
  unfold scanFraction at h
  split at h
  · have := length_scanDigits_lt h
    simp only [List.length_cons]
    omega
  · obtain ⟨-, rfl⟩ := Prod.mk.inj (Option.some.inj h)
    exact Nat.le_refl _

theorem length_scanExponent_le {cs rest : List Char} {e : Option (Bool × List Char)}
    (h : scanExponent cs = some (e, rest)) : rest.length ≤ cs.length := by
  unfold scanExponent at h
  split at h
  · split at h
    · split at h <;> simp only [Option.map_eq_some_iff, Prod.mk.injEq] at h <;>
        obtain ⟨⟨digits, r⟩, hd, _, rfl⟩ := h <;>
        have := length_scanDigits_lt hd <;> simp only [List.length_cons] <;> omega
    · obtain ⟨-, rfl⟩ := Prod.mk.inj (Option.some.inj h)
      exact Nat.le_refl _
  · obtain ⟨-, rfl⟩ := Prod.mk.inj (Option.some.inj h)
    exact Nat.le_refl _

theorem length_scanNumber_lt {cs rest : List Char} {n : Numeral}
    (h : scanNumber cs = some (n, rest)) : rest.length < cs.length := by
  have magnitude : ∀ {negative : Bool} {cs rest : List Char} {n : Numeral},
      scanMagnitude negative cs = some (n, rest) → rest.length < cs.length := by
    intro negative cs rest n h
    simp only [scanMagnitude, Option.bind_eq_bind, Option.bind_eq_some_iff, Prod.exists,
      Option.pure_def, Option.some.injEq, Prod.mk.injEq] at h
    obtain ⟨_, _, hw, _, _, hf, _, _, he, _, rfl⟩ := h
    have := length_scanWhole_lt hw
    have := length_scanFraction_le hf
    have := length_scanExponent_le he
    omega
  unfold scanNumber at h
  split at h
  · have := magnitude h
    simp only [List.length_cons]
    omega
  · exact magnitude h

theorem length_scanScalar_lt {cs rest : List Char} {v : Option Json}
    (h : scanScalar cs = some (v, rest)) : rest.length < cs.length := by
  unfold scanScalar at h
  split at h
  · simp only [Option.map_eq_some_iff, Prod.mk.injEq] at h
    obtain ⟨⟨s, r⟩, hs, _, rfl⟩ := h
    have := length_scanString_lt hs
    simp only [List.length_cons]
    omega
  · obtain ⟨-, rfl⟩ := Prod.mk.inj (Option.some.inj h)
    simp only [List.length_cons]
    omega
  · obtain ⟨-, rfl⟩ := Prod.mk.inj (Option.some.inj h)
    simp only [List.length_cons]
    omega
  · obtain ⟨-, rfl⟩ := Prod.mk.inj (Option.some.inj h)
    simp only [List.length_cons]
    omega
  · simp only [Option.map_eq_some_iff, Prod.mk.injEq] at h
    obtain ⟨⟨n, r⟩, hn, _, rfl⟩ := h
    exact length_scanNumber_lt hn

end Userscript
