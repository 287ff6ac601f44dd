import Userscript.Toml.Scan

/-! Reading a TOML text line by line. Headers of arrays of tables are refused:
nothing that is configured here is one. -/

namespace Userscript

namespace Toml

/-- Arrays and inline tables may be nested this deep. -/
def maxNesting : Nat := 80

def maxKeyParts : Nat := 80

/-- What is begun and not yet ended. The parts of a key are those so far. -/
inductive Frame where
  | header (path : List String)
  | line (path : List String)
  /-- the items so far, the last one first -/
  | array (items : List Toml)
  | inlineTable (entries : Entries) (path : List String)

inductive Expected where
  | line
  | lineEnd
  | keyPart
  | keyEnd
  | value
  | item
  | member
  /-- a separator or a closing bracket, now that `v` is read -/
  | after (v : Toml)

structure State where
  root : Entries := []
  /-- the table that lines are entered into -/
  header : List String := []
  frames : List Frame := []
  expected : Expected := .line

abbrev Step := Option (State × List Char)

def Frame.addPart (part : String) : Frame → Frame
  | header path => .header (path ++ [part])
  | line path => .line (path ++ [part])
  | array items => .array items
  | inlineTable entries path => .inlineTable entries (path ++ [part])

def Frame.path : Frame → List String
  | header path => path
  | line path => path
  | array _ => []
  | inlineTable _ path => path

namespace State

def deliver (s : State) (v : Toml) : Option State :=
  match s.frames with
  | [.line path] =>
    (insertUnder v path s.header s.root).map fun root =>
      { s with root := root, frames := [], expected := .lineEnd }
  | _ => some { s with expected := .after v }

def readKeyPart (s : State) (cs : List Char) : Step :=
  match s.frames, scanKeyPart cs with
  | frame :: frames, some (part, rest) =>
    if frame.path.length < maxKeyParts then
      some ({ s with frames := frame.addPart part :: frames, expected := .keyEnd }, rest)
    else none
  | _, _ => none

/-- Skips what may stand before and after an equals sign: inside brackets, also the
ends of lines. -/
def skipAround (s : State) (cs : List Char) : Option (List Char) :=
  match s.frames with
  | .inlineTable _ _ :: _ => skipFiller false cs
  | _ => some (skipTomlSpace cs)

def readEquals (s : State) (cs : List Char) : Step :=
  match s.skipAround cs with
  | some ('=' :: rest) => some ({ s with expected := .value }, rest)
  | _ => none

/-- What follows a part of a key: another part, or the end of the key. -/
def readKeyEnd (s : State) (cs : List Char) : Step :=
  match s.frames, cs with
  | _, '.' :: rest => some ({ s with expected := .keyPart }, rest)
  | [.header path], ']' :: rest =>
    (openTable path s.root).map fun root =>
      (⟨root, path, [], .lineEnd⟩, rest)
  | [.header _], _ => none
  | _, cs => s.readEquals cs

def mayOpen (s : State) : Bool := (s.frames.drop maxNesting).isEmpty

def readValue (s : State) (cs : List Char) : Step :=
  match cs with
  | '[' :: rest =>
    if s.mayOpen then some ({ s with frames := .array [] :: s.frames, expected := .item }, rest)
    else none
  | '\x7b' :: rest =>
    if s.mayOpen then
      some ({ s with frames := .inlineTable [] [] :: s.frames, expected := .member }, rest)
    else none
  | cs => do
    let (v, rest) ← scanTomlScalar cs
    return (← s.deliver v, rest)

def close (s : State) (v : Toml) (rest : List Char) : Step :=
  ({ s with frames := s.frames.drop 1 }.deliver v).map fun s => (s, rest)

def readLine (s : State) (cs : List Char) : Step :=
  match cs with
  | '[' :: rest => some ({ s with frames := [.header []], expected := .keyPart }, rest)
  | c :: rest =>
    if c = '#' || endsLine c rest then (skipLineEnd (c :: rest)).map fun rest => (s, rest)
    else { s with frames := [.line []] }.readKeyPart (c :: rest)
  | [] => some (s, [])

def readAfter (s : State) (v : Toml) (cs : List Char) : Step :=
  match s.frames, cs with
  | .array items :: frames, ',' :: rest =>
    some ({ s with frames := .array (v :: items) :: frames, expected := .item }, rest)
  | .array items :: _, ']' :: rest => s.close (.array (v :: items).reverse) rest
  | .inlineTable entries path :: frames, c :: rest => do
    let entries ← Toml.insert v path entries
    let s := { s with frames := .inlineTable entries [] :: frames }
    if c = ',' then some ({ s with expected := .member }, rest)
    else if c = '\x7d' then s.close (.table .closed entries) rest
    else none
  | _, _ => none

/-- One step of reading, which takes at least one character. -/
def step (s : State) (cs : List Char) : Step :=
  match s.expected with
  | .line => s.readLine (skipTomlSpace cs)
  | .lineEnd => (skipLineEnd cs).map fun rest => ({ s with expected := .line }, rest)
  | .keyPart => s.readKeyPart (skipTomlSpace cs)
  | .keyEnd => s.readKeyEnd (skipTomlSpace cs)
  | .value => (s.skipAround cs).bind s.readValue
  | .item =>
    match s.frames, skipFiller false cs with
    | .array items :: _, some (']' :: rest) => s.close (.array items.reverse) rest
    | _, some cs => s.readValue cs
    | _, none => none
  | .member =>
    match s.frames, skipFiller false cs with
    | .inlineTable entries _ :: _, some ('\x7d' :: rest) => s.close (.table .closed entries) rest
    | _, some cs => s.readKeyPart cs
    | _, none => none
  | .after v => (skipFiller false cs).bind (s.readAfter v)

end State

/-- Reads on to the end of the text, in at most `fuel` steps. -/
def readOn : Nat → State → List Char → Option Entries
  | 0, _, _ => none
  | fuel + 1, s, cs =>
    match s.expected, cs with
    | .line, [] => some s.root
    | .lineEnd, [] => some s.root
    | _, _ => (s.step cs).bind fun (s, rest) => readOn fuel s rest

/-- The outermost table of a text; none if it is no TOML text. A mark of the
byte order in front does not count. -/
def read (text : String) : Option Entries :=
  match text.toList with
  | '\ufeff' :: cs => readOn (cs.length + 1) {} cs
  | cs => readOn (cs.length + 1) {} cs

end Toml

end Userscript
