import Userscript.Locale.Rule
import Userscript.Record.Descriptor

/-! Drafts: the lines of a header so far, the warnings given and the calls made
on the way. An expansion works on a draft and may fail; what it did before it
failed stays in the draft. -/

namespace Userscript

inductive HashFailure where
  | unreadable (path reason : String)
  /-- a relative path, with no directory that it starts from -/
  | noWorkingDirectory (reason : String)
  deriving DecidableEq, Repr

def HashFailure.message : HashFailure → String
  | unreadable path reason => "failed to hash " ++ path ++ ": " ++ reason
  | noWorkingDirectory reason => "failed to resolve working directory: " ++ reason

inductive HeaderError where
  | badTagName (tag : String)
  | brokenLine (tag value : String)
  | missingValue (tag : String)
  | arrayValue (tag : String)
  | objectValue (tag : String)
  | severalValues (tag : String)
  | noArray (tag : String)
  | textRefused (tag : String)
  | repeatedLocale (tag locale : String)
  | unknownSource (id : String)
  | unknownUrl (id : String)
  | locale (e : LocaleError)
  | hash (f : HashFailure)
  deriving DecidableEq, Repr

namespace HeaderError

def message : HeaderError → String
  | badTagName tag => "illegal tag name \"" ++ tag ++ "\""
  | brokenLine tag value =>
    "Tag \"" ++ tag ++ "\" has illegal characters in its value - \"" ++ value ++ "\"."
  | missingValue tag => "Tag \"" ++ tag ++ "\" cannot contain a null value."
  | arrayValue tag => "Tag \"" ++ tag ++ "\" cannot contain an array value."
  | objectValue tag => "Tag \"" ++ tag ++ "\" cannot contain an object value."
  | severalValues tag => "Tag \"" ++ tag ++ "\" cannot contain multiple values."
  | noArray tag => "Tag \"" ++ tag ++ "\" only accepts array values."
  | textRefused tag => "Tag \"" ++ tag ++ "\" does not allow string values."
  | repeatedLocale tag name =>
    "Locale \"" ++ name ++ "\" has already been added to tag \"" ++ tag ++ "\"."
  | unknownSource id =>
    "Resource \"" ++ id ++
      "\" has \"hash\" set to \"auto\", but its \"src\" is null and cannot be resolved."
  | unknownUrl id => "Resource \"" ++ id ++ "\" has no \"url\" set and it cannot be resolved."
  | locale e => e.message
  | hash f => f.message

end HeaderError

/-- A question put to one of the parties that expansion relies on. -/
inductive Call where
  /-- the source file of a resource -/
  | source (r : Resource)
  /-- the URL of a resource whose source is already known -/
  | url (r : Resource)
  | hash (path : String) (algorithm : HashAlgorithm)
  | locale (key : String)

structure Draft where
  lines : Array String := #[]
  warnings : Array String := #[]
  calls : Array Call := #[]

abbrev Expansion := ExceptT HeaderError (StateM Draft)

namespace Expansion

variable {α β : Type}

/-- The outcome on a draft, and the draft afterwards. -/
def on (x : Expansion α) (d : Draft) : Except HeaderError α × Draft :=
  x.run.run d

def emit (line : String) : Expansion Unit :=
  modify fun d => { d with lines := d.lines.push line }

def note (call : Call) : Expansion Unit :=
  modify fun d => { d with calls := d.calls.push call }

def warn (warnings : List String) : Expansion Unit :=
  modify fun d => { d with warnings := d.warnings ++ warnings }

@[simp] theorem on_pure (a : α) (d : Draft) : (pure a : Expansion α).on d = (.ok a, d) := rfl

@[simp] theorem on_throw (e : HeaderError) (d : Draft) :
    (throw e : Expansion α).on d = (.error e, d) := rfl

theorem on_bind (x : Expansion α) (f : α → Expansion β) (d : Draft) :
    (x >>= f).on d =
      match x.on d with
      | (.ok a, d') => (f a).on d'
      | (.error e, d') => (.error e, d') := by
  simp only [on, ExceptT.run_bind, StateT.run_bind]
  rcases h : x.run.run d with ⟨r, d'⟩
  cases r <;> rfl

@[simp] theorem on_emit (line : String) (d : Draft) :
    (emit line).on d = (.ok (), { d with lines := d.lines.push line }) := rfl

@[simp] theorem on_note (call : Call) (d : Draft) :
    (note call).on d = (.ok (), { d with calls := d.calls.push call }) := rfl

@[simp] theorem on_warn (warnings : List String) (d : Draft) :
    (warn warnings).on d = (.ok (), { d with warnings := d.warnings ++ warnings }) := rfl

end Expansion

end Userscript
