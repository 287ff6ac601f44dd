import Userscript.Record.Translations

/-! The values of a record: one or many, plain or translated, a short text or a
descriptor with parts. -/

namespace Userscript

inductive OneOrMany (α : Type) where
  | one (value : α)
  | many (values : List α)

def OneOrMany.toList {α : Type} : OneOrMany α → List α
  | one value => [value]
  | many values => values

inductive TextOr (α : Type) where
  | text (s : String)
  | descriptor (value : α)

inductive LocalizedText where
  | plain (text : String)
  | translated (translations : Translations)

structure User where
  name : String
  email : Option String
  url : Option String

/-- The parts of a person that are there, as `name [email] <url>`. -/
def User.signature (u : User) : String :=
  u.name ++ (u.email.map fun e => " [" ++ e ++ "]").getD "" ++
    (u.url.map fun l => " <" ++ l ++ ">").getD ""

structure Icon where
  small : Option String
  larger : Option String

structure Pattern where
  regex : String
  flags : Option String

/-- The expression between slashes, and its flags. -/
def Pattern.text (p : Pattern) : String :=
  "/" ++ p.regex ++ "/" ++ p.flags.getD ""

structure AntiFeature where
  kind : String
  reason : LocalizedText

inductive HashAlgorithm where
  | md5
  | sha256
  deriving DecidableEq, Repr

namespace HashAlgorithm

def label : HashAlgorithm → String
  | md5 => "md5"
  | sha256 => "sha256"

def ofLabel? : String → Option HashAlgorithm
  | "md5" => some md5
  | "sha256" => some sha256
  | _ => none

theorem ofLabel?_label (a : HashAlgorithm) : ofLabel? a.label = some a := by
  cases a <;> rfl

end HashAlgorithm

/-- Where a digest comes from: it is computed from the source file, or given. -/
inductive DigestSource where
  | computed
  | given (digest : String)
  deriving DecidableEq, Repr

structure Integrity where
  value : DigestSource
  algorithm : HashAlgorithm

structure Resource where
  id : String
  src : Option String
  url : Option String
  hash : Option Integrity

def Resource.ofId (id : String) : Resource := ⟨id, none, none, none⟩

end Userscript
