import Userscript.Comment
import Userscript.Path
import Userscript.Expansion.Draft

/-! The URL of a resource, with the fragment that says what its content must
hash to. What the resource says itself comes before what resolvers say. -/

namespace Userscript

open Expansion

structure Options where
  includeBlock : Bool := true
  style : CommentStyle := .block
  /-- the source file of a resource that names none -/
  sourceOf : Option (Resource → Option String) := none
  /-- the URL of a resource that names none, once its source is known -/
  urlOf : Option (Resource → Option String) := none

/-- The parties that expansion relies on. -/
structure Collaborators where
  locales : LocaleRule
  /-- the digest of the file with an absolute path -/
  digestFile : String → HashAlgorithm → Except HashFailure String
  /-- the directory that relative paths start from, or why there is none -/
  workingDirectory : Except String String

namespace Collaborators

variable {collaborators : Collaborators} {path directory reason : String}

/-- The path as the hasher gets it. Only a relative one needs a working directory. -/
def absolutePath (collaborators : Collaborators) (path : String) : Except HashFailure String :=
  if isAbsolutePath path then .ok path
  else
    match collaborators.workingDirectory with
    | .ok directory => .ok (pathFrom directory path)
    | .error reason => .error (.noWorkingDirectory reason)

end Collaborators

def resolveSource (options : Options) (r : Resource) : Expansion (Option String) :=
  match r.src, options.sourceOf with
  | some path, _ => pure (some path)
  | none, none => pure none
  | none, some resolve => do
    note (.source r)
    pure (resolve r)

def orHashFailure : Except HashFailure String → Expansion String
  | .ok text => pure text
  | .error f => throw (.hash f)

def hashSource (collaborators : Collaborators) (path : String) (algorithm : HashAlgorithm) :
    Expansion String := do
  let path ← orHashFailure (collaborators.absolutePath path)
  note (.hash path algorithm)
  orHashFailure (collaborators.digestFile path algorithm)

def resolveDigest (collaborators : Collaborators) (id : String) (source : Option String)
    (h : Integrity) : Expansion String :=
  match h.value, source with
  | .given digest, _ => pure digest
  | .computed, some path => hashSource collaborators path h.algorithm
  | .computed, none => throw (.unknownSource id)

def integrityText (algorithm : HashAlgorithm) (digest : String) : String :=
  algorithm.label ++ "=" ++ digest

def resolveIntegrity (collaborators : Collaborators) (id : String) (source : Option String) :
    Option Integrity → Expansion (Option String)
  | none => pure none
  | some h => do
    let digest ← resolveDigest collaborators id source h
    pure (some (integrityText h.algorithm digest))

/-- The URL that the resource or the resolver gives; `r` knows its source. -/
def resolveUrl (options : Options) (r : Resource) : Expansion String :=
  match r.url, options.urlOf with
  | some url, _ => pure url
  | none, none => throw (.unknownUrl r.id)
  | none, some resolve => do
    note (.url r)
    match resolve r with
    | some url => pure url
    | none => throw (.unknownUrl r.id)

/-- The integrity goes before a fragment that the URL already has; an empty
fragment is left out together with its mark. -/
def mergeFragments (integrity existing : Option String) : Option String :=
  let merged := match integrity, existing with
    | some i, some e => some (i ++ ";" ++ e)
    | some i, none => some i
    | none, e => e
  merged.filter fun fragment => !fragment.isEmpty

/-- The URL with its integrity. Of an existing fragment, what stands before a
second mark counts. -/
def addIntegrity (url : String) (integrity : Option String) : String :=
  let pieces := splitText '#' url
  let base := pieces.headD ""
  match mergeFragments integrity pieces[1]? with
  | some fragment => base ++ "#" ++ fragment
  | none => base

def resourceUrl (options : Options) (collaborators : Collaborators) (r : Resource) :
    Expansion String := do
  let source ← resolveSource options r
  let integrity ← resolveIntegrity collaborators r.id source r.hash
  let url ← resolveUrl options { r with src := source }
  pure (addIntegrity url integrity)

end Userscript
