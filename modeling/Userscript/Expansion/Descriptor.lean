import Userscript.Expansion.Tag

/-! Tags whose values are short texts or descriptors. A transformer turns a
value into what is written under the tag; it may write lines of its own first. -/

namespace Userscript

open Expansion

/-- What becomes of a short text where a descriptor could stand. -/
inductive TextPolicy where
  | keep
  | transform
  | refuse
  deriving DecidableEq, Repr

inductive Emission where
  | nothing
  | one (value : String)
  | many (values : List String)

abbrev Transformer (α : Type) := TextOr α → String → Expansion Emission

structure DescriptorOptions where
  checkNull : Bool := true
  texts : TextPolicy := .keep

variable {α : Type}

def expandTransformed (tag : String) (value : TextOr α) (transformer : Transformer α) :
    Expansion Unit := do
  match ← transformer value tag with
  | .nothing => pure ()
  | .one v => expandTexts tag (.one v)
  | .many vs => expandTexts tag (.many vs)

def expandDescriptor (tag : String) (value : Option (TextOr α)) (transformer : Transformer α)
    (options : DescriptorOptions := {}) : Expansion Unit := do
  checkTagName tag
  match value, options.texts with
  | none, _ => expandText tag none options.checkNull
  | some (.text s), .keep => expandText tag (some s) options.checkNull
  | some (.text _), .refuse => throw (.textRefused tag)
  | some v, _ => expandTransformed tag v transformer

def expandDescriptors (tag : String) (values : OneOrMany (TextOr α))
    (transformer : Transformer α) (options : DescriptorOptions := {}) : Expansion Unit := do
  checkTagName tag
  match values with
  | .one _ => throw (.noArray tag)
  | .many vs => vs.forM fun v => expandDescriptor tag (some v) transformer options

end Userscript
