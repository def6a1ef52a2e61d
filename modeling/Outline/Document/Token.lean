import Outline.Value
/-!
The tokens between a Markdown reader and the tree of a document: a flat list in which an opening
token and its closing token stand around what they enclose.
-/

namespace Outline

inductive Nesting where
  | opens
  | closes
  | stands
  deriving DecidableEq, Repr

abbrev TokenAttributes := List (String × Value)

namespace TokenAttributes

def get (as : TokenAttributes) (name : String) : Value :=
  ((as.find? (·.1 == name)).map (·.2)).getD .null

def text? (as : TokenAttributes) (name : String) : Option Text :=
  match as.get name with
  | .str s => some s
  | _ => none

end TokenAttributes

structure InlineToken where
  type : String
  nesting : Nesting := .stands
  attributes : TokenAttributes := []
  content : Text := []
  markup : Text := []

/-- A token of block structure. Its `map` gives the first line and the line after the last one,
both counted from zero; the running text of a block is in the `children` of its inline token. -/
structure BlockToken where
  type : String
  nesting : Nesting := .stands
  tag : Text := []
  attributes : TokenAttributes := []
  map : Option (Int × Int) := none
  content : Text := []
  markup : Text := []
  info : Text := []
  children : List InlineToken := []

end Outline
