import Outline.Settings
/-!
The node under a cursor: of all nodes whose span covers it the one of the smallest area, and of
several such nodes the first in pre-order.
-/

namespace Outline.Cursor

/-- An editor's cursor; lines and characters count from zero. -/
structure Position where
  line : Int
  character : Int

def covers (p : Position) (n : Node) : Bool :=
  match n.label.span with
  | some s => s.covers (p.line + 1) (p.character + 1)
  | none => false

def area (weight : Int) (n : Node) : Int :=
  match n.label.span with
  | some s => s.area weight
  | none => 0

def better (weight : Int) (p : Position) (best : Option Node) (n : Node) : Option Node :=
  if covers p n then
    match best with
    | none => some n
    | some b => if area weight n < area weight b then some n else some b
  else best

def nodeAt (weight : Int) (root : Node) (p : Position) : Option Node :=
  root.walk.foldl (fun best v => better weight p best v.node) none

end Outline.Cursor
