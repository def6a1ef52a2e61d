import Outline.Containment.Role
/-!
Placing nodes. One pass over the pre-order keeps the open scopes, innermost first, above the root,
which is always open. Each visited node that is neither the root, nor transparent, nor a thematic
break is placed into the innermost open container. A heading first closes every scope up to a
shallower heading; an item that the innermost item does not enclose, and a thematic break, close
all scopes. The result is the trace of the pass: the pairs placed, and the violation that ended it,
if one did.
-/

namespace Outline.Containment

/-- An open container; `depth` counts for headings only. -/
structure Scope where
  node : Node
  role : Role
  depth : Int

structure Placement where
  container : Node
  member : Node

structure Trace where
  placements : List Placement
  violation : Option Violation

def Scope.outlasts (depth : Int) (s : Scope) : Bool :=
  s.role == .root || (s.role == .heading && s.depth < depth)

def closeForHeading (depth : Int) (scopes : List Scope) : List Scope :=
  scopes.dropWhile fun s => !s.outlasts depth

def closeForItem (parent : Option Node) (scopes : List Scope) : List Scope :=
  match scopes with
  | [] => []
  | s :: rest => if s.role == .listItem && !encloses s.node parent then [] else s :: rest

def innermost (root : Node) (scopes : List Scope) : Node := (scopes.head?.map (·.node)).getD root

/-- The scopes that stay open for a container node, and the scope that it opens. -/
def openScope (v : Visit Entry) (scopes : List Scope) : Except Violation (Scope × List Scope) := do
  let role ← roleOf v.node
  match role with
  | .heading =>
    let depth ← depthOf v.node
    return (⟨v.node, role, depth⟩, closeForHeading depth scopes)
  | .listItem => return (⟨v.node, role, 0⟩, closeForItem v.parent scopes)
  | _ => return (⟨v.node, role, 0⟩, scopes)

def step (transparent : List Kind) (root : Node) (scopes : List Scope) (v : Visit Entry) :
    Except Violation (List Scope × Option Placement) :=
  if Node.is v.node root || isTransparent transparent v.node then .ok (scopes, none)
  else if isBreak v.node then .ok ([], none)
  else if isContainer v.node.label.kind then
    match openScope v scopes with
    | .error e => .error e
    | .ok (scope, kept) => .ok (scope :: kept, some ⟨innermost root kept, v.node⟩)
  else .ok (scopes, some ⟨innermost root scopes, v.node⟩)

def run (transparent : List Kind) (root : Node) (scopes : List Scope) :
    List (Visit Entry) → Trace
  | [] => ⟨[], none⟩
  | v :: vs =>
    match step transparent root scopes v with
    | .error e => ⟨[], some e⟩
    | .ok (scopes, placed) =>
      let rest := run transparent root scopes vs
      ⟨placed.toList ++ rest.placements, rest.violation⟩

def resolve (transparent : List Kind) (root : Node) : Trace :=
  run transparent root [] root.walk

/-- All placements, unless a violation ends the pass. -/
def placements (transparent : List Kind) (root : Node) : Except Violation (List Placement) :=
  match (resolve transparent root).violation with
  | some e => .error e
  | none => .ok (resolve transparent root).placements

end Outline.Containment
