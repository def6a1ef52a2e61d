import Outline.Containment.Trace
/-!
The placements of a document as two maps that answer questions: who is in a container, and which
container a node is in. Both are kept by node. The map of members can be any map at all, with
sharing and cycles: `descendants` lists every node once.
-/

namespace Outline.Containment

structure Hierarchy where
  root : Node
  /-- Containers in the order in which they got their first member, members in document order. -/
  members : NodeMap (List Node)
  containers : NodeMap Node

namespace Hierarchy

-- The core library's zero under a sum, also where another is in scope.
attribute [local instance (high)] Zero.ofOfNat0

def empty (root : Node) : Hierarchy := ⟨root, [], []⟩

def membersOf (members : NodeMap (List Node)) (n : Node) : List Node := (members.get? n).getD []

def place (h : Hierarchy) (p : Placement) : Hierarchy :=
  { h with
    members := h.members.put p.container (membersOf h.members p.container ++ [p.member])
    containers := h.containers.put p.member p.container }

def ofPlacements (root : Node) (ps : List Placement) : Hierarchy := ps.foldl place (empty root)

def build (transparent : List Kind) (root : Node) : Except Violation Hierarchy :=
  (placements transparent root).map (ofPlacements root)

def roleOf? (h : Hierarchy) (n : Node) : Option Role :=
  if n.is h.root then some .root else Role.ofKind? n.label.kind

/-- The loop of `descendants`: take the first pending node; unless it was seen, list it and put its
members in front. `fuel` bounds the number of steps. -/
def descendantsFrom (members : NodeMap (List Node)) : Nat → List Nat → List Node → List Node
  | 0, _, _ => []
  | _ + 1, _, [] => []
  | fuel + 1, seen, n :: pending =>
    if seen.contains n.label.id then descendantsFrom members fuel seen pending
    else n :: descendantsFrom members fuel (n.label.id :: seen) (membersOf members n ++ pending)

def descendantsFuel (members : NodeMap (List Node)) : Nat :=
  2 * (members.map (·.2.length)).sum + 1

def descendants (members : NodeMap (List Node)) (n : Node) : List Node :=
  descendantsFrom members (descendantsFuel members) [n.label.id] (membersOf members n)

end Hierarchy
end Outline.Containment
