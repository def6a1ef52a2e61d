import Outline.Graph.Multigraph
import Outline.Value.Order
/-!
Questions about containment in a multigraph. Edges of one type are containment, and the rank of an
edge orders the members of its container; members of one rank are in the order of their names. Any
value can stand as a rank, also values without an order: to sort by those is a fault.
-/

namespace Outline.Graph

inductive OrderFault where
  | incomparable
  deriving DecidableEq, Repr

section Sorting

variable {α : Type} (before? : α → α → Option Bool)

def insertBy (x : α) : List α → Except OrderFault (List α)
  | [] => .ok [x]
  | y :: ys =>
    match before? y x with
    | none => .error .incomparable
    | some false => .ok (x :: y :: ys)
    | some true => (insertBy x ys).map (y :: ·)

/-- Sorts; an entry goes behind another only if that one is before it. -/
def sortBy : List α → Except OrderFault (List α)
  | [] => .ok []
  | x :: xs => sortBy xs >>= insertBy before? x

end Sorting

namespace Edge

def type (e : Edge) : Value := e.attributes.get "edge_type".toList

def rank (e : Edge) : Value :=
  ((e.attributes.find? (·.1 == "rank".toList)).map (·.2)).getD (.int 0)

end Edge

def rankedBefore? (a b : Value × Text) : Option Bool :=
  if a.1.same b.1 then some (decide (a.2 < b.2)) else a.1.before? b.1

namespace Multigraph

variable (g : Multigraph) (type : Value)

def members (id : Text) : Except OrderFault (List Text) :=
  let es := (g.outEdges id).filter fun e => e.type.same type
  (sortBy rankedBefore? (es.map fun e => (e.rank, e.target))).map fun ranked => ranked.map (·.2)

def container? (id : Text) : Option Text :=
  ((g.inEdges id).find? fun e => e.type.same type).map (·.source)

/-- The nodes of `ids` that were not seen before, each once, and all that were seen after that. -/
def unseen (seen : List Text) : List Text → List Text × List Text
  | [] => ([], seen)
  | x :: xs =>
    if seen.contains x then unseen seen xs
    else
      let (new, seen) := unseen (x :: seen) xs
      (x :: new, seen)

def expand : List Text → Except OrderFault (List Text)
  | [] => .ok []
  | x :: xs => do
    let own ← g.members type x
    let others ← expand xs
    return own ++ others

def levels : Nat → List Text → List Text → Except OrderFault (List Text)
  | 0, _, _ => .ok []
  | fuel + 1, seen, frontier =>
    if frontier.isEmpty then .ok []
    else do
      let (next, seen) := unseen seen (← g.expand type frontier)
      return next ++ (← levels fuel seen next)

/-- The nodes below a node, level by level; `depth` limits the number of levels. -/
def descendants (id : Text) (depth : Option Int) : Except OrderFault (List Text) :=
  if g.hasNode id then
    let most := g.nodes.length + 1
    g.levels type (match depth with
      | none => most
      | some d => min d.toNat most) [id] [id]
  else .ok []

/-- Collects matches until the limit is reached; the limit is looked at after each match. -/
def collect (isMatch : Attributes → Bool) (limit : Option Int) (found : Nat) :
    List Attributes → List Attributes
  | [] => []
  | as :: rest =>
    if isMatch as then
      if (limit.map fun l => decide (l ≤ (found : Int) + 1)).getD false then [as]
      else as :: collect isMatch limit (found + 1) rest
    else collect isMatch limit found rest

/-- Of the type, and with the given properties; an attribute that a node lacks counts as null. -/
def isMatch (nodeType : Value) (properties : Attributes) (as : Attributes) : Bool :=
  (as.get "node_type".toList).same nodeType && properties.all fun p => (as.get p.1).same p.2

def elements (nodeType : Value) (properties : Attributes) (limit : Option Int) :
    List Attributes :=
  collect (isMatch nodeType properties) limit 0 (g.nodes.map (·.2))

end Multigraph
end Outline.Graph
