import Outline.Yaml.Meaning
import Outline.Yaml.Merge
/-!
The value of a YAML text. Of several faults in scalars and tags the one that counts is the first by
depth, and at one depth the first in the text; so `load` looks for faults layer by layer before it
builds the value.
-/

namespace Outline.Yaml

namespace Node

-- The core library's order of lists, also where another is in scope.
attribute [local instance (high)] List.instLE List.decidableLE

mutual

/-- The text of a node that is to be a scalar; of a mapping it is that under its main key. -/
def text : Node → Except Fault Text
  | scalar _ t => .ok t
  | seq _ _ => .error .malformed
  | map _ ps => textOfPairs ps

def textOfPairs : List (Node × Node) → Except Fault Text
  | [] => .error .malformed
  | (k, v) :: rest => if k.tag = .main then text v else textOfPairs rest

end

def visit (n : Node) : Except Fault (List Node) := do
  if n.tag.isCollection then return [n]
  let _ ← Scalar.value n.tag (← n.text)
  return []

/-- A key, which is no collection, and a value. -/
def visitPair (p : Node × Node) : Except Fault (List Node) := do
  let _ ← p.1.visit
  if p.1.tag.isCollection then throw .malformed
  p.2.visit

def inside (n : Node) : Except Fault (List Node) :=
  match n with
  | scalar _ _ => .error .malformed
  | seq g items =>
    if g = .seq then return (← items.mapM visit).flatten
    else if g = .pairs then do
      let parts ← items.mapM fun n => do
        match n with
        | map _ [(k, v)] => return (← k.visit) ++ (← v.visit)
        | _ => throw .malformed
      return parts.flatten
    else .error .malformed
  | map g ps =>
    if g ≠ .map ∧ g ≠ .set ∨ ps.any (·.1.tag == .merge) then .error .malformed
    else return (← ps.mapM visitPair).flatten

def check : Nat → List Node → Except Fault Unit
  | 0, _ => .ok ()
  | _ + 1, [] => .ok ()
  | fuel + 1, layer => do check fuel (← layer.mapM inside).flatten

/-- Not-a-numbers are one key. -/
def sameKey (a b : Value) : Bool :=
  match a, b with
  | .float x, .float y => (x.isNaN && y.isNaN) || x.eq y
  | a, b => Value.sameScalar a b

def put (k v : Value) : List (Value × Value) → List (Value × Value)
  | [] => [(k, v)]
  | e :: rest => if sameKey e.1 k then (e.1, v) :: rest else e :: put k v rest

/-- Whether a member of a set is listed before another: numbers by value, others by their text. -/
def precedes (a b : Value) : Bool :=
  match a, b with
  | .int m, .int n => m ≤ n
  | a, b => decide (a.plain ≤ b.plain)

mutual

def value : Node → Except Fault Value
  | scalar g t => Scalar.value g t
  | seq g items => do
    if g = .seq then return .list (← values items)
    else if g = .pairs then return .list (← pairValues items)
    else throw .malformed
  | map g ps => do
    if g = .map then return .map (← entries [] ps)
    else if g = .set then
      return .set (((← entries [] ps).map (·.1)).mergeSort precedes)
    else Scalar.value g (← textOfPairs ps)

def values : List Node → Except Fault (List Value)
  | [] => return []
  | n :: rest => return (← value n) :: (← values rest)

def pairValues : List Node → Except Fault (List Value)
  | [] => return []
  | n :: rest => do
    match n with
    | map _ [(k, v)] => return .list [← value k, ← value v] :: (← pairValues rest)
    | _ => throw .malformed

def entries (before : List (Value × Value)) :
    List (Node × Node) → Except Fault (List (Value × Value))
  | [] => return before
  | (k, v) :: rest => do
    let key ← value k
    entries (put key (← value v) before) rest

end

end Node

def load (t : Text) : Except Fault Value := do
  match ← Node.ofText t with
  | none => return .null
  | some n =>
    let n := n.merged
    Node.check (t.length + 2) (← n.visit)
    n.value

end Outline.Yaml
