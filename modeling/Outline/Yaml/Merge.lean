import Outline.Yaml.Node
/-!
Merge keys. A mapping takes in the pairs of the mappings under its merge keys and puts them in front
of its own, which therefore count for more; of several mappings in a list the earlier ones count for
more. What cannot be taken in stays under its merge key.
-/

namespace Outline.Yaml.Node

mutual

/-- Puts the pairs of other mappings in place of merge keys, wherever that can be done. -/
def merged : Node → Node
  | scalar g t => scalar g t
  | seq g items => seq g (if g = .pairs then mergedPairs items else mergedItems items)
  | map g ps =>
    if g = .map ∨ g = .set then
      let (taken, own) := split ps
      map g (taken ++ own)
    else map g ps

def mergedItems : List Node → List Node
  | [] => []
  | n :: rest => merged n :: mergedItems rest

/-- Mappings that stand for pairs keep their keys. -/
def mergedPairs : List Node → List Node
  | [] => []
  | n :: rest =>
    (match n with
      | map g [(k, v)] => map g [(merged k, merged v)]
      | n => n) :: mergedPairs rest

def split : List (Node × Node) → List (Node × Node) × List (Node × Node)
  | [] => ([], [])
  | (k, v) :: rest =>
    let (taken, own) := split rest
    if k.tag = .merge then
      let more : Option (List (Node × Node)) := match v with
        | map _ ps =>
          let (a, b) := split ps
          some (a ++ b)
        | seq _ items => takenFrom items
        | scalar _ _ => none
      match more with
      | some more => (more ++ taken, own)
      | none => (taken, (k, v) :: own)
    else
      let key := merged k
      (taken, (if key.tag = .main then key.withTag .str else key, merged v) :: own)

/-- The pairs of the mappings of a list, those of the last one first. -/
def takenFrom : List Node → Option (List (Node × Node))
  | [] => some []
  | map _ ps :: rest =>
    let (a, b) := split ps
    (takenFrom rest).map (· ++ (a ++ b))
  | _ :: _ => none

end

end Outline.Yaml.Node
