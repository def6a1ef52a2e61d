import Outline.Containment.Hierarchy
import Outline.Settings
/-!
Drawings of trees, one line a node, with branches to the left. A drawing is first a list of `Line`s
that say what stands on them, under whom, and whether the branch ends there; `Line.text` writes one
out. In a drawing of members a node that was drawn before is left out, except below itself, where
it is marked as circular; many members that are no containers are summed up on one line.
-/

namespace Outline.Containment

-- The core library's zero under a sum, also where another is in scope.
attribute [local instance (high)] Zero.ofOfNat0

inductive Content where
  | node (n : Node)
  | circular (n : Node)
  | summary (counts : List (Kind × Nat))

structure Line where
  content : Content
  owner : Option Node
  /-- For every enclosing line but the top one, from the outside: whether its branch ended. -/
  closed : List Bool
  last : Bool

def nodeName (i : Info) : Text :=
  if i.kind = Kind.heading then "heading[".toList ++ i.depth.plain ++ [']']
  else if i.kind = Kind.text then "text \"".toList ++ i.value.getD "None".toList ++ ['\x22']
  else if i.kind = Kind.code then "code[".toList ++ i.lang.getD [] ++ [']']
  else if i.kind = Kind.listItem then
    match i.checked with
    | some done => "listItem[".toList ++ [if done then '✓' else '✗', ']']
    | none => i.kind.toList
  else i.kind.toList

def nodeLabel (settings : DrawingSettings) (n : Node) : Text :=
  match settings.showSpans, n.label.span with
  | true, some s => nodeName n.label.toInfo ++ " (".toList ++ s.text ++ [')']
  | _, _ => nodeName n.label.toInfo

def summaryText (counts : List (Kind × Nat)) : Text :=
  let total := (counts.map (·.2)).sum
  '[' :: Text.ofNat total ++ " non-container nodes: ".toList ++
    ", ".toList.intercalate (counts.map fun (k, n) => k.toList ++ '(' :: Text.ofNat n ++ [')']) ++
    [']']

def Content.text (settings : DrawingSettings) : Content → Text
  | node n => nodeLabel settings n
  | circular n => nodeLabel settings n ++ " [circular ref]".toList
  | summary counts => summaryText counts

def branch (last : Bool) : Text := (if last then "└─ " else "├─ ").toList

def rail (closed : Bool) : Text := (if closed then "   " else "│  ").toList

def Line.text (settings : DrawingSettings) (l : Line) : Text :=
  l.closed.flatMap rail ++ (if l.owner.isNone then [] else branch l.last) ++
    l.content.text settings

def drawingText (settings : DrawingSettings) (ls : List Line) : Text :=
  ls.flatMap fun l => l.text settings ++ ['\n']

def countKind (k : Kind) : List (Kind × Nat) → List (Kind × Nat)
  | [] => [(k, 1)]
  | e :: rest => if e.1 = k then (k, e.2 + 1) :: rest else e :: countKind k rest

def countKinds (ns : List Node) : List (Kind × Nat) :=
  ns.foldl (fun acc n => countKind n.label.kind acc) []

def isContainerNode (n : Node) : Bool := isContainer n.label.kind

/-- More members that are no containers than the threshold allows; no members are never too many. -/
def isCrowded (threshold : Int) (members : List Node) : Bool :=
  !members.isEmpty && ((members.filter (!isContainerNode ·)).length : Int) > threshold

def drawn (threshold : Int) (members : List Node) : List Node :=
  if isCrowded threshold members then members.filter isContainerNode else members

def summaryLine (threshold : Int) (owner : Node) (closed : List Bool) (members : List Node) :
    List Line :=
  if isCrowded threshold members then
    [⟨.summary (countKinds (members.filter (!isContainerNode ·))), some owner, closed,
      (members.filter isContainerNode).isEmpty⟩]
  else []

/-- Draws siblings from left to right, handing on the nodes seen; each is told whether it is the
last. -/
def drawSiblings (draw : List Nat → Bool → Node → List Line × List Nat) :
    List Nat → List Node → List Line × List Nat
  | seen, [] => ([], seen)
  | seen, n :: rest =>
    let (lines, seen) := draw seen rest.isEmpty n
    let (more, seen) := drawSiblings draw seen rest
    (lines ++ more, seen)

/-- The lines of a node and what is below it, and the nodes seen so far. `path` holds the nodes
above; `fuel` bounds the length of a path. -/
def drawNode (members : NodeMap (List Node)) (threshold : Int) (fuel : Nat) (path : List Nat)
    (owner : Option Node) (closed : List Bool) (seen : List Nat) (last : Bool) (n : Node) :
    List Line × List Nat :=
  if path.contains n.label.id then ([⟨.circular n, owner, closed, last⟩], seen)
  else if seen.contains n.label.id then ([], seen)
  else
    let below := if owner.isNone then closed else closed ++ [last]
    let ms := Hierarchy.membersOf members n
    let line : Line := ⟨.node n, owner, closed, last⟩
    match fuel with
    | 0 => ([line], n.label.id :: seen)
    | fuel + 1 =>
      let (lines, seen) := drawSiblings
        (drawNode members threshold fuel (n.label.id :: path) (some n) below)
        (n.label.id :: seen) (drawn threshold ms)
      (line :: summaryLine threshold n below ms ++ lines, seen)

def draw (members : NodeMap (List Node)) (threshold : Int) (root : Node) : List Line :=
  (drawNode members threshold (members.length + 1) [] none [] [] true root).1

mutual

def drawTreeFrom (owner : Option Node) (closed : List Bool) (last : Bool) : Node → List Line
  | .node a ts =>
    ⟨.node (.node a ts), owner, closed, last⟩ ::
      drawTrees (.node a ts) (if owner.isNone then closed else closed ++ [last]) ts

def drawTrees (owner : Node) (closed : List Bool) : List Node → List Line
  | [] => []
  | t :: ts => drawTreeFrom (some owner) closed ts.isEmpty t ++ drawTrees owner closed ts

end

def drawTree (root : Node) : List Line := drawTreeFrom none [] true root

end Outline.Containment
