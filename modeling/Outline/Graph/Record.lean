import Outline.Containment.Trace
import Outline.Graph.Query
import Outline.Settings
import Outline.Text.Pattern
/-!
The graph of a document: a node for every visit of its pre-order, named by its kind and a running
number, and a ranked edge for every placement. A node at several places gets several names, of
which edges use the last.
-/

namespace Outline.Graph

open Containment

def isTagChar (c : Char) : Bool := Text.isWord c || c == '/' || c == '-'

def tagPattern : Text.Pattern := .char '#' ++ .one isTagChar ++ .many isTagChar

def insertTag (x : Text) : List Text → List Text
  | [] => [x]
  | y :: ys => if x < y then x :: y :: ys else if x = y then y :: ys else y :: insertTag x ys

/-- The tags of a text without their number signs, in the order of code points, each once. -/
def tags (t : Text) : List Text := ((tagPattern.findAll t).map (·.drop 1)).foldr insertTag []

def isRefChar (c : Char) : Bool := Text.isAsciiAlphanumeric c || c == '-'

def blankToEnd : Text.Pattern := .many Text.isBlank ++ .atEnd

/-- A circumflex and characters of a reference after it, with blanks up to the end of the text. -/
def refPattern : Text.Pattern :=
  .char '^' ++ .one isRefChar ++ .many isRefChar ++ .before blankToEnd.isPrefixOf

def blockRef? (t : Text) : Option Text := (refPattern.search? t).map (·.drop 1)

/-- Kinds whose literal text is no prose. -/
def literalKinds : List Kind := [Kind.code, Kind.inlineCode, Kind.html, Kind.yaml]

def textValue (t : Option Text) : Value := (t.map .str).getD .null

def proseOf (n : Node) : Text := n.label.value.getD n.textContent

def taskState (n : Node) : Option Text :=
  n.label.checked.map fun done => (if done then "done" else "open").toList

def properties (preview : Int) (file : Option Text) (n : Node) : Attributes :=
  let text := proseOf n
  let prose := !literalKinds.contains n.label.kind
  [("text".toList, .str (Text.slice text 0 preview)),
    ("state".toList, textValue (taskState n)),
    ("tags".toList, .list (if prose then (tags text).map .str else [])),
    ("ref".toList, textValue (if prose then blockRef? text else none)),
    ("source_file".toList, textValue file),
    ("line".toList, (n.label.span.map fun s => .int s.start.line).getD .null),
    ("depth".toList, n.label.depth),
    ("lang".toList, textValue n.label.lang)]

def nameOf (n : Node) (number : Nat) : Text := n.label.kind.toList ++ '-' :: Text.ofNat number

structure State where
  graph : Multigraph := {}
  names : NodeMap Text := []
  next : Nat := 0

namespace State

def addNode (settings : GraphSettings) (file : Option Text) (s : State) (v : Visit Entry) : State :=
  let n := v.node
  let name := nameOf n s.next
  { graph := s.graph.addNode name (("node_id".toList, .str name) ::
      ("node_type".toList, .str n.label.kind.toList) :: properties settings.preview file n)
    names := s.names.put n name
    next := s.next + 1 }

def nameOf? (s : State) (n : Node) : Option Text := s.names.get? n

def hasEdge (g : Multigraph) (source target : Text) : Bool :=
  g.edges.any fun e => e.source == source && e.target == target

/-- A placement whose pair of names has an edge already adds nothing; the rank of a new edge is the
number of edges before it. -/
def addPlacement (settings : GraphSettings) (s : State) (p : Placement) : State :=
  match s.nameOf? p.container, s.nameOf? p.member with
  | some source, some target =>
    if hasEdge s.graph source target then s
    else { s with graph := s.graph.addEdge ⟨source, target,
      [("edge_type".toList, textValue settings.edgeType),
        ("rank".toList, .int s.graph.edges.length)]⟩ }
  | _, _ => s

def reset (_s : State) : State := {}

/-- The graph of a document, whatever the graph was before. On a violation the nodes and the edges
placed before it stay. -/
def addDocument (settings : GraphSettings) (transparent : List Kind) (file : Option Text)
    (s : State) (root : Node) : State × Option Violation :=
  let named := root.walk.foldl (addNode settings file) s.reset
  let trace := resolve transparent root
  (trace.placements.foldl (addPlacement settings) named, trace.violation)

/-- Named nodes, a node at several places counted once. -/
def size (s : State) : Nat := s.names.length

end State

structure NodeRecord where
  id : Text
  type : Value
  properties : Attributes

structure EdgeRecord where
  source : Text
  target : Text
  type : Value
  properties : Attributes

def nodeRecords (g : Multigraph) : List NodeRecord :=
  g.nodes.map fun (id, as) => ⟨id, as.get "node_type".toList,
    as.filter fun a => a.1 ≠ "node_id".toList ∧ a.1 ≠ "node_type".toList⟩

def edgeRecords (g : Multigraph) : Except OrderFault (List EdgeRecord) :=
  (sortBy (fun a b => a.rank.before? b.rank) g.allEdges).map fun es => es.map fun e =>
    ⟨e.source, e.target, e.type, e.attributes.filter (·.1 ≠ "edge_type".toList)⟩

def countType (counts : List (Value × Nat)) (type : Value) : List (Value × Nat) :=
  match counts with
  | [] => [(type, 1)]
  | c :: rest => if c.1.same type then (c.1, c.2 + 1) :: rest else c :: countType rest type

def countTypes (types : List Value) : List (Value × Nat) := types.foldl countType []

/-- The type under a name; where there is none it is unknown. -/
def typeUnder (name : Text) (as : Attributes) : Value :=
  ((as.find? (·.1 == name)).map (·.2)).getD (.str "unknown".toList)

structure Export where
  nodes : List NodeRecord
  edges : List EdgeRecord
  totalNodes : Nat
  totalEdges : Nat
  nodeTypes : List (Value × Nat)
  edgeTypes : List (Value × Nat)

namespace Export

def withEdges (g : Multigraph) (edges : List EdgeRecord) : Export where
  nodes := nodeRecords g
  edges := edges
  totalNodes := g.nodes.length
  totalEdges := g.edges.length
  nodeTypes := countTypes (g.nodes.map fun n => typeUnder "node_type".toList n.2)
  edgeTypes := countTypes (g.allEdges.map fun e => typeUnder "edge_type".toList e.attributes)

def of (g : Multigraph) : Except OrderFault Export := (edgeRecords g).map (withEdges g)

end Export
end Outline.Graph
