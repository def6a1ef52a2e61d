import Outline.Value
/-!
Directed multigraphs with attributes. Nodes stand in the order in which they came. The edges of a
node are grouped by their other end, the groups in the order in which each got its first edge.
-/

namespace Outline.Graph

abbrev Attributes := List (Text × Value)

namespace Attributes

def get (as : Attributes) (name : Text) : Value := ((as.find? (·.1 == name)).map (·.2)).getD .null

def put (as : Attributes) (name : Text) (v : Value) : Attributes :=
  match as with
  | [] => [(name, v)]
  | a :: as => if a.1 == name then (name, v) :: as else a :: put as name v

def update (as bs : Attributes) : Attributes := bs.foldl (fun as b => as.put b.1 b.2) as

end Attributes

structure Edge where
  source : Text
  target : Text
  attributes : Attributes

structure Multigraph where
  nodes : List (Text × Attributes) := []
  edges : List Edge := []

namespace Multigraph

def hasNode (g : Multigraph) (id : Text) : Bool := g.nodes.any (·.1 == id)

def updateNode (id : Text) (as : Attributes) : List (Text × Attributes) → List (Text × Attributes)
  | [] => [(id, as)]
  | n :: ns => if n.1 == id then (id, n.2.update as) :: ns else n :: updateNode id as ns

/-- A node that is already there keeps its place and its other attributes. -/
def addNode (g : Multigraph) (id : Text) (as : Attributes) : Multigraph :=
  { g with nodes := updateNode id as g.nodes }

/-- Also adds the ends that are missing. -/
def addEdge (g : Multigraph) (e : Edge) : Multigraph :=
  let g := (g.addNode e.source []).addNode e.target []
  { g with edges := g.edges ++ [e] }

/-- Drops later repetitions. -/
def firsts : List Text → List Text
  | [] => []
  | x :: xs => x :: (firsts xs).filter (· ≠ x)

def grouped (key : Edge → Text) (es : List Edge) : List Edge :=
  (firsts (es.map key)).flatMap fun k => es.filter (key · == k)

def outEdges (g : Multigraph) (id : Text) : List Edge :=
  grouped (·.target) (g.edges.filter (·.source == id))

def inEdges (g : Multigraph) (id : Text) : List Edge :=
  grouped (·.source) (g.edges.filter (·.target == id))

def allEdges (g : Multigraph) : List Edge := g.nodes.flatMap fun n => g.outEdges n.1

end Multigraph
end Outline.Graph
