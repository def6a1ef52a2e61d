import Mathlib.Data.List.Perm.Basic
import Outline.Proofs.Document
import Outline.Proofs.Malformed

/-! What the records of a document's graph say. There is a node for each visit, in the order of the
visits (`nodeRecords_placeAll`), also when the placement stopped early, and the edges are the pairs
of names as they first came, ranked in that order (`edgeRecords_of_edges`): the grouping of edges by
their ends is undone by sorting. Nothing of what the graph held before is left in them. -/

namespace Outline.Graph

open Containment

variable {settings : GraphSettings} {transparent : List Kind} {file : Option Text} {root n : Node}
  {vs : List (Visit Entry)} {v : Visit Entry} {pairs : List (Text × Text)} {ps : List Placement}

namespace Multigraph

variable {g : Multigraph} {id : Text} {as : Attributes} {nodes : List (Text × Attributes)}
  {e : Edge}

theorem updateNode_of_mem (h : id ∈ nodes.map (·.1)) : updateNode id [] nodes = nodes := by
  induction nodes with
  | nil => cases h
  | cons n nodes ih =>
    unfold updateNode
    split_ifs with hn
    · rw [← beq_iff_eq.1 hn]
      rfl
    · have hne : id ≠ n.1 := fun he => hn (beq_iff_eq.2 he.symm)
      rw [ih ((List.mem_cons.1 h).resolve_left hne)]

theorem updateNode_of_not_mem (h : id ∉ nodes.map (·.1)) :
    updateNode id as nodes = nodes ++ [(id, as)] := by
  induction nodes with
  | nil => rfl
  | cons n nodes ih =>
    rw [List.map_cons, List.mem_cons, not_or] at h
    unfold updateNode
    rw [if_neg fun hn => h.1 (beq_iff_eq.1 hn).symm, ih h.2, List.cons_append]

theorem nodes_addEdge (h1 : g.hasNode e.source) (h2 : g.hasNode e.target) :
    (g.addEdge e).nodes = g.nodes := by
  rw [hasNode_iff] at h1 h2
  unfold addEdge addNode
  dsimp only
  rw [updateNode_of_mem h1, updateNode_of_mem h2]

theorem allEdges_perm (hd : (g.nodes.map (·.1)).Nodup) (hs : ∀ e ∈ g.edges, g.hasNode e.source) :
    g.allEdges.Perm g.edges := by
  have hall : g.allEdges = (g.nodes.map (·.1)).flatMap g.outEdges := by
    rw [allEdges, List.flatMap_map]
  have hgroup : ((g.nodes.map (·.1)).flatMap g.outEdges).Perm
      ((g.nodes.map (·.1)).flatMap fun k => g.edges.filter (·.source == k)) :=
    List.Perm.flatMap_left _ fun k _ => grouped_perm (·.target) _
  rw [hall]
  exact hgroup.trans (flatMap_filter_perm hd fun e he => hasNode_iff.1 (hs e he))

end Multigraph

instance : Std.Total (fun a b : Edge => decide (rankNumber a.rank ≤ rankNumber b.rank) = true) where
  total a b := by
    simp only [decide_eq_true_eq]
    exact Int.le_total (rankNumber a.rank) (rankNumber b.rank)

instance : IsTrans Edge (fun a b => decide (rankNumber a.rank ≤ rankNumber b.rank) = true) where
  trans a b c := by
    simp only [decide_eq_true_eq]
    exact Int.le_trans

def edgeRecordOf (settings : GraphSettings) (q : (Text × Text) × Nat) : EdgeRecord :=
  ⟨q.1.1, q.1.2, textValue settings.edgeType, [("rank".toList, .int q.2)]⟩

/-- No two edges have one rank, so in the order of their ranks they stand as they came. -/
theorem edgeRecords_of_edges {g : Multigraph} (hg : g.edges = pairs.zipIdx.map (edgeOf settings))
    (hd : (g.nodes.map (·.1)).Nodup) (hs : ∀ e ∈ g.edges, g.hasNode e.source) :
    edgeRecords g = .ok (pairs.zipIdx.map (edgeRecordOf settings)) := by
  have hrank : ∀ e ∈ g.edges, e.rank.asInt? = some (rankNumber e.rank) := by
    rw [hg]
    exact List.forall_mem_map.2 fun q _ => rfl
  have hsorted : g.edges.Pairwise fun a b =>
      decide (rankNumber a.rank ≤ rankNumber b.rank) = true := by
    rw [hg, List.pairwise_map]
    apply (pairwise_zipIdx pairs).imp
    intro a b h
    rw [decide_eq_true_eq]
    exact Int.ofNat_le.2 (Nat.le_of_lt h)
  have hanti : ∀ a ∈ g.edges, ∀ b ∈ g.edges, rankNumber a.rank = rankNumber b.rank → a = b := by
    rw [hg]
    intro a ha b hb hr
    obtain ⟨⟨q, i⟩, hq, rfl⟩ := List.mem_map.1 ha
    obtain ⟨⟨r, j⟩, hr', rfl⟩ := List.mem_map.1 hb
    obtain rfl : i = j := Int.ofNat_inj.1 hr
    rw [List.mem_zipIdx_iff_getElem?] at hq hr'
    obtain rfl : q = r := Option.some.inj (hq.symm.trans hr')
    rfl
  have hperm := Multigraph.allEdges_perm hd hs
  have hask : ∀ a ∈ g.allEdges, ∀ b ∈ g.allEdges,
      b.rank.before? a.rank = some (!decide (rankNumber a.rank ≤ rankNumber b.rank)) := by
    intro a ha b hb
    rw [Value.before?_of_asInt? (hrank b (hperm.subset hb)) (hrank a (hperm.subset ha))]
    rw [← decide_not]
    simp only [Int.not_le]
  have hsort : g.allEdges.insertionSort
      (fun a b => decide (rankNumber a.rank ≤ rankNumber b.rank) = true) = g.edges := by
    have hmem := (List.perm_insertionSort
      (fun a b => decide (rankNumber a.rank ≤ rankNumber b.rank) = true) g.allEdges).trans hperm
    refine List.Perm.eq_of_pairwise ?_ (List.pairwise_insertionSort _ _) hsorted hmem
    intro a b ha hb hab hba
    rw [decide_eq_true_eq] at hab hba
    exact hanti a (hmem.subset ha) b hb (Int.le_antisymm hab hba)
  rw [edgeRecords, sortBy_eq_insertionSort hask, hsort, hg]
  exact congrArg Except.ok List.map_map

def nodeRecordOf (settings : GraphSettings) (file : Option Text) (q : Visit Entry × Nat) :
    NodeRecord :=
  ⟨nameOf q.1.node q.2, .str q.1.node.label.kind.toList,
    properties settings.preview file q.1.node⟩

/-- The name that a node got at the last of its visits. -/
def lastName? (vs : List (Visit Entry)) (n : Node) : Option Text :=
  (vs.zipIdx.filter fun q => Node.is q.1.node n).getLast?.map fun q => nameOf q.1.node q.2

namespace State

theorem nameOf?_named (settings : GraphSettings) (file : Option Text) (vs : List (Visit Entry))
    (n : Node) : (named settings file vs).nameOf? n = lastName? vs n := by
  induction vs using List.reverseRecOn with
  | nil => rfl
  | append_singleton vs v ih =>
    rw [named_concat, nameOf?_addNode, next_named, ih]
    unfold lastName?
    rw [List.zipIdx_append, List.filter_append, Nat.zero_add, List.zipIdx_singleton]
    split_ifs with hn
    · have hlast : [(v, vs.length)].filter (fun q => Node.is q.1.node n) = [(v, vs.length)] :=
        List.filter_cons_of_pos hn
      rw [hlast, List.getLast?_concat, Option.map_some]
    · have hlast : [(v, vs.length)].filter (fun q => Node.is q.1.node n) = [] :=
        List.filter_cons_of_neg hn
      rw [hlast, List.append_nil]

def storedNode (settings : GraphSettings) (file : Option Text) (q : Visit Entry × Nat) :
    Text × Attributes :=
  (nameOf q.1.node q.2, ("node_id".toList, .str (nameOf q.1.node q.2)) ::
    ("node_type".toList, .str q.1.node.label.kind.toList) ::
      properties settings.preview file q.1.node)

theorem names_nodup (vs : List (Visit Entry)) :
    (vs.zipIdx.map fun q => nameOf q.1.node q.2).Nodup := by
  rw [List.Nodup, List.pairwise_map]
  apply (pairwise_zipIdx vs).imp
  intro a b h he
  exact absurd (nameOf_inj he) (Nat.ne_of_lt h)

theorem nodes_named (settings : GraphSettings) (file : Option Text) (vs : List (Visit Entry)) :
    (named settings file vs).graph.nodes = vs.zipIdx.map (storedNode settings file) := by
  induction vs using List.reverseRecOn with
  | nil => rfl
  | append_singleton vs v ih =>
    have hnew := names_nodup (vs ++ [v])
    rw [List.zipIdx_append, Nat.zero_add, List.zipIdx_singleton, List.map_append,
      List.nodup_append] at hnew
    have hfresh : nameOf v.node vs.length ∉
        (vs.zipIdx.map (storedNode settings file)).map (·.1) := by
      rw [List.map_map]
      intro hmem
      exact hnew.2.2 _ hmem _ (List.mem_singleton_self _) rfl
    rw [named_concat, List.zipIdx_append, Nat.zero_add, List.zipIdx_singleton, List.map_append,
      List.map_singleton]
    unfold addNode Multigraph.addNode
    dsimp only
    rw [next_named, ih, Multigraph.updateNode_of_not_mem hfresh]
    rfl

variable {s : State}

theorem nodes_placeAll (settings : GraphSettings)
    (hk : ∀ n x, s.nameOf? n = some x → s.graph.hasNode x) (ps : List Placement) :
    (placeAll settings s ps).graph.nodes = s.graph.nodes := by
  induction ps using List.reverseRecOn with
  | nil => rfl
  | append_singleton ps p ih =>
    rw [placeAll_concat]
    unfold addPlacement
    split
    · next source target h1 h2 =>
      split_ifs
      · exact ih
      · rw [nameOf?_placeAll] at h1 h2
        have hsource := hasNode_placeAll settings ps (hk _ _ h1)
        have htarget := hasNode_placeAll settings ps (hk _ _ h2)
        dsimp only
        rw [Multigraph.nodes_addEdge hsource htarget]
        exact ih
    · exact ih

/-- What a graph can be asked to do. -/
inductive Call where
  | add (file : Option Text) (root : Node)
  | reset

def Call.run (settings : GraphSettings) (transparent : List Kind) (s : State) : Call → State
  | add file root => (s.addDocument settings transparent file root).1
  | reset => s.reset

/-- The state after some calls, of which documents may have ended with a violation. -/
def after (settings : GraphSettings) (transparent : List Kind) (calls : List Call) : State :=
  calls.foldl (Call.run settings transparent) {}

end State

/-- Stored under its name a node has its type, and all else is its properties. -/
theorem nodeRecords_eq {g : Multigraph}
    (hg : g.nodes = vs.zipIdx.map (State.storedNode settings file)) :
    nodeRecords g = vs.zipIdx.map (nodeRecordOf settings file) := by
  rw [nodeRecords, hg, List.map_map]
  rfl

/-- The state holds a document: a node for each visit, and an edge for each pair of last names that
was placed. -/
structure State.Stores (s : State) (settings : GraphSettings) (file : Option Text) (root : Node)
    (ps : List Placement) : Prop where
  name : ∀ n, s.nameOf? n = lastName? root.visits n
  nodes : s.graph.nodes = root.visits.zipIdx.map (State.storedNode settings file)
  covers : ∀ p ∈ ps, s.Covers p
  edges : s.graph.edges = (ps.map s.pairOf).eraseDups.zipIdx.map (edgeOf settings)
  known : ∀ n x, s.nameOf? n = some x → s.graph.hasNode x

theorem State.stores_addDocument (settings : GraphSettings) (transparent : List Kind)
    (file : Option Text) (s : State) (root : Node) :
    (s.addDocument settings transparent file root).1.Stores settings file root
      (resolve transparent root).placements := by
  let start := State.named settings file root.visits
  let ps := (resolve transparent root).placements
  have hstate : (s.addDocument settings transparent file root).1 =
      State.placeAll settings start ps := by
    unfold State.addDocument
    rw [Tree.walk_eq_visits]
    rfl
  have hname : ∀ n, (State.placeAll settings start ps).nameOf? n = start.nameOf? n :=
    State.nameOf?_placeAll settings start ps
  have hknown : ∀ n x, start.nameOf? n = some x → start.graph.hasNode x :=
    fun n x => State.hasNode_of_nameOf?
  have hcovers : ∀ p ∈ ps, start.Covers p := by
    intro p hp
    obtain ⟨hc, hm⟩ := nodes_of_mem_placements hp
    have hnames := (State.names_named settings file root).name
    exact ⟨hnames _ hc, hnames _ hm⟩
  rw [hstate]
  refine ⟨fun n => ?_, ?_, fun p hp => ?_, ?_, fun n x hx => ?_⟩
  · rw [hname]
    exact State.nameOf?_named settings file root.visits n
  · rw [State.nodes_placeAll settings hknown, State.nodes_named]
  · unfold State.Covers
    rw [hname, hname, State.nameIn_placeAll, State.nameIn_placeAll]
    exact hcovers p hp
  · rw [State.pairOf_placeAll]
    exact State.edges_placeAll (State.edges_named settings file root.visits) hcovers
  · rw [hname] at hx
    exact State.hasNode_placeAll settings ps (hknown n x hx)

namespace State.Stores

variable {s : State}

theorem keys_nodup (h : s.Stores settings file root ps) : (s.graph.nodes.map (·.1)).Nodup := by
  rw [h.nodes, List.map_map]
  exact State.names_nodup root.visits

theorem hasNode_source (h : s.Stores settings file root ps) :
    ∀ e ∈ s.graph.edges, s.graph.hasNode e.source := by
  intro e he
  rw [h.edges] at he
  obtain ⟨q, hq, rfl⟩ := List.mem_map.1 he
  obtain ⟨p, hp, hpq⟩ := List.mem_map.1 (List.mem_eraseDups.1 (List.fst_mem_of_mem_zipIdx hq))
  rw [source_edgeOf, ← hpq]
  exact h.known _ _ (h.covers p hp).1

theorem edgeRecords_eq (h : s.Stores settings file root ps) : edgeRecords s.graph =
    .ok ((ps.map s.pairOf).eraseDups.zipIdx.map (edgeRecordOf settings)) :=
  edgeRecords_of_edges h.edges h.keys_nodup h.hasNode_source

end State.Stores

/-- After any calls the graph of a document is that of the document alone. Its nodes are one for
each visit. Its edges, by rank, are the pairs of last names of the nodes that were placed, up to the
violation if there is one, later repetitions of a pair left out; ranks count up from zero. -/
theorem addDocument_after (settings : GraphSettings) (transparent : List Kind)
    (calls : List State.Call) (file : Option Text) (root : Node) :
    let s := (State.after settings transparent calls).addDocument settings transparent file root
    s = State.addDocument settings transparent file {} root ∧
    s.2 = (resolve transparent root).violation ∧
    (∀ n, s.1.nameOf? n = lastName? root.visits n) ∧
    nodeRecords s.1.graph = root.visits.zipIdx.map (nodeRecordOf settings file) ∧
    ∃ pairs : List (Text × Text),
      ((resolve transparent root).placements.map fun p =>
        (lastName? root.visits p.container, lastName? root.visits p.member)) =
          pairs.map (fun q => (some q.1, some q.2)) ∧
      edgeRecords s.1.graph = .ok (pairs.eraseDups.zipIdx.map (edgeRecordOf settings)) := by
  have h := State.stores_addDocument settings transparent file
    (State.after settings transparent calls) root
  refine ⟨rfl, rfl, h.name, nodeRecords_eq h.nodes, _, ?_, h.edgeRecords_eq⟩
  rw [List.map_map]
  apply List.map_congr_left
  intro p hp
  rw [← h.name, ← h.name, (h.covers p hp).1, (h.covers p hp).2]
  rfl

end Outline.Graph
