import Outline.Proofs.Levels

/-! The order in which edges come to a graph. It shows in the order of the nodes and in the groups of
the edges of a node, but the answers do not depend on it: members are sorted by a total order of
ranks and names, so that they are the same for every arrangement of the edges (`members_of_perm`),
and the search below a node sees nothing of a graph but members (`descendants_congr`). -/

namespace Outline.Graph.Multigraph

variable {g g' : Multigraph} {type : Value} {es es' : List Edge} {x : Text}

def ofNodes (nodes : List (Text × Attributes)) : Multigraph :=
  nodes.foldl (fun g n => g.addNode n.1 n.2) {}

def addEdges (g : Multigraph) (es : List Edge) : Multigraph := es.foldl addEdge g

theorem addEdges_cons (g : Multigraph) (e : Edge) (es : List Edge) :
    g.addEdges (e :: es) = (g.addEdge e).addEdges es := rfl

theorem edges_addEdges (g : Multigraph) (es : List Edge) :
    (g.addEdges es).edges = g.edges ++ es := by
  induction es generalizing g with
  | nil => exact (List.append_nil _).symm
  | cons e es ih =>
    rw [addEdges_cons, ih]
    exact List.append_assoc _ _ _

theorem hasNode_addEdges : (g.addEdges es).hasNode x ↔
    (∃ e ∈ es, x = e.target ∨ x = e.source) ∨ g.hasNode x := by
  induction es generalizing g with
  | nil => simp [addEdges]
  | cons e es ih =>
    rw [addEdges_cons, ih, hasNode_addEdge, List.exists_mem_cons_iff]
    simp only [or_assoc, or_left_comm]

theorem Closed.addEdges (hg : g.Closed) (es : List Edge) : (g.addEdges es).Closed := by
  induction es generalizing g with
  | nil => exact hg
  | cons e es ih => exact ih (hg.addEdge e)

theorem closed_ofNodes (nodes : List (Text × Attributes)) : (ofNodes nodes).Closed := by
  unfold ofNodes
  induction nodes using List.reverseRecOn with
  | nil => exact closed_empty
  | append_singleton nodes n ih =>
    rw [List.foldl_concat]
    exact ih.addNode n.1 n.2

theorem edges_ofNodes (nodes : List (Text × Attributes)) : (ofNodes nodes).edges = [] := by
  unfold ofNodes
  induction nodes using List.reverseRecOn with
  | nil => rfl
  | append_singleton nodes n ih =>
    rw [List.foldl_concat]
    exact ih

theorem members_of_perm (h : g.edges.Perm g'.edges) (hi : Integral g.edges) (type : Value)
    (id : Text) : g.members type id = g'.members type id := by
  have hp : (g.edgesFrom type id).Perm (g'.edgesFrom type id) := h.filter _
  have hi' : Integral (g.edgesFrom type id) := fun e he => hi e (List.mem_of_mem_filter he)
  rw [members_eq_sort hi', members_eq_sort fun e he => hi' e (hp.symm.subset he),
    insertionSort_eq_of_perm ((hp.map keyOf).trans (List.perm_insertionSort _ _).symm)
      (List.pairwise_insertionSort _ _)]

/-- The search below a node sees nothing of the graph but which nodes there are and what their
members are. -/
theorem descendants_congr (hg : g.Closed) (hg' : g'.Closed) {a : Text}
    (hn : g.hasNode a ↔ g'.hasNode a) (hm : ∀ id, g.members type id = g'.members type id)
    (limit : Option Int) : g.descendants type a limit = g'.descendants type a limit := by
  by_cases hid : g.hasNode a
  · have h' := hg'.deepens (hn.1 hid) type limit
    rw [← expand_congr hm] at h'
    exact (hg.deepens hid type limit).functional h'
  · unfold descendants
    rw [if_neg hid, if_neg (mt hn.2 hid)]

theorem exists_members (h : Integral g.edges) (type : Value) (id : Text) :
    ∃ ms, g.members type id = .ok ms :=
  ⟨_, members_eq_sort fun e he => h e (List.mem_of_mem_filter he)⟩

/-- On the same nodes and edges, with integers as ranks, whatever the order in which the edges were
added, every node has the same members, and the same nodes below it level by level. -/
theorem answers_of_perm (type : Value) (nodes : List (Text × Attributes)) (h : es.Perm es')
    (hi : Integral es) :
    (∀ id, ∃ ms, ((ofNodes nodes).addEdges es).members type id = .ok ms ∧
      ((ofNodes nodes).addEdges es').members type id = .ok ms) ∧
    ∀ id limit, ∃ out, ((ofNodes nodes).addEdges es).descendants type id limit = .ok out ∧
      ((ofNodes nodes).addEdges es').descendants type id limit = .ok out := by
  have hedges : ((ofNodes nodes).addEdges es).edges = es := by
    rw [edges_addEdges, edges_ofNodes, List.nil_append]
  have hi' : Integral ((ofNodes nodes).addEdges es).edges := hedges.symm ▸ hi
  have hm : ∀ id, ((ofNodes nodes).addEdges es).members type id =
      ((ofNodes nodes).addEdges es').members type id := by
    refine members_of_perm ?_ hi' type
    rw [edges_addEdges, edges_addEdges]
    exact h.append_left _
  have hc := closed_ofNodes nodes
  refine ⟨fun id => ?_, fun id limit => ?_⟩
  · obtain ⟨ms, hms⟩ := exists_members hi' type id
    exact ⟨ms, hms, (hm id).symm.trans hms⟩
  · obtain ⟨out, ho⟩ : ∃ out, ((ofNodes nodes).addEdges es).descendants type id limit = .ok out :=
      (hc.addEdges es).descendants_ok fun _ c _ _ => exists_members hi' type c
    refine ⟨out, ho, ?_⟩
    rw [← ho]
    refine (descendants_congr (hc.addEdges es) (hc.addEdges es') ?_ hm limit).symm
    rw [hasNode_addEdges, hasNode_addEdges]
    simp only [h.mem_iff]

/-- The edges of the circle backwards: their ends come in another order, and the answers are the
same. -/
theorem answers_of_perm_sample :
    let forwards := (ofNodes []).addEdges sampleEdges
    let backwards := (ofNodes []).addEdges sampleEdges.reverse
    let type : Value := .str "contains".toList
    sampleEdges.Perm sampleEdges.reverse ∧ Integral sampleEdges ∧
      (forwards.nodes.map (·.1) = [['a'], ['b'], ['c'], ['d'], ['e']] ∧
        backwards.nodes.map (·.1) = [['c'], ['e'], ['a'], ['b'], ['d']]) ∧
      (∃ out, forwards.descendants type ['a'] none = .ok out ∧
        backwards.descendants type ['a'] none = .ok out) ∧
      forwards.members type ['a'] = .ok [['b'], ['c'], ['b']] ∧
      backwards.members type ['a'] = .ok [['b'], ['c'], ['b']] := by
  have hp : sampleEdges.Perm sampleEdges.reverse := (List.reverse_perm _).symm
  have hi : Integral sampleEdges := by decide
  obtain ⟨hm, hd⟩ := answers_of_perm (.str "contains".toList) [] hp hi
  obtain ⟨ms, hf, hb⟩ := hm ['a']
  have hms : ms = [['b'], ['c'], ['b']] := (Except.ok.inj hf).symm
  rw [hms] at hf hb
  exact ⟨hp, hi, by decide, hd _ _, hf, hb⟩

end Outline.Graph.Multigraph
