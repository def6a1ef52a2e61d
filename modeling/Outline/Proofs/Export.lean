import Outline.Proofs.Records

/-! What is exported of a graph, after any calls. The counts are those of the records
(`Export.Counted`). The records show the tree that was added last: a node for each visit, under a name
of its own, and edges between names of its nodes (`Export.Shows`). -/

namespace Outline.Graph

open Containment

variable {settings : GraphSettings} {transparent : List Kind} {file : Option Text} {root n m : Node}
  {s : State} {ps : List Placement} {x : Text}

/-- Counts of some types: each type once, with how often it occurs. -/
structure Tallies (types : List Value) (counts : List (Value × Nat)) : Prop where
  entry : ∀ c ∈ counts, c.2 = types.countP (·.same c.1)
  listed : ∀ v ∈ types, ∃ c ∈ counts, v.same c.1
  distinct : counts.Pairwise fun c d => c.1.same d.1 = false

section Count

variable {types us : List (Option Text)}

@[simp] theorem same_textValue (a b : Option Text) :
    (textValue a).same (textValue b) = decide (a = b) := by
  cases a <;> cases b <;> simp [textValue, Value.same, Value.sameScalar, Value.asInt?,
    beq_eq_decide]

theorem countType_map (hd : us.Nodup) (f : Option Text → Nat) (t : Option Text) :
    countType (us.map fun u => (textValue u, f u)) (textValue t) =
      if t ∈ us then us.map fun u => (textValue u, if u = t then f u + 1 else f u)
      else us.map (fun u => (textValue u, f u)) ++ [(textValue t, 1)] := by
  induction us with
  | nil => rfl
  | cons u us ih =>
    obtain ⟨hu, hd⟩ := List.nodup_cons.1 hd
    rw [List.map_cons, countType, same_textValue]
    by_cases ht : u = t
    · subst ht
      have hrest : us.map (fun v => (textValue v, if v = u then f v + 1 else f v)) =
          us.map fun v => (textValue v, f v) := by
        refine List.map_congr_left fun v hv => ?_
        have hne : v ≠ u := fun he => hu (he ▸ hv)
        rw [if_neg hne]
      simp [hrest]
    · rw [ih hd]
      have hmem : t ∈ u :: us ↔ t ∈ us := by simp [Ne.symm ht]
      simp only [ht, decide_false, Bool.false_eq_true, if_false, hmem]
      split_ifs <;> simp [ht]

theorem countTypes_eq (types : List (Option Text)) : countTypes (types.map textValue) =
    types.eraseDups.map fun t => (textValue t, types.count t) := by
  induction types using List.reverseRecOn with
  | nil => rfl
  | append_singleton types t ih =>
    have hstep : countTypes ((types ++ [t]).map textValue) =
        countType (countTypes (types.map textValue)) (textValue t) := by
      simp [countTypes]
    rw [hstep, ih, countType_map (eraseDups_nodup types), eraseDups_concat]
    simp only [List.mem_eraseDups]
    split_ifs with ht
    · refine List.map_congr_left fun u _ => ?_
      rw [List.count_append, List.count_singleton]
      by_cases hu : u = t
      · simp [hu]
      · simp [hu, Ne.symm hu]
    · rw [List.map_append]
      congr 1
      · refine List.map_congr_left fun u hu => ?_
        have hne : t ≠ u := fun he => ht (he ▸ List.mem_eraseDups.1 hu)
        rw [List.count_append, List.count_singleton]
        simp [hne]
      · simp [List.count_eq_zero.2 ht]

theorem sum_countType (counts : List (Value × Nat)) (v : Value) :
    ((countType counts v).map (·.2)).sum = (counts.map (·.2)).sum + 1 := by
  induction counts with
  | nil => rfl
  | cons c counts ih =>
    rw [countType]
    split_ifs
    · simp only [List.map_cons, List.sum_cons]; omega
    · simp only [List.map_cons, List.sum_cons, ih]; omega

theorem sum_countTypes (types : List Value) : ((countTypes types).map (·.2)).sum = types.length := by
  induction types using List.reverseRecOn with
  | nil => rfl
  | append_singleton types v ih =>
    have hstep : countTypes (types ++ [v]) = countType (countTypes types) v := by
      simp [countTypes]
    rw [hstep, sum_countType, ih, List.length_append, List.length_singleton]

theorem tallies_countTypes (types : List (Option Text)) :
    Tallies (types.map textValue) (countTypes (types.map textValue)) := by
  rw [countTypes_eq]
  refine ⟨?_, ?_, ?_⟩
  · intro c hc
    obtain ⟨t, -, rfl⟩ := List.mem_map.1 hc
    rw [List.countP_map, List.count]
    refine List.countP_congr fun u _ => ?_
    simp
  · intro v hv
    obtain ⟨t, ht, rfl⟩ := List.mem_map.1 hv
    exact ⟨_, List.mem_map_of_mem (List.mem_eraseDups.2 ht), textValue_same t⟩
  · rw [List.pairwise_map]
    refine (eraseDups_nodup types).imp fun hne => ?_
    simp [hne]

end Count

/-- The counts of an export are those of its records. -/
structure Export.Counted (e : Export) : Prop where
  totalNodes : e.totalNodes = e.nodes.length
  totalEdges : e.totalEdges = e.edges.length
  nodeTypes : Tallies (e.nodes.map (·.type)) e.nodeTypes
  edgeTypes : Tallies (e.edges.map (·.type)) e.edgeTypes
  sumNodes : (e.nodeTypes.map (·.2)).sum = e.totalNodes
  sumEdges : (e.edgeTypes.map (·.2)).sum = e.totalEdges

/-- The records are those of a tree: a node for each visit, under a name of its own, and edges between
names of nodes that are placed, or from the root. -/
structure Export.Shows (e : Export) (transparent : List Kind) (s : State) (root : Node) : Prop where
  nodes : (e.nodes.map fun r => (r.id, r.type)) =
    root.visits.zipIdx.map fun q => (nameOf q.1.node q.2, .str q.1.node.label.kind.toList)
  distinct : (e.nodes.map (·.id)).Nodup
  named : ∀ n ∈ root.nodes, ∃ r ∈ e.nodes, s.nameOf? n = some r.id ∧
    (root.Coherent → r.type = .str n.label.kind.toList)
  injective : ∀ n ∈ root.nodes, ∀ m ∈ root.nodes, s.nameOf? n = s.nameOf? m →
    n.label.id = m.label.id
  ends : ∀ r ∈ e.edges, r.source ∈ e.nodes.map (·.id) ∧ r.target ∈ e.nodes.map (·.id)
  edges : ∀ r ∈ e.edges, ∃ c ∈ root.nodes, ∃ m ∈ root.nodes,
    s.nameOf? c = some r.source ∧ s.nameOf? m = some r.target ∧
      (c = root ∨ c.label.kind ∉ transparent) ∧ m.label.kind ∉ transparent

namespace State.Stores

theorem nameOf?_eq (h : s.Stores settings file root ps) (n : Node) :
    s.nameOf? n = (State.named settings file root.visits).nameOf? n := by
  rw [h.name, State.nameOf?_named]

theorem nodeTypes_eq (h : s.Stores settings file root ps) :
    (s.graph.nodes.map fun n => typeUnder "node_type".toList n.2) =
      (root.visits.map fun v => some v.node.label.kind.toList).map textValue := by
  rw [h.nodes, List.map_map, List.map_map]
  calc root.visits.zipIdx.map _ = (root.visits.zipIdx.map Prod.fst).map
        fun v => textValue (some v.node.label.kind.toList) := by rw [List.map_map]; rfl
    _ = _ := by rw [List.zipIdx_map_fst]; rfl

theorem recordTypes_eq (h : s.Stores settings file root ps) :
    (nodeRecords s.graph).map (·.type) =
      s.graph.nodes.map fun n => typeUnder "node_type".toList n.2 := by
  rw [nodeRecords_eq h.nodes, h.nodes, List.map_map, List.map_map]
  rfl

theorem length_allEdges (h : s.Stores settings file root ps) :
    s.graph.allEdges.length = s.graph.edges.length :=
  (Multigraph.allEdges_perm h.keys_nodup h.hasNode_source).length_eq

theorem edgeTypes_eq (h : s.Stores settings file root ps) :
    (s.graph.allEdges.map fun e => typeUnder "edge_type".toList e.attributes) =
      (List.replicate s.graph.edges.length settings.edgeType).map textValue := by
  rw [List.map_replicate, ← h.length_allEdges, List.map_eq_replicate_iff]
  intro e he
  have hmem := (Multigraph.allEdges_perm h.keys_nodup h.hasNode_source).subset he
  rw [h.edges] at hmem
  obtain ⟨q, -, rfl⟩ := List.mem_map.1 hmem
  rfl

/-- The records of the edges that placements added. -/
def edgeList (settings : GraphSettings) (s : State) (ps : List Placement) : List EdgeRecord :=
  (ps.map s.pairOf).eraseDups.zipIdx.map (edgeRecordOf settings)

theorem export_eq (h : s.Stores settings file root ps) :
    Export.of s.graph = .ok (.withEdges s.graph (edgeList settings s ps)) := by
  rw [Export.of, h.edgeRecords_eq]
  rfl

theorem length_edgeList (h : s.Stores settings file root ps) :
    (edgeList settings s ps).length = s.graph.edges.length := by
  rw [edgeList, h.edges, List.length_map, List.length_map]

theorem edgeListTypes_eq (h : s.Stores settings file root ps) :
    (edgeList settings s ps).map (·.type) =
      (List.replicate s.graph.edges.length settings.edgeType).map textValue := by
  rw [List.map_replicate, ← h.length_edgeList, List.map_eq_replicate_iff]
  intro r hr
  obtain ⟨q, -, rfl⟩ := List.mem_map.1 hr
  rfl

theorem counted (h : s.Stores settings file root ps) :
    (Export.withEdges s.graph (edgeList settings s ps)).Counted where
  totalNodes := by
    change _ = (nodeRecords s.graph).length
    rw [nodeRecords, List.length_map]
    rfl
  totalEdges := h.length_edgeList.symm
  nodeTypes := by
    dsimp only [Export.withEdges]
    rw [h.recordTypes_eq, h.nodeTypes_eq]
    exact tallies_countTypes _
  edgeTypes := by
    dsimp only [Export.withEdges]
    rw [h.edgeListTypes_eq, h.edgeTypes_eq]
    exact tallies_countTypes _
  sumNodes := by
    dsimp only [Export.withEdges]
    rw [sum_countTypes, List.length_map]
  sumEdges := by
    dsimp only [Export.withEdges]
    rw [sum_countTypes, List.length_map, h.length_allEdges]

/-- The record under the name of a node is that of its last visit. -/
theorem exists_record (h : s.Stores settings file root ps) (hn : n ∈ root.nodes) :
    ∃ r ∈ nodeRecords s.graph, s.nameOf? n = some r.id ∧
      (root.Coherent → r.type = .str n.label.kind.toList) := by
  obtain ⟨w, hw, rfl⟩ := List.mem_map.1 hn
  obtain ⟨x, hx⟩ := State.exists_nameOf? settings file hw
  obtain ⟨i, v, hi, hv, rfl⟩ := State.visit_of_nameOf? hx
  have hq : (v, i) ∈ root.visits.zipIdx := List.mem_zipIdx_iff_getElem?.2 hi
  refine ⟨nodeRecordOf settings file (v, i), ?_, ?_, ?_⟩
  · rw [nodeRecords_eq h.nodes]
    exact List.mem_map_of_mem hq
  · rw [h.nameOf?_eq, hx]
    rfl
  · intro hi
    have hvn : v.node ∈ root.nodes := List.mem_map_of_mem (List.fst_mem_of_mem_zipIdx hq)
    rw [← hi v.node hvn w.node hn (Node.is_iff.1 hv)]
    rfl

theorem ids_eq (h : s.Stores settings file root ps) :
    (nodeRecords s.graph).map (·.id) = root.visits.zipIdx.map fun q => nameOf q.1.node q.2 := by
  rw [nodeRecords_eq h.nodes, List.map_map]
  rfl

theorem injective (h : s.Stores settings file root ps) (hn : n ∈ root.nodes)
    (he : s.nameOf? n = s.nameOf? m) : n.label.id = m.label.id := by
  obtain ⟨w, hw, rfl⟩ := List.mem_map.1 hn
  obtain ⟨x, hx⟩ := State.exists_nameOf? settings file hw
  rw [h.nameOf?_eq, h.nameOf?_eq, hx] at he
  exact State.id_eq_of_nameOf? hx he.symm

theorem placement_of_edge (h : s.Stores settings file root ps) {r : EdgeRecord}
    (hr : r ∈ edgeList settings s ps) : ∃ p ∈ ps,
      s.nameOf? p.container = some r.source ∧ s.nameOf? p.member = some r.target := by
  obtain ⟨q, hq, rfl⟩ := List.mem_map.1 hr
  obtain ⟨p, hp, hpq⟩ := List.mem_map.1 (List.mem_eraseDups.1 (List.fst_mem_of_mem_zipIdx hq))
  have hcovers := h.covers p hp
  refine ⟨p, hp, ?_, ?_⟩
  · rw [hcovers.1]; exact congrArg (fun q => some q.1) hpq
  · rw [hcovers.2]; exact congrArg (fun q => some q.2) hpq

theorem shows (h : s.Stores settings file root (resolve transparent root).placements) :
    (Export.withEdges s.graph (edgeList settings s (resolve transparent root).placements)).Shows
      transparent s root where
  nodes := by
    change (nodeRecords s.graph).map _ = _
    rw [nodeRecords_eq h.nodes, List.map_map]
    rfl
  distinct := by
    change ((nodeRecords s.graph).map (·.id)).Nodup
    rw [h.ids_eq]
    exact State.names_nodup root.visits
  named n hn := h.exists_record hn
  injective n hn m _ he := h.injective hn he
  ends r hr := by
    obtain ⟨p, hp, hc, hm⟩ := h.placement_of_edge hr
    obtain ⟨hcn, hmn⟩ := nodes_of_mem_placements hp
    have hid : ∀ n ∈ root.nodes, ∀ x, s.nameOf? n = some x →
        x ∈ (nodeRecords s.graph).map (·.id) := by
      intro n hn x hx
      obtain ⟨r, hr, hname, -⟩ := h.exists_record hn
      exact List.mem_map.2 ⟨r, hr, Option.some.inj (hname.symm.trans hx)⟩
    exact ⟨hid _ hcn _ hc, hid _ hmn _ hm⟩
  edges r hr := by
    obtain ⟨p, hp, hc, hm⟩ := h.placement_of_edge hr
    obtain ⟨hcn, hmn⟩ := nodes_of_mem_placements hp
    obtain ⟨hplaced, hmember⟩ := placed_of_mem_placements hp
    exact ⟨p.container, hcn, p.member, hmn, hc, hm, hplaced.imp_right kind_not_mem_of_placed,
      kind_not_mem_of_placed hmember⟩

end State.Stores

def State.lastTree? (calls : List State.Call) : Option Node :=
  calls.getLast?.bind fun
    | .add _ root => some root
    | .reset => none

/-- After any calls the export is that of the tree that was added last, or without records where
nothing was added since the last reset. -/
theorem export_after (settings : GraphSettings) (transparent : List Kind)
    (calls : List State.Call) :
    let s := State.after settings transparent calls
    ∃ e, Export.of s.graph = .ok e ∧ e.Counted ∧
    (State.lastTree? calls = none → e.nodes = [] ∧ e.edges = [] ∧ ∀ n, s.nameOf? n = none) ∧
    (∀ root, State.lastTree? calls = some root → e.Shows transparent s root) := by
  have hempty : (Export.withEdges {} []).Counted := by
    refine ⟨rfl, rfl, ?_, ?_, rfl, rfl⟩ <;> exact tallies_countTypes []
  rcases calls.eq_nil_or_concat' with rfl | ⟨calls, call, rfl⟩
  · exact ⟨_, rfl, hempty, fun _ => ⟨rfl, rfl, fun _ => rfl⟩, fun root he => by cases he⟩
  · have hafter : State.after settings transparent (calls ++ [call]) =
        State.Call.run settings transparent (State.after settings transparent calls) call := by
      simp [State.after]
    have hlast : (calls ++ [call]).getLast? = some call := List.getLast?_concat
    rw [hafter, State.lastTree?, hlast]
    cases call with
    | reset =>
      exact ⟨_, rfl, hempty, fun _ => ⟨rfl, rfl, fun _ => rfl⟩, fun root he => by cases he⟩
    | add file root =>
      have h := State.stores_addDocument settings transparent file
        (State.after settings transparent calls) root
      refine ⟨_, h.export_eq, h.counted, (fun he => by cases he), fun root' he => ?_⟩
      cases he
      exact h.shows

def hyphenated : Node :=
  .node { id := 0, kind := "a" } [
    .node { id := 1, kind := "a-1" } [],
    .node { id := 2, kind := Kind.blockquote } [
      .node { id := 1, kind := "a-1" } [],
      .node { id := 3, kind := "a-1-1" } []]]

/-- The node at two places has two records, and all its edges are at the last. -/
theorem export_after_sample :
    let calls : List State.Call := [.add none Node.sample, .reset, .add none hyphenated]
    let s := State.after {} [Kind.root] calls
    ∃ e, Export.of s.graph = .ok e ∧ State.lastTree? calls = some hyphenated ∧
      hyphenated.Coherent ∧ e.Shows [Kind.root] s hyphenated ∧
      e.nodes.map (String.ofList ·.id) = ["a-0", "a-1-1", "blockquote-2", "a-1-3", "a-1-1-4"] ∧
      e.edges.map (fun r => (String.ofList r.source, String.ofList r.target)) =
        [("a-0", "a-1-3"), ("a-0", "blockquote-2"), ("blockquote-2", "a-1-3"),
          ("blockquote-2", "a-1-1-4")] := by
  have hi : hyphenated.Coherent := Node.coherent_of_table
    (fun i => (hyphenated.nodes.find? (·.label.id == i)).getD hyphenated) rfl
  obtain ⟨e, he, -, -, hshows⟩ :=
    export_after {} [Kind.root] [.add none Node.sample, .reset, .add none hyphenated]
  refine ⟨e, he, rfl, hi, hshows hyphenated rfl, ?_⟩
  cases he
  exact ⟨rfl, rfl⟩

end Outline.Graph
