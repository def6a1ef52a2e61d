import Mathlib.Data.List.Infix
import Mathlib.Data.List.Nodup
import Outline.Proofs.Visit

/-! The pre-order of a tree and what is done to the tree. Other labels give the same visits with
other labels (`visits_map`); the nodes of a subtree stand together (`infix_of_mem_nodes`), so that a
node comes before everything below it; and a visit's parent is a node that has the visited one among
its children. -/

namespace Outline

namespace Tree

variable {α β : Type}

/-- Induction over a tree: from all children to their parent. -/
theorem induct {P : Tree α → Prop} (h : ∀ a ts, (∀ t ∈ ts, P t) → P (node a ts)) : ∀ t, P t
  | node a ts => h a ts fun t _ => induct h t

theorem mapAll_eq (f : α → β) (ts : List (Tree α)) : mapAll f ts = ts.map (map f) := by
  induction ts with
  | nil => rfl
  | cons t ts ih => rw [mapAll, ih, List.map_cons]

@[simp] theorem map_node (f : α → β) (a : α) (ts : List (Tree α)) :
    (node a ts).map f = node (f a) (ts.map (map f)) := by
  rw [map, mapAll_eq]

@[simp] theorem label_map (f : α → β) (t : Tree α) : (t.map f).label = f t.label := by
  cases t; rw [map_node]; rfl

@[simp] theorem children_map (f : α → β) (t : Tree α) :
    (t.map f).children = t.children.map (map f) := by
  cases t; rw [map_node]; rfl

theorem visitsFrom_node (p : Option (Tree α)) (a : α) (ts : List (Tree α)) :
    visitsFrom p (node a ts) = ⟨node a ts, p⟩ :: ts.flatMap (visitsFrom (some (node a ts))) := by
  rw [visitsFrom, visitsAll_eq, List.flatMap_map]
  rfl

end Tree

def Visit.map {α β : Type} (f : α → β) (v : Visit α) : Visit β :=
  ⟨v.node.map f, v.parent.map (·.map f)⟩

namespace Tree

variable {α β : Type}

theorem visitsFrom_map (f : α → β) (p : Option (Tree α)) (t : Tree α) :
    visitsFrom (p.map (map f)) (t.map f) = (visitsFrom p t).map (Visit.map f) := by
  induction t using induct generalizing p with
  | h a ts ih =>
    rw [map_node, visitsFrom_node, visitsFrom_node, List.map_cons, Visit.map, map_node,
      List.map_flatMap, List.flatMap_map]
    congr 1
    apply List.flatMap_congr
    intro t ht
    have h := ih t ht (some (node a ts))
    rwa [Option.map_some, map_node] at h

theorem visits_map (f : α → β) (t : Tree α) : (t.map f).visits = t.visits.map (Visit.map f) :=
  visitsFrom_map f none t

def labels (u : Tree α) : List α := u.visits.map (·.node.label)

theorem labels_node (a : α) (us : List (Tree α)) :
    (node a us).labels = a :: us.flatMap labels := by
  have hfrom : ∀ (p : Option (Tree α)) (u : Tree α),
      (visitsFrom p u).map (·.node.label) = u.labels := by
    rintro p ⟨b, ws⟩
    rw [labels, visits, visitsFrom_node, visitsFrom_node]
    rfl
  rw [labels, visits, visitsFrom_node, List.map_cons, List.map_flatMap]
  congr 1
  exact List.flatMap_congr fun u _ => hfrom _ u

theorem labels_map (f : α → β) (u : Tree α) : (u.map f).labels = u.labels.map f := by
  rw [labels, labels, visits_map, List.map_map, List.map_map]
  congr 1
  funext v
  exact label_map f v.node

end Tree

namespace Node

variable {root n p : Node} {v : Visit Entry}

theorem map_node_visitsFrom (p : Option Node) (n : Node) :
    (Tree.visitsFrom p n).map (·.node) = n.nodes := by
  cases n
  rw [nodes, Tree.visits, Tree.visitsFrom_node, Tree.visitsFrom_node]
  rfl

theorem nodes_node (a : Entry) (ts : List Node) :
    nodes (.node a ts) = .node a ts :: ts.flatMap nodes := by
  rw [nodes, Tree.visits, Tree.visitsFrom_node, List.map_cons, List.map_flatMap]
  congr 1
  exact List.flatMap_congr fun t _ => map_node_visitsFrom _ t

/-- The nodes of a subtree stand together. -/
theorem infix_of_mem_nodes (hn : n ∈ root.nodes) : n.nodes <:+: root.nodes := by
  induction root using Tree.induct with
  | h a ts ih =>
    rw [nodes_node] at hn ⊢
    rcases List.mem_cons.1 hn with rfl | hn
    · rw [nodes_node]
    · obtain ⟨t, ht, hn⟩ := List.mem_flatMap.1 hn
      have hin := ih t ht hn
      obtain ⟨before, after, rfl⟩ := List.append_of_mem ht
      rw [List.flatMap_append, List.flatMap_cons, ← List.append_assoc]
      exact List.infix_cons (hin.trans (List.infix_append _ _ _))

theorem child_mem_nodes (hp : p ∈ root.nodes) (hn : n ∈ p.children) : n ∈ root.nodes := by
  refine (infix_of_mem_nodes hp).subset ?_
  obtain ⟨a, ts⟩ := p
  rw [nodes_node]
  exact List.mem_cons_of_mem _ (List.mem_flatMap.2 ⟨n, hn, self_mem_nodes n⟩)

theorem sublist_of_below (hp : p ∈ root.nodes) {c : Node} (hc : c ∈ p.children)
    (hn : n ∈ c.nodes) : [p, n].Sublist root.nodes := by
  refine List.Sublist.trans ?_ (infix_of_mem_nodes hp).sublist
  obtain ⟨a, ts⟩ := p
  rw [nodes_node]
  exact (List.singleton_sublist.2 (List.mem_flatMap.2 ⟨c, hc, hn⟩)).cons_cons _

theorem parent_of_mem_visitsFrom {q? : Option Node} (hv : v ∈ Tree.visitsFrom q? n) :
    v = ⟨n, q?⟩ ∨ ∃ p ∈ n.nodes, v.parent = some p ∧ v.node ∈ p.children := by
  induction n using Tree.induct generalizing q? with
  | h a ts ih =>
    rw [Tree.visitsFrom_node] at hv
    rcases List.mem_cons.1 hv with rfl | hv
    · exact .inl rfl
    · right
      obtain ⟨t, ht, hv⟩ := List.mem_flatMap.1 hv
      rcases ih t ht hv with rfl | ⟨p, hp, hpar, hc⟩
      · exact ⟨_, self_mem_nodes _, rfl, ht⟩
      · have ht' : t ∈ nodes (.node a ts) := child_mem_nodes (self_mem_nodes _) ht
        exact ⟨p, (infix_of_mem_nodes ht').subset hp, hpar, hc⟩

/-- The parent of a visit is a node of the tree with the visited node among its children. -/
theorem parent_of_visit (hv : v ∈ root.visits) (hp : v.parent = some p) :
    p ∈ root.nodes ∧ v.node ∈ p.children := by
  rcases parent_of_mem_visitsFrom hv with rfl | ⟨q, hq, hpar, hc⟩
  · cases hp
  · rw [hpar] at hp
    cases hp
    exact ⟨hq, hc⟩

theorem visit_of_child_from {q? : Option Node} {r : Node} (hp : p ∈ r.nodes) (hn : n ∈ p.children) :
    (⟨n, some p⟩ : Visit Entry) ∈ Tree.visitsFrom q? r := by
  induction r using Tree.induct generalizing q? with
  | h a ts ih =>
    rw [Tree.visitsFrom_node]
    refine List.mem_cons_of_mem _ (List.mem_flatMap.2 ?_)
    rw [nodes_node] at hp
    rcases List.mem_cons.1 hp with rfl | hp
    · refine ⟨n, hn, ?_⟩
      cases n
      rw [Tree.visitsFrom_node]
      exact List.mem_cons_self
    · obtain ⟨t, ht, hp⟩ := List.mem_flatMap.1 hp
      exact ⟨t, ht, ih t ht hp⟩

theorem visit_of_child (hp : p ∈ root.nodes) (hn : n ∈ p.children) :
    (⟨n, some p⟩ : Visit Entry) ∈ root.visits :=
  visit_of_child_from hp hn

/-- Without shared nodes a node is visited once. -/
theorem Unshared.visit_eq {w : Visit Entry} (hu : root.Unshared) (hv : v ∈ root.visits)
    (hw : w ∈ root.visits) (h : v.node.label.id = w.node.label.id) : v = w :=
  List.inj_on_of_nodup_map hu hv hw h

theorem not_sublist_swap {α : Type} {l : List α} {a b : α} (hd : l.Nodup)
    (hab : [a, b].Sublist l) : ¬ [b, a].Sublist l := by
  induction l with
  | nil => cases hab
  | cons x l ih =>
    rw [List.nodup_cons] at hd
    intro hba
    rcases List.sublist_cons_iff.1 hab with hab' | ⟨r, hr, hb⟩
    · rcases List.sublist_cons_iff.1 hba with hba' | ⟨r, hr, -⟩
      · exact ih hd.2 hab' hba'
      · obtain ⟨rfl, -⟩ := List.cons.inj hr
        exact hd.1 (hab'.subset (by simp))
    · obtain ⟨rfl, rfl⟩ := List.cons.inj hr
      rcases List.sublist_cons_iff.1 hba with hba' | ⟨r, hr, -⟩
      · exact hd.1 (hba'.subset (by simp))
      · obtain ⟨rfl, -⟩ := List.cons.inj hr
        exact hd.1 (hb.subset (by simp))

theorem Unshared.not_sublist_swap (hu : root.Unshared) (h : [n, p].Sublist root.nodes) :
    ¬ [p, n].Sublist root.nodes := by
  refine Node.not_sublist_swap (List.Nodup.of_map (·.label.id) ?_) h
  rw [nodes, List.map_map]
  exact hu

/-- Places with the same identity hold the same node. -/
def Coherent (root : Node) : Prop :=
  ∀ n ∈ root.nodes, ∀ m ∈ root.nodes, n.label.id = m.label.id → n = m

theorem Unshared.coherent (hu : root.Unshared) : root.Coherent :=
  fun _ hn _ hm => hu.node_eq hn hm

/-- A table by identity has all nodes, also those that stand at several places. -/
theorem coherent_of_table (f : Nat → Node)
    (h : (root.nodes.map fun n => f n.label.id) = root.nodes) : root.Coherent := by
  intro n hn m hm hid
  rw [← List.map_id root.nodes, List.map_map, List.map_inj_left] at h
  have hfn : f n.label.id = n := h n hn
  have hfm : f m.label.id = m := h m hm
  rw [← hfn, ← hfm, hid]

theorem Coherent.ne_of_below {c m : Node} (hi : root.Coherent) (hp : p ∈ root.nodes)
    (hc : c ∈ p.children) (hm : m ∈ c.nodes) : m.label.id ≠ p.label.id := by
  intro hid
  have hroot : m ∈ root.nodes := (infix_of_mem_nodes (child_mem_nodes hp hc)).subset hm
  obtain rfl := hi m hroot p hp hid
  -- its nodes would be among those of its child, which are fewer
  have hle := (infix_of_mem_nodes hm).length_le
  obtain ⟨a, ts⟩ := m
  obtain ⟨before, after, hts⟩ : ∃ before after, ts = before ++ c :: after := List.append_of_mem hc
  rw [nodes_node, hts, List.length_cons, List.flatMap_append, List.flatMap_cons,
    List.length_append, List.length_append] at hle
  omega

end Node
end Outline
