import Mathlib.Data.List.Nodup
import Outline.Node

/-! Visits of a tree whose nodes stand at one place each: there a node's identity gives the
node. -/

namespace Outline

namespace Node

theorem is_iff {a b : Node} : Node.is a b = true ↔ a.label.id = b.label.id := beq_iff_eq

@[simp] theorem is_self (a : Node) : Node.is a a = true := is_iff.2 rfl

/-- No node stands at two places. -/
def Unshared (root : Node) : Prop := (root.visits.map (·.node.label.id)).Nodup

instance (root : Node) : Decidable root.Unshared := inferInstanceAs (Decidable (List.Nodup _))

def below (root : Node) : List (Visit Entry) := Tree.visitsAll root root.children

theorem visits_eq_cons (root : Node) : root.visits = ⟨root, none⟩ :: root.below := by
  cases root; rfl

/-- The nodes of a tree in pre-order, a shared one at every place. -/
def nodes (root : Node) : List Node := root.visits.map (·.node)

theorem self_mem_nodes (root : Node) : root ∈ root.nodes := by
  unfold nodes
  rw [visits_eq_cons]
  exact List.mem_cons_self

theorem Unshared.nodup {root : Node} (hu : root.Unshared) :
    (root.label.id :: root.below.map (·.node.label.id)).Nodup := by
  unfold Unshared at hu
  rwa [visits_eq_cons] at hu

theorem Unshared.node_eq {root n m : Node} (hu : root.Unshared) (hn : n ∈ root.nodes)
    (hm : m ∈ root.nodes) (h : n.label.id = m.label.id) : n = m := by
  have hu' : (root.nodes.map (·.label.id)).Nodup := by
    unfold nodes
    rw [List.map_map]
    exact hu
  exact List.inj_on_of_nodup_map hu' hn hm h

def sample : Node :=
  .node { id := 0, kind := Kind.root } [
    .node { id := 1, kind := Kind.heading, depth := .int 1 } [
      .node { id := 2, kind := Kind.text } []],
    .node { id := 3, kind := Kind.list } [
      .node { id := 4, kind := Kind.listItem } [
        .node { id := 5, kind := Kind.paragraph } [],
        .node { id := 6, kind := Kind.list } [
          .node { id := 7, kind := Kind.listItem } [
            .node { id := 8, kind := Kind.blockquote } []]]],
      .node { id := 9, kind := Kind.listItem } [],
      .node { id := 10, kind := Kind.listItem } []],
    .node { id := 11, kind := Kind.heading, depth := .int 2 } [],
    .node { id := 12, kind := Kind.heading, depth := .int 3 } [],
    .node { id := 13, kind := Kind.heading, depth := .int 2 } [],
    .node { id := 14, kind := Kind.thematicBreak } [],
    .node { id := 15, kind := Kind.paragraph } []]

end Node
end Outline
