import Mathlib.Data.List.Induction
import Outline.Graph.Record
import Outline.Proofs.NodeMap

/-! Names of nodes in a graph. The number at the end of a name can be read back, whatever the kind
before it, so a name is given once (`nameOf_inj`) and two nodes of one name are the same
(`id_eq_of_nameOf?`). -/

namespace Outline

namespace Text

theorem ofNat_inj {i j : Nat} (h : ofNat i = ofNat j) : i = j := by
  have := congrArg (Nat.ofDigitChars 10 · 0) h
  simpa [ofNat] using this

theorem hyphen_not_mem_ofNat (i : Nat) : '-' ∉ ofNat i := by
  intro h
  have := Nat.isDigit_of_mem_toDigits (by decide) (by decide) h
  cases this

theorem eq_of_append_cons {a b s t : Text} {c : Char} (h : a ++ c :: s = b ++ c :: t)
    (hs : c ∉ s) (ht : c ∉ t) : s = t := by
  rcases List.append_eq_append_iff.1 h with ⟨x, -, hx⟩ | ⟨x, -, hx⟩
  · cases x with
    | nil => exact (List.cons.inj hx).2
    | cons d x =>
      obtain ⟨-, rfl⟩ := List.cons.inj hx
      exact absurd (by simp) hs
  · cases x with
    | nil => exact (List.cons.inj hx).2.symm
    | cons d x =>
      obtain ⟨-, rfl⟩ := List.cons.inj hx
      exact absurd (by simp) ht

end Text

namespace Graph

theorem nameOf_inj {n m : Node} {i j : Nat} (h : nameOf n i = nameOf m j) : i = j :=
  Text.ofNat_inj (Text.eq_of_append_cons h (Text.hyphen_not_mem_ofNat i)
    (Text.hyphen_not_mem_ofNat j))

namespace Multigraph

variable {g : Multigraph} {id x : Text} {as : Attributes}

theorem keys_updateNode {nodes : List (Text × Attributes)} :
    x ∈ (updateNode id as nodes).map (·.1) ↔ x = id ∨ x ∈ nodes.map (·.1) := by
  induction nodes with
  | nil => simp [updateNode]
  | cons n nodes ih =>
    unfold updateNode
    split_ifs with hn
    · have : n.1 = id := by simpa using hn
      simp [this]
    · rw [List.map_cons, List.mem_cons, ih, List.map_cons, List.mem_cons, or_left_comm]

theorem hasNode_iff : g.hasNode x ↔ x ∈ g.nodes.map (·.1) := by simp [hasNode]

theorem hasNode_addNode : (g.addNode id as).hasNode x ↔ x = id ∨ g.hasNode x := by
  rw [hasNode_iff, hasNode_iff]
  exact keys_updateNode

theorem hasNode_addEdge {e : Edge} :
    (g.addEdge e).hasNode x ↔ x = e.target ∨ x = e.source ∨ g.hasNode x := by
  rw [← hasNode_addNode, ← hasNode_addNode]
  rfl

end Multigraph

namespace State

variable {settings : GraphSettings} {file : Option Text} {vs : List (Visit Entry)}
  {v : Visit Entry} {n m : Node} {x : Text}

/-- The state when all visits are named and nothing is placed. -/
def named (settings : GraphSettings) (file : Option Text) (vs : List (Visit Entry)) : State :=
  vs.foldl (addNode settings file) {}

theorem named_concat :
    named settings file (vs ++ [v]) = addNode settings file (named settings file vs) v := by
  simp [named]

theorem next_named (settings : GraphSettings) (file : Option Text) (vs : List (Visit Entry)) :
    (named settings file vs).next = vs.length := by
  induction vs using List.reverseRecOn with
  | nil => rfl
  | append_singleton vs v ih => rw [named_concat, List.length_append, ← ih]; rfl

theorem edges_named (settings : GraphSettings) (file : Option Text) (vs : List (Visit Entry)) :
    (named settings file vs).graph.edges = [] := by
  induction vs using List.reverseRecOn with
  | nil => rfl
  | append_singleton vs v ih => rw [named_concat]; exact ih

theorem nameOf?_addNode {s : State} :
    (addNode settings file s v).nameOf? n =
      if Node.is v.node n then some (nameOf v.node s.next) else s.nameOf? n :=
  NodeMap.get?_put

/-- A node's name tells one of its visits. -/
theorem visit_of_nameOf? (h : (named settings file vs).nameOf? n = some x) :
    ∃ i v, vs[i]? = some v ∧ Node.is v.node n ∧ x = nameOf v.node i := by
  induction vs using List.reverseRecOn with
  | nil => cases h
  | append_singleton vs v ih =>
    rw [named_concat, nameOf?_addNode, next_named] at h
    split_ifs at h with hn
    · exact ⟨vs.length, v, by simp, hn, (Option.some.inj h).symm⟩
    · obtain ⟨i, w, hi, hw⟩ := ih h
      have hlt : i < vs.length := (List.getElem?_eq_some_iff.1 hi).1
      exact ⟨i, w, by rw [List.getElem?_append_left hlt, hi], hw⟩

theorem exists_nameOf? (settings : GraphSettings) (file : Option Text) (hv : v ∈ vs) :
    ∃ x, (named settings file vs).nameOf? v.node = some x := by
  induction vs using List.reverseRecOn with
  | nil => cases hv
  | append_singleton vs w ih =>
    rw [named_concat, nameOf?_addNode]
    split_ifs with hn
    · exact ⟨_, rfl⟩
    · rcases List.mem_append.1 hv with hv | hv
      · exact ih hv
      · rw [List.mem_singleton.1 hv] at hn
        exact absurd (Node.is_self _) hn

theorem id_eq_of_nameOf? (hn : (named settings file vs).nameOf? n = some x)
    (hm : (named settings file vs).nameOf? m = some x) : n.label.id = m.label.id := by
  obtain ⟨i, v, hi, hv, rfl⟩ := visit_of_nameOf? hn
  obtain ⟨j, w, hj, hw, he⟩ := visit_of_nameOf? hm
  obtain rfl := nameOf_inj he
  obtain rfl : v = w := Option.some.inj (hi.symm.trans hj)
  exact (Node.is_iff.1 hv).symm.trans (Node.is_iff.1 hw)

theorem hasNode_of_nameOf? (h : (named settings file vs).nameOf? n = some x) :
    (named settings file vs).graph.hasNode x := by
  induction vs using List.reverseRecOn with
  | nil => cases h
  | append_singleton vs v ih =>
    rw [named_concat, nameOf?_addNode] at h
    rw [named_concat]
    refine Multigraph.hasNode_addNode.2 ?_
    split_ifs at h with hn
    · exact .inl (Option.some.inj h).symm
    · exact .inr (ih h)

end State
end Graph
end Outline
