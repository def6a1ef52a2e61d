import Mathlib.Logic.Relation
import Outline.Proofs.Visit

/-! Depth-first search along any next nodes, with cycles and shared nodes. Nodes are the same when
their identities are, and a node is marked when the search first comes to it. So the search lists
one visit of each node that can be reached, and of no other (`DepthFirst.mem_ids_iff`). -/

namespace Outline

/-- The visits by which a search newly comes to nodes, in order: the first pending visit is passed
over if its node was seen, and else it is listed and the visits from there come before the other
pending ones. -/
inductive DepthFirst (next : Node → List Node) :
    List Nat → List (Visit Entry) → List (Visit Entry) → Prop
  | done {seen : List Nat} : DepthFirst next seen [] []
  | skip {seen : List Nat} {v : Visit Entry} {pending out : List (Visit Entry)}
      (hs : v.node.label.id ∈ seen) (h : DepthFirst next seen pending out) :
    DepthFirst next seen (v :: pending) out
  | visit {seen : List Nat} {v : Visit Entry} {pending out : List (Visit Entry)}
      (hs : v.node.label.id ∉ seen)
      (h : DepthFirst next (v.node.label.id :: seen)
        ((next v.node).map (⟨·, some v.node⟩) ++ pending) out) :
    DepthFirst next seen (v :: pending) (v :: out)

namespace DepthFirst

variable {next : Node → List Node} {seen : List Nat} {pending out : List (Visit Entry)}
  {v w : Visit Entry} {root : Node}

theorem not_mem_seen (h : DepthFirst next seen pending out) (hw : w ∈ out) :
    w.node.label.id ∉ seen := by
  induction h with
  | done => cases hw
  | skip _ _ ih => exact ih hw
  | visit hs _ ih =>
    rcases List.mem_cons.1 hw with rfl | hw
    · exact hs
    · exact fun hmem => ih hw (List.mem_cons_of_mem _ hmem)

theorem nodup (h : DepthFirst next seen pending out) : (out.map (·.node.label.id)).Nodup := by
  induction h with
  | done => exact List.nodup_nil
  | skip _ _ ih => exact ih
  | visit _ h ih =>
    refine List.nodup_cons.2 ⟨?_, ih⟩
    intro hmem
    obtain ⟨w, hw, he⟩ := List.mem_map.1 hmem
    exact h.not_mem_seen hw (he ▸ List.mem_cons_self)

theorem reachable (h : DepthFirst next seen pending out) (hw : w ∈ out) :
    ∃ v ∈ pending, Relation.ReflTransGen (fun a b => b ∈ next a) v.node w.node := by
  induction h with
  | done => cases hw
  | skip _ _ ih =>
    obtain ⟨v, hv, hr⟩ := ih hw
    exact ⟨v, List.mem_cons_of_mem _ hv, hr⟩
  | @visit seen u pending out _ _ ih =>
    rcases List.mem_cons.1 hw with rfl | hw
    · exact ⟨w, List.mem_cons_self, .refl⟩
    · obtain ⟨v, hv, hr⟩ := ih hw
      rcases List.mem_append.1 hv with hv | hv
      · obtain ⟨n, hn, rfl⟩ := List.mem_map.1 hv
        exact ⟨u, List.mem_cons_self, .head hn hr⟩
      · exact ⟨v, List.mem_cons_of_mem _ hv, hr⟩

theorem complete (h : DepthFirst next seen pending out) :
    (∀ v ∈ pending, v.node.label.id ∈ seen ∨ v.node.label.id ∈ out.map (·.node.label.id)) ∧
      ∀ w ∈ out, ∀ n ∈ next w.node, n.label.id ∈ seen ∨ n.label.id ∈ out.map (·.node.label.id) := by
  induction h with
  | done => exact ⟨nofun, nofun⟩
  | skip hs _ ih => exact ⟨List.forall_mem_cons.2 ⟨.inl hs, ih.1⟩, ih.2⟩
  | @visit seen u pending out _ _ ih =>
    obtain ⟨hpending, hnext⟩ := ih
    have hmove {i : Nat} (hi : i ∈ u.node.label.id :: seen ∨ i ∈ out.map (·.node.label.id)) :
        i ∈ seen ∨ i ∈ (u :: out).map (·.node.label.id) := by
      rw [List.mem_cons, or_assoc, or_left_comm] at hi
      rwa [List.map_cons, List.mem_cons]
    rw [List.forall_mem_append, List.forall_mem_map] at hpending
    refine ⟨List.forall_mem_cons.2 ⟨?_, ?_⟩, List.forall_mem_cons.2 ⟨?_, ?_⟩⟩
    · exact .inr List.mem_cons_self
    · exact fun v hv => hmove (hpending.2 v hv)
    · exact fun n hn => hmove (hpending.1 n hn)
    · exact fun w hw n hn => hmove (hnext w hw n hn)

/-- A search from a root comes to exactly the nodes that can be reached. What is next must depend
on nothing but the identity of a node. -/
theorem mem_ids_iff (h : DepthFirst next [] [⟨root, none⟩] out)
    (hnext : ∀ a b : Node, a.label.id = b.label.id → next a = next b) (i : Nat) :
    i ∈ out.map (·.node.label.id) ↔
      ∃ n, Relation.ReflTransGen (fun a b => b ∈ next a) root n ∧ n.label.id = i := by
  constructor
  · intro hi
    obtain ⟨w, hw, rfl⟩ := List.mem_map.1 hi
    obtain ⟨v, hv, hr⟩ := h.reachable hw
    rw [List.mem_singleton.1 hv] at hr
    exact ⟨w.node, hr, rfl⟩
  · rintro ⟨n, hr, rfl⟩
    obtain ⟨hroot, hstep⟩ := h.complete
    simp only [List.not_mem_nil, false_or] at hroot hstep
    induction hr with
    | refl => exact hroot ⟨root, none⟩ List.mem_cons_self
    | tail _ hn ih =>
      obtain ⟨w, hw, he⟩ := List.mem_map.1 ih
      rw [← hnext _ _ he] at hn
      exact hstep w hw _ hn

end DepthFirst
end Outline
