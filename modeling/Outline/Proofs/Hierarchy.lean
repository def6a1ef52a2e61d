import Mathlib.Data.List.Induction
import Mathlib.Logic.Relation
import Outline.Containment.Hierarchy
import Outline.Proofs.NodeMap
import Outline.Proofs.Order

/-! The two maps of a hierarchy agree with each other and with the document. First what the maps
hold after any list of placements: `received` for a container, the last container for a member.
For the placements of a document without shared nodes this makes a hierarchy `Consistent`. -/

namespace Outline.Containment

def received (ps : List Placement) (n : Node) : List Node :=
  (ps.filter fun p => Node.is p.container n).map (·.member)

theorem mem_received {ps : List Placement} {n m : Node} :
    m ∈ received ps n ↔ ∃ p ∈ ps, Node.is p.container n ∧ p.member = m := by
  simp [received, and_assoc]

namespace Hierarchy

variable {transparent : List Kind} {root n m : Node} {h t : Hierarchy} {p q : Placement}
  {ps : List Placement} {e : Node × List Node}

theorem ofPlacements_concat :
    ofPlacements root (ps ++ [p]) = (ofPlacements root ps).place p := by
  simp [ofPlacements]

@[simp] theorem root_ofPlacements (root : Node) (ps : List Placement) :
    (ofPlacements root ps).root = root := by
  induction ps using List.reverseRecOn with
  | nil => rfl
  | append_singleton ps p ih => rw [ofPlacements_concat]; exact ih

theorem membersOf_place :
    membersOf (h.place p).members n =
      if Node.is p.container n then membersOf h.members n ++ [p.member]
      else membersOf h.members n := by
  unfold place membersOf
  rw [NodeMap.get?_put]
  split_ifs with hn
  · rw [NodeMap.get?_congr (Node.is_iff.1 hn)]; rfl
  · rfl

theorem membersOf_ofPlacements (root : Node) (ps : List Placement) (n : Node) :
    membersOf (ofPlacements root ps).members n = received ps n := by
  induction ps using List.reverseRecOn with
  | nil => rfl
  | append_singleton ps p ih =>
    rw [ofPlacements_concat, membersOf_place, ih]
    unfold received
    rw [List.filter_append, List.map_append]
    split_ifs with hn <;> simp [hn]

theorem keys_nodup (root : Node) (ps : List Placement) :
    ((ofPlacements root ps).members.map (·.1.label.id)).Nodup := by
  induction ps using List.reverseRecOn with
  | nil => exact List.nodup_nil
  | append_singleton ps p ih =>
    rw [ofPlacements_concat]
    exact NodeMap.keys_put_nodup ih

theorem key_received (he : e ∈ (ofPlacements root ps).members) :
    ∃ p ∈ ps, p.container = e.1 := by
  induction ps using List.reverseRecOn generalizing e with
  | nil => cases he
  | append_singleton ps p ih =>
    rw [ofPlacements_concat] at he
    rcases NodeMap.key_of_mem_put he with hk | ⟨e', he', hk⟩
    · exact ⟨p, by simp, hk.symm⟩
    · obtain ⟨q, hq, hc⟩ := ih he'
      exact ⟨q, List.mem_append_left _ hq, hc.trans hk⟩

theorem entry_eq (he : e ∈ (ofPlacements root ps).members) : e.2 = received ps e.1 := by
  rw [← membersOf_ofPlacements root, membersOf, NodeMap.get?_of_mem (keys_nodup root ps) he]
  rfl

theorem flatMap_put_perm (ms : NodeMap (List Node)) :
    ((ms.put n (membersOf ms n ++ [m])).flatMap (·.2)).Perm (ms.flatMap (·.2) ++ [m]) := by
  induction ms with
  | nil => exact List.Perm.refl _
  | cons e ms ih =>
    unfold membersOf at ih ⊢
    rw [NodeMap.get?_cons, NodeMap.put]
    split_ifs with hn
    · simp only [Option.getD_some, List.flatMap_cons, List.append_assoc]
      exact List.perm_append_comm.append_left e.2
    · simp only [List.flatMap_cons, List.append_assoc]
      exact ih.append_left e.2

theorem flatMap_members_perm (root : Node) (ps : List Placement) :
    ((ofPlacements root ps).members.flatMap (·.2)).Perm (ps.map (·.member)) := by
  induction ps using List.reverseRecOn with
  | nil => exact List.Perm.refl _
  | append_singleton ps p ih =>
    rw [ofPlacements_concat, List.map_append]
    exact (flatMap_put_perm _).trans (ih.append_right _)

theorem containers_place :
    (h.place p).containers.get? n =
      if Node.is p.member n then some p.container else h.containers.get? n := by
  unfold place
  rw [NodeMap.get?_put]

theorem mem_of_container {c : Node} (hc : (ofPlacements root ps).containers.get? n = some c) :
    ∃ p ∈ ps, Node.is p.member n ∧ p.container = c := by
  induction ps using List.reverseRecOn with
  | nil => cases hc
  | append_singleton ps p ih =>
    rw [ofPlacements_concat, containers_place] at hc
    split_ifs at hc with hn
    · exact ⟨p, by simp, hn, Option.some.inj hc⟩
    · obtain ⟨q, hq, hqn⟩ := ih hc
      exact ⟨q, List.mem_append_left _ hq, hqn⟩

theorem container_of_mem (hu : (ps.map (·.member.label.id)).Nodup) (hp : p ∈ ps) :
    (ofPlacements root ps).containers.get? p.member = some p.container := by
  induction ps using List.reverseRecOn with
  | nil => cases hp
  | append_singleton ps q ih =>
    rw [List.map_append, List.nodup_append] at hu
    rw [ofPlacements_concat, containers_place]
    rcases List.mem_append.1 hp with hp | hp
    · have hne : ¬ Node.is q.member p.member := fun h =>
        hu.2.2 _ (List.mem_map.2 ⟨p, hp, rfl⟩) _ (by simp) (Node.is_iff.1 h).symm
      rw [if_neg hne, ih hu.1 hp]
    · rw [List.mem_singleton.1 hp, if_pos (Node.is_self _)]

/-- Members that are placed once are mapped in the order of the placements. -/
theorem containers_ofPlacements (hu : (ps.map (·.member.label.id)).Nodup) :
    (ofPlacements root ps).containers = ps.map fun p => (p.member, p.container) := by
  induction ps using List.reverseRecOn with
  | nil => rfl
  | append_singleton ps p ih =>
    rw [List.map_append, List.nodup_append] at hu
    have hnew : p.member.label.id ∉
        (ofPlacements root ps).containers.map (·.1.label.id) := by
      rw [ih hu.1, List.map_map]
      exact fun hmem => hu.2.2 _ hmem _ (List.mem_singleton.2 rfl) rfl
    rw [ofPlacements_concat, place, NodeMap.put_of_not_mem hnew, ih hu.1, List.map_append]
    rfl

theorem build_ok (hb : build transparent root = .ok t) :
    ∃ ps, placements transparent root = .ok ps ∧ t = ofPlacements root ps := by
  unfold build at hb
  rcases hp : placements transparent root with e | ps
  · rw [hp] at hb; cases hb
  · rw [hp] at hb
    cases hb
    exact ⟨ps, rfl, rfl⟩

/-- The two maps are inverse to each other, hold exactly the placed nodes, and lead up to the
root. -/
structure Consistent (t : Hierarchy) (placed : List Node) : Prop where
  keys : (t.members.map (·.1.label.id)).Nodup
  distinct : (placed.map (·.label.id)).Nodup
  once : (t.members.flatMap (·.2)).Perm placed
  owner : ∀ e ∈ t.members, ∀ m ∈ e.2, t.containers.get? m = some e.1
  owned : ∀ m ∈ placed, ∃ c, t.containers.get? m = some c ∧ m ∈ membersOf t.members c
  container : ∀ e ∈ t.members,
    e.2 ≠ [] ∧ (e.1 = t.root ∨ (isContainer e.1.label.kind ∧ e.1 ∈ placed))
  top : t.containers.get? t.root = none
  up : ∀ m ∈ placed, Relation.ReflTransGen (fun a b => t.containers.get? a = some b) m t.root

theorem owner_of_mem (h : placements transparent root = .ok ps) (hu : root.Unshared)
    (he : e ∈ (ofPlacements root ps).members) (hm : m ∈ e.2) :
    (ofPlacements root ps).containers.get? m = some e.1 := by
  rw [entry_eq he] at hm
  obtain ⟨p, hp, hpe, rfl⟩ := mem_received.1 hm
  obtain ⟨q, hq, hqe⟩ := key_received he
  -- the key was put in with another placement: without sharing its identity gives the node
  have hkey : e.1 ∈ root.nodes := hqe ▸ container_mem_nodes h hq
  rw [container_of_mem (members_distinct h hu) hp,
    hu.node_eq (container_mem_nodes h hp) hkey (Node.is_iff.1 hpe)]

theorem reaches_root (h : placements transparent root = .ok ps) (hu : root.Unshared)
    {before after : List Placement} (hp : ps = before ++ p :: after) :
    Relation.ReflTransGen (fun a b => (ofPlacements root ps).containers.get? a = some b)
      p.member root := by
  induction hl : before.length using Nat.strongRecOn generalizing before p after with
  | ind k ih =>
    have hmem : p ∈ ps := hp ▸ by simp
    refine .head (container_of_mem (members_distinct h hu) hmem) ?_
    rcases container_placed_before h hp with hr | ⟨-, hm⟩
    · rw [hr]
    · obtain ⟨q, hq, hqc⟩ := List.mem_map.1 hm
      obtain ⟨b, a, rfl⟩ := List.append_of_mem hq
      rw [← hqc]
      have hlt : b.length < k := by rw [← hl, List.length_append, List.length_cons]; omega
      have hsplit : ps = b ++ q :: (a ++ p :: after) := by rw [hp]; simp
      exact ih b.length hlt hsplit rfl

theorem consistent (h : placements transparent root = .ok ps) (hu : root.Unshared) :
    (ofPlacements root ps).Consistent (placed transparent root root.visits) where
  keys := keys_nodup root ps
  distinct := placed_distinct transparent hu
  once := by rw [← members_eq_placed h]; exact flatMap_members_perm root ps
  owner e he m hm := owner_of_mem h hu he hm
  owned m hm := by
    rw [← members_eq_placed h] at hm
    obtain ⟨p, hp, rfl⟩ := List.mem_map.1 hm
    refine ⟨p.container, container_of_mem (members_distinct h hu) hp, ?_⟩
    rw [membersOf_ofPlacements, mem_received]
    exact ⟨p, hp, Node.is_self _, rfl⟩
  container e he := by
    obtain ⟨p, hp, hpe⟩ := key_received he
    refine ⟨?_, ?_⟩
    · rw [entry_eq he]
      exact List.ne_nil_of_mem (mem_received.2 ⟨p, hp, by rw [hpe, Node.is_self], rfl⟩)
    · obtain ⟨before, after, hsplit⟩ := List.append_of_mem hp
      rw [root_ofPlacements, ← hpe, ← members_eq_placed h]
      rcases container_placed_before h hsplit with hr | ⟨hk, hm⟩
      · exact .inl hr
      · refine .inr ⟨hk, ?_⟩
        rw [hsplit, List.map_append]
        exact List.mem_append_left _ hm
  top := by
    rw [root_ofPlacements]
    rcases hc : (ofPlacements root ps).containers.get? root with _ | c
    · rfl
    · obtain ⟨p, hp, hroot, -⟩ := mem_of_container hc
      rw [not_root_of_placed (member_placed h hp)] at hroot
      cases hroot
  up m hm := by
    rw [← members_eq_placed h] at hm
    obtain ⟨p, hp, rfl⟩ := List.mem_map.1 hm
    obtain ⟨before, after, hsplit⟩ := List.append_of_mem hp
    rw [root_ofPlacements]
    exact reaches_root h hu hsplit

/-- A pass without a violation places every node to place once and in order, each into the root or
into a container placed before; without shared nodes the hierarchy that is built is consistent. -/
theorem placements_in_order (h : placements transparent root = .ok ps) :
    ps.map (·.member) = placed transparent root root.visits ∧
    (∀ before p after, ps = before ++ p :: after → p.container = root ∨
      (isContainer p.container.label.kind ∧ p.container ∈ before.map (·.member))) ∧
    (root.Unshared → ∃ t, build transparent root = .ok t ∧ t.root = root ∧
      t.Consistent (placed transparent root root.visits)) := by
  refine ⟨members_eq_placed h, fun before p after hp => container_placed_before h hp, ?_⟩
  intro hu
  refine ⟨ofPlacements root ps, ?_, root_ofPlacements root ps, consistent h hu⟩
  rw [build, h]
  rfl

theorem placements_in_order_sample :
    ∃ ps t, placements [Kind.root, Kind.list, Kind.text] Node.sample = .ok ps ∧
      Node.sample.Unshared ∧
      ps.map (·.member) =
        placed [Kind.root, Kind.list, Kind.text] Node.sample Node.sample.visits ∧
      build [Kind.root, Kind.list, Kind.text] Node.sample = .ok t ∧
      t.Consistent (placed [Kind.root, Kind.list, Kind.text] Node.sample Node.sample.visits) := by
  obtain ⟨ps, h⟩ : ∃ ps, placements [Kind.root, Kind.list, Kind.text] Node.sample = .ok ps :=
    ⟨_, rfl⟩
  have hu : Node.sample.Unshared := by decide
  obtain ⟨hm, -, hc⟩ := placements_in_order h
  obtain ⟨t, hb, -, ht⟩ := hc hu
  exact ⟨ps, t, h, hu, hm, hb, ht⟩

end Hierarchy
end Outline.Containment
