import Mathlib.Algebra.GroupWithZero.Nat
import Outline.Containment.Hierarchy
import Outline.Proofs.DepthFirst
import Outline.Proofs.NodeMap

/-! Descendants in any map of members, with nodes that are shared, repeated or below themselves. The
loop marks a node when it takes it from the stack, so the stack can hold a node many times; the
members of a node come to the stack once, and what the unseen nodes still owe to it bounds the steps
(`exists_depthFirst`). The recursive search has the same bound. What it lists from the first part of
the pending nodes comes before what it then lists from the second (`search_append`), and so it
enters nodes in the order in which the loop lists them (`DepthFirst.search_eq`). -/

namespace Outline.Containment.Hierarchy

variable {members : NodeMap (List Node)} {seen seen' : List Nat} {n m : Node} {ns ks : List Node}

def owed (members : NodeMap (List Node)) (seen : List Nat) : Nat :=
  (members.map fun e => if e.1.label.id ∈ seen then 0 else e.2.length).sum

theorem owed_nil : owed members [] = (members.map (·.2.length)).sum := by simp [owed]

theorem owed_cons (e : Node × List Node) :
    owed (e :: members) seen =
      (if e.1.label.id ∈ seen then 0 else e.2.length) + owed members seen := rfl

theorem owed_le_of_subset (h : seen ⊆ seen') : owed members seen' ≤ owed members seen := by
  induction members with
  | nil => exact Nat.le_refl _
  | cons e members ih =>
    rw [owed_cons, owed_cons]
    split_ifs with h1 h2
    · omega
    · omega
    · exact absurd (h ‹_›) h1
    · omega

theorem membersOf_cons (e : Node × List Node) :
    membersOf (e :: members) n = if Node.is e.1 n then e.2 else membersOf members n := by
  unfold membersOf
  rw [NodeMap.get?_cons]
  split_ifs <;> rfl

theorem membersOf_congr (h : n.label.id = m.label.id) :
    membersOf members n = membersOf members m := by
  unfold membersOf
  rw [NodeMap.get?_congr h]

/-- Marking a node pays for its members. -/
theorem owed_mark (h : n.label.id ∉ seen) :
    owed members (n.label.id :: seen) + (membersOf members n).length ≤ owed members seen := by
  induction members with
  | nil => exact Nat.le_refl _
  | cons e members ih =>
    rw [owed_cons, owed_cons, membersOf_cons]
    by_cases he : Node.is e.1 n
    · have hid := Node.is_iff.1 he
      have hle : owed members (n.label.id :: seen) ≤ owed members seen :=
        owed_le_of_subset (List.subset_cons_self _ _)
      rw [if_pos he, hid, if_pos List.mem_cons_self, if_neg h]
      omega
    · have hid : e.1.label.id ≠ n.label.id := fun hid => he (Node.is_iff.2 hid)
      simp only [if_neg he, List.mem_cons, hid, false_or]
      omega

/-- Depth-first search by recursion: a node is recorded when it is entered, then all that is below
it, and then what is left of its siblings; no node is entered twice. -/
def search (members : NodeMap (List Node)) (seen : List Nat) : List Node → List Node
  | [] => []
  | n :: ns =>
    if n.label.id ∈ seen then search members seen ns
    else
      let below := search members (n.label.id :: seen) (membersOf members n)
      n :: below ++ search members ((below.map (·.label.id)).reverse ++ n.label.id :: seen) ns
termination_by ns => owed members seen + ns.length
decreasing_by
  · exact Nat.lt_succ_self _
  · have hn : n.label.id ∉ seen := ‹_›
    have hpaid : owed members (n.label.id :: seen) + (membersOf members n).length ≤
        owed members seen := owed_mark hn
    rw [List.length_cons]
    omega
  · refine Nat.add_lt_add_of_le_of_lt (owed_le_of_subset ?_) (Nat.lt_succ_self _)
    exact List.subset_append_of_subset_right _ (List.subset_cons_self _ _)

theorem search_nil : search members seen [] = [] := by rw [search]

theorem search_of_seen (h : n.label.id ∈ seen) :
    search members seen (n :: ns) = search members seen ns := by
  rw [search, if_pos h]

theorem search_cons (h : n.label.id ∉ seen) :
    search members seen (n :: ns) =
      n :: search members (n.label.id :: seen) (membersOf members n) ++
        search members (((search members (n.label.id :: seen) (membersOf members n)).map
          (·.label.id)).reverse ++ n.label.id :: seen) ns := by
  rw [search, if_neg h]

theorem search_append (seen : List Nat) (ns ks : List Node) :
    search members seen (ns ++ ks) = search members seen ns ++
      search members (((search members seen ns).map (·.label.id)).reverse ++ seen) ks := by
  induction ns generalizing seen with
  | nil => simp [search_nil]
  | cons n ns ih =>
    by_cases h : n.label.id ∈ seen
    · rw [List.cons_append, search_of_seen h, search_of_seen h, ih]
    · rw [List.cons_append, search_cons h, search_cons h, ih]
      simp

/-- The loop comes to an end: what is pending and what is owed bound its steps. -/
theorem exists_depthFirst {fuel : Nat} {pending : List (Visit Entry)}
    (hf : owed members seen + pending.length ≤ fuel) :
    ∃ out, DepthFirst (membersOf members) seen pending out ∧
      descendantsFrom members fuel seen (pending.map (·.node)) = out.map (·.node) := by
  induction fuel generalizing seen pending with
  | zero =>
    obtain rfl : pending = [] := List.eq_nil_of_length_eq_zero (by omega)
    exact ⟨[], .done, rfl⟩
  | succ fuel ih =>
    rcases pending with _ | ⟨v, pending⟩
    · exact ⟨[], .done, rfl⟩
    rw [List.length_cons] at hf
    rw [List.map_cons, descendantsFrom]
    by_cases hs : v.node.label.id ∈ seen
    · have hleft : owed members seen + pending.length ≤ fuel := by omega
      obtain ⟨out, hd, he⟩ := ih hleft
      rw [if_pos (List.contains_iff_mem.2 hs)]
      exact ⟨out, .skip hs hd, he⟩
    · have hpaid : owed members (v.node.label.id :: seen) + (membersOf members v.node).length ≤
          owed members seen := owed_mark hs
      have hleft : owed members (v.node.label.id :: seen) + ((membersOf members v.node).map
          (⟨·, some v.node⟩ : Node → Visit Entry) ++ pending).length ≤ fuel := by
        rw [List.length_append, List.length_map]
        omega
      obtain ⟨out, hd, he⟩ := ih hleft
      rw [if_neg (by simpa using hs)]
      refine ⟨v :: out, .visit hs hd, ?_⟩
      rw [List.map_cons, ← he]
      simp [Function.comp_def]

/-- The loop lists nodes in the order in which the recursion enters them. -/
theorem search_eq {pending out : List (Visit Entry)}
    (h : DepthFirst (membersOf members) seen pending out) :
    search members seen (pending.map (·.node)) = out.map (·.node) := by
  induction h with
  | done => exact search_nil
  | skip hs _ ih => rw [List.map_cons, search_of_seen hs, ih]
  | @visit seen v pending out hs _ ih =>
    rw [List.map_append, search_append] at ih
    rw [List.map_cons, search_cons hs, List.map_cons, ← ih]
    simp [Function.comp_def]

theorem exists_descendants (members : NodeMap (List Node)) (n : Node) :
    ∃ out, DepthFirst (membersOf members) [n.label.id]
        ((membersOf members n).map (⟨·, some n⟩)) out ∧
      descendants members n = out.map (·.node) := by
  have hfuel : owed members [n.label.id] +
      ((membersOf members n).map (⟨·, some n⟩ : Node → Visit Entry)).length ≤
        descendantsFuel members := by
    have hpaid : owed members [n.label.id] + (membersOf members n).length ≤ owed members [] :=
      owed_mark List.not_mem_nil
    rw [owed_nil] at hpaid
    rw [List.length_map, descendantsFuel]
    omega
  obtain ⟨out, hloop, he⟩ := exists_depthFirst hfuel
  rw [List.map_map, Function.comp_def, List.map_id'] at he
  exact ⟨out, hloop, he⟩

theorem descendants_eq_search (members : NodeMap (List Node)) (n : Node) :
    descendants members n = search members [n.label.id] (membersOf members n) := by
  obtain ⟨out, hloop, he⟩ := exists_descendants members n
  have hs := search_eq hloop
  rw [List.map_map, Function.comp_def, List.map_id'] at hs
  rw [he, hs]

def Reaches (members : NodeMap (List Node)) : Node → Node → Prop :=
  Relation.ReflTransGen fun a b => b ∈ membersOf members a

/-- Whatever the members are, the loop of `descendants` comes to an end. It lists the nodes that can
be reached from the start, except for the start, each once, and in the order in which the recursive
search enters them. -/
theorem descendants_depthFirst (members : NodeMap (List Node)) (n : Node) :
    (∃ out, DepthFirst (membersOf members) [n.label.id]
        ((membersOf members n).map (⟨·, some n⟩)) out ∧
      out.map (·.node) = descendants members n) ∧
    search members [] [n] = n :: descendants members n ∧
    ((n :: descendants members n).map (·.label.id)).Nodup ∧
    (∀ m ∈ descendants members n, Reaches members n m ∧ ¬ Node.is m n) ∧
    ∀ m, Reaches members n m → ¬ Node.is m n → ∃ k ∈ descendants members n, Node.is k m := by
  obtain ⟨out, hloop, hlisted⟩ := exists_descendants members n
  -- the start is one more visit in front
  have hall : DepthFirst (membersOf members) [] [⟨n, none⟩] (⟨n, none⟩ :: out) :=
    .visit List.not_mem_nil (by rwa [List.append_nil])
  have hids : (n :: descendants members n).map (·.label.id) =
      ((⟨n, none⟩ : Visit Entry) :: out).map (·.node.label.id) := by
    rw [hlisted, List.map_cons, List.map_cons, List.map_map, Function.comp_def]
  have hnodup : ((n :: descendants members n).map (·.label.id)).Nodup := hids ▸ hall.nodup
  refine ⟨⟨out, hloop, hlisted.symm⟩, ?_, hnodup, ?_, ?_⟩
  · rw [search_cons List.not_mem_nil, search_nil, List.append_nil, descendants_eq_search]
  · intro m hm
    rw [hlisted] at hm
    obtain ⟨w, hw, rfl⟩ := List.mem_map.1 hm
    obtain ⟨v, hv, hr⟩ := hall.reachable (List.mem_cons_of_mem _ hw)
    rw [List.mem_singleton.1 hv] at hr
    refine ⟨hr, fun hi => hloop.not_mem_seen hw ?_⟩
    rw [Node.is_iff.1 hi]
    exact List.mem_cons_self
  · intro m hr hne
    have hid := (hall.mem_ids_iff (fun _ _ => membersOf_congr) m.label.id).2 ⟨m, hr, rfl⟩
    rw [← hids, List.map_cons, List.mem_cons] at hid
    rcases hid with hid | hid
    · exact absurd (Node.is_iff.2 hid) hne
    · obtain ⟨k, hk, hid⟩ := List.mem_map.1 hid
      exact ⟨k, hk, Node.is_iff.2 hid⟩

/-- The last node is pending from the start, but the search first comes to it below the others. -/
example :
    let item (i : Nat) : Node := .node { id := i, kind := Kind.listItem } []
    (descendants [(item 0, [item 1, item 3, item 1]), (item 1, [item 2, item 0]),
      (item 2, [item 3])] (item 0)).map (·.label.id) = [1, 2, 3] := by
  decide

end Outline.Containment.Hierarchy
