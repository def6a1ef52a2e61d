import Outline.Proofs.Nesting
import Outline.Settings

/-! Items of one list. An item takes in what follows it until all scopes are closed, and a later
item of its list closes them if an item is innermost; but what is innermost may be a quote inside
the first item, and then the later item goes into the quote. That is the only way for an item to
get into a sibling (`sibling_mem_descendants_iff`), and it does happen (`item_in_sibling`). -/

namespace Outline.Containment

namespace Hierarchy

variable {transparent : List Kind} {root a b c n m : Node} {ps : List Placement}
  {within : Node → Node → Prop} {cs : List Node}

theorem mem_nodes_of_reaches (h : placements transparent root = .ok ps) (hn : n ∈ root.nodes)
    (hr : Relation.ReflTransGen (fun x y => y ∈ received ps x) n m) : m ∈ root.nodes := by
  rcases Relation.ReflTransGen.cases_tail hr with rfl | ⟨x, -, hm⟩
  · exact hn
  · obtain ⟨p, hp, -, rfl⟩ := mem_received.1 hm
    exact placed_subset_nodes transparent root (member_placed h hp)

theorem mem_chain_of_reaches (h : placements transparent root = .ok ps) (hu : root.Unshared)
    (hr : Relation.ReflTransGen (fun x y => y ∈ received ps x) a c)
    (ha : a ∈ root.nodes) (hc : (c :: cs).IsChain (ofPlacements root ps).Within)
    (hend : (c :: cs).getLast? = some root) : a ∈ c :: cs := by
  induction hr generalizing cs with
  | refl => exact List.mem_cons_self
  | @tail x y hxy hy ih =>
    obtain ⟨p, hp, hpx, rfl⟩ := mem_received.1 hy
    have hx := mem_nodes_of_reaches h ha hxy
    obtain rfl : p.container = x :=
      hu.node_eq (container_mem_nodes h hp) hx (Node.is_iff.1 hpx)
    cases cs with
    | nil =>
      -- the chain cannot end with a member, as its end is the root
      have hroot := not_root_of_placed (member_placed h hp)
      simp only [List.getLast?_singleton, Option.some.injEq] at hend
      rw [hend, Node.is_self] at hroot
      cases hroot
    | cons d cs =>
      obtain ⟨hd, hrest⟩ := List.isChain_cons_cons.1 hc
      obtain rfl : d = p.container := Option.some.inj (hd.symm.trans (within_of_mem h hu hp))
      exact List.mem_cons_of_mem _ (ih hrest (by rwa [List.getLast?_cons_cons] at hend))

theorem exists_placement_of_descendant (h : placements transparent root = .ok ps)
    (hu : root.Unshared) (hn : n ∈ root.nodes)
    (hm : m ∈ descendants (ofPlacements root ps).members n) :
    ∃ p ∈ ps, p.member = m ∧
      Relation.ReflTransGen (fun x y => y ∈ received ps x) n p.container := by
  obtain ⟨hne, hr⟩ := (mem_descendants h hu hn).1 hm
  rcases Relation.ReflTransGen.cases_tail hr with rfl | ⟨x, hx, hxm⟩
  · exact absurd rfl hne
  · obtain ⟨p, hp, hpx, rfl⟩ := mem_received.1 hxm
    have hmem := mem_nodes_of_reaches h hn hx
    rw [← hu.node_eq (container_mem_nodes h hp) hmem (Node.is_iff.1 hpx)] at hx
    exact ⟨p, hp, rfl, hx⟩

theorem sublist_of_descendant (h : placements transparent root = .ok ps) (hu : root.Unshared)
    (hn : n ∈ root.nodes) (hroot : n ≠ root)
    (hm : m ∈ descendants (ofPlacements root ps).members n) : [n, m].Sublist root.nodes := by
  have hp : n ∈ placed transparent root root.visits := by
    by_contra hnp
    have hempty := received_of_not_placed h hu hn (by simp [hroot, hnp])
    obtain ⟨hne, hr⟩ := (mem_descendants h hu hn).1 hm
    rcases Relation.ReflTransGen.cases_head hr with rfl | ⟨k, hk, -⟩
    · exact hne rfl
    · rw [hempty] at hk; cases hk
  obtain ⟨before, after, hs⟩ := List.append_of_mem hp
  have hafter := (descendants_run_after h hu hs).1.subset hm
  have hsub : [n, m].Sublist (placed transparent root root.visits) := by
    rw [hs]
    exact .trans ((List.singleton_sublist.2 hafter).cons_cons n) (List.sublist_append_right _ _)
  exact hsub.trans (List.filter_sublist.map _)

theorem ne_root_of_child (hu : root.Unshared) (hn : n ∈ root.nodes) (ha : a ∈ n.children) :
    a ≠ root := by
  rintro rfl
  have hself : (⟨a, none⟩ : Visit Entry) ∈ a.visits := by
    rw [Node.visits_eq_cons]
    exact List.mem_cons_self
  have := hu.visit_eq (Node.visit_of_child hn ha) hself rfl
  cases this

theorem not_reaches_of_grandchild (h : placements transparent root = .ok ps) (hu : root.Unshared)
    (hn : n ∈ root.nodes) (hb : b ∈ n.children) (ha : a ∈ b.children) :
    ¬ Relation.ReflTransGen (fun x y => y ∈ received ps x) a n := by
  intro hr
  have hbmem := Node.child_mem_nodes hn hb
  have hamem := Node.child_mem_nodes hbmem ha
  have hbefore := Node.sublist_of_below hn hb (Node.child_mem_nodes (Node.self_mem_nodes b) ha)
  by_cases hna : n = a
  · rw [hna] at hbefore
    exact hu.not_sublist_swap hbefore hbefore
  · have hd := (mem_descendants h hu hamem).2 ⟨hna, hr⟩
    have hafter := sublist_of_descendant h hu hamem (ne_root_of_child hu hbmem ha) hd
    exact hu.not_sublist_swap hafter hbefore

/-- Where an item's sibling is below it, the sibling's container is a quote. -/
theorem kind_container_of_sibling (h : placements transparent root = .ok ps)
    (hr : Kind.root ∈ transparent) (hu : root.Unshared) {l : Node} {p : Placement}
    (hl : l ∈ root.nodes) (ha : a ∈ l.children) (hb : p.member ∈ l.children)
    (hka : a.label.kind = Kind.listItem) (hkb : p.member.label.kind = Kind.listItem) (hp : p ∈ ps)
    (hreach : Relation.ReflTransGen (fun x y => y ∈ received ps x) a p.container) :
    p.container.label.kind = Kind.blockquote := by
  have hamem := Node.child_mem_nodes hl ha
  have hroot := ne_root_of_child hu hl ha
  obtain ⟨kept, hs, hc, hf⟩ := exists_stacked h hr hu hp
  have hfits := hf (by rw [hkb]; rfl)
  have hmem : a ∈ frames root kept := by
    obtain ⟨rest, hrest⟩ := frames_eq_cons root kept
    have hchain := hs.chain
    rw [hrest, ← hc] at hchain ⊢
    refine mem_chain_of_reaches h hu hreach hamem hchain ?_
    rw [hc, ← hrest, frames, List.getLast?_concat]
  have hopen : a ∈ kept.map (·.node) := by
    rcases List.mem_append.1 hmem with h' | h'
    · exact h'
    · exact absurd (List.mem_singleton.1 h') hroot
  cases kept with
  | nil => cases hopen
  | cons k rest =>
    obtain ⟨hbk, hrest⟩ := List.isChain_cons_cons.1 hfits
    have hkind := hs.kind (s := k) List.mem_cons_self
    rw [hc]
    change k.node.label.kind = _
    cases hrole : k.role with
    | root => exact absurd hrole (hs.proper k List.mem_cons_self)
    | blockquote => rw [hkind, hrole]; rfl
    | heading =>
      rw [hrole] at hkind
      obtain ⟨hall, -⟩ := headings_around hrest hkind
      -- the item would be one of the headings around a heading
      have hheading : a.label.kind = Kind.heading := by
        rcases List.mem_cons.1 hopen with rfl | h'
        · exact hkind
        · exact hall a h'
      rw [hka] at hheading
      exact absurd hheading (by decide)
    | listItem =>
      rw [hrole] at hkind
      obtain ⟨l', hv, -, hl'⟩ := hbk.item hkb hkind
      have hvisit := hu.visit_eq hv (Node.visit_of_child hl hb) rfl
      obtain rfl : l' = l := by cases hvisit; rfl
      -- the innermost item holds the list, so it is not below the items of the list
      rw [hc] at hreach
      exact absurd hreach
        (not_reaches_of_grandchild h hu (hs.mem k List.mem_cons_self) hl' ha)

/-- Of two items of one list one is below the other exactly where its container is a quote below
the other. -/
theorem sibling_mem_descendants_iff {t : Hierarchy} {l : Node} (hr : Kind.root ∈ transparent)
    (hu : root.Unshared) (hbuild : build transparent root = .ok t) (hl : l ∈ root.nodes)
    (ha : a ∈ l.children) (hb : b ∈ l.children) (hka : a.label.kind = Kind.listItem)
    (hkb : b.label.kind = Kind.listItem) (hne : a ≠ b) :
    b ∈ descendants t.members a ↔ ∃ q, t.containers.get? b = some q ∧
      q.label.kind = Kind.blockquote ∧ q ∈ descendants t.members a := by
  obtain ⟨ps, h, rfl⟩ := build_ok hbuild
  have hamem := Node.child_mem_nodes hl ha
  constructor
  · intro hm
    obtain ⟨p, hp, rfl, hreach⟩ := exists_placement_of_descendant h hu hamem hm
    have hquote := kind_container_of_sibling h hr hu hl ha hb hka hkb hp hreach
    refine ⟨p.container, within_of_mem h hu hp, hquote, (mem_descendants h hu hamem).2 ⟨?_, hreach⟩⟩
    intro he
    rw [he, hka] at hquote
    exact absurd hquote (by decide)
  · rintro ⟨q, hq, -, hqa⟩
    obtain ⟨p, hp, hpb, rfl⟩ := mem_of_container hq
    obtain ⟨-, hreach⟩ := (mem_descendants h hu hamem).1 hqa
    have hpb' : p.member = b := hu.node_eq
      (placed_subset_nodes transparent root (member_placed h hp)) (Node.child_mem_nodes hl hb)
      (Node.is_iff.1 hpb)
    refine (mem_descendants h hu hamem).2 ⟨hne.symm, hreach.tail ?_⟩
    exact mem_received.2 ⟨p, hp, Node.is_self _, hpb'⟩

def quotingList : Node :=
  .node { id := 0, kind := Kind.root } [
    .node { id := 1, kind := Kind.list } [
      .node { id := 2, kind := Kind.listItem } [
        .node { id := 3, kind := Kind.blockquote } [
          .node { id := 4, kind := Kind.paragraph } [
            .node { id := 5, kind := Kind.text } []]]],
      .node { id := 6, kind := Kind.listItem } [
        .node { id := 7, kind := Kind.paragraph } [
          .node { id := 8, kind := Kind.text } []]]]]

theorem sibling_mem_descendants_iff_sample :
    Kind.root ∈ Kind.defaultTransparent ∧ quotingList.Unshared ∧
    ∃ t l a b, build Kind.defaultTransparent quotingList = .ok t ∧ l ∈ quotingList.nodes ∧
      a ∈ l.children ∧ b ∈ l.children ∧ a.label.kind = Kind.listItem ∧
      b.label.kind = Kind.listItem ∧ a ≠ b ∧
      (b ∈ descendants t.members a ↔ ∃ q, t.containers.get? b = some q ∧
        q.label.kind = Kind.blockquote ∧ q ∈ descendants t.members a) ∧
      (t.containers.get? b).map (·.label.id) = some 3 := by
  have hr : Kind.root ∈ Kind.defaultTransparent := by decide
  have hu : quotingList.Unshared := by decide
  obtain ⟨t, hbuild⟩ : ∃ t, build Kind.defaultTransparent quotingList = .ok t := ⟨_, rfl⟩
  obtain ⟨l, hl⟩ : ∃ l, quotingList.nodes[1]? = some l := ⟨_, rfl⟩
  obtain ⟨a, ha⟩ : ∃ a, l.children[0]? = some a := by cases hl; exact ⟨_, rfl⟩
  obtain ⟨b, hb⟩ : ∃ b, l.children[1]? = some b := by cases hl; exact ⟨_, rfl⟩
  have hids : a.label.id = 2 ∧ b.label.id = 6 ∧ a.label.kind = Kind.listItem ∧
      b.label.kind = Kind.listItem := by
    cases hl; cases ha; cases hb; exact ⟨rfl, rfl, rfl, rfl⟩
  have hne : a ≠ b := by
    rintro rfl
    exact absurd (hids.1.symm.trans hids.2.1) (by decide)
  have hl' := List.mem_of_getElem? hl
  have ha' := List.mem_of_getElem? ha
  have hb' := List.mem_of_getElem? hb
  refine ⟨hr, hu, t, l, a, b, hbuild, hl', ha', hb', hids.2.2.1, hids.2.2.2, hne,
    sibling_mem_descendants_iff hr hu hbuild hl' ha' hb' hids.2.2.1 hids.2.2.2 hne, ?_⟩
  cases hbuild; cases hl; cases hb
  rfl

/-- An item can be below another item of its list. -/
theorem item_in_sibling :
    quotingList.Unshared ∧
    ∃ t l a b, build Kind.defaultTransparent quotingList = .ok t ∧ l ∈ quotingList.nodes ∧
      l.label.kind = Kind.list ∧ a ∈ l.children ∧ b ∈ l.children ∧
      a.label.kind = Kind.listItem ∧ b.label.kind = Kind.listItem ∧
      (a.label.id, b.label.id) = (2, 6) ∧ b ∈ descendants t.members a :=
  ⟨by decide, _, _, _, _, rfl, List.mem_of_getElem? (i := 1) rfl, rfl,
    List.mem_of_getElem? (i := 0) rfl, List.mem_of_getElem? (i := 1) rfl, rfl, rfl, rfl,
    List.mem_of_getElem? (i := 2) rfl⟩

end Hierarchy
end Outline.Containment
