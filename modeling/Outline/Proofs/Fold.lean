import Outline.Proofs.Descendants
import Outline.Proofs.Hierarchy

/-! Descendants of a built hierarchy are runs of the document. `Listing` is the pre-order below
pending nodes as a relation; where it exists it is what `descendants` computes, and the listing of
a listed node is the run right after it (`Listing.run_after`). That the placed nodes are the
listing below the root is proved along a run, backwards: what is pending is what the open scopes
still get, the innermost first (`Runs.listing`). -/

namespace Outline.Containment

/-- The pre-order below pending nodes: the first one, then its members, then the others. -/
inductive Listing (members : Node → List Node) : List Node → List Node → Prop
  | nil : Listing members [] []
  | cons {n : Node} {pending out : List Node} (h : Listing members (members n ++ pending) out) :
    Listing members (n :: pending) (n :: out)

namespace Listing

variable {members : Node → List Node} {pending pending' out out' before after : List Node}
  {n m : Node}

theorem functional (h : Listing members pending out) (h' : Listing members pending out') :
    out = out' := by
  induction h generalizing out' with
  | nil => cases h'; rfl
  | cons _ ih =>
    cases h' with
    | cons h' => rw [ih h']

theorem split (h : Listing members (pending ++ pending') out) :
    ∃ own rest, out = own ++ rest ∧ Listing members pending own ∧
      Listing members pending' rest := by
  generalize hp : pending ++ pending' = all at h
  induction h generalizing pending with
  | nil =>
    obtain ⟨rfl, rfl⟩ := List.append_eq_nil_iff.1 hp
    exact ⟨[], [], rfl, .nil, .nil⟩
  | @cons n queue out h ih =>
    cases pending with
    | nil =>
      obtain rfl : pending' = n :: queue := hp
      exact ⟨[], n :: out, rfl, .nil, .cons h⟩
    | cons k pending =>
      obtain ⟨rfl, rfl⟩ := List.cons.inj hp
      obtain ⟨own, rest, rfl, ho, hr⟩ := ih (List.append_assoc _ _ _)
      exact ⟨k :: own, rest, rfl, .cons ho, hr⟩

theorem run_after (h : Listing members pending out) (ho : out = before ++ n :: after) :
    ∃ own rest, after = own ++ rest ∧ Listing members (members n) own := by
  induction h generalizing before with
  | nil => simp at ho
  | cons h ih =>
    cases before with
    | nil =>
      obtain ⟨rfl, rfl⟩ := List.cons.inj ho
      obtain ⟨own, rest, hs, hown, -⟩ := h.split
      exact ⟨own, rest, hs, hown⟩
    | cons k before =>
      obtain ⟨-, ht⟩ := List.cons.inj ho
      exact ih ht

theorem mem_iff (h : Listing members pending out) :
    m ∈ out ↔ ∃ n ∈ pending, Relation.ReflTransGen (fun a b => b ∈ members a) n m := by
  induction h with
  | nil => simp
  | @cons k pending out _ ih =>
    rw [List.mem_cons, ih]
    constructor
    · rintro (rfl | ⟨n, hn, hr⟩)
      · exact ⟨m, List.mem_cons_self, .refl⟩
      · rcases List.mem_append.1 hn with hk | hp
        · exact ⟨k, List.mem_cons_self, .head hk hr⟩
        · exact ⟨n, List.mem_cons_of_mem _ hp, hr⟩
    · rintro ⟨n, hn, hr⟩
      rcases List.mem_cons.1 hn with rfl | hp
      · rcases Relation.ReflTransGen.cases_head hr with rfl | ⟨j, hj, hr⟩
        · exact .inl rfl
        · exact .inr ⟨j, List.mem_append_left _ hj, hr⟩
      · exact .inr ⟨n, List.mem_append_right _ hp, hr⟩

end Listing

namespace Hierarchy

variable {members : NodeMap (List Node)} {pending out : List Node} {n : Node}

theorem search_eq_of_listing (h : Listing (membersOf members) pending out) {seen : List Nat}
    (hd : (out.map (·.label.id)).Nodup) (hs : ∀ k ∈ out, k.label.id ∉ seen) :
    search members seen pending = out := by
  induction h generalizing seen with
  | nil => exact search_nil
  | @cons k pending out _ ih =>
    rw [List.map_cons, List.nodup_cons] at hd
    have hrest : ∀ j ∈ out, j.label.id ∉ k.label.id :: seen := by
      intro j hj hmem
      rcases List.mem_cons.1 hmem with he | hmem
      · exact hd.1 (List.mem_map.2 ⟨j, hj, he⟩)
      · exact hs j (List.mem_cons_of_mem _ hj) hmem
    rw [search_cons (hs k List.mem_cons_self), List.cons_append, ← search_append, ih hd.2 hrest]

theorem descendants_eq (h : Listing (membersOf members) (membersOf members n) out)
    (hd : ((n :: out).map (·.label.id)).Nodup) : descendants members n = out := by
  rw [List.map_cons, List.nodup_cons] at hd
  rw [descendants_eq_search]
  apply search_eq_of_listing h hd.2
  intro k hk hmem
  exact hd.1 (List.mem_map.2 ⟨k, hk, List.mem_singleton.1 hmem⟩)

end Hierarchy

variable {transparent : List Kind} {root n m : Node} {scopes kept : List Scope}
  {v : Visit Entry} {vs : List (Visit Entry)} {p : Placement} {ps : List Placement}

theorem received_cons :
    received (p :: ps) n =
      if Node.is p.container n then p.member :: received ps n else received ps n := by
  unfold received
  rw [List.filter_cons]
  split_ifs <;> rfl

theorem received_eq_nil (h : ∀ p ∈ ps, p.container.label.id ≠ n.label.id) :
    received ps n = [] := by
  unfold received
  rw [List.map_eq_nil_iff, List.filter_eq_nil_iff]
  intro p hp hn
  exact h p hp (Node.is_iff.1 hn)

/-- Where a node can be placed next: the open scopes, the innermost first, and the root. -/
def frames (root : Node) (scopes : List Scope) : List Node := scopes.map (·.node) ++ [root]

/-- What the frames get from placements to come. -/
def waiting (root : Node) (scopes : List Scope) (ps : List Placement) : List Node :=
  (frames root scopes).flatMap (received ps)

/-- Frames and nodes to come are different nodes. -/
def Apart (root : Node) (scopes : List Scope) (vs : List (Visit Entry)) : Prop :=
  ((frames root scopes ++ vs.map (·.node)).map (·.label.id)).Nodup

theorem frames_eq_cons (root : Node) (scopes : List Scope) :
    ∃ rest, frames root scopes = innermost root scopes :: rest := by
  cases scopes with
  | nil => exact ⟨[], rfl⟩
  | cons s scopes => exact ⟨_, rfl⟩

theorem innermost_mem_frames (root : Node) (scopes : List Scope) :
    innermost root scopes ∈ frames root scopes := by
  obtain ⟨rest, h⟩ := frames_eq_cons root scopes
  rw [h]
  exact List.mem_cons_self

theorem Apart.frame_ne {k : Node} (ha : Apart root scopes vs) (hk : k ∈ frames root scopes)
    (hv : v ∈ vs) : k.label.id ≠ v.node.label.id := by
  unfold Apart at ha
  rw [List.map_append, List.nodup_append] at ha
  exact ha.2.2 _ (List.mem_map_of_mem hk) _ (List.mem_map_of_mem (List.mem_map_of_mem hv))

theorem Apart.next (ha : Apart root scopes (v :: vs)) :
    (∀ k ∈ frames root scopes ++ vs.map (·.node), k.label.id ≠ v.node.label.id) ∧
      Apart root scopes vs := by
  unfold Apart at ha ⊢
  rw [List.map_cons, List.map_append, List.map_cons, List.nodup_middle, List.nodup_cons,
    ← List.map_append] at ha
  exact ⟨fun k hk he => ha.1 (List.mem_map.2 ⟨k, hk, he⟩), ha.2⟩

theorem frames_cons (root : Node) (s : Scope) (scopes : List Scope) :
    frames root (s :: scopes) = s.node :: frames root scopes := rfl

theorem frames_append (root : Node) (dropped kept : List Scope) :
    frames root (dropped ++ kept) = dropped.map (·.node) ++ frames root kept := by
  simp [frames]

theorem Apart.drop {dropped : List Scope} (ha : Apart root (dropped ++ kept) vs) :
    (∀ s ∈ dropped, ∀ k ∈ frames root kept ++ vs.map (·.node),
      k.label.id ≠ s.node.label.id) ∧ Apart root kept vs := by
  unfold Apart at ha ⊢
  rw [frames_append, List.append_assoc, List.map_append, List.nodup_append] at ha
  refine ⟨?_, ha.2.1⟩
  intro s hs k hk he
  exact ha.2.2 _ (List.mem_map_of_mem (List.mem_map_of_mem hs)) _ (List.mem_map_of_mem hk) he.symm

theorem Apart.suffix (hk : kept <:+ scopes) (ha : Apart root scopes vs) : Apart root kept vs := by
  obtain ⟨dropped, rfl⟩ := hk
  exact ha.drop.2

theorem Apart.push {s : Scope} (ha : Apart root scopes (v :: vs)) (ho : s.Opens v.node) :
    Apart root (s :: scopes) vs := by
  unfold Apart at ha ⊢
  rw [List.map_cons, List.map_append, List.map_cons, List.nodup_middle, ← List.map_append] at ha
  unfold frames at ha ⊢
  rw [List.map_cons, List.cons_append, List.cons_append, List.map_cons, ho.node]
  exact ha

theorem Runs.container_mem (hr : Runs transparent root scopes vs ps) (hp : p ∈ ps) :
    p.container ∈ frames root scopes ++ vs.map (·.node) := by
  obtain ⟨before, after, rfl⟩ := List.append_of_mem hp
  rcases hr.founded rfl with h | ⟨s, hs, h⟩ | ⟨-, h⟩
  · rw [h]; simp [frames]
  · rw [← h]
    exact List.mem_append_left _ (List.mem_append_left _ (List.mem_map_of_mem hs))
  · have hm : p.container ∈ placed transparent root vs := by
      rw [← hr.members_eq, List.map_append]
      exact List.mem_append_left _ h
    obtain ⟨v, hv, -, hn⟩ := mem_placed.1 hm
    rw [← hn]
    exact List.mem_append_right _ (List.mem_map_of_mem hv)

theorem Runs.received_nil (hr : Runs transparent root scopes vs ps)
    (hn : ∀ k ∈ frames root scopes ++ vs.map (·.node), k.label.id ≠ n.label.id) :
    received ps n = [] :=
  received_eq_nil fun _ hp => hn _ (hr.container_mem hp)

/-- Scopes that get nothing any more can be dropped. -/
theorem waiting_suffix (hk : kept <:+ scopes) (ha : Apart root scopes vs)
    (hc : ∀ p ∈ ps, p.container ∈ frames root kept ++ vs.map (·.node)) :
    waiting root scopes ps = waiting root kept ps := by
  obtain ⟨dropped, rfl⟩ := hk
  unfold waiting
  rw [frames_append, List.flatMap_append]
  have : (dropped.map (·.node)).flatMap (received ps) = [] := by
    rw [List.flatMap_eq_nil_iff]
    intro n hn
    obtain ⟨s, hs, rfl⟩ := List.mem_map.1 hn
    exact received_eq_nil fun p hp => ha.drop.1 s hs _ (hc p hp)
  rw [this, List.nil_append]

theorem waiting_cons (ha : Apart root scopes vs) :
    waiting root scopes (⟨innermost root scopes, m⟩ :: ps) = m :: waiting root scopes ps := by
  obtain ⟨rest, hf⟩ := frames_eq_cons root scopes
  unfold Apart at ha
  unfold waiting
  rw [hf] at ha ⊢
  rw [List.cons_append, List.map_cons, List.nodup_cons] at ha
  have hrest : rest.flatMap (received (⟨innermost root scopes, m⟩ :: ps)) =
      rest.flatMap (received ps) := by
    apply List.flatMap_congr
    intro k hk
    rw [received_cons, if_neg]
    intro hi
    refine ha.1 (List.mem_map.2 ⟨k, List.mem_append_left _ hk, ?_⟩)
    exact (Node.is_iff.1 hi).symm
  rw [List.flatMap_cons, List.flatMap_cons, hrest, received_cons, if_pos (Node.is_self _)]
  rfl

theorem received_cons_of_ne (h : p.container.label.id ≠ n.label.id) :
    received (p :: ps) n = received ps n := by
  rw [received_cons, if_neg fun hi => h (Node.is_iff.1 hi)]

/-- Along a run the nodes still to be placed are the listing below what is waiting. -/
theorem Runs.listing {members : Node → List Node} (hr : Runs transparent root scopes vs ps)
    (ha : Apart root scopes vs) (hm : ∀ v ∈ vs, members v.node = received ps v.node) :
    Listing members (waiting root scopes ps) (ps.map (·.member)) := by
  induction hr with
  | @nil scopes =>
    have : waiting root scopes [] = [] := List.flatMap_eq_nil_iff.2 fun _ _ => rfl
    rw [this]
    exact .nil
  | @cons scopes scopes' v vs p? ps hs hr ih =>
    obtain ⟨hne, hrest⟩ := ha.next
    cases hs with
    | hidden hv => exact ih hrest fun w hw => hm w (List.mem_cons_of_mem _ hw)
    | reset hb =>
      have hnil : [] <:+ scopes := List.nil_suffix
      have := ih (hrest.suffix hnil) fun w hw => hm w (List.mem_cons_of_mem _ hw)
      rw [← waiting_suffix hnil hrest fun p hp => hr.container_mem hp] at this
      exact this
    | leaf hp hk =>
      have hin := innermost_mem_frames root scopes
      have hm' : ∀ w ∈ v :: vs, members w.node = received ps w.node := fun w hw =>
        (hm w hw).trans (received_cons_of_ne (ha.frame_ne hin hw))
      have hv : members v.node = [] := (hm' v List.mem_cons_self).trans (hr.received_nil hne)
      have hrec := ih hrest fun w hw => hm' w (List.mem_cons_of_mem _ hw)
      change Listing members (waiting root scopes (⟨innermost root scopes, v.node⟩ :: ps)) _
      rw [waiting_cons hrest]
      refine .cons ?_
      rw [hv]
      exact hrec
    | container hp s ho =>
      have hsuf := keptUnder_suffix s v scopes
      have hkept := ha.suffix hsuf
      have hin := innermost_mem_frames root (keptUnder s v scopes)
      have hm' : ∀ w ∈ v :: vs, members w.node = received ps w.node := fun w hw =>
        (hm w hw).trans (received_cons_of_ne (hkept.frame_ne hin hw))
      have hrec := ih (hkept.push ho) fun w hw => hm' w (List.mem_cons_of_mem _ hw)
      have hc : ∀ q ∈ (⟨innermost root (keptUnder s v scopes), v.node⟩ : Placement) :: ps,
          q.container ∈ frames root (keptUnder s v scopes) ++ (v :: vs).map (·.node) := by
        intro q hq
        rcases List.mem_cons.1 hq with rfl | hq
        · exact List.mem_append_left _ hin
        · have := hr.container_mem hq
          rw [frames_cons, ho.node, List.cons_append] at this
          exact List.perm_middle.symm.subset this
      change Listing members (waiting root scopes
        (⟨innermost root (keptUnder s v scopes), v.node⟩ :: ps)) _
      rw [waiting_suffix hsuf ha hc, waiting_cons hkept.next.2]
      refine .cons ?_
      rw [hm' v List.mem_cons_self, ← ho.node]
      exact hrec

theorem runs_below (h : placements transparent root = .ok ps) :
    Runs transparent root [] root.below ps := by
  have hr := runs_of_placements h
  rw [Node.visits_eq_cons] at hr
  have hroot : isVisible transparent root ⟨root, none⟩ = false := by simp [isVisible]
  cases hr with
  | cons hs hr =>
    cases hs with
    | hidden _ => exact hr
    | reset hb => simp [breaksOff, hroot] at hb
    | leaf hp _ => simp [isPlaced, hroot] at hp
    | container hp => simp [isPlaced, hroot] at hp

namespace Hierarchy

variable {t : Hierarchy} {out before after : List Node}

theorem placed_listing (h : placements transparent root = .ok ps) (hu : root.Unshared) :
    Listing (membersOf (ofPlacements root ps).members)
      (membersOf (ofPlacements root ps).members root) (placed transparent root root.visits) := by
  have ha : Apart root [] root.below := by
    simpa [Apart, frames, Function.comp_def] using hu.nodup
  have hl := (runs_below h).listing ha fun v _ => membersOf_ofPlacements root ps v.node
  rw [members_eq_placed h] at hl
  rw [membersOf_ofPlacements]
  simpa [waiting, frames] using hl

/-- A listing below the root or a placed node, of placed nodes that come later, is what
`descendants` computes. -/
theorem descendants_eq_of_sublist (hu : root.Unshared)
    (hl : Listing (membersOf (ofPlacements root ps).members)
      (membersOf (ofPlacements root ps).members n) out)
    (hs : (n :: out).Sublist (root :: placed transparent root root.visits)) :
    descendants (ofPlacements root ps).members n = out :=
  descendants_eq hl ((rooted_distinct transparent hu).sublist (hs.map _))

theorem descendants_root (h : placements transparent root = .ok ps) (hu : root.Unshared) :
    descendants (ofPlacements root ps).members root = placed transparent root root.visits :=
  descendants_eq_of_sublist hu (placed_listing h hu) (List.Sublist.refl _)

/-- The descendants of a placed node come right after it, and they are its listing. -/
theorem descendants_run_after (h : placements transparent root = .ok ps) (hu : root.Unshared)
    (hp : placed transparent root root.visits = before ++ n :: after) :
    descendants (ofPlacements root ps).members n <+: after ∧
      Listing (membersOf (ofPlacements root ps).members)
        (membersOf (ofPlacements root ps).members n)
        (descendants (ofPlacements root ps).members n) := by
  obtain ⟨own, rest, rfl, hl⟩ := (placed_listing h hu).run_after hp
  have hs : (n :: own).Sublist (root :: placed transparent root root.visits) := by
    rw [hp]
    refine .cons _ (.trans ?_ (List.sublist_append_right _ _))
    exact (List.sublist_append_left own rest).cons_cons n
  rw [descendants_eq_of_sublist hu hl hs]
  exact ⟨List.prefix_append _ _, hl⟩

theorem descendants_nested {a b : Node} {middle : List Node}
    (h : placements transparent root = .ok ps) (hu : root.Unshared)
    (hp : placed transparent root root.visits = before ++ a :: (middle ++ b :: after)) :
    descendants (ofPlacements root ps).members b ⊆ descendants (ofPlacements root ps).members a ∨
      (descendants (ofPlacements root ps).members a).Disjoint
        (descendants (ofPlacements root ps).members b) := by
  obtain ⟨⟨rest, hrest⟩, hla⟩ := descendants_run_after h hu hp
  have hpb : placed transparent root root.visits = (before ++ a :: middle) ++ b :: after := by
    rw [hp]; simp
  obtain ⟨⟨tail, htail⟩, hlb⟩ := descendants_run_after h hu hpb
  by_cases hmem : b ∈ descendants (ofPlacements root ps).members a
  · left
    obtain ⟨before', after', hsplit⟩ := List.append_of_mem hmem
    obtain ⟨own, rest', rfl, hl⟩ := hla.run_after hsplit
    rw [hlb.functional hl, hsplit]
    intro k hk
    simp [hk]
  · right
    have hsub : descendants (ofPlacements root ps).members a ⊆ middle := by
      rcases List.append_eq_append_iff.1 hrest with ⟨x, hx, -⟩ | ⟨x, hx, hb⟩
      · rw [hx]; exact List.subset_append_left _ _
      · cases x with
        | nil => rw [hx, List.append_nil]; exact fun _ hk => hk
        | cons k x =>
          obtain ⟨rfl, -⟩ := List.cons.inj hb
          exact absurd (hx ▸ by simp) hmem
    have hd := (placed_distinct transparent hu).of_map
    rw [hpb, List.nodup_append] at hd
    intro k hka hkb
    refine hd.2.2 k (by simp [hsub hka]) k ?_ rfl
    rw [← htail]
    simp [hkb]

theorem received_of_not_placed (h : placements transparent root = .ok ps) (hu : root.Unshared)
    (hm : m ∈ root.nodes) (hn : m ∉ root :: placed transparent root root.visits) :
    received ps m = [] := by
  refine received_eq_nil fun p hp he => hn ?_
  obtain ⟨before, after, hsplit⟩ := List.append_of_mem hp
  rw [← hu.node_eq (container_mem_nodes h hp) hm he]
  rcases container_placed_before h hsplit with hr | ⟨-, hm⟩
  · rw [hr]; exact List.mem_cons_self
  · refine List.mem_cons_of_mem _ ?_
    rw [← members_eq_placed h, hsplit, List.map_append]
    exact List.mem_append_left _ hm

theorem descendants_listing (h : placements transparent root = .ok ps) (hu : root.Unshared)
    (hn : n ∈ root.nodes) :
    Listing (membersOf (ofPlacements root ps).members)
        (membersOf (ofPlacements root ps).members n)
        (descendants (ofPlacements root ps).members n) ∧
      ((n :: descendants (ofPlacements root ps).members n).map (·.label.id)).Nodup ∧
      descendants (ofPlacements root ps).members n ⊆
        placed transparent root root.visits := by
  by_cases hp : n ∈ root :: placed transparent root root.visits
  · rcases List.mem_cons.1 hp with he | hp
    · rw [he, descendants_root h hu]
      exact ⟨placed_listing h hu, rooted_distinct transparent hu, fun _ hk => hk⟩
    · obtain ⟨before, after, hsplit⟩ := List.append_of_mem hp
      obtain ⟨hpre, hl⟩ := descendants_run_after h hu hsplit
      have hs : (n :: descendants (ofPlacements root ps).members n).Sublist
          (placed transparent root root.visits) := by
        rw [hsplit]
        exact (hpre.sublist.cons_cons _).trans (List.sublist_append_right _ _)
      exact ⟨hl, (placed_distinct transparent hu).sublist (hs.map _),
        fun k hk => hs.subset (List.mem_cons_of_mem _ hk)⟩
  · have hm : membersOf (ofPlacements root ps).members n = [] := by
      rw [membersOf_ofPlacements, received_of_not_placed h hu hn hp]
    have hd : descendants (ofPlacements root ps).members n = [] :=
      descendants_eq (by rw [hm]; exact .nil) (List.nodup_singleton _)
    rw [hm, hd]
    exact ⟨.nil, List.nodup_singleton _, List.nil_subset _⟩

theorem mem_descendants (h : placements transparent root = .ok ps) (hu : root.Unshared)
    (hn : n ∈ root.nodes) :
    m ∈ descendants (ofPlacements root ps).members n ↔
      m ≠ n ∧ Relation.ReflTransGen (fun a b => b ∈ received ps a) n m := by
  obtain ⟨hl, hd, -⟩ := descendants_listing h hu hn
  have hne : n ∉ descendants (ofPlacements root ps).members n := (List.nodup_cons.1 hd.of_map).1
  rw [funext (membersOf_ofPlacements root ps)] at hl
  constructor
  · intro hm
    obtain ⟨k, hk, hr⟩ := hl.mem_iff.1 hm
    exact ⟨fun he => hne (he ▸ hm), .head hk hr⟩
  · rintro ⟨hmn, hr⟩
    rcases Relation.ReflTransGen.cases_head hr with rfl | hk
    · exact absurd rfl hmn
    · exact hl.mem_iff.2 hk

/-- Descendants are folds: all placed nodes in order below the root, and below a placed node the
ones that come right after it, up to some place. Two such runs are nested or disjoint. -/
theorem descendants_fold (hu : root.Unshared) (hb : build transparent root = .ok t) :
    descendants t.members root = placed transparent root root.visits ∧
    (∀ before n after, placed transparent root root.visits = before ++ n :: after →
      descendants t.members n <+: after) ∧
    ∀ a ∈ root :: placed transparent root root.visits,
      ∀ b ∈ root :: placed transparent root root.visits,
        descendants t.members a ⊆ descendants t.members b ∨
        descendants t.members b ⊆ descendants t.members a ∨
        (descendants t.members a).Disjoint (descendants t.members b) := by
  obtain ⟨ps, h, rfl⟩ := build_ok hb
  have hroot := descendants_root h hu
  have hplaced : ∀ n ∈ placed transparent root root.visits,
      descendants (ofPlacements root ps).members n ⊆
        descendants (ofPlacements root ps).members root := by
    intro n hn
    obtain ⟨before, after, hsplit⟩ := List.append_of_mem hn
    rw [hroot]
    intro k hk
    rw [hsplit]
    simp [(descendants_run_after h hu hsplit).1.subset hk]
  refine ⟨hroot, fun before n after hp => (descendants_run_after h hu hp).1, ?_⟩
  intro a ha b hb
  rcases List.mem_cons.1 ha with rfl | ha
  · rcases List.mem_cons.1 hb with rfl | hb
    · exact .inl fun _ hk => hk
    · exact .inr (.inl (hplaced b hb))
  · rcases List.mem_cons.1 hb with rfl | hb
    · exact .inl (hplaced a ha)
    · obtain ⟨before, after, hsplit⟩ := List.append_of_mem ha
      rw [hsplit] at hb
      rcases List.mem_append.1 hb with hb | hb
      · obtain ⟨before', middle, rfl⟩ := List.append_of_mem hb
        rw [List.append_assoc, List.cons_append] at hsplit
        rcases descendants_nested h hu hsplit with hn | hn
        · exact .inl hn
        · exact .inr (.inr fun _ hk hk' => hn hk' hk)
      · rcases List.mem_cons.1 hb with rfl | hb
        · exact .inl fun _ hk => hk
        · obtain ⟨middle, after', rfl⟩ := List.append_of_mem hb
          exact .inr (descendants_nested h hu hsplit)

theorem descendants_fold_sample :
    Node.sample.Unshared ∧ ∃ t, build [Kind.root, Kind.list, Kind.text] Node.sample = .ok t ∧
      descendants t.members Node.sample =
        placed [Kind.root, Kind.list, Kind.text] Node.sample Node.sample.visits ∧
      t.members.map (fun e => (e.1.label.id, (descendants t.members e.1).map (·.label.id))) =
        [(0, [1, 4, 5, 7, 8, 9, 10, 11, 12, 13, 15]), (1, [4, 5, 7, 8, 9]), (4, [5, 7, 8, 9]),
          (7, [8, 9]), (8, [9]), (11, [12])] := by
  have hu : Node.sample.Unshared := by decide
  obtain ⟨t, hb⟩ : ∃ t, build [Kind.root, Kind.list, Kind.text] Node.sample = .ok t := ⟨_, rfl⟩
  refine ⟨hu, t, hb, (descendants_fold hu hb).1, ?_⟩
  cases hb
  rfl

end Hierarchy
end Outline.Containment
