import Outline.Proofs.Fold
import Outline.Proofs.Rendering

/-! What the drawing of a built hierarchy accounts for. A line stands for the node it draws or for
those that it sums up. Nodes that are summed up are no containers, and in a built hierarchy those
have no members, so that nothing is below them (`Listing.filter`). So the lines stand for the listing
of the hierarchy (`Draws.perm`), each node in one line. -/

namespace Outline.Containment

open Hierarchy (membersOf)

/-- The nodes that a line stands for: the one it draws, or those below its owner that it sums up. -/
def Line.nodes (members : NodeMap (List Node)) (l : Line) : List Node :=
  match l.content, l.owner with
  | .node n, _ => [n]
  | .summary _, some c => (membersOf members c).filter (!isContainerNode ·)
  | _, _ => []

def Line.summed (l : Line) : Nat :=
  match l.content with
  | .summary counts => (counts.map (·.2)).sum
  | _ => 0

def tally (ns : List Node) : List (Kind × Nat) :=
  (ns.map (·.label.kind)).eraseDups.map fun k => (k, ns.countP (·.label.kind == k))

/-- What a drawing of a hierarchy says of the nodes placed: the root is at the top, no node is marked
as circular, and each node is in one line, its own or a summary that counts it under its kind. -/
structure Accounts (t : Hierarchy) (placed : List Node) (lines : List Line) : Prop where
  top : lines.head? = some ⟨.node t.root, none, [], true⟩
  straight : ∀ l ∈ lines, l.circular? = none
  tallied : ∀ l ∈ lines, ∀ counts, l.content = .summary counts →
    counts = tally (l.nodes t.members)
  once : ∀ m ∈ placed, lines.countP (fun l => (l.nodes t.members).any (Node.is m)) = 1
  total : (nodesOf lines).length + (lines.map Line.summed).sum = t.containers.length + 1

section Tally

variable {k : Kind} {counts : List (Kind × Nat)}

theorem foldl_countKind_cons (k : Kind) (c : Nat) (counts : List (Kind × Nat)) (ns : List Node) :
    ns.foldl (fun acc n => countKind n.label.kind acc) ((k, c) :: counts) =
      (k, ns.countP (·.label.kind == k) + c) ::
        (ns.filter (!·.label.kind == k)).foldl (fun acc n => countKind n.label.kind acc)
          counts := by
  induction ns generalizing c counts with
  | nil => simp
  | cons n ns ih =>
    rw [List.foldl_cons, countKind]
    by_cases hk : k = n.label.kind
    · rw [if_pos hk, ← hk, ih]
      simp [hk, Nat.add_right_comm, Nat.add_assoc]
    · rw [if_neg hk, ih]
      simp [Ne.symm hk]

theorem countKinds_cons (n : Node) (ns : List Node) :
    countKinds (n :: ns) = (n.label.kind, ns.countP (·.label.kind == n.label.kind) + 1) ::
      countKinds (ns.filter (!·.label.kind == n.label.kind)) :=
  foldl_countKind_cons n.label.kind 1 [] ns

theorem tally_cons (n : Node) (ns : List Node) :
    tally (n :: ns) = (n.label.kind, ns.countP (·.label.kind == n.label.kind) + 1) ::
      tally (ns.filter (!·.label.kind == n.label.kind)) := by
  have hmap : (ns.map (·.label.kind)).filter (!· == n.label.kind) =
      (ns.filter (!·.label.kind == n.label.kind)).map (·.label.kind) := List.filter_map
  unfold tally
  rw [List.map_cons, List.eraseDups_cons, List.map_cons, ← hmap]
  congr 1
  · simp
  · refine List.map_congr_left fun k hk => ?_
    have hne : k ≠ n.label.kind := by
      simpa using (List.mem_filter.1 (List.mem_eraseDups.1 hk)).2
    rw [List.countP_cons_of_neg (by simpa using hne.symm), List.countP_filter]
    congr 1
    refine List.countP_congr fun m _ => ?_
    grind

theorem countKinds_eq_tally (ns : List Node) : countKinds ns = tally ns := by
  induction hl : ns.length using Nat.strongRecOn generalizing ns with
  | ind len ih =>
    cases ns with
    | nil => rfl
    | cons n ns =>
      have hlt : (ns.filter (!·.label.kind == n.label.kind)).length < len := by
        rw [← hl, List.length_cons]
        exact Nat.lt_succ_of_le (List.length_filter_le _ _)
      rw [countKinds_cons, tally_cons, ih _ hlt _ rfl]

theorem sum_countKind : ((countKind k counts).map (·.2)).sum = (counts.map (·.2)).sum + 1 := by
  induction counts with
  | nil => rfl
  | cons e counts ih =>
    rw [countKind]
    split_ifs
    · simp only [List.map_cons, List.sum_cons]; omega
    · simp only [List.map_cons, List.sum_cons, ih]; omega

theorem sum_foldl_countKind (ns : List Node) :
    ((ns.foldl (fun acc n => countKind n.label.kind acc) counts).map (·.2)).sum =
      (counts.map (·.2)).sum + ns.length := by
  induction ns generalizing counts with
  | nil => rfl
  | cons n ns ih => rw [List.foldl_cons, ih, sum_countKind, List.length_cons]; omega

theorem sum_countKinds (ns : List Node) : ((countKinds ns).map (·.2)).sum = ns.length := by
  rw [countKinds, sum_foldl_countKind]
  simp

end Tally

namespace Listing

variable {members : Node → List Node} {pending pending' out out' : List Node}

theorem append (h : Listing members pending out) (h' : Listing members pending' out') :
    Listing members (pending ++ pending') (out ++ out') := by
  induction h with
  | nil => exact h'
  | cons _ ih => exact .cons (by simpa using ih)

theorem filter {p : Node → Bool} (h : Listing members pending out)
    (hp : ∀ n ∈ pending, p n = false → members n = []) :
    ∃ kept, Listing members (pending.filter p) kept ∧
      (pending.filter (!p ·) ++ kept).Perm out := by
  induction pending generalizing out with
  | nil => cases h; exact ⟨[], .nil, .refl _⟩
  | cons n pending ih =>
    cases h with
    | cons h =>
      obtain ⟨own, rest, rfl, hown, hrest⟩ := h.split
      obtain ⟨kept, hkept, hperm⟩ := ih hrest fun m hm => hp m (List.mem_cons_of_mem _ hm)
      by_cases hn : p n = true
      · rw [List.filter_cons_of_pos hn, List.filter_cons_of_neg (by simp [hn])]
        refine ⟨n :: (own ++ kept), .cons (hown.append hkept), ?_⟩
        refine List.perm_middle.trans (.cons n ?_)
        rw [← List.append_assoc]
        refine (List.perm_append_comm.append_right kept).trans ?_
        rw [List.append_assoc]
        exact hperm.append_left own
      · rw [List.filter_cons_of_neg hn, List.filter_cons_of_pos (by simpa using hn)]
        rw [hp n List.mem_cons_self (by simpa using hn)] at hown
        cases hown
        exact ⟨kept, hkept, .cons n hperm⟩

end Listing

variable {members : NodeMap (List Node)} {threshold : Int} {above ns out : List Node}
  {closed : List Bool} {seen seen' : List Nat} {lines : List Line} {root n m : Node}

/-- Of the nodes below a node those that its summary stands for have nothing below them, and the
others are below what is shown of it. -/
theorem Listing.shown (h : Listing (membersOf members) (membersOf members n) out)
    (hleaf : ∀ m ∈ membersOf members n, isContainerNode m = false → membersOf members m = [])
    (threshold : Int) (closed : List Bool) :
    ∃ kept, Listing (membersOf members) (shown members threshold n) kept ∧
      ((summaryLine threshold n closed (membersOf members n)).flatMap (Line.nodes members) ++
        kept).Perm out := by
  unfold summaryLine
  rw [← drawn_membersOf, drawn]
  split_ifs
  · obtain ⟨kept, hkept, hperm⟩ := h.filter hleaf
    exact ⟨kept, hkept, by simpa [Line.nodes] using hperm⟩
  · exact ⟨out, h, .refl _⟩

theorem nodesOf_subset (members : NodeMap (List Node)) (lines : List Line) :
    nodesOf lines ⊆ lines.flatMap (Line.nodes members) := by
  intro m hm
  obtain ⟨v, hv, rfl⟩ := List.mem_map.1 hm
  obtain ⟨l, hl, hlv⟩ := List.mem_filterMap.1 hv
  refine List.mem_flatMap.2 ⟨l, hl, ?_⟩
  rcases hc : l.content with k | k | counts
  all_goals simp only [Line.visit?, hc, reduceCtorEq, Option.some.injEq] at hlv
  simp [Line.nodes, hc, ← hlv]

def Unseen (seen : List Nat) (ns : List Node) : Prop :=
  (ns.map (·.label.id)).Nodup ∧ ∀ n ∈ ns, n.label.id ∉ seen

namespace Unseen

variable {ms : List Node}

theorem tail (h : Unseen seen (n :: ns)) : Unseen (n.label.id :: seen) ns := by
  obtain ⟨hd, hs⟩ := h
  rw [List.map_cons, List.nodup_cons] at hd
  refine ⟨hd.2, fun m hm hmem => ?_⟩
  rcases List.mem_cons.1 hmem with he | hmem
  · exact hd.1 (he ▸ List.mem_map_of_mem hm)
  · exact hs m (List.mem_cons_of_mem _ hm) hmem

theorem left (h : Unseen seen (ms ++ ns)) : Unseen seen ms := by
  obtain ⟨hd, hs⟩ := h
  rw [List.map_append, List.nodup_append] at hd
  exact ⟨hd.1, fun m hm => hs m (List.mem_append_left _ hm)⟩

theorem right (h : Unseen seen (ms ++ ns))
    (hs : ∀ i ∈ seen', i ∈ seen ∨ i ∈ ms.map (·.label.id)) : Unseen seen' ns := by
  obtain ⟨hd, hseen⟩ := h
  rw [List.map_append, List.nodup_append] at hd
  refine ⟨hd.2.1, fun n hn hmem => ?_⟩
  rcases hs _ hmem with hmem | hmem
  · exact hseen n (List.mem_append_right _ hn) hmem
  · exact hd.2.2 _ hmem _ (List.mem_map_of_mem hn) rfl

theorem perm (h : Unseen seen ns) (hp : ms.Perm ns) : Unseen seen ms :=
  ⟨(hp.map _).nodup_iff.2 h.1, fun m hm => h.2 m (hp.subset hm)⟩

end Unseen

namespace Draws

theorem summary_eq (h : Draws members threshold above closed seen ns lines seen') {l : Line}
    (hl : l ∈ lines) {counts : List (Kind × Nat)} (hc : l.content = .summary counts) :
    counts = countKinds (l.nodes members) := by
  induction h with
  | done => cases hl
  | circular _ _ ih =>
    rcases List.mem_cons.1 hl with rfl | hl
    · cases hc
    · exact ih hl
  | skip _ _ _ ih => exact ih hl
  | node _ _ _ _ _ iho ihr =>
    simp only [List.mem_cons, List.mem_append] at hl
    rcases hl with rfl | (hl | hl) | hl
    · cases hc
    · obtain rfl := eq_of_mem_summaryLine hl
      cases hc
      rfl
    · exact iho hl
    · exact ihr hl

/-- Where the siblings list unseen nodes the lines stand for what they list, and none is
circular. -/
theorem perm (h : Draws members threshold above closed seen ns lines seen')
    (hleaf : ∀ n, ∀ m ∈ membersOf members n, isContainerNode m = false → membersOf members m = [])
    (hl : Listing (membersOf members) ns out) (hs : Unseen seen out)
    (ha : above.map (·.label.id) ⊆ seen) :
    (lines.flatMap (Line.nodes members)).Perm out ∧ ∀ l ∈ lines, l.circular? = none := by
  induction h generalizing out with
  | done => cases hl; exact ⟨.refl _, by simp⟩
  | circular hn _ _ => cases hl; exact absurd (ha hn) (hs.2 _ List.mem_cons_self)
  | skip _ hn _ _ => cases hl; exact absurd hn (hs.2 _ List.mem_cons_self)
  | @node above closed below seen seen₁ seen' n ns own lines _ _ _ ho _ iho ihr =>
    cases hl with
    | cons hl =>
      obtain ⟨listed, rest, rfl, hlisted, hrest⟩ := hl.split
      obtain ⟨kept, hkept, hperm⟩ := hlisted.shown (hleaf n) threshold below
      have hkeep : Unseen (n.label.id :: seen) kept :=
        (hs.tail.left.perm hperm).right fun _ hi => .inl hi
      obtain ⟨hpo, hco⟩ := iho hkept hkeep (List.cons_subset_cons _ ha)
      have hsub : nodesOf own ⊆ listed := fun m hm =>
        hperm.subset (List.mem_append_right _ (hpo.subset (nodesOf_subset members own hm)))
      -- what was drawn below the node is listed before the other siblings
      have hlater : Unseen seen₁ rest :=
        hs.tail.right fun i hi => (ho.mem_seen.1 hi).imp_right fun hi => List.map_subset _ hsub hi
      obtain ⟨hpr, hcr⟩ := ihr hrest hlater
        fun i hi => ho.seen_subset (List.mem_cons_of_mem _ (ha hi))
      refine ⟨?_, ?_⟩
      · rw [List.flatMap_cons, List.flatMap_append, List.flatMap_append]
        exact .cons n (((hpo.append_left _).trans hperm).append hpr)
      · simp only [List.mem_cons, List.mem_append]
        rintro l (rfl | (hl | hl) | hl)
        · rfl
        · rw [eq_of_mem_summaryLine hl]
          rfl
        · exact hco l hl
        · exact hcr l hl

end Draws

theorem length_nodesOf_add_sum (hs : ∀ l ∈ lines, ∀ counts, l.content = .summary counts →
    counts = countKinds (l.nodes members)) :
    (nodesOf lines).length + (lines.map Line.summed).sum =
      (lines.flatMap (Line.nodes members)).length := by
  induction lines with
  | nil => rfl
  | cons l lines ih =>
    rw [List.forall_mem_cons] at hs
    have hrest := ih hs.2
    have hl : (nodesOf [l]).length + l.summed = (l.nodes members).length := by
      rcases hc : l.content with n | n | counts
      · simp [nodesOf, visitsOf, Line.visit?, Line.summed, Line.nodes, hc]
      · simp [nodesOf, visitsOf, Line.visit?, Line.summed, Line.nodes, hc]
      · have hcount := hs.1 counts hc
        simp [nodesOf, visitsOf, Line.visit?, Line.summed, hc, hcount, sum_countKinds]
    rw [List.map_cons, List.sum_cons, List.flatMap_cons, List.length_append, ← hl, ← hrest,
      ← List.singleton_append, nodesOf_append, List.length_append]
    omega

/-- Where no node is listed twice, a node that is listed is in the list of one line. -/
theorem countP_any_of_nodup {f : Line → List Node}
    (hd : ((lines.flatMap f).map (·.label.id)).Nodup) (hm : m ∈ lines.flatMap f) :
    lines.countP (fun l => (f l).any (Node.is m)) = 1 := by
  induction lines with
  | nil => cases hm
  | cons l lines ih =>
    rw [List.flatMap_cons, List.map_append, List.nodup_append] at hd
    rw [List.countP_cons]
    by_cases hl : (f l).any (Node.is m) = true
    · have hnone : lines.countP (fun l => (f l).any (Node.is m)) = 0 := by
        refine List.countP_eq_zero.2 fun k hk hany => ?_
        obtain ⟨a, ha, hma⟩ := List.any_eq_true.1 hl
        obtain ⟨b, hb, hmb⟩ := List.any_eq_true.1 hany
        refine hd.2.2 _ (List.mem_map_of_mem ha) _
          (List.mem_map_of_mem (List.mem_flatMap.2 ⟨k, hk, hb⟩)) ?_
        exact (Node.is_iff.1 hma).symm.trans (Node.is_iff.1 hmb)
      rw [if_pos hl, hnone]
    · rw [if_neg hl, ih hd.2.1]
      refine (List.mem_append.1 hm).resolve_left fun hml => hl ?_
      exact List.any_eq_true.2 ⟨m, hml, Node.is_self m⟩

namespace Hierarchy

variable {transparent : List Kind} {ps : List Placement} {t : Hierarchy}

theorem received_of_leaf (h : placements transparent root = .ok ps) (hu : root.Unshared)
    (hm : m ∈ received ps n) (hk : isContainerNode m = false) : received ps m = [] := by
  obtain ⟨q, hq, -, rfl⟩ := mem_received.1 hm
  have hplaced := member_placed h hq
  refine received_eq_nil fun p hp he => ?_
  obtain ⟨before, after, hsplit⟩ := List.append_of_mem hp
  rcases container_placed_before h hsplit with hr | ⟨hc, -⟩
  · have hroot := not_root_of_placed hplaced
    rw [Node.is_iff.2 (he.symm.trans (by rw [hr]))] at hroot
    cases hroot
  · rw [hu.node_eq (container_mem_nodes h hp)
      (placed_subset_nodes transparent root hplaced) he] at hc
    rw [isContainerNode, hc] at hk
    cases hk

/-- In the drawing of a built hierarchy no placed node is lost, and what the drawing says is
printed. -/
theorem draw_accounts (threshold : Int) (hu : root.Unshared)
    (hb : build transparent root = .ok t) :
    let lines := draw t.members threshold t.root
    Accounts t (placed transparent root root.visits) lines ∧
    ∀ settings, Prints settings lines (drawingText settings lines) := by
  refine ⟨?_, draw_prints t.members threshold t.root⟩
  obtain ⟨ps, h, rfl⟩ := build_ok hb
  rw [root_ofPlacements]
  obtain ⟨seen, hdraw⟩ := draw_draws (ofPlacements root ps).members threshold root
  have hd := rooted_distinct transparent hu
  have hl : Listing (membersOf (ofPlacements root ps).members) [root]
      (root :: placed transparent root root.visits) :=
    .cons (by simpa using placed_listing h hu)
  have hleaf : ∀ n, ∀ m ∈ membersOf (ofPlacements root ps).members n, isContainerNode m = false →
      membersOf (ofPlacements root ps).members m = [] := by
    simp only [membersOf_ofPlacements]
    exact fun n m hm hk => received_of_leaf h hu hm hk
  obtain ⟨hperm, hstraight⟩ := hdraw.perm hleaf hl ⟨hd, by simp⟩ (List.nil_subset _)
  have hcounts : ∀ l ∈ draw (ofPlacements root ps).members threshold root, ∀ counts,
      l.content = .summary counts → counts = countKinds (l.nodes (ofPlacements root ps).members) :=
    fun l hl counts hc => hdraw.summary_eq hl hc
  refine ⟨?_, hstraight, ?_, ?_, ?_⟩
  · obtain ⟨rest, he, -⟩ := draw_eq_cons (ofPlacements root ps).members threshold root
    rw [he, root_ofPlacements]
    rfl
  · intro l hl counts hc
    rw [hcounts l hl counts hc, countKinds_eq_tally]
  · intro m hm
    refine countP_any_of_nodup ((hperm.map _).nodup_iff.2 hd) (hperm.symm.subset ?_)
    exact List.mem_cons_of_mem _ hm
  · rw [length_nodesOf_add_sum hcounts, hperm.length_eq, List.length_cons,
      containers_ofPlacements (members_distinct h hu), List.length_map, ← members_eq_placed h,
      List.length_map]

theorem draw_accounts_sample :
    let settings : DrawingSettings := { showSpans := false }
    Node.sample.Unshared ∧ ∃ t, build [Kind.root, Kind.list, Kind.text] Node.sample = .ok t ∧
      Accounts t (placed [Kind.root, Kind.list, Kind.text] Node.sample Node.sample.visits)
        (draw t.members 0 t.root) ∧
      Prints settings (draw t.members 0 t.root) (drawingText settings (draw t.members 0 t.root)) ∧
      (draw t.members 0 t.root).map (fun l => (l.nodes t.members).map (·.label.id)) =
        [[0], [15], [1], [4], [5], [7], [8], [9], [10], [11], [12], [13]] ∧
      (Text.lines (drawingText settings (draw t.members 0 t.root))).take 3 =
        ["root", "├─ [1 non-container nodes: paragraph(1)]", "├─ heading[1]"].map String.toList := by
  intro settings
  have hu : Node.sample.Unshared := by decide
  obtain ⟨t, hb⟩ : ∃ t, build [Kind.root, Kind.list, Kind.text] Node.sample = .ok t := ⟨_, rfl⟩
  obtain ⟨haccounts, hprints⟩ := draw_accounts 0 hu hb
  refine ⟨hu, t, hb, haccounts, hprints settings, ?_⟩
  cases hb
  exact ⟨rfl, rfl⟩

end Hierarchy
end Outline.Containment
