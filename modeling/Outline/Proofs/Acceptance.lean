import Outline.Proofs.Sections

/-! Which transparent kinds are accepted. The check looks at a list of kinds, and its rule is exactly
right: a list passes iff under it no document loses a container and nothing gets across a break
(`check_iff_sound`). That a passed list is sound holds because a visible break closes all scopes
(`container_after_break`). For the converse there is a document for each kind that is refused: a
lone block of the kind, and a break between two headings. -/

namespace Outline

namespace Containment

variable {transparent : List Kind} {root n b : Node} {before after : List Node}
  {ps : List Placement} {p : Placement} {k : Kind}

/-- No container but the root is left out, and what comes after a break, if that is not the root,
goes into no container from before it but the root. -/
structure Intact (root : Node) (ps : List Placement) : Prop where
  placed : ∀ n ∈ root.nodes, n ≠ root →
    n.label.kind ∈ [Kind.heading, Kind.listItem, Kind.blockquote] → n ∈ ps.map (·.member)
  apart : ∀ before b after, root.nodes = before ++ b :: after → isBreak b → b ≠ root →
    ∀ p ∈ ps, p.member ∈ after → p.container ∈ before → p.container = root

/-- Every document that shares no nodes and whose headings have valid levels is placed intact. -/
def Sound (transparent : List Kind) : Prop :=
  ∀ root : Node, root.Unshared →
    (∀ n ∈ root.nodes, n.label.kind = Kind.heading → (validDepth? n.label.depth).isSome) →
    ∃ ps, placements transparent root = .ok ps ∧ Intact root ps

theorem placements_ok (transparent : List Kind)
    (h : ∀ n ∈ root.nodes, n.label.kind = Kind.heading → (validDepth? n.label.depth).isSome) :
    ∃ ps, placements transparent root = .ok ps := by
  have hnone : (resolve transparent root).violation = none := by
    unfold resolve
    rw [Tree.walk_eq_visits, run_violation, List.find?_eq_none.2]
    · rfl
    · intro v hv hm
      simp only [isMalformed, Bool.and_eq_true, beq_iff_eq] at hm
      have := h v.node (List.mem_map_of_mem hv) hm.1.2
      simp_all
  exact ⟨_, by rw [placements, hnone]⟩

theorem isVisible_of_not_mem {v : Visit Entry} (hu : root.Unshared) (hv : v ∈ root.visits)
    (hne : v.node ≠ root) (ht : v.node.label.kind ∉ transparent) :
    isVisible transparent root v := by
  have hroot : Node.is v.node root = false := by
    rw [Bool.eq_false_iff, ne_eq, Node.is_iff]
    exact fun he => hne (hu.node_eq (List.mem_map_of_mem hv) (Node.self_mem_nodes root) he)
  simp [isVisible, isTransparent, hroot, ht]

/-- After a visible break a pass goes on as if it began there. -/
theorem container_after_break {vs ws : List (Visit Entry)} {v : Visit Entry}
    (hb : breaksOff transparent root v)
    (hr : (run transparent root [] (vs ++ v :: ws)).violation = none)
    (hp : p ∈ (run transparent root [] (vs ++ v :: ws)).placements) :
    p.member ∈ placed transparent root vs ∨
      p.container = root ∨ p.container ∈ placed transparent root ws := by
  obtain ⟨scopes, hs, hrest⟩ := scopesAfter_of_run hr
  have hvs : (run transparent root [] vs).violation = none := by
    have hcut := run_append transparent root [] vs []
    rw [List.append_nil, hs] at hcut
    rw [hcut]
    rfl
  have hstep : run transparent root scopes (v :: ws) = run transparent root [] ws := by
    simp only [breaksOff, Bool.and_eq_true] at hb
    rw [run, step_of_break hb.2 hb.1]
    rfl
  rw [hstep] at hrest
  rw [run_append, hs] at hp
  dsimp only at hp
  rw [hstep] at hp
  rcases List.mem_append.1 hp with hp | hp
  · left
    rw [← (runs_of_run hvs).members_eq]
    exact List.mem_map_of_mem hp
  · right
    obtain ⟨earlier, later, hsplit⟩ := List.append_of_mem hp
    have hruns := runs_of_run hrest
    rcases hruns.founded hsplit with h | ⟨s, hs, -⟩ | ⟨-, h⟩
    · exact .inl h
    · cases hs
    · right
      rw [← hruns.members_eq, hsplit, List.map_append]
      exact List.mem_append_left _ h

/-- Under kinds that hide no container and no break, every document is placed intact. -/
theorem sound_of_visible (h : ∀ k ∈ Kind.thematicBreak :: Settings.shadowable, k ∉ transparent) :
    Sound transparent := by
  intro root hu hd
  obtain ⟨ps, hps⟩ := placements_ok transparent hd
  refine ⟨ps, hps, ?_, ?_⟩
  · intro n hn hne hk
    rw [members_eq_placed hps, mem_placed]
    obtain ⟨v, hv, rfl⟩ := List.mem_map.1 hn
    have hshown : v.node.label.kind ∈ Settings.shadowable ∧ isBreak v.node = false := by
      simp only [List.mem_cons, List.not_mem_nil, or_false] at hk
      rcases hk with hk | hk | hk <;> rw [isBreak, hk] <;> decide
    have hv' := isVisible_of_not_mem hu hv hne (h _ (List.mem_cons_of_mem _ hshown.1))
    exact ⟨v, hv, by simp [isPlaced, hv', hshown.2], rfl⟩
  · intro before b after hsplit hb hne p hp hm hc
    obtain ⟨vs, rest, hvisits, rfl, hrest⟩ := List.map_eq_append_iff.1 hsplit
    obtain ⟨v, ws, rfl, rfl, rfl⟩ := List.map_eq_cons_iff.1 hrest
    have hbreak : v.node.label.kind = Kind.thematicBreak := beq_iff_eq.1 hb
    have hv : breaksOff transparent root v := by
      have hmem : v ∈ root.visits := hvisits ▸ by simp
      have hv' := isVisible_of_not_mem hu hmem hne (h _ (hbreak ▸ List.mem_cons_self))
      simp [breaksOff, hv', hb]
    -- no node is visited on both sides of the break
    have hapart : ∀ m ∈ vs.map (·.node), m ∉ ws.map (·.node) := by
      have hnodup : (root.visits.map (·.node)).Nodup := by
        refine List.Nodup.of_map (·.label.id) ?_
        rw [List.map_map]
        exact hu
      rw [hvisits, List.map_append, List.map_cons, List.nodup_append] at hnodup
      exact fun m hm hm' => hnodup.2.2 m hm m (List.mem_cons_of_mem _ hm') rfl
    have hplaced : ∀ us : List (Visit Entry), placed transparent root us ⊆ us.map (·.node) :=
      fun us => List.map_subset _ List.filter_sublist.subset
    have hresolve := resolve_eq hps
    rw [resolve, Tree.walk_eq_visits, hvisits] at hresolve
    have hp' : p ∈ (run transparent root [] (vs ++ v :: ws)).placements := by
      rw [hresolve]
      exact hp
    rcases container_after_break hv (congrArg Trace.violation hresolve) hp' with h | h | h
    · exact absurd hm (hapart _ (hplaced vs h))
    · exact h
    · exact absurd (hplaced ws h) (hapart _ hc)

def block (k : Kind) : Node := .node { id := 1, kind := k, depth := .int 1 } []

def lone (k : Kind) : Node := .node { id := 0, kind := Kind.root } [block k]

theorem Sound.visible_container (h : Sound transparent) (hk : k ∈ Settings.shadowable) :
    k ∉ transparent := by
  intro hmem
  have hvalid : ∀ n ∈ (lone k).nodes, n.label.kind = Kind.heading →
      (validDepth? n.label.depth).isSome := by
    change ∀ n ∈ [lone k, block k], _
    simp only [List.forall_mem_cons, List.not_mem_nil, false_imp_iff, implies_true, and_true]
    exact ⟨fun hroot => absurd (show Kind.root = Kind.heading from hroot) (by decide), fun _ => rfl⟩
  obtain ⟨ps, hps, hplaced, -⟩ := h (lone k) (show [0, 1].Nodup by decide) hvalid
  have hin : block k ∈ (lone k).nodes := show block k ∈ [lone k, block k] by simp
  have hm := hplaced (block k) hin (by simp [lone, block]) (by
    simp only [Settings.shadowable, List.mem_cons, List.not_mem_nil, or_false] at hk
    rcases hk with rfl | rfl | rfl <;> decide)
  rw [members_eq_placed hps, mem_placed] at hm
  obtain ⟨v, -, hv, hn⟩ := hm
  have : isTransparent transparent v.node = true := by
    rw [hn]
    exact List.contains_iff_mem.2 hmem
  simp [isPlaced, isVisible, this] at hv

theorem run_of_step {v : Visit Entry} {vs : List (Visit Entry)} {scopes scopes' : List Scope}
    {p? : Option Placement} (h : step transparent root scopes v = .ok (scopes', p?)) :
    run transparent root scopes (v :: vs) =
      ⟨p?.toList ++ (run transparent root scopes' vs).placements,
        (run transparent root scopes' vs).violation⟩ := by
  rw [run, h]

theorem step_of_hidden {v : Visit Entry} (hv : isVisible transparent root v = false)
    (scopes : List Scope) : step transparent root scopes v = .ok (scopes, none) := by
  have hhidden : (Node.is v.node root || isTransparent transparent v.node) = true := by
    rw [← Bool.not_eq_false']
    exact hv
  unfold step
  rw [hhidden]
  rfl

theorem step_of_heading {v : Visit Entry} {d : Int} (hv : isVisible transparent root v)
    (hk : v.node.label.kind = Kind.heading) (hd : validDepth? v.node.label.depth = some d)
    (scopes : List Scope) :
    step transparent root scopes v =
      .ok (⟨v.node, .heading, d⟩ :: closeForHeading d scopes,
        some ⟨innermost root (closeForHeading d scopes), v.node⟩) := by
  have hshown : (Node.is v.node root || isTransparent transparent v.node) = false := by
    simpa [isVisible] using hv
  unfold step openScope roleOf depthOf isBreak
  rw [hshown, hk, hd]
  rfl

def rule : Node := .node { id := 2, kind := Kind.thematicBreak } []

def subheading : Node := .node { id := 3, kind := Kind.heading, depth := .int 2 } []

def divided : Node :=
  .node { id := 0, kind := Kind.root } [block Kind.heading, rule, subheading]

theorem placements_divided (hh : Kind.heading ∉ transparent)
    (hb : Kind.thematicBreak ∈ transparent) :
    placements transparent divided =
      .ok [⟨divided, block Kind.heading⟩, ⟨block Kind.heading, subheading⟩] := by
  have hshown (n p : Node) (hn : Node.is n divided = false) (hk : n.label.kind = Kind.heading) :
      isVisible transparent divided ⟨n, some p⟩ := by
    simpa [isVisible, isTransparent, hn, hk] using hh
  have hhidden (p : Node) : isVisible transparent divided ⟨rule, some p⟩ = false := by
    simpa [isVisible, isTransparent, rule, Tree.label] using fun _ => hb
  have hwalk : divided.walk = [⟨divided, none⟩, ⟨block Kind.heading, some divided⟩,
      ⟨rule, some divided⟩, ⟨subheading, some divided⟩] := rfl
  have hresolve : resolve transparent divided =
      ⟨[⟨divided, block Kind.heading⟩, ⟨block Kind.heading, subheading⟩], none⟩ := by
    rw [resolve, hwalk, run_of_step (step_of_hidden rfl []),
      run_of_step (step_of_heading (hshown _ _ rfl rfl) rfl (d := 1) rfl []),
      run_of_step (step_of_hidden (hhidden _) _),
      run_of_step (step_of_heading (hshown _ _ rfl rfl) rfl (d := 2) rfl _)]
    rfl
  rw [placements, hresolve]

theorem Sound.visible_break (h : Sound transparent) : Kind.thematicBreak ∉ transparent := by
  intro hb
  have hps := placements_divided (h.visible_container (by decide)) hb
  obtain ⟨ps, hps', hintact⟩ := h divided (by decide) (by decide)
  obtain rfl := Except.ok.inj (hps.symm.trans hps')
  have hnodes : divided.nodes = [divided, block Kind.heading] ++ rule :: [subheading] := rfl
  have hroot := hintact.apart _ _ _ hnodes rfl (by simp [rule, divided])
    ⟨block Kind.heading, subheading⟩ (by simp) (by simp) (by simp)
  simp [block, divided] at hroot

/-- Settings are accepted iff all other settings are valid and the transparent kinds are sound: in
every document all containers are placed, and no break is crossed. -/
theorem check_iff_sound (s : Settings) :
    s.check = .ok () ↔ s.RestValid ∧ Sound s.transparent := by
  rw [Settings.check_eq_ok, Settings.complaints_eq_nil, Settings.transparencyComplaints_eq_nil]
  refine and_congr_right fun _ => ⟨sound_of_visible, fun h => ?_⟩
  exact List.forall_mem_cons.2 ⟨h.visible_break, fun k => h.visible_container⟩

end Containment
end Outline
