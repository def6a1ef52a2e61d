import Outline.Proofs.Step
import Outline.Proofs.Visit

/-! The placements of a run in order: one for each node to place, and every container is the root,
a scope that was open at the start, or a container that was placed before. -/

namespace Outline.Containment

variable {transparent : List Kind} {root : Node} {scopes scopes' : List Scope}
  {v : Visit Entry} {vs : List (Visit Entry)} {ps before after : List Placement} {p : Placement}

theorem placed_cons_of_not (h : isPlaced transparent root v = false) :
    placed transparent root (v :: vs) = placed transparent root vs := by
  simp [placed, h]

theorem placed_cons (h : isPlaced transparent root v) :
    placed transparent root (v :: vs) = v.node :: placed transparent root vs := by
  simp [placed, h]

theorem isPlaced_of_hidden (hv : isVisible transparent root v = false) :
    isPlaced transparent root v = false := by
  simp [isPlaced, hv]

theorem mem_placed {n : Node} :
    n ∈ placed transparent root vs ↔ ∃ v ∈ vs, isPlaced transparent root v ∧ v.node = n := by
  simp [placed, and_assoc]

theorem placed_subset_nodes (transparent : List Kind) (root : Node) :
    placed transparent root root.visits ⊆ root.nodes :=
  List.map_subset _ List.filter_sublist.subset

theorem not_root_of_placed {n : Node} (hn : n ∈ placed transparent root vs) :
    Node.is n root = false := by
  obtain ⟨v, -, hp, rfl⟩ := mem_placed.1 hn
  simp only [isPlaced, isVisible, Bool.and_eq_true, Bool.not_eq_true', Bool.or_eq_false_iff] at hp
  exact hp.1.1

theorem kind_not_mem_of_placed {n : Node} (hn : n ∈ placed transparent root vs) :
    n.label.kind ∉ transparent := by
  obtain ⟨v, -, hp, rfl⟩ := mem_placed.1 hn
  simp only [isPlaced, isVisible, Bool.and_eq_true, Bool.not_eq_true', Bool.or_eq_false_iff] at hp
  have ht := hp.1.2
  rwa [isTransparent, List.contains_eq_mem, decide_eq_false_iff_not] at ht

theorem placed_distinct (transparent : List Kind) (hu : root.Unshared) :
    ((placed transparent root root.visits).map (·.label.id)).Nodup := by
  unfold placed
  rw [List.map_map]
  exact List.Nodup.sublist (List.filter_sublist.map _) hu

theorem rooted_distinct (transparent : List Kind) (hu : root.Unshared) :
    ((root :: placed transparent root root.visits).map (·.label.id)).Nodup := by
  rw [List.map_cons, List.nodup_cons]
  refine ⟨?_, placed_distinct transparent hu⟩
  intro hmem
  obtain ⟨n, hn, he⟩ := List.mem_map.1 hmem
  have := not_root_of_placed hn
  rw [Node.is_iff.2 he] at this
  cases this

theorem Runs.members_eq (hr : Runs transparent root scopes vs ps) :
    ps.map (·.member) = placed transparent root vs := by
  induction hr with
  | nil => rfl
  | cons hs _ ih =>
    cases hs with
    | hidden hv => rw [placed_cons_of_not (isPlaced_of_hidden hv), ← ih]; rfl
    | reset hb => rw [placed_cons_of_not (isPlaced_of_breaksOff hb), ← ih]; rfl
    | leaf hp hk => rw [placed_cons hp, ← ih]; rfl
    | container hp s ho => rw [placed_cons hp, ← ih]; rfl

theorem innermost_cases (root : Node) (scopes : List Scope) :
    innermost root scopes = root ∨ ∃ s ∈ scopes, s.node = innermost root scopes := by
  cases scopes with
  | nil => exact .inl rfl
  | cons s rest => exact .inr ⟨s, List.mem_cons_self, rfl⟩

/-- What a container can be, given the placements before. -/
def Founded (root : Node) (scopes : List Scope) (before : List Placement) (c : Node) : Prop :=
  c = root ∨ (∃ s ∈ scopes, s.node = c) ∨
    (isContainer c.label.kind ∧ c ∈ before.map (·.member))

theorem Founded.mono {c : Node} (hf : Founded root scopes' before c)
    (hsub : scopes' ⊆ scopes) : Founded root scopes before c := by
  rcases hf with h | ⟨s, hs, h⟩ | h
  · exact .inl h
  · exact .inr (.inl ⟨s, hsub hs, h⟩)
  · exact .inr (.inr h)

theorem Founded.cons {c : Node} (hf : Founded root scopes before c) (q : Placement) :
    Founded root scopes (q :: before) c := by
  rcases hf with h | h | ⟨hk, h⟩
  · exact .inl h
  · exact .inr (.inl h)
  · exact .inr (.inr ⟨hk, List.mem_cons_of_mem _ h⟩)

/-- After a container was placed its scope is no more than a container placed before. -/
theorem Founded.of_push {s : Scope} {c : Node} {q : Placement}
    (hf : Founded root (s :: keptUnder s v scopes) before c) (ho : s.Opens v.node)
    (hq : q.member = v.node) : Founded root scopes (q :: before) c := by
  rcases hf with h | ⟨t, ht, h⟩ | ⟨hk, h⟩
  · exact .inl h
  · rcases List.mem_cons.1 ht with rfl | ht
    · refine .inr (.inr ⟨?_, ?_⟩)
      · rw [← h, ho.node, isContainer, ho.role]; rfl
      · rw [← h, ho.node, ← hq]; exact List.mem_cons_self
    · exact .inr (.inl ⟨t, (keptUnder_suffix s v scopes).subset ht, h⟩)
  · exact .inr (.inr ⟨hk, List.mem_cons_of_mem _ h⟩)

theorem founded_innermost (hsub : scopes' ⊆ scopes) :
    Founded root scopes before (innermost root scopes') := by
  rcases innermost_cases root scopes' with h | ⟨s, hs, h⟩
  · exact .inl h
  · exact .inr (.inl ⟨s, hsub hs, h⟩)

theorem Runs.founded (hr : Runs transparent root scopes vs ps) (hp : ps = before ++ p :: after) :
    Founded root scopes before p.container := by
  induction hr generalizing before with
  | nil => simp at hp
  | @cons scopes scopes' v vs p? ps hs _ ih =>
    cases hs with
    | hidden hv => exact ih hp
    | reset hb => exact (ih hp).mono (List.nil_subset _)
    | leaf hv hk =>
      cases before with
      | nil =>
        obtain ⟨rfl, -⟩ := List.cons.inj hp
        exact founded_innermost fun _ h => h
      | cons q before =>
        obtain ⟨rfl, ht⟩ := List.cons.inj hp
        exact (ih ht).cons _
    | container hv s ho =>
      cases before with
      | nil =>
        obtain ⟨rfl, -⟩ := List.cons.inj hp
        exact founded_innermost (keptUnder_suffix s v scopes).subset
      | cons q before =>
        obtain ⟨rfl, ht⟩ := List.cons.inj hp
        exact (ih ht).of_push ho rfl

/-- The containers of a whole pass are the root and containers placed before. -/
theorem container_placed_before (h : placements transparent root = .ok ps)
    (hp : ps = before ++ p :: after) :
    p.container = root ∨
      (isContainer p.container.label.kind ∧ p.container ∈ before.map (·.member)) := by
  rcases (runs_of_placements h).founded hp with h | ⟨s, hs, -⟩ | h
  · exact .inl h
  · cases hs
  · exact .inr h

theorem members_eq_placed (h : placements transparent root = .ok ps) :
    ps.map (·.member) = placed transparent root root.visits :=
  (runs_of_placements h).members_eq

theorem members_distinct (h : placements transparent root = .ok ps) (hu : root.Unshared) :
    (ps.map (·.member.label.id)).Nodup := by
  have hd := placed_distinct transparent hu
  rwa [← members_eq_placed h, List.map_map] at hd

theorem member_placed (h : placements transparent root = .ok ps) (hp : p ∈ ps) :
    p.member ∈ placed transparent root root.visits := by
  rw [← members_eq_placed h]
  exact List.mem_map_of_mem hp

theorem container_mem_nodes (h : placements transparent root = .ok ps) (hp : p ∈ ps) :
    p.container ∈ root.nodes := by
  obtain ⟨before, after, rfl⟩ := List.append_of_mem hp
  rcases container_placed_before h rfl with hr | ⟨-, hm⟩
  · exact hr ▸ Node.self_mem_nodes root
  · obtain ⟨q, hq, hm⟩ := List.mem_map.1 hm
    rw [← hm]
    exact placed_subset_nodes transparent root (member_placed h (List.mem_append_left _ hq))

end Outline.Containment
