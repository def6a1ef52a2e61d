import Outline.Proofs.Cut
import Outline.Proofs.Order
import Outline.Proofs.Preorder

/-! Where a pass stops. A visible heading without a valid level is the only thing that stops it
(`run_violation`), and what was placed by then does not depend on that heading or on anything after
it: with other levels for the malformed headings the pass places the same nodes into the same
containers up to there, and goes on (`run_relevelled`). -/

namespace Outline.Containment

variable {transparent : List Kind} {root : Node} {scopes : List Scope}
  {v : Visit Entry} {vs : List (Visit Entry)}

def isMalformed (transparent : List Kind) (root : Node) (v : Visit Entry) : Bool :=
  isVisible transparent root v && v.node.label.kind == Kind.heading &&
    (validDepth? v.node.label.depth).isNone

theorem validDepth?_eq_some_iff {x : Value} {d : Int} :
    validDepth? x = some d ↔ x = .int d ∧ 1 ≤ d := by
  cases x with
  | int n =>
    change (if 1 ≤ n then some n else none) = some d ↔ _
    split_ifs with h
    · simp only [Option.some.injEq, Value.int.injEq]
      constructor
      · rintro rfl; exact ⟨rfl, h⟩
      · exact And.left
    · simp only [Value.int.injEq, false_iff, not_and]
      rintro rfl
      exact h
  | _ => simp [validDepth?]

theorem isMalformed_iff :
    isMalformed transparent root v = true ↔
      Node.is v.node root = false ∧ isTransparent transparent v.node = false ∧
        v.node.label.kind = Kind.heading ∧ ∀ d, v.node.label.depth = .int d → d < 1 := by
  have hd : validDepth? v.node.label.depth = none ↔
      ∀ d, v.node.label.depth = .int d → d < 1 := by
    rw [Option.eq_none_iff_forall_ne_some]
    refine forall_congr' fun d => ?_
    rw [ne_eq, validDepth?_eq_some_iff, not_and, Int.not_le]
  simp only [isMalformed, isVisible, Bool.and_eq_true, Bool.not_eq_true', Bool.or_eq_false_iff,
    beq_iff_eq, Option.isNone_iff_eq_none, hd, and_assoc]

theorem step_of_malformed (h : isMalformed transparent root v) :
    step transparent root scopes v = .error (.badDepth v.node) := by
  simp only [isMalformed, isVisible, Bool.and_eq_true, Bool.not_eq_true', beq_iff_eq,
    Option.isNone_iff_eq_none] at h
  obtain ⟨⟨hv, hk⟩, hd⟩ := h
  have hr : roleOf v.node = .ok .heading := by unfold roleOf; rw [hk]; rfl
  have hb : isBreak v.node = false := by unfold isBreak; rw [hk]; rfl
  have hc : isContainer v.node.label.kind = true := by rw [hk]; rfl
  have ho : openScope v scopes = .error (.badDepth v.node) := by
    unfold openScope depthOf
    rw [hr, hd]
    rfl
  unfold step
  rw [hv, hb, hc, ho]
  rfl

theorem openScope_ok_of_wellFormed (scopes : List Scope) (hv : isVisible transparent root v)
    (h : isMalformed transparent root v = false) (hc : isContainer v.node.label.kind) :
    ∃ r, openScope v scopes = .ok r := by
  obtain ⟨r, hr⟩ := Option.isSome_iff_exists.1 hc
  unfold openScope roleOf
  rw [hr]
  cases r with
  | heading =>
    have hk := Role.ofKind?_eq_some_iff.1 hr
    rcases hd : validDepth? v.node.label.depth with _ | d
    · rw [isMalformed, hv, hk, hd] at h; cases h
    · unfold depthOf; rw [hd]; exact ⟨_, rfl⟩
  | listItem => exact ⟨_, rfl⟩
  | root => exact ⟨_, rfl⟩
  | blockquote => exact ⟨_, rfl⟩

theorem step_of_wellFormed (scopes : List Scope) (h : isMalformed transparent root v = false) :
    ∃ r, step transparent root scopes v = .ok r := by
  unfold step
  split_ifs with hh hb hc
  · exact ⟨_, rfl⟩
  · exact ⟨_, rfl⟩
  · have hv : isVisible transparent root v = true := by simpa [isVisible] using hh
    obtain ⟨⟨s, kept⟩, ho⟩ := openScope_ok_of_wellFormed scopes hv h hc
    rw [ho]
    exact ⟨_, rfl⟩
  · exact ⟨_, rfl⟩

theorem run_violation (transparent : List Kind) (root : Node) (scopes : List Scope)
    (vs : List (Visit Entry)) :
    (run transparent root scopes vs).violation =
      (vs.find? (isMalformed transparent root)).map fun v => .badDepth v.node := by
  induction vs generalizing scopes with
  | nil => rfl
  | cons v vs ih =>
    rw [run, List.find?_cons]
    cases hm : isMalformed transparent root v with
    | true => rw [step_of_malformed hm]; rfl
    | false =>
      obtain ⟨⟨scopes', p?⟩, hs⟩ := step_of_wellFormed scopes hm
      rw [hs]
      exact ih scopes'

def wellFormedPart (transparent : List Kind) (root : Node) (vs : List (Visit Entry)) :
    List (Visit Entry) :=
  vs.takeWhile (!isMalformed transparent root ·)

theorem run_placements (transparent : List Kind) (root : Node) (scopes : List Scope)
    (vs : List (Visit Entry)) :
    (run transparent root scopes vs).placements =
      (run transparent root scopes (wellFormedPart transparent root vs)).placements := by
  unfold wellFormedPart
  induction vs generalizing scopes with
  | nil => rfl
  | cons v vs ih =>
    rw [List.takeWhile_cons]
    cases hm : isMalformed transparent root v with
    | true =>
      rw [Bool.not_true, if_neg Bool.false_ne_true]
      unfold run
      rw [step_of_malformed hm]
    | false =>
      obtain ⟨⟨scopes', p?⟩, hs⟩ := step_of_wellFormed scopes hm
      rw [Bool.not_false, if_pos rfl, run, run, hs]
      dsimp only
      rw [ih]

def relevelled (level : Entry → Value) (n : Node) : Node :=
  n.map fun e => { e with depth := level e }

/-- Every heading with a valid level keeps it, and every other heading gets a valid one. -/
structure Repairs (level : Entry → Value) : Prop where
  keeps : ∀ (e : Entry) (d : Int), e.kind = Kind.heading → e.depth = .int d → 1 ≤ d →
    level e = e.depth
  fixes : ∀ e : Entry, e.kind = Kind.heading → ∃ d : Int, level e = .int d ∧ 1 ≤ d

section Relevelled

variable (level : Entry → Value)

def Scope.relevelled (s : Scope) : Scope := { s with node := Containment.relevelled level s.node }

def Placement.relevelled (p : Placement) : Placement :=
  ⟨Containment.relevelled level p.container, Containment.relevelled level p.member⟩

def relevelledVisit (v : Visit Entry) : Visit Entry :=
  v.map fun e => { e with depth := level e }

@[simp] theorem id_relevelled (n : Node) : (relevelled level n).label.id = n.label.id := by
  rw [relevelled, Tree.label_map]

@[simp] theorem kind_relevelled (n : Node) : (relevelled level n).label.kind = n.label.kind := by
  rw [relevelled, Tree.label_map]

@[simp] theorem depth_relevelled (n : Node) :
    (relevelled level n).label.depth = level n.label := by
  rw [relevelled, Tree.label_map]

@[simp] theorem is_relevelled (a b : Node) :
    Node.is (relevelled level a) (relevelled level b) = Node.is a b := by
  simp [Node.is]

theorem visits_relevelled (n : Node) :
    (relevelled level n).visits = n.visits.map (relevelledVisit level) :=
  Tree.visits_map _ n

theorem isVisible_relevelled (transparent : List Kind) (root : Node) (v : Visit Entry) :
    isVisible transparent (relevelled level root) (relevelledVisit level v) =
      isVisible transparent root v := by
  change (!(Node.is (relevelled level v.node) (relevelled level root) ||
    isTransparent transparent (relevelled level v.node))) = _
  rw [is_relevelled, isTransparent, kind_relevelled]
  rfl

theorem encloses_relevelled (n : Node) (p : Option Node) :
    encloses (relevelled level n) (p.map (relevelled level)) = encloses n p := by
  cases p with
  | none => rfl
  | some p =>
    rw [Option.map_some, encloses, encloses, kind_relevelled]
    rw [relevelled, Tree.children_map, List.any_map]
    congr 2
    funext c
    change ((relevelled level c).label.kind == Kind.list &&
      Node.is (relevelled level c) (relevelled level p)) = _
    rw [kind_relevelled, is_relevelled]

theorem innermost_relevelled (scopes : List Scope) :
    innermost (relevelled level root) (scopes.map (Scope.relevelled level)) =
      relevelled level (innermost root scopes) :=
  innermost_map (relevelled level) root scopes

theorem closeForHeading_relevelled (d : Int) (scopes : List Scope) :
    closeForHeading d (scopes.map (Scope.relevelled level)) =
      (closeForHeading d scopes).map (Scope.relevelled level) :=
  closeForHeading_map (relevelled level) d scopes

theorem closeForItem_relevelled (p : Option Node) (scopes : List Scope) :
    closeForItem (p.map (relevelled level)) (scopes.map (Scope.relevelled level)) =
      (closeForItem p scopes).map (Scope.relevelled level) := by
  cases scopes with
  | nil => rfl
  | cons s rest =>
    have he : encloses (Scope.relevelled level s).node (p.map (relevelled level)) =
        encloses s.node p := encloses_relevelled level s.node p
    rw [List.map_cons, closeForItem, closeForItem, he]
    have hr : (Scope.relevelled level s).role = s.role := rfl
    rw [hr]
    split_ifs <;> rfl

end Relevelled

variable {level : Entry → Value}

theorem Repairs.not_malformed (hl : Repairs level) (transparent : List Kind) (root : Node)
    (v : Visit Entry) :
    isMalformed transparent (relevelled level root) (relevelledVisit level v) = false := by
  rw [Bool.eq_false_iff, ne_eq, isMalformed_iff]
  rintro ⟨-, -, hk, hd⟩
  change (relevelled level v.node).label.kind = _ at hk
  rw [kind_relevelled] at hk
  obtain ⟨d, he, hpos⟩ := hl.fixes v.node.label hk
  have := hd d ((depth_relevelled level v.node).trans he)
  omega

theorem Repairs.validDepth? (hl : Repairs level) {n : Node} {d : Int}
    (hk : n.label.kind = Kind.heading) (hd : validDepth? n.label.depth = some d) :
    Containment.validDepth? (relevelled level n).label.depth = some d := by
  obtain ⟨he, hpos⟩ := validDepth?_eq_some_iff.1 hd
  rw [depth_relevelled, hl.keeps n.label d hk he hpos, hd]

theorem openScope_relevelled (hl : Repairs level) {r : Scope × List Scope}
    (h : openScope v scopes = .ok r) :
    openScope (relevelledVisit level v) (scopes.map (Scope.relevelled level)) =
      .ok (r.1.relevelled level, r.2.map (Scope.relevelled level)) := by
  unfold openScope roleOf at h ⊢
  have hk : (relevelledVisit level v).node.label.kind = v.node.label.kind :=
    kind_relevelled level v.node
  rw [hk]
  rcases hr : Role.ofKind? v.node.label.kind with _ | role
  · rw [hr] at h; cases h
  · rw [hr] at h
    cases role with
    | heading =>
      unfold depthOf at h ⊢
      rcases hd : validDepth? v.node.label.depth with _ | d
      · rw [hd] at h; cases h
      · have hd' : validDepth? (relevelledVisit level v).node.label.depth = some d :=
          hl.validDepth? (Role.ofKind?_eq_some_iff.1 hr) hd
        rw [hd] at h
        rw [hd']
        cases h
        exact congrArg (fun kept => Except.ok (Scope.relevelled level ⟨v.node, .heading, d⟩, kept))
          (closeForHeading_relevelled level d scopes)
    | listItem =>
      cases h
      exact congrArg (fun kept => Except.ok (Scope.relevelled level ⟨v.node, .listItem, 0⟩, kept))
        (closeForItem_relevelled level v.parent scopes)
    | root => cases h; rfl
    | blockquote => cases h; rfl

theorem step_relevelled (hl : Repairs level) {r : List Scope × Option Placement}
    (h : step transparent root scopes v = .ok r) :
    step transparent (relevelled level root) (scopes.map (Scope.relevelled level))
        (relevelledVisit level v) =
      .ok (r.1.map (Scope.relevelled level), r.2.map (Placement.relevelled level)) := by
  have hh : (Node.is (relevelledVisit level v).node (relevelled level root) ||
      isTransparent transparent (relevelledVisit level v).node) =
      (Node.is v.node root || isTransparent transparent v.node) := by
    exact Bool.not_inj (isVisible_relevelled level transparent root v)
  have hk : (relevelledVisit level v).node.label.kind = v.node.label.kind :=
    kind_relevelled level v.node
  have hb : isBreak (relevelledVisit level v).node = isBreak v.node := by
    unfold isBreak; rw [hk]
  unfold step at h ⊢
  rw [hh, hb, hk]
  split_ifs at h ⊢ with h1 h2 h3
  · cases h; rfl
  · cases h; rfl
  · rcases ho : openScope v scopes with e | ⟨s, kept⟩
    · rw [ho] at h; cases h
    · rw [ho] at h
      rw [openScope_relevelled hl ho]
      cases h
      dsimp only
      rw [innermost_relevelled]
      rfl
  · cases h
    rw [innermost_relevelled]
    rfl

/-- Up to the first malformed heading other levels for the malformed headings change nothing. -/
theorem run_relevelled (hl : Repairs level) (scopes : List Scope)
    (h : ∀ v ∈ vs, isMalformed transparent root v = false) :
    (run transparent (relevelled level root) (scopes.map (Scope.relevelled level))
        (vs.map (relevelledVisit level))).placements =
      (run transparent root scopes vs).placements.map (Placement.relevelled level) := by
  induction vs generalizing scopes with
  | nil => rfl
  | cons v vs ih =>
    obtain ⟨⟨scopes', p?⟩, hs⟩ := step_of_wellFormed scopes (h v List.mem_cons_self)
    rw [List.map_cons, run, run, hs, step_relevelled hl hs]
    dsimp only
    rw [ih scopes' fun w hw => h w (List.mem_cons_of_mem _ hw), List.map_append]
    congr 1
    cases p? <;> rfl

theorem wellFormedPart_wellFormed (transparent : List Kind) (root : Node)
    (vs : List (Visit Entry)) :
    ∀ v ∈ wellFormedPart transparent root vs, isMalformed transparent root v = false := by
  intro v hv
  simpa using List.all_eq_true.1 List.all_takeWhile v hv

/-- What a pass places is a chain of visits without a violation, up to the first malformed
heading. -/
theorem runs_wellFormedPart (transparent : List Kind) (root : Node) (scopes : List Scope)
    (vs : List (Visit Entry)) :
    Runs transparent root scopes (wellFormedPart transparent root vs)
      (run transparent root scopes vs).placements := by
  have hv : (run transparent root scopes
      (wellFormedPart transparent root vs)).violation = none := by
    rw [run_violation, List.find?_eq_none.2]
    · rfl
    · intro v hv
      rw [wellFormedPart_wellFormed transparent root vs v hv]
      exact Bool.false_ne_true
  rw [run_placements]
  exact runs_of_run hv

/-- A pass places one node for each visit to place before the first malformed heading. -/
theorem length_run_placements (transparent : List Kind) (root : Node) (scopes : List Scope)
    (vs : List (Visit Entry)) :
    (run transparent root scopes vs).placements.length =
      (placed transparent root (wellFormedPart transparent root vs)).length := by
  rw [← (runs_wellFormedPart transparent root scopes vs).members_eq, List.length_map]

theorem placed_of_mem_placements {p : Placement} (hp : p ∈ (resolve transparent root).placements) :
    (p.container = root ∨ p.container ∈ placed transparent root root.visits) ∧
      p.member ∈ placed transparent root root.visits := by
  have hr := runs_wellFormedPart transparent root [] root.walk
  rw [Tree.walk_eq_visits] at hr
  unfold resolve at hp
  rw [Tree.walk_eq_visits] at hp
  have hmember : ∀ q ∈ (run transparent root [] root.visits).placements,
      q.member ∈ placed transparent root root.visits := by
    intro q hq
    have hq' := List.mem_map_of_mem (f := (·.member)) hq
    rw [hr.members_eq] at hq'
    obtain ⟨v, hv, hplaced, he⟩ := mem_placed.1 hq'
    exact mem_placed.2 ⟨v, List.takeWhile_subset _ hv, hplaced, he⟩
  refine ⟨?_, hmember p hp⟩
  obtain ⟨before, after, hsplit⟩ := List.append_of_mem hp
  rcases hr.founded hsplit with h | ⟨s, hs, -⟩ | ⟨-, hm⟩
  · exact .inl h
  · cases hs
  · obtain ⟨q, hq, he⟩ := List.mem_map.1 hm
    rw [← he]
    exact .inr (hmember q (by rw [hsplit]; exact List.mem_append_left _ hq))

theorem nodes_of_mem_placements {p : Placement} (hp : p ∈ (resolve transparent root).placements) :
    p.container ∈ root.nodes ∧ p.member ∈ root.nodes := by
  obtain ⟨hc, hm⟩ := placed_of_mem_placements hp
  refine ⟨?_, placed_subset_nodes transparent root hm⟩
  rcases hc with h | h
  · exact h ▸ Node.self_mem_nodes root
  · exact placed_subset_nodes transparent root h

/-- A pass stops exactly at the first visible heading without a valid level, and for no other
reason. What it placed by then is what it places up to there in the same tree with valid levels for
all malformed headings. -/
theorem resolve_fails_fast (transparent : List Kind) (root : Node) {level : Entry → Value}
    (hl : Repairs level) :
    ((resolve transparent root).violation.isSome ↔ ∃ v ∈ root.visits,
      Node.is v.node root = false ∧ isTransparent transparent v.node = false ∧
        v.node.label.kind = Kind.heading ∧ ∀ d, v.node.label.depth = .int d → d < 1) ∧
    (resolve transparent root).violation =
      (root.visits.find? (isMalformed transparent root)).map (fun v => .badDepth v.node) ∧
    (∀ k, (resolve transparent root).violation ≠ some (.noRole k)) ∧
    (resolve transparent (relevelled level root)).violation = none ∧
    (resolve transparent root).placements.map (Placement.relevelled level) =
      (resolve transparent (relevelled level root)).placements.take
        (placed transparent root (wellFormedPart transparent root root.visits)).length := by
  unfold resolve
  rw [Tree.walk_eq_visits, Tree.walk_eq_visits, visits_relevelled]
  have hv := run_violation transparent root [] root.visits
  refine ⟨?_, hv, ?_, ?_, ?_⟩
  · rw [hv, Option.isSome_map, List.find?_isSome]
    simp only [isMalformed_iff]
  · intro k hk
    rw [hv] at hk
    obtain ⟨v, -, he⟩ := Option.map_eq_some_iff.1 hk
    cases he
  · rw [run_violation, List.find?_eq_none.2]
    · rfl
    · intro w hw
      obtain ⟨v, -, rfl⟩ := List.mem_map.1 hw
      rw [hl.not_malformed]
      exact Bool.false_ne_true
  · rw [← length_run_placements transparent root [], run_placements]
    -- the pass over the repaired tree, cut where the other pass stops
    have hcut : root.visits.map (relevelledVisit level) =
        (wellFormedPart transparent root root.visits).map (relevelledVisit level) ++
          (root.visits.dropWhile (!isMalformed transparent root ·)).map
            (relevelledVisit level) := by
      rw [← List.map_append, wellFormedPart, List.takeWhile_append_dropWhile]
    have hrun := run_relevelled hl [] (wellFormedPart_wellFormed transparent root root.visits)
    rw [hcut, ← List.length_map (Placement.relevelled level), ← hrun]
    exact List.prefix_iff_eq_take.1 (placements_isPrefix _ _ _ _ _)

def levelOne (e : Entry) : Value := if (validDepth? e.depth).isSome then e.depth else .int 1

theorem repairs_levelOne : Repairs levelOne where
  keeps e d _ hd hpos := by
    have : validDepth? e.depth = some d := validDepth?_eq_some_iff.2 ⟨hd, hpos⟩
    rw [levelOne, this]
    rfl
  fixes e _ := by
    unfold levelOne
    rcases h : validDepth? e.depth with _ | d
    · exact ⟨1, rfl, Int.le_refl 1⟩
    · exact ⟨d, validDepth?_eq_some_iff.1 h⟩

/-- Two headings without a valid level: one is a text, the other a truth value. -/
def unlevelled : Node :=
  .node { id := 0, kind := Kind.root } [
    .node { id := 1, kind := Kind.heading, depth := .int 2 } [],
    .node { id := 2, kind := Kind.paragraph } [],
    .node { id := 3, kind := Kind.heading, depth := .str ['3'] } [],
    .node { id := 4, kind := Kind.paragraph } [],
    .node { id := 5, kind := Kind.heading, depth := .bool true } []]

theorem resolve_fails_fast_sample :
    Repairs levelOne ∧
    (resolve [Kind.root] unlevelled).violation.map (String.ofList ·.message) =
      some "Heading without a valid depth: SyntaxNode('heading') (depth='3')" ∧
    (resolve [Kind.root] unlevelled).placements.map (Placement.relevelled levelOne) =
      (resolve [Kind.root] (relevelled levelOne unlevelled)).placements.take 2 ∧
    (resolve [Kind.root] (relevelled levelOne unlevelled)).placements.map
      (fun p => (p.container.label.id, p.member.label.id)) =
        [(0, 1), (1, 2), (0, 3), (3, 4), (0, 5)] :=
  ⟨repairs_levelOne, rfl,
    (resolve_fails_fast [Kind.root] unlevelled repairs_levelOne).2.2.2.2, rfl⟩

end Outline.Containment
