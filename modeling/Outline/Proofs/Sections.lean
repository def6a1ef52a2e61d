import Mathlib.Data.List.TakeWhile
import Outline.Proofs.Malformed
import Outline.Proofs.Nesting
import Outline.Proofs.Settings

/-! Sections of a document. What a visit does depends on the root and on the parent through their
labels alone (`step_alike`), so that the same subtrees are placed alike under roots that differ in
their children. A break and a heading of the first level forget the scopes that were open before
(`step_boundary`). So a document that is cut at one of them among the root's children is placed part
by part (`resolve_sections`). -/

namespace Outline

namespace Containment

def Placement.into (root : Node) (p : Placement) : Placement :=
  if Node.is p.container root then { p with container := root } else p

def Trace.into (root : Node) (t : Trace) : Trace :=
  ⟨t.placements.map (Placement.into root), t.violation⟩

/-- One trace and then another, which is not begun after a violation. -/
def Trace.andThen (t u : Trace) : Trace :=
  match t.violation with
  | some e => ⟨t.placements, some e⟩
  | none => ⟨t.placements ++ u.placements, u.violation⟩

structure Alike (v w : Visit Entry) : Prop where
  node : w.node = v.node
  parent : w.parent.map Tree.label = v.parent.map Tree.label

/-- A scope other than a root, with a level that counts from one if it is a heading's. -/
structure Scope.Inner (root : Node) (s : Scope) : Prop where
  other : Node.is s.node root = false
  role : s.role ≠ .root
  depth : s.role = .heading → 1 ≤ s.depth

def IsBoundary (n : Node) : Prop :=
  n.label.kind = Kind.thematicBreak ∨ (n.label.kind = Kind.heading ∧ n.label.depth = .int 1)

variable {transparent : List Kind} {root root' n x : Node} {scopes scopes' : List Scope}
  {v w : Visit Entry} {vs ws : List (Visit Entry)} {p? : Option Placement}

theorem Trace.into_andThen (root : Node) (t u : Trace) :
    (t.andThen u).into root = (t.into root).andThen (u.into root) := by
  obtain ⟨ps, _ | e⟩ := t
  · exact congrArg (Trace.mk · u.violation) List.map_append
  · rfl

section Alike

theorem encloses_alike (h : Alike v w) (n : Node) : encloses n w.parent = encloses n v.parent := by
  obtain ⟨-, hp⟩ := h
  unfold encloses Node.is
  rcases hv : v.parent with _ | p <;> rcases hw : w.parent with _ | q <;> rw [hv, hw] at hp
  · cases hp
  · cases hp
  · have hlabel : q.label = p.label := Option.some.inj hp
    simp only [hlabel]

theorem openScope_alike (h : Alike v w) (scopes : List Scope) :
    openScope w scopes = openScope v scopes := by
  have hitem : closeForItem w.parent scopes = closeForItem v.parent scopes := by
    cases scopes with
    | nil => rfl
    | cons s rest => rw [closeForItem, closeForItem, encloses_alike h]
  unfold openScope
  rw [h.node, hitem]

theorem innermost_into (hl : root'.label = root.label) (h : ∀ s ∈ scopes, s.Inner root) (n : Node) :
    Placement.into root' ⟨innermost root scopes, n⟩ = ⟨innermost root' scopes, n⟩ := by
  have hid : ∀ m : Node, Node.is m root' = Node.is m root := by
    intro m
    unfold Node.is
    rw [hl]
  unfold Placement.into
  rw [hid]
  cases scopes with
  | nil => exact if_pos (Node.is_self root)
  | cons s rest => exact if_neg (by simp [innermost, (h s List.mem_cons_self).other])

/-- The same visit does the same under a root with other children. -/
theorem step_alike (hl : root'.label = root.label) (hv : Alike v w)
    (h : ∀ s ∈ scopes, s.Inner root) :
    step transparent root' scopes w =
      (step transparent root scopes v).map fun r => (r.1, r.2.map (Placement.into root')) := by
  have hid : Node.is w.node root' = Node.is v.node root := by
    unfold Node.is
    rw [hl, hv.node]
  unfold step
  rw [hid, hv.node, openScope_alike hv]
  split_ifs with hh hb hc
  · rfl
  · rfl
  · rcases ho : openScope v scopes with e | ⟨s, kept⟩
    · rfl
    · have hkept : ∀ k ∈ kept, k.Inner root := by
        obtain ⟨-, rfl⟩ := openScope_ok ho
        exact fun k hk => h k ((keptUnder_suffix s v scopes).subset hk)
      dsimp only
      rw [← innermost_into hl hkept]
      rfl
  · rw [← innermost_into hl h]
    rfl

end Alike

theorem Step.inner (hs : Step transparent root v scopes scopes' p?) (hr : Kind.root ∈ transparent)
    (h : ∀ s ∈ scopes, s.Inner root) : ∀ s ∈ scopes', s.Inner root := by
  cases hs with
  | hidden _ => exact h
  | reset _ => exact nofun
  | leaf _ _ => exact h
  | container hp s ho =>
    have hnew : s.Inner root := by
      refine ⟨?_, ?_, ?_⟩
      · rw [ho.node]
        exact not_root_of_placed (mem_placed.2 ⟨v, List.mem_singleton_self v, hp, rfl⟩)
      · intro hrole
        have hk := Role.ofKind?_eq_some_iff.1 ho.role
        rw [hrole] at hk
        exact transparent_of_root hr hp hk
      · intro hrole
        exact (validDepth?_eq_some_iff.1 (ho.depth hrole)).2
    exact List.forall_mem_cons.2
      ⟨hnew, fun k hk => h k ((keptUnder_suffix s v scopes).subset hk)⟩

theorem scopesAfter_inner (hs : scopesAfter transparent root scopes vs = .ok scopes')
    (hr : Kind.root ∈ transparent) (h : ∀ s ∈ scopes, s.Inner root) :
    ∀ s ∈ scopes', s.Inner root := by
  induction vs generalizing scopes with
  | nil => cases hs; exact h
  | cons v vs ih =>
    unfold scopesAfter at hs
    rcases hstep : step transparent root scopes v with e | ⟨scopes₁, p?⟩
    · rw [hstep] at hs; cases hs
    · rw [hstep] at hs
      exact ih hs ((step_ok hstep).inner hr h)

theorem run_alike (hl : root'.label = root.label) (hr : Kind.root ∈ transparent)
    (hv : List.Forall₂ Alike vs ws) (h : ∀ s ∈ scopes, s.Inner root) :
    run transparent root' scopes ws = (run transparent root scopes vs).into root' := by
  induction hv generalizing scopes with
  | nil => rfl
  | @cons v w vs ws hvw _ ih =>
    rw [run, run, step_alike hl hvw h]
    rcases hstep : step transparent root scopes v with e | ⟨scopes', p?⟩
    · rfl
    · change (⟨(p?.map _).toList ++ (run transparent root' scopes' ws).placements,
        (run transparent root' scopes' ws).violation⟩ : Trace) = _
      rw [ih ((step_ok hstep).inner hr h)]
      cases p? <;> rfl

theorem alike_visitsFrom (hl : root'.label = root.label) (n : Node) :
    List.Forall₂ Alike (Tree.visitsFrom (some root) n) (Tree.visitsFrom (some root') n) := by
  obtain ⟨a, ts⟩ := n
  rw [Tree.visitsFrom_node, Tree.visitsFrom_node]
  exact .cons ⟨rfl, congrArg some hl⟩ (List.forall₂_same.2 fun _ _ => ⟨rfl, rfl⟩)

theorem alike_flatMap (hl : root'.label = root.label) (ts : List Node) :
    List.Forall₂ Alike (ts.flatMap (Tree.visitsFrom (some root)))
      (ts.flatMap (Tree.visitsFrom (some root'))) := by
  induction ts with
  | nil => exact .nil
  | cons t ts ih =>
    rw [List.flatMap_cons, List.flatMap_cons]
    exact List.rel_append (alike_visitsFrom hl t) ih

theorem resolve_node (transparent : List Kind) (a : Entry) (ts : List Node) :
    resolve transparent (.node a ts) = run transparent (.node a ts) []
      (ts.flatMap (Tree.visitsFrom (some (.node a ts)))) := by
  unfold resolve
  rw [Tree.walk_eq_visits, Tree.visits, Tree.visitsFrom_node, run, step, Node.is_self]
  rfl

theorem closeForHeading_one (h : ∀ s ∈ scopes, s.Inner root) : closeForHeading 1 scopes = [] := by
  unfold closeForHeading
  rw [List.dropWhile_eq_nil_iff]
  intro s hs
  obtain ⟨-, hrole, hdepth⟩ := h s hs
  simpa [Scope.outlasts, hrole, ← imp_iff_not_or] using hdepth

theorem step_of_break (hb : isBreak v.node) (hv : isVisible transparent root v)
    (scopes : List Scope) : step transparent root scopes v = .ok ([], none) := by
  have hhidden : (Node.is v.node root || isTransparent transparent v.node) = false := by
    simpa [isVisible] using hv
  unfold step
  rw [hhidden, hb]
  rfl

/-- A visible boundary does the same whatever is open. -/
theorem step_boundary (hx : IsBoundary v.node) (hv : isVisible transparent root v)
    (h : ∀ s ∈ scopes, s.Inner root) :
    step transparent root scopes v = step transparent root [] v := by
  rcases hx with hk | ⟨hk, hd⟩
  · have hb : isBreak v.node := beq_iff_eq.2 hk
    rw [step_of_break hb hv, step_of_break hb hv]
  · have hopen : openScope v scopes = openScope v [] := by
      unfold openScope roleOf depthOf
      rw [hk, hd]
      change Except.ok (_, closeForHeading 1 scopes) = Except.ok (_, [])
      rw [closeForHeading_one h]
    have hhidden : (Node.is v.node root || isTransparent transparent v.node) = false := by
      simpa [isVisible] using hv
    have hb : isBreak v.node = false := by unfold isBreak; rw [hk]; rfl
    have hc : isContainer v.node.label.kind = true := by rw [hk]; rfl
    unfold step
    rw [hhidden, hb, hc, hopen]
    rfl

theorem run_boundary (hx : IsBoundary v.node) (hv : isVisible transparent root v)
    (h : ∀ s ∈ scopes, s.Inner root) (ws : List (Visit Entry)) :
    run transparent root scopes (v :: ws) = run transparent root [] (v :: ws) := by
  rw [run, run, step_boundary hx hv h]

/-- A pass that comes to a boundary goes on as if it began there. -/
theorem run_append_boundary (hr : Kind.root ∈ transparent) (hx : IsBoundary v.node)
    (hv : isVisible transparent root v) (vs ws : List (Visit Entry)) :
    run transparent root [] (vs ++ v :: ws) =
      (run transparent root [] vs).andThen (run transparent root [] (v :: ws)) := by
  have hcut := run_append transparent root [] vs []
  rw [List.append_nil] at hcut
  rw [run_append, Trace.andThen]
  rcases hs : scopesAfter transparent root [] vs with e | scopes'
  · rw [hs] at hcut
    rw [hcut]
  · rw [hs] at hcut
    have hviolation : (run transparent root [] vs).violation = none := by rw [hcut]; rfl
    rw [hviolation]
    dsimp only
    rw [run_boundary hx hv (scopesAfter_inner hs hr nofun)]

/-- Cut at a boundary among the root's children, a document is resolved part by part: first what is
before, and unless that ends with a violation, the boundary and what is after it, as if nothing had
been before. A break without children leaves no trace of its own. -/
theorem resolve_sections {settings : Settings} (hs : settings.check = .ok ())
    (hr : Kind.root ∈ settings.transparent) (a : Entry) (before after : List Node) {x : Node}
    (hx : IsBoundary x) (hid : x.label.id ≠ a.id) :
    let resolve := resolve settings.transparent
    resolve (.node a (before ++ x :: after)) =
        ((resolve (.node a before)).andThen (resolve (.node a (x :: after)))).into
          (.node a (before ++ x :: after)) ∧
      (isBreak x → x.children = [] →
        resolve (.node a (x :: after)) =
          (resolve (.node a after)).into (.node a (x :: after))) := by
  have hvisible : ∀ (ts : List Node) (p : Option Node),
      isVisible settings.transparent (.node a ts) ⟨x, p⟩ = true := by
    intro ts p
    have hroot : Node.is x (.node a ts) = false := beq_eq_false_iff_ne.2 hid
    have hkind : x.label.kind ∈ Kind.thematicBreak :: Settings.shadowable := by
      rcases hx with hk | ⟨hk, -⟩ <;> rw [hk] <;> decide
    have hshown : isTransparent settings.transparent x = false := by
      simpa [isTransparent] using Settings.visible_of_check hs hkind
    simp [isVisible, hroot, hshown]
  have hlabel : ∀ ts us : List Node,
      Tree.label (.node a ts : Node) = Tree.label (.node a us : Node) := fun _ _ => rfl
  have hvisits : ∀ p : Option Node, ∃ below, Tree.visitsFrom p x = ⟨x, p⟩ :: below := by
    obtain ⟨b, ts⟩ := x
    exact fun p => ⟨_, Tree.visitsFrom_node p b ts⟩
  have halike : ∀ ts us : List Node,
      run settings.transparent (.node a us) [] (ts.flatMap (Tree.visitsFrom (some (.node a us)))) =
        (resolve settings.transparent (.node a ts)).into (.node a us) := by
    intro ts us
    rw [resolve_node]
    exact run_alike (hlabel us ts) hr (alike_flatMap (hlabel us ts) ts) (by simp)
  dsimp only
  constructor
  · let whole : Node := .node a (before ++ x :: after)
    obtain ⟨below, hbelow⟩ := hvisits (some whole)
    rw [Trace.into_andThen, ← halike before, ← halike (x :: after), resolve_node]
    rw [List.flatMap_append, List.flatMap_cons, hbelow, List.cons_append]
    exact run_append_boundary hr hx (hvisible _ _) _ _
  · intro hb hleaf
    let rest : Node := .node a (x :: after)
    have hx : Tree.visitsFrom (some rest) x = [⟨x, some rest⟩] := by
      obtain ⟨b, ts⟩ := x
      cases hleaf
      rfl
    rw [← halike after, resolve_node, List.flatMap_cons, hx, List.singleton_append, run,
      step_of_break hb (hvisible _ _)]
    rfl

/-- In the sample, after its last break: what is before it is placed as if nothing followed, and
what follows is placed as if nothing were before. -/
theorem resolve_sections_sample :
    let sections : List Node → Node := .node { id := 0, kind := Kind.root }
    let rule : Node := .node { id := 16, kind := Kind.thematicBreak } []
    let after : List Node := [.node { id := 17, kind := Kind.paragraph } [],
      .node { id := 18, kind := Kind.heading, depth := .bool true } []]
    let resolve := resolve Kind.defaultTransparent
    resolve (sections (Node.sample.children ++ rule :: after)) =
        ((resolve Node.sample).andThen (resolve (sections (rule :: after)))).into
          (sections (Node.sample.children ++ rule :: after)) ∧
      resolve (sections (rule :: after)) =
        (resolve (sections after)).into (sections (rule :: after)) ∧
      (resolve Node.sample).violation.isNone ∧
      (resolve (sections after)).placements.map
        (fun p => (p.container.label.id, p.member.label.id)) = [(0, 17)] ∧
      (resolve (sections after)).violation.isSome := by
  intro sections rule after resolve
  have hs : Settings.check {} = .ok () := rfl
  have h := resolve_sections hs (by decide) { id := 0, kind := Kind.root } Node.sample.children
    after (x := rule) (.inl rfl) (by decide)
  exact ⟨h.1, h.2 rfl rfl, rfl, rfl, rfl⟩

end Containment
end Outline
