import Outline.Proofs.Preorder
import Outline.Proofs.Step
import Outline.Settings

/-! Formatting and placement. A transparent node that is put around some children of a node is one
more visit, at which the pass does nothing; the other nodes are visited in the same order
(`Widened`). What a visit does depends on other nodes through the labels and, for an item, through
its parent and the lists that the innermost item has as children (`encloses_congr`). So unless lists
or items are put inside, or the new node is a list itself, every visit does the same in both passes
(`step_counterpart`), and the passes end with the same trace (`run_widened`). -/

namespace Outline

namespace Node

mutual

def setChildren (p : Node) (cs : List Node) : Node → Node
  | .node a ts => .node a (if a.id = p.label.id then cs else setChildrenAll p cs ts)

def setChildrenAll (p : Node) (cs : List Node) : List Node → List Node
  | [] => []
  | t :: ts => setChildren p cs t :: setChildrenAll p cs ts

end

variable {root n m p c : Node} {cs : List Node}

theorem setChildrenAll_eq (p : Node) (cs ts : List Node) :
    setChildrenAll p cs ts = ts.map (setChildren p cs) := by
  induction ts with
  | nil => rfl
  | cons t ts ih => rw [setChildrenAll, ih, List.map_cons]

theorem setChildren_node (p : Node) (cs : List Node) (a : Entry) (ts : List Node) :
    setChildren p cs (.node a ts) =
      .node a (if a.id = p.label.id then cs else ts.map (setChildren p cs)) := by
  rw [setChildren, setChildrenAll_eq]

@[simp] theorem label_setChildren (p : Node) (cs : List Node) (n : Node) :
    (setChildren p cs n).label = n.label := by
  obtain ⟨a, ts⟩ := n
  rw [setChildren_node]
  rfl

theorem setChildren_self (p : Node) (cs : List Node) : setChildren p cs p = .node p.label cs := by
  obtain ⟨a, ts⟩ := p
  rw [setChildren_node]
  exact congrArg (Tree.node a) (if_pos rfl)

theorem setChildren_eq_self (h : ∀ m ∈ n.nodes, m.label.id ≠ p.label.id) :
    setChildren p cs n = n := by
  induction n using Tree.induct with
  | h a ts ih =>
    rw [nodes_node] at h
    obtain ⟨hself, hbelow⟩ := List.forall_mem_cons.1 h
    have hne : a.id ≠ p.label.id := hself
    rw [setChildren_node, if_neg hne]
    congr 1
    refine (List.map_congr_left fun t ht => ?_).trans (List.map_id ts)
    exact ih t ht fun m hm => hbelow m (List.mem_flatMap.2 ⟨t, ht, hm⟩)

end Node

namespace Containment

section Map

variable (f : Node → Node)

def Placement.map (p : Placement) : Placement := ⟨f p.container, f p.member⟩

def Violation.map : Violation → Violation
  | noRole k => noRole k
  | badDepth n => badDepth (f n)

def Trace.map (t : Trace) : Trace :=
  ⟨t.placements.map (Placement.map f), t.violation.map (Violation.map f)⟩

end Map

/-- What a trace says of the nodes themselves, without what is below them: who was placed into whom,
and the message that ended the pass. -/
def Trace.report (t : Trace) : List (Entry × Entry) × Option Text :=
  (t.placements.map fun p => (p.container.label, p.member.label),
    t.violation.map Violation.message)

def ownLists (n : Node) : List Nat :=
  (n.children.filter (·.label.kind == Kind.list)).map (·.label.id)

/-- A visit in a changed tree that does what a visit in the tree does: of the same node, below the
same one if that matters. -/
structure Counterpart (f : Node → Node) (v w : Visit Entry) : Prop where
  node : w.node = f v.node
  lists : ownLists (f v.node) = ownLists v.node
  parent : v.node.label.kind = Kind.listItem →
    w.parent.map Tree.label = v.parent.map Tree.label

/-- The visits of a changed tree: those of the tree, and more at which nothing happens. -/
inductive Widened (transparent : List Kind) (f : Node → Node) :
    List (Visit Entry) → List (Visit Entry) → Prop
  | nil : Widened transparent f [] []
  | extra {vs ws : List (Visit Entry)} (w : Visit Entry) (hw : w.node.label.kind ∈ transparent)
      (h : Widened transparent f vs ws) : Widened transparent f vs (w :: ws)
  | visit {vs ws : List (Visit Entry)} (v w : Visit Entry) (hw : Counterpart f v w)
      (h : Widened transparent f vs ws) : Widened transparent f (v :: vs) (w :: ws)

variable {transparent : List Kind} {f : Node → Node} {root p : Node} {scopes : List Scope}
  {v w : Visit Entry} {vs ws vs' ws' : List (Visit Entry)}

theorem encloses_eq (n : Node) (q : Option Node) : encloses n q = (q.map Tree.label).any fun b =>
    b.kind == Kind.list && (ownLists n).contains b.id := by
  rcases q with _ | q
  · rfl
  · rw [encloses, Option.map_some, Option.any_some, ownLists, List.contains_eq_any_beq,
      List.any_map, List.any_filter]
    congr 2
    funext c
    exact congrArg (c.label.kind == Kind.list && ·) BEq.comm

/-- Of the candidate only its own lists count, and of the parent of the item only its label. -/
theorem encloses_congr {n n' : Node} {q q' : Option Node} (hn : ownLists n' = ownLists n)
    (hq : q'.map Tree.label = q.map Tree.label) : encloses n' q' = encloses n q := by
  rw [encloses_eq, encloses_eq, hn, hq]

section Pass

theorem closeForItem_map {q q' : Option Node}
    (h : ∀ s ∈ scopes, ownLists (f s.node) = ownLists s.node)
    (hq : q'.map Tree.label = q.map Tree.label) :
    closeForItem q' (scopes.map (Scope.map f)) = (closeForItem q scopes).map (Scope.map f) := by
  cases scopes with
  | nil => rfl
  | cons s rest =>
    have he : encloses (Scope.map f s).node q' = encloses s.node q :=
      encloses_congr (h s List.mem_cons_self) hq
    have hr : (Scope.map f s).role = s.role := rfl
    rw [List.map_cons, closeForItem, closeForItem, he, hr]
    split_ifs <;> rfl

/-- A scope that opens is of the visited node, and the others were open before. -/
theorem Step.keeps {P : Node → Prop} {scopes' : List Scope} {p? : Option Placement}
    (hs : Step transparent root v scopes scopes' p?) (hv : P v.node)
    (h : ∀ s ∈ scopes, P s.node) : ∀ s ∈ scopes', P s.node := by
  cases hs with
  | hidden _ => exact h
  | reset _ => exact nofun
  | leaf _ _ => exact h
  | container hp s ho =>
    refine List.forall_mem_cons.2 ⟨?_, fun k hk => h k ((keptUnder_suffix s v scopes).subset hk)⟩
    rw [ho.node]
    exact hv

variable (hf : ∀ n, (f n).label = n.label)
include hf

theorem openScope_counterpart (hw : Counterpart f v w)
    (h : ∀ s ∈ scopes, ownLists (f s.node) = ownLists s.node) :
    openScope w (scopes.map (Scope.map f)) =
      ((openScope v scopes).map fun r => (r.1.map f, r.2.map (Scope.map f))).mapError
        (Violation.map f) := by
  unfold openScope roleOf depthOf
  rw [hw.node, hf]
  rcases hr : Role.ofKind? v.node.label.kind with _ | role
  · rfl
  · cases role with
    | heading =>
      rcases validDepth? v.node.label.depth with _ | d
      · rfl
      · exact congrArg (fun kept => Except.ok (Scope.map f ⟨v.node, .heading, d⟩, kept))
          (closeForHeading_map f d scopes)
    | listItem =>
      have hitem : v.node.label.kind = Kind.listItem := Role.ofKind?_eq_some_iff.1 hr
      exact congrArg (fun kept => Except.ok (Scope.map f ⟨v.node, .listItem, 0⟩, kept))
        (closeForItem_map h (hw.parent hitem))
    | root => rfl
    | blockquote => rfl

theorem step_counterpart (hw : Counterpart f v w)
    (h : ∀ s ∈ scopes, ownLists (f s.node) = ownLists s.node) :
    step transparent (f root) (scopes.map (Scope.map f)) w =
      ((step transparent root scopes v).map fun r =>
        (r.1.map (Scope.map f), r.2.map (Placement.map f))).mapError (Violation.map f) := by
  have hplace : ∀ kept : List Scope,
      (⟨innermost (f root) (kept.map (Scope.map f)), f v.node⟩ : Placement) =
        Placement.map f ⟨innermost root kept, v.node⟩ := by
    intro kept
    rw [innermost_map]
    rfl
  unfold step Node.is isTransparent isBreak
  rw [openScope_counterpart hf hw h, hw.node, hf, hf]
  split_ifs
  · rfl
  · rfl
  · rcases openScope v scopes with e | ⟨s, kept⟩
    · rfl
    · exact congrArg (fun p => Except.ok (_, some p)) (hplace kept)
  · exact congrArg (fun p => Except.ok (_, some p)) (hplace scopes)

theorem run_widened (hv : Widened transparent f vs ws)
    (h : ∀ s ∈ scopes, ownLists (f s.node) = ownLists s.node) :
    run transparent (f root) (scopes.map (Scope.map f)) ws =
      (run transparent root scopes vs).map f := by
  induction hv generalizing scopes with
  | nil => rfl
  | extra w hw _ ih =>
    have hpass : (Node.is w.node (f root) || isTransparent transparent w.node) = true := by
      simp [isTransparent, hw]
    rw [run, step, if_pos hpass]
    exact ih h
  | visit v w hw _ ih =>
    rw [run, run, step_counterpart hf hw h]
    rcases hs : step transparent root scopes v with e | ⟨scopes', p?⟩
    · rfl
    · change (⟨(p?.map (Placement.map f)).toList ++
        (run transparent (f root) (scopes'.map (Scope.map f)) _).placements,
        (run transparent (f root) (scopes'.map (Scope.map f)) _).violation⟩ : Trace) = _
      rw [ih ((step_ok hs).keeps (P := fun n => ownLists (f n) = ownLists n) hw.lists h)]
      cases p? <;> rfl

end Pass

section Visits

theorem Widened.append (h : Widened transparent f vs ws) (h' : Widened transparent f vs' ws') :
    Widened transparent f (vs ++ vs') (ws ++ ws') := by
  induction h with
  | nil => exact h'
  | extra w hw _ ih => exact .extra w hw ih
  | visit v w hw _ ih => exact .visit v w hw ih

theorem Widened.flatMap {ts : List Node} {g g' : Node → List (Visit Entry)}
    (h : ∀ t ∈ ts, Widened transparent f (g t) (g' t)) :
    Widened transparent f (ts.flatMap g) (ts.flatMap g') := by
  induction ts with
  | nil => exact .nil
  | cons t ts ih =>
    rw [List.flatMap_cons, List.flatMap_cons]
    obtain ⟨ht, hts⟩ := List.forall_mem_cons.1 h
    exact ht.append (ih hts)

variable {w : Entry} {x y z : List Node}

/-- Some children of a node are put below a transparent node that is no list; none of them is a list
or an item. -/
structure Wraps (transparent : List Kind) (p : Node) (x : List Node) (w : Entry)
    (y z : List Node) : Prop where
  children : p.children = x ++ y ++ z
  transparent : w.kind ∈ transparent
  notList : w.kind ≠ Kind.list
  inside : ∀ c ∈ y, c.label.kind ≠ Kind.list ∧ c.label.kind ≠ Kind.listItem

/-- The tree in which they are. -/
def wrapped (p : Node) (x : List Node) (w : Entry) (y z : List Node) : Node → Node :=
  Node.setChildren p (x ++ .node w y :: z)

theorem ownLists_node (a : Entry) (ts : List Node) : ownLists (.node a ts) =
    (ts.filter (·.label.kind == Kind.list)).map (·.label.id) := rfl

namespace Wraps

/-- The visits below the node itself. Some of its children have another parent now, which does not
matter as they are no items. -/
theorem widened_children {a : Entry} {ts : List Node} (h : Wraps transparent (.node a ts) x w y z)
    (hbelow : ∀ t ∈ ts, ∀ q q' : Option Node, (t.label.kind = Kind.listItem →
      q'.map Tree.label = q.map Tree.label) →
        Widened transparent f (Tree.visitsFrom q t) (Tree.visitsFrom q' t)) :
    Widened transparent f (ts.flatMap (Tree.visitsFrom (some (.node a ts))))
      ((x ++ .node w y :: z).flatMap
        (Tree.visitsFrom (some (.node a (x ++ .node w y :: z))))) := by
  have hts : ts = x ++ y ++ z := h.children
  have hparts : ∀ g : Node → List (Visit Entry),
      ts.flatMap g = x.flatMap g ++ (y.flatMap g ++ z.flatMap g) := by
    intro g
    rw [hts, List.flatMap_append, List.flatMap_append, List.append_assoc]
  have hkept : ∀ us ⊆ ts, Widened transparent f
      (us.flatMap (Tree.visitsFrom (some (.node a ts))))
      (us.flatMap (Tree.visitsFrom (some (.node a (x ++ .node w y :: z))))) :=
    fun us hus => Widened.flatMap fun t ht => hbelow t (hus ht) _ _ fun _ => rfl
  have hinside : Widened transparent f (y.flatMap (Tree.visitsFrom (some (.node a ts))))
      (y.flatMap (Tree.visitsFrom (some (.node w y)))) :=
    Widened.flatMap fun t ht => hbelow t (by simp [hts, ht]) _ _
      fun hitem => absurd hitem (h.inside t ht).2
  rw [hparts, List.flatMap_append, List.flatMap_cons, Tree.visitsFrom_node, List.cons_append]
  refine (hkept x ?_).append (.extra _ h.transparent (hinside.append (hkept z ?_)))
  · simp [hts]
  · simp [hts]

variable (h : Wraps transparent p x w y z)
include h

theorem ownLists_wrapped (hi : root.Coherent) (hp : p ∈ root.nodes) {n : Node}
    (hn : n ∈ root.nodes) : ownLists (wrapped p x w y z n) = ownLists n := by
  by_cases hid : n.label.id = p.label.id
  · obtain rfl := hi n hn p hp hid
    have hy : y.filter (·.label.kind == Kind.list) = [] := by
      simpa using fun c hc => (h.inside c hc).1
    have hw : (w.kind == Kind.list) = false := beq_eq_false_iff_ne.2 h.notList
    have hnew : ((x ++ .node w y :: z).filter fun c : Node => c.label.kind == Kind.list) =
        (x ++ y ++ z).filter (·.label.kind == Kind.list) := by
      rw [List.filter_append, List.filter_append, List.filter_append, hy, List.append_nil]
      exact congrArg (_ ++ ·) (List.filter_cons_of_neg (Bool.not_eq_true _ ▸ hw))
    rw [wrapped, Node.setChildren_self, ownLists_node, ownLists, h.children, hnew]
  · obtain ⟨a, ts⟩ := n
    have hid' : ¬ a.id = p.label.id := hid
    rw [wrapped, Node.setChildren_node, if_neg hid', ownLists_node, ownLists_node,
      List.filter_map, List.map_map]
    simp only [Function.comp_def, Node.label_setChildren]

/-- The visits from a node on; its parent matters only if it is an item. -/
theorem widened (hi : root.Coherent) (hp : p ∈ root.nodes) {n : Node} (hn : n ∈ root.nodes)
    (q q' : Option Node)
    (hq : n.label.kind = Kind.listItem → q'.map Tree.label = q.map Tree.label) :
    Widened transparent (wrapped p x w y z) (Tree.visitsFrom q n)
      (Tree.visitsFrom q' (wrapped p x w y z n)) := by
  induction n using Tree.induct generalizing q q' with
  | h a ts ih =>
    have hlists := h.ownLists_wrapped hi hp hn
    have hmem : ∀ t ∈ ts, t ∈ root.nodes := fun t ht => Node.child_mem_nodes hn ht
    by_cases hid : a.id = p.label.id
    · obtain rfl : .node a ts = p := hi _ hn p hp hid
      have hnode : wrapped (.node a ts) x w y z (.node a ts) = .node a (x ++ .node w y :: z) :=
        Node.setChildren_self _ _
      rw [hnode, Tree.visitsFrom_node, Tree.visitsFrom_node]
      refine .visit _ _ ⟨hnode.symm, hlists, hq⟩ (h.widened_children fun t ht r r' hr => ?_)
      -- the node does not stand below itself
      have hsame : wrapped (.node a ts) x w y z t = t :=
        Node.setChildren_eq_self fun m hm => hi.ne_of_below hp ht hm
      have h' := ih t ht (hmem t ht) r r' hr
      rwa [hsame] at h'
    · have hnode : wrapped p x w y z (.node a ts) = .node a (ts.map (wrapped p x w y z)) := by
        rw [wrapped, Node.setChildren_node, if_neg hid]
      rw [hnode, Tree.visitsFrom_node, Tree.visitsFrom_node, List.flatMap_map]
      refine .visit _ _ ⟨hnode.symm, hlists, hq⟩ (Widened.flatMap fun t ht => ?_)
      exact ih t ht (hmem t ht) _ _ fun _ => rfl

end Wraps

end Visits

theorem Violation.message_map (hf : ∀ n, (f n).label = n.label) (e : Violation) :
    (e.map f).message = e.message := by
  cases e with
  | noRole k => rfl
  | badDepth n =>
    unfold map message Node.written
    dsimp only
    rw [hf]

theorem Trace.report_map (hf : ∀ n, (f n).label = n.label) (t : Trace) :
    (t.map f).report = t.report := by
  have hpair : (fun p : Placement => (p.container.label, p.member.label)) ∘ Placement.map f =
      fun p => (p.container.label, p.member.label) :=
    funext fun p => congrArg₂ Prod.mk (hf p.container) (hf p.member)
  have hmessage : Violation.message ∘ Violation.map f = Violation.message :=
    funext (Violation.message_map hf)
  rw [report, report, map, List.map_map, Option.map_map, hpair, hmessage]

/-- Formatting does not change placement: with some children of a node put below a transparent node,
the same pairs are placed in the same order, and the same violation ends the pass, if one does. -/
theorem resolve_wrapped {w : Entry} {x y z : List Node} (hi : root.Coherent) (hp : p ∈ root.nodes)
    (h : Wraps transparent p x w y z) :
    let wrap := wrapped p x w y z
    resolve transparent (wrap root) = (resolve transparent root).map wrap ∧
      (resolve transparent (wrap root)).report = (resolve transparent root).report := by
  intro wrap
  have hlabel : ∀ n, (wrap n).label = n.label := Node.label_setChildren p _
  have hvisits : Widened transparent wrap root.visits (wrap root).visits :=
    h.widened hi hp (Node.self_mem_nodes root) none none fun _ => rfl
  have hresolve : resolve transparent (wrap root) = (resolve transparent root).map wrap := by
    unfold resolve
    rw [Tree.walk_eq_visits, Tree.walk_eq_visits]
    have hopen : ∀ s ∈ ([] : List Scope), ownLists (wrap s.node) = ownLists s.node := nofun
    exact run_widened hlabel hvisits hopen
  refine ⟨hresolve, ?_⟩
  rw [hresolve, Trace.report_map hlabel]

theorem resolve_wrapped_sample :
    let inner : Node := .node { id := 7, kind := Kind.listItem } [
      .node { id := 8, kind := Kind.blockquote } []]
    let list : Node := .node { id := 6, kind := Kind.list } [inner]
    let paragraph : Node := .node { id := 5, kind := Kind.paragraph } []
    let item : Node := .node { id := 4, kind := Kind.listItem } [paragraph, list]
    let strong : Entry := { id := 16, kind := Kind.strong }
    let wrap := wrapped item [] strong [paragraph] [list]
    Node.sample.Coherent ∧ item ∈ Node.sample.nodes ∧
      Wraps Kind.defaultTransparent item [] strong [paragraph] [list] ∧
      (wrap item).children.map (·.label.id) = [16, 6] ∧
      (resolve Kind.defaultTransparent (wrap Node.sample)).report =
        (resolve Kind.defaultTransparent Node.sample).report ∧
      (resolve Kind.defaultTransparent (wrap Node.sample)).placements.map
          (fun p => (p.container.label.id, p.member.label.id)) =
        [(0, 1), (1, 4), (4, 5), (4, 7), (7, 8), (8, 9), (0, 10), (0, 11), (11, 12), (0, 13),
          (0, 15)] := by
  intro inner list paragraph item strong wrap
  have hi : Node.sample.Coherent := Node.Unshared.coherent (by decide)
  have hp : item ∈ Node.sample.nodes := List.mem_of_getElem? (i := 4) rfl
  have h : Wraps Kind.defaultTransparent item [] strong [paragraph] [list] :=
    ⟨rfl, by decide, by decide, by simp [paragraph]; decide⟩
  exact ⟨hi, hp, h, rfl, (resolve_wrapped hi hp h).2, rfl⟩

end Containment
end Outline
