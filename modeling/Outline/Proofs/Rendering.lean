import Outline.Proofs.DepthFirst
import Outline.Proofs.Printing

/-! Drawings of any map of members, with sharing, repetition and cycles. The nodes that get lines are
those of a depth-first search along what is shown of each node (`Draws.depthFirst`), and the marks of
circularity are the members that are on the path to their owner (`Row.circular_eq`). -/

namespace Outline.Containment

open Hierarchy (membersOf)

def Line.circular? (l : Line) : Option Node :=
  match l.content with
  | .circular n => some n
  | _ => none

/-- The node that a line is about, unless it sums up nodes. -/
def Line.about? (l : Line) : Option Node :=
  match l.content with
  | .node n => some n
  | .circular n => some n
  | .summary _ => none

/-- What a drawing shows of a root and of what comes next after each node. A node has one line, where
a depth-first search first comes to it; a member that is on the path to its owner is marked each time
it comes; and no line says anything else of a member. -/
structure Renders (next : Node → List Node) (root : Node) (lines : List Line) : Prop where
  order : DepthFirst next [] [⟨root, none⟩] (visitsOf lines)
  distinct : ((nodesOf lines).map (·.label.id)).Nodup
  reached : ∀ i, i ∈ (nodesOf lines).map (·.label.id) ↔
    ∃ n, Relation.ReflTransGen (fun a b => b ∈ next a) root n ∧ n.label.id = i
  owned : ∀ l ∈ lines, (l.content = .node root ∧ l.owner = none) ∨
    ∃ n ∈ nodesOf lines, l.owner = some n
  branch : ∀ n ∈ nodesOf lines, ∃ path, Branch lines (n :: path)
  circular : ∀ n path, Branch lines (n :: path) →
    (under lines n).filterMap Line.circular? = (next n).filter (onPath (n :: path))
  sublist : ∀ n ∈ nodesOf lines, ((under lines n).filterMap Line.about?).Sublist (next n)

variable {members : NodeMap (List Node)} {threshold : Int} {above ns : List Node}
  {closed : List Bool} {seen seen' : List Nat} {lines row : List Line} {n root : Node}

theorem shown_congr {a b : Node} (h : a.label.id = b.label.id) :
    shown members threshold a = shown members threshold b := by
  unfold shown membersOf
  rw [NodeMap.get?_congr h]

theorem Draws.depthFirst (h : Draws members threshold above closed seen ns lines seen')
    (ha : above.map (·.label.id) ⊆ seen) {pending out : List (Visit Entry)}
    (hr : DepthFirst (shown members threshold) seen' pending out) :
    DepthFirst (shown members threshold) seen (ns.map (⟨·, above.head?⟩) ++ pending)
      (visitsOf lines ++ out) := by
  induction h generalizing pending out with
  | done => exact hr
  | circular hm _ ih => exact .skip (ha hm) (ih ha hr)
  | skip _ hs _ ih => exact .skip hs (ih ha hr)
  | @node above closed below seen seen₁ seen' n ns own lines _ hs _ ho _ iho ihr =>
    have hrest := ihr (fun i hi => ho.seen_subset (List.mem_cons_of_mem _ (ha hi))) hr
    have hown := iho (List.cons_subset_cons _ ha) hrest
    simp only [List.map_cons, List.cons_append, visitsOf_node, visitsOf_append,
      visitsOf_summaryLine, List.nil_append, List.append_assoc]
    exact .visit hs hown

theorem Branch.unique {path path' : List Node}
    (hd : ((visitsOf lines).map (·.node.label.id)).Nodup) (h : Branch lines path)
    (h' : Branch lines path') (hh : path.head? = path'.head?) : path = path' := by
  induction h generalizing path' with
  | nil =>
    cases h' with
    | nil => rfl
    | cons => cases hh
  | cons hv _ ih =>
    cases h' with
    | nil => cases hh
    | cons hv' h' =>
      obtain rfl := Option.some.inj hh
      have hvisit := List.inj_on_of_nodup_map hd hv hv' rfl
      rw [ih h' (Visit.mk.inj hvisit).2]

section Row

theorem Row.circular_eq (h : Row above closed seen ns row) :
    row.filterMap Line.circular? = ns.filter (onPath above) := by
  induction h with
  | done => rfl
  | circular ha _ ih =>
    rw [List.filter_cons_of_pos (onPath_iff.2 ha), ← ih]
    rfl
  | skip ha _ _ ih => rw [List.filter_cons_of_neg (mt onPath_iff.1 ha), ih]
  | node ha _ _ _ ih =>
    rw [List.filter_cons_of_neg (mt onPath_iff.1 ha), ← ih]
    rfl

theorem Row.about_sublist (h : Row above closed seen ns row) :
    (row.filterMap Line.about?).Sublist ns := by
  induction h with
  | done => exact .slnil
  | circular _ _ ih => exact ih.cons_cons _
  | skip _ _ _ ih => exact ih.cons _
  | node _ _ _ _ ih => exact ih.cons_cons _

end Row

theorem filterMap_summaryLine {f : Line → Option Node} {ms : List Node}
    (hf : ∀ l counts, l.content = .summary counts → f l = none) :
    (summaryLine threshold n closed ms).filterMap f = [] := by
  refine List.filterMap_eq_nil_iff.2 fun l hl => ?_
  rw [eq_of_mem_summaryLine hl]
  exact hf _ _ rfl

theorem draw_row {path : List Node} (hb : Branch (draw members threshold root) (n :: path)) :
    ∃ closed seen row, (n :: path).map (·.label.id) ⊆ seen ∧
      Row (n :: path) closed seen (shown members threshold n) row ∧
      under (draw members threshold root) n =
        summaryLine threshold n closed (membersOf members n) ++ row := by
  obtain ⟨seen, h⟩ := draw_draws members threshold root
  have hd := (h.depthFirst (List.nil_subset _) .done).nodup
  rw [List.append_nil] at hd
  have hn : n ∈ nodesOf (draw members threshold root) := by
    cases hb with
    | cons hv => exact List.mem_map_of_mem hv
  obtain ⟨path', closed, seen₁, row, hb', hr⟩ :=
    h.exists_row (List.nil_subset _) (List.Subset.refl _) .nil hn
  obtain rfl := (List.cons.inj (hb.unique hd hb' rfl)).2
  exact ⟨closed, seen₁, row, hr⟩

theorem exists_branch (hn : n ∈ nodesOf (draw members threshold root)) :
    ∃ path, Branch (draw members threshold root) (n :: path) := by
  obtain ⟨seen, h⟩ := draw_draws members threshold root
  obtain ⟨path, -, -, -, hb, -⟩ :=
    h.exists_row (List.nil_subset _) (List.Subset.refl _) .nil hn
  exact ⟨path, hb⟩

/-- Whatever the members are, a drawing ends: it is the same for any bound on the depth above the
number of containers. It shows what can be reached, each node once and in the order of a depth-first
search, and marks exactly the members that are on the path to their owner; and this is what is
printed. -/
theorem draw_renders (members : NodeMap (List Node)) (threshold : Int) (root : Node) :
    (∀ fuel, members.length < fuel →
      (drawNode members threshold fuel [] none [] [] true root).1 = draw members threshold root) ∧
    Renders (shown members threshold) root (draw members threshold root) ∧
    ∀ settings, Prints settings (draw members threshold root)
      (drawingText settings (draw members threshold root)) := by
  obtain ⟨seen, h⟩ := draw_draws members threshold root
  have hsearch := h.depthFirst (List.nil_subset _) .done
  rw [List.append_nil, List.append_nil] at hsearch
  have hids : (nodesOf (draw members threshold root)).map (·.label.id) =
      (visitsOf (draw members threshold root)).map (·.node.label.id) := by
    simp [nodesOf]
  refine ⟨fun fuel hf => drawNode_eq_draw hf root, ⟨hsearch, ?_, ?_, ?_, ?_, ?_, ?_⟩,
    draw_prints members threshold root⟩
  · rw [hids]
    exact hsearch.nodup
  · rw [hids]
    exact hsearch.mem_ids_iff fun a b => shown_congr
  · obtain ⟨rest, he, hrest⟩ := draw_eq_cons members threshold root
    rw [he] at hrest ⊢
    exact List.forall_mem_cons.2 ⟨.inl ⟨rfl, rfl⟩, fun l hl => .inr (hrest l hl)⟩
  · exact fun n hn => exists_branch hn
  · intro n path hb
    obtain ⟨closed, seen, row, -, hr, hu⟩ := draw_row hb
    rw [hu, List.filterMap_append, filterMap_summaryLine, hr.circular_eq, List.nil_append]
    intro l counts hl
    simp [Line.circular?, hl]
  · intro n hn
    obtain ⟨path, hb⟩ := exists_branch hn
    obtain ⟨closed, seen, row, -, hr, hu⟩ := draw_row hb
    rw [hu, List.filterMap_append, filterMap_summaryLine, List.nil_append]
    · exact hr.about_sublist
    · intro l counts hl
      simp [Line.about?, hl]

def crossed : Node :=
  .node { id := 0, kind := Kind.root } [
    .node { id := 1, kind := Kind.heading, depth := .int 1 } [],
    .node { id := 2, kind := Kind.heading, depth := .int 2 } []]

/-- The headings are members of each other, one of them twice. -/
def crossedMembers : NodeMap (List Node) :=
  let one := crossed.children.take 1
  let two := crossed.children.drop 1
  (crossed, one ++ two) :: one.map (·, two) ++ two.map (·, one ++ one)

theorem draw_renders_sample :
    let settings : DrawingSettings := { showSpans := false }
    let lines := draw crossedMembers 5 crossed
    crossedMembers.length < 4 ∧
    (drawNode crossedMembers 5 4 [] none [] [] true crossed).1 = lines ∧
    Renders (shown crossedMembers 5) crossed lines ∧
    Prints settings lines (drawingText settings lines) ∧
    (nodesOf lines).map (·.label.id) = [0, 1, 2] ∧
    (lines.filterMap Line.circular?).map (·.label.id) = [1, 1] ∧
    Text.lines (drawingText settings lines) = ["root", "├─ heading[1]", "│  └─ heading[2]",
      "│     ├─ heading[1] [circular ref]", "│     └─ heading[1] [circular ref]", ""].map
        String.toList := by
  intro settings lines
  have hl : crossedMembers.length < 4 := by decide
  obtain ⟨hf, hr, hp⟩ := draw_renders crossedMembers 5 crossed
  exact ⟨hl, hf 4 hl, hr, hp settings, rfl, rfl, rfl⟩

end Outline.Containment
