import Outline.Proofs.Paths
import Outline.Proofs.Printing

/-! Reading a drawing of a syntax tree. As long as no label breaks its line, the depths and labels of
all lines can be read from the text, and with them the tree of the labels (`drawTree_faithful`). -/

namespace Outline

namespace Containment

variable {settings : DrawingSettings} {lines : List Line} {closed : List Bool}
  {owner : Option Node} {o t u : Node} {ts us : List Node}

def labels (settings : DrawingSettings) (t : Node) : Tree Text :=
  t.map fun a => nodeLabel settings (.node a [])

def Unbroken (settings : DrawingSettings) (t : Node) : Prop :=
  ∀ n ∈ t.nodes, '\n' ∉ nodeLabel settings n

/-- What is read off the lines of siblings is read off one sibling after the other. -/
theorem map_drawTrees {β : Type} {f : Line → β} {g : Node → List β}
    (h : ∀ t ∈ ts, ∀ last, (drawTreeFrom (some o) closed last t).map f = g t) :
    (drawTrees o closed ts).map f = ts.flatMap g := by
  induction ts with
  | nil => rfl
  | cons t ts ih =>
    rw [drawTrees, List.map_append, h t List.mem_cons_self,
      ih fun u hu => h u (List.mem_cons_of_mem _ hu), List.flatMap_cons]

/-- Below the top line the lines are read as the visits with the lengths of their paths. -/
theorem map_readLine_drawTreeFrom (o : Node) (closed : List Bool) (last : Bool) (t : Node)
    (above : List Node) (h : above.length = closed.length + 1) :
    (drawTreeFrom (some o) closed last t).map (fun l => readLine (l.text settings)) =
      t.indented (nodeLabel settings) above := by
  induction t using Tree.induct generalizing o closed last above with
  | h a ts ih =>
    rw [drawTreeFrom, List.map_cons, readLine_text, Tree.indented_eq, h]
    congr 1
    exact map_drawTrees fun t ht last' => ih t ht _ _ last' _ (by simp [h])

theorem contents_drawTreeFrom (owner : Option Node) (closed : List Bool) (last : Bool) (t : Node) :
    (drawTreeFrom owner closed last t).map (·.content) = t.nodes.map .node := by
  induction t using Tree.induct generalizing owner closed last with
  | h a ts ih =>
    rw [drawTreeFrom, List.map_cons, Node.nodes_node, List.map_cons, List.map_flatMap]
    congr 1
    exact map_drawTrees fun t ht last' => ih t ht _ _ last'

theorem Unbroken.not_mem_text (h : Unbroken settings t) {l : Line} (hl : l ∈ drawTree t) :
    '\n' ∉ l.text settings := by
  have hcontent : l.content ∈ t.nodes.map .node := by
    rw [← contents_drawTreeFrom none [] true t]
    exact List.mem_map_of_mem hl
  obtain ⟨n, hn, hcontent⟩ := List.mem_map.1 hcontent
  apply Containment.not_mem_text
  rw [← hcontent]
  exact h n hn

theorem lines_drawTree (h : Unbroken settings t) : Text.lines (drawingText settings (drawTree t)) =
    (drawTree t).map (Line.text settings) ++ [[]] := by
  rw [drawingText_eq]
  exact lines_flatMap (List.forall_mem_map.2 fun l hl => h.not_mem_text hl)

theorem readDrawing_drawTree (h : Unbroken settings t) :
    readDrawing (drawingText settings (drawTree t)) = t.indented (nodeLabel settings) [] := by
  rw [readDrawing, lines_drawTree h, List.dropLast_concat]
  obtain ⟨a, ts⟩ := t
  rw [drawTree, drawTreeFrom, List.map_cons, Tree.indented_eq]
  dsimp only
  rw [List.map_map]
  congr 1
  exact map_drawTrees fun t _ last => map_readLine_drawTreeFrom _ _ last t _ rfl

theorem nest_readDrawing (h : Unbroken settings t) :
    Tree.nest (readDrawing (drawingText settings (drawTree t))) = [(0, labels settings t)] := by
  rw [readDrawing_drawTree h]
  exact Tree.nest_indented (fun a => nodeLabel settings (.node a [])) t

theorem texts_drawTrees_congr {o' : Node}
    (ih : ∀ t ∈ ts, ∀ u last, labels settings t = labels settings u →
      (drawTreeFrom (some o) closed last t).map (Line.text settings) =
        (drawTreeFrom (some o') closed last u).map (Line.text settings))
    (h : ts.map (labels settings) = us.map (labels settings)) :
    (drawTrees o closed ts).map (Line.text settings) =
      (drawTrees o' closed us).map (Line.text settings) := by
  induction ts generalizing us with
  | nil =>
    obtain rfl := List.map_eq_nil_iff.1 h.symm
    rfl
  | cons t ts ihts =>
    obtain ⟨u, us, rfl, hu, hus⟩ := List.map_eq_cons_iff.1 h.symm
    have hempty : ts.isEmpty = us.isEmpty := by
      have := congrArg List.isEmpty hus
      simpa using this.symm
    rw [drawTrees, drawTrees, List.map_append, List.map_append, hempty,
      ih t List.mem_cons_self u _ hu.symm,
      ihts (fun v hv => ih v (List.mem_cons_of_mem _ hv)) hus.symm]

theorem texts_drawTreeFrom_congr {owner' : Option Node} (ho : owner.isNone = owner'.isNone)
    (closed : List Bool) (last : Bool) (h : labels settings t = labels settings u) :
    (drawTreeFrom owner closed last t).map (Line.text settings) =
      (drawTreeFrom owner' closed last u).map (Line.text settings) := by
  induction t using Tree.induct generalizing u owner owner' closed last with
  | h a ts ih =>
    obtain ⟨b, us⟩ := u
    rw [labels, labels, Tree.map_node, Tree.map_node] at h
    obtain ⟨hlabel, hchildren⟩ := Tree.node.inj h
    have htop : Line.text settings ⟨.node (.node a ts), owner, closed, last⟩ =
        Line.text settings ⟨.node (.node b us), owner', closed, last⟩ := by
      unfold Line.text
      dsimp only
      rw [ho]
      exact congrArg _ hlabel
    rw [drawTreeFrom, drawTreeFrom, List.map_cons, List.map_cons, htop, ho]
    congr 1
    have hbelow : (some (Tree.node a ts)).isNone = (some (Tree.node b us)).isNone := rfl
    exact texts_drawTrees_congr (fun t ht u last' he => ih t ht hbelow _ last' he) hchildren

/-- What the text of a drawing tells: it has one line for each visit, in pre-order, the depth and the
label of every line can be read from it, and so can the tree of all labels. -/
structure Legible (settings : DrawingSettings) (t : Node) : Prop where
  lines : Text.lines (drawingText settings (drawTree t)) =
    (drawTree t).map (Line.text settings) ++ [[]]
  visits : (drawTree t).map (·.content) = t.visits.map (.node ·.node)
  depths : readDrawing (drawingText settings (drawTree t)) =
    (t.withPaths []).map fun e => (e.2.length, nodeLabel settings e.1)
  tree : Tree.nest (readDrawing (drawingText settings (drawTree t))) = [(0, labels settings t)]

/-- Two trees whose labels keep to their lines have the same drawing iff they have the same shape and
the same labels, and their drawings are legible. -/
theorem drawTree_faithful (ht : Unbroken settings t) (hu : Unbroken settings u) :
    (drawingText settings (drawTree t) = drawingText settings (drawTree u) ↔
      labels settings t = labels settings u) ∧ Legible settings t := by
  refine ⟨⟨fun h => ?_, fun h => ?_⟩, lines_drawTree ht, ?_, readDrawing_drawTree ht,
    nest_readDrawing ht⟩
  · have hread := nest_readDrawing ht
    rw [h, nest_readDrawing hu] at hread
    exact (Prod.mk.inj (List.cons.inj hread).1).2.symm
  · have htexts : (drawTree t).map (Line.text settings) = (drawTree u).map (Line.text settings) :=
      texts_drawTreeFrom_congr rfl [] true h
    rw [drawingText_eq, drawingText_eq, htexts]
  · have hcontents := contents_drawTreeFrom none [] true t
    rwa [Node.nodes, List.map_map] at hcontents

/-- A paragraph with a text in it and a text after it, both of which look like lines of a drawing. -/
def nestedTexts : Node :=
  .node { id := 0, kind := Kind.root } [
    .node { id := 1, kind := Kind.paragraph } [
      .node { id := 2, kind := Kind.text, value := some "├─ a".toList } []],
    .node { id := 3, kind := Kind.text, value := some "│  └─ b".toList } []]

def flatTexts : Node :=
  .node { id := 0, kind := Kind.root } [
    .node { id := 1, kind := Kind.paragraph } [],
    .node { id := 2, kind := Kind.text, value := some "├─ a".toList } [],
    .node { id := 3, kind := Kind.text, value := some "│  └─ b".toList } []]

theorem drawTree_faithful_sample :
    let settings : DrawingSettings := { showSpans := false }
    Unbroken settings nestedTexts ∧ Unbroken settings flatTexts ∧
    String.ofList (drawingText settings (drawTree nestedTexts)) =
      "root\n├─ paragraph\n│  └─ text \"├─ a\"\n└─ text \"│  └─ b\"\n" ∧
    drawingText settings (drawTree nestedTexts) ≠ drawingText settings (drawTree flatTexts) ∧
    (readDrawing (drawingText settings (drawTree nestedTexts))).map (·.1) = [0, 1, 2, 1] ∧
    Legible settings nestedTexts := by
  intro settings
  have hn : Unbroken settings nestedTexts := by unfold Unbroken; decide
  have hf : Unbroken settings flatTexts := by unfold Unbroken; decide
  obtain ⟨hiff, hlegible⟩ := drawTree_faithful hn hf
  refine ⟨hn, hf, rfl, fun h => ?_, ?_, hlegible⟩
  · exact absurd (congrArg (·.children.length) (hiff.1 h)) (by decide)
  · rw [hlegible.depths]
    rfl

end Containment
end Outline
