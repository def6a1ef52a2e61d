import Outline.Proofs.Ancestors
import Outline.Proofs.LineTable
import Outline.Proofs.Lookup

/-! The text around a cursor. In a tree that is laid out over a text, the node found under a cursor of
the text is there, as the root is everywhere, and the text around this node is some lines of the
source, with the cursor's line among them (`context_nodeAt`): all lines for the root, and otherwise
those of a block that has the node on its lines. -/

namespace Outline

namespace Cursor

variable {weight : Int} {p : Position} {root n : Node} {source : Text} {s : Span}

structure InText (source : Text) (p : Position) : Prop where
  line_nonneg : 0 ≤ p.line
  character_nonneg : 0 ≤ p.character
  onLine : ∃ l, (Text.lines source)[p.line.toNat]? = some l ∧ p.character ≤ l.length

structure Whole (source : Text) (s : Span) : Prop where
  startLine : s.start.line = 1
  startColumn : s.start.column = 1
  stopLine : s.stop.line = (Text.lines source).length
  stopColumn : ∃ l, (Text.lines source).getLast? = some l ∧ s.stop.column = l.length + 1

/-- The root has the whole text, all spans are on its lines, and what is below a child of the root is
on the lines of this child. -/
structure LaidOut (root : Node) (source : Text) : Prop where
  whole : ∃ s ∈ root.label.span, Whole source s
  onLines : ∀ n ∈ root.nodes, ∀ s ∈ n.label.span,
    (1 ≤ s.start.line ∧ s.start.line ≤ (Text.lines source).length) ∧
      1 ≤ s.stop.line ∧ s.stop.line ≤ (Text.lines source).length
  below : ∀ top ∈ root.children, ∀ n ∈ Node.nodes top, ∀ s ∈ n.label.span,
    ∃ t ∈ top.label.span, t.start.line ≤ s.start.line ∧ s.stop.line ≤ t.stop.line

/-- A run of whole lines of the source with the cursor's line in it. -/
def LinesAround (source : Text) (p : Position) (t : Text) : Prop :=
  ∃ first last : Nat, first ≤ p.line ∧ p.line < last ∧ last ≤ (Text.lines source).length ∧
    t = Text.unlines (((Text.lines source).take last).drop first)

theorem InText.line_lt (hp : InText source p) : p.line < (Text.lines source).length := by
  obtain ⟨l, hl, -⟩ := hp.onLine
  obtain ⟨hlt, -⟩ := List.getElem?_eq_some_iff.1 hl
  have := hp.line_nonneg
  omega

theorem Whole.covers (hs : Whole source s) (hp : InText source p) :
    s.covers (p.line + 1) (p.character + 1) = true := by
  have hline := hp.line_nonneg
  have hlt := hp.line_lt
  have hcharacter := hp.character_nonneg
  obtain ⟨l, hl, hcolumn⟩ := hp.onLine
  obtain ⟨h1, h2, h3, final, hfinal, h4⟩ := hs
  rw [Span.covers_iff, Point.le_iff, Point.le_iff]
  dsimp only
  refine ⟨by omega, ?_⟩
  by_cases hlast : p.line + 1 = (Text.lines source).length
  · rw [List.getLast?_eq_getElem?, show (Text.lines source).length - 1 = p.line.toNat by omega,
      hl] at hfinal
    cases hfinal
    omega
  · omega

theorem linesAround_source (hp : InText source p) : LinesAround source p source := by
  have hline := hp.line_nonneg
  have hlt := hp.line_lt
  refine ⟨0, _, by omega, hlt, Nat.le_refl _, ?_⟩
  rw [List.take_length, List.drop_zero, Text.unlines_lines]

theorem linesAround_content (hs : n.label.span = some s) (h1 : 1 ≤ s.start.line)
    (hlen : s.stop.line ≤ (Text.lines source).length) (hstart : s.start.line ≤ p.line + 1)
    (hstop : p.line + 1 ≤ s.stop.line) : LinesAround source p (content n source) := by
  refine ⟨(s.start.line - 1).toNat, s.stop.line.toNat, by omega, by omega, by omega, ?_⟩
  rw [content, hs]
  dsimp only
  rw [Text.slice_eq _ (by omega) (by omega) hlen]

/-- For every cursor of the text a node is found, and the text around this node is some whole lines
of the source that include the cursor's line. -/
theorem context_nodeAt (weight : Int) (hi : root.Coherent) (hl : LaidOut root source)
    (hp : InText source p) :
    ∃ n, nodeAt weight root p = some n ∧ LinesAround source p (context root (some n) source) := by
  obtain ⟨whole, hspan, hwhole⟩ := hl.whole
  have hroot : covers p root = true := covers_eq_true.2 ⟨whole, hspan, hwhole.covers hp⟩
  obtain ⟨n, hn⟩ := exists_nodeAt weight (Node.self_mem_nodes root) hroot
  refine ⟨n, hn, ?_⟩
  obtain ⟨hmem, hc, -⟩ := nodeAt_least hn
  obtain ⟨s, hs, hcover⟩ := covers_eq_true.1 hc
  rw [Span.covers_iff, Point.le_iff, Point.le_iff] at hcover
  dsimp only at hcover
  obtain ⟨h1, h2⟩ := hl.onLines n hmem s hs
  have hsome : n.label.span.isNone = false := by rw [hs]; rfl
  unfold context
  simp only [hsome, Bool.false_eq_true, if_false]
  rcases ancestors?_cases hi hmem with ⟨ha, -⟩ | ⟨ha, -⟩ | ⟨top, htop, hbelow, rest, ha⟩
  · rw [ha]
    exact linesAround_source hp
  · rw [ha]
    exact linesAround_content hs h1.1 h2.2 (by omega) (by omega)
  · rw [ha]
    obtain ⟨t, ht, hstart, hstop⟩ := hl.below top htop n hbelow s hs
    obtain ⟨h3, h4⟩ := hl.onLines top (Node.child_mem_nodes (Node.self_mem_nodes root) htop) t ht
    exact linesAround_content ht h3.1 h4.2 (by omega) (by omega)

theorem context_nodeAt_sample : boldNote.Coherent ∧ LaidOut boldNote boldText ∧
    InText boldText ⟨0, 8⟩ ∧
    (nodeAt 1000 boldNote ⟨0, 8⟩).map (·.label.id) = some 4 ∧
    ∃ n, nodeAt 1000 boldNote ⟨0, 8⟩ = some n ∧
      LinesAround boldText ⟨0, 8⟩ (context boldNote (some n) boldText) ∧
      context boldNote (some n) boldText = "Some **bold**\ntext".toList := by
  have hu : boldNote.Unshared := by decide
  have hl : LaidOut boldNote boldText :=
    ⟨⟨_, rfl, rfl, rfl, rfl, _, rfl, rfl⟩, by decide, by decide⟩
  have hp : InText boldText ⟨0, 8⟩ := ⟨by decide, by decide, _, rfl, by decide⟩
  obtain ⟨n, hn, haround⟩ := context_nodeAt 1000 hu.coherent hl hp
  refine ⟨hu.coherent, hl, hp, rfl, n, hn, haround, ?_⟩
  obtain rfl := Option.some.inj hn
  rfl

end Cursor
end Outline
