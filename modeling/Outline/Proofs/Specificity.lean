import Outline.Proofs.Lookup
import Outline.Proofs.Settings

/-! How specific the node under a cursor is. Lines count with a fixed weight and columns count one
each, and over several lines the columns may count down. So a smaller span has the smaller area only
as far as the weight goes: a span inside another one has it if no column is beyond the weight
(`Span.area_lt_of_inside`), a span on fewer lines if no column is beyond half of it
(`Span.area_lt_of_fewer_lines`). Within these bounds no span inside the one that is found is passed
over, and a span on one line comes before those on several lines. A long line breaks the second rule
(`wide_line_passed_over`). -/

namespace Outline

namespace Span

variable {s t : Span} {weight W : Int}

def Ordered (s : Span) : Prop := s.start ≤ s.stop

instance : DecidablePred Ordered := fun s => inferInstanceAs (Decidable (s.start ≤ s.stop))

def Inside (s t : Span) : Prop := t.start ≤ s.start ∧ s.stop ≤ t.stop

instance (s t : Span) : Decidable (s.Inside t) := inferInstanceAs (Decidable (_ ∧ _))

def StrictlyInside (s t : Span) : Prop := s.Inside t ∧ ¬ t.Inside s

instance (s t : Span) : Decidable (s.StrictlyInside t) := inferInstanceAs (Decidable (_ ∧ _))

def ColumnsTo (W : Int) (s : Span) : Prop :=
  (1 ≤ s.start.column ∧ s.start.column ≤ W) ∧ 1 ≤ s.stop.column ∧ s.stop.column ≤ W

instance (W : Int) : DecidablePred (ColumnsTo W) := fun _ => inferInstanceAs (Decidable (_ ∧ _))

theorem area_eq (h : s.start.line ≤ s.stop.line) (weight : Int) : s.area weight =
    (s.stop.line - s.start.line) * weight + (s.stop.column - s.start.column) := by
  unfold area isMultiline
  dsimp only
  by_cases hlt : s.stop.line > s.start.line
  · rw [if_pos (by simpa using hlt)]
  · have he : s.stop.line - s.start.line = 0 := by omega
    rw [if_neg (by simpa using hlt), he]
    omega

theorem Ordered.lines (h : s.Ordered) : s.start.line ≤ s.stop.line := by
  rcases h with h | ⟨h, -⟩ <;> omega

theorem lines_of_covers {line column : Int} (h : s.covers line column = true) :
    s.start.line ≤ s.stop.line := by
  rw [covers_iff, Point.le_iff, Point.le_iff] at h
  dsimp only at h
  omega

theorem area_lt_of_fewer_lines (hs : s.start.line ≤ s.stop.line)
    (hlines : s.stop.line - s.start.line < t.stop.line - t.start.line) (hsW : s.ColumnsTo W)
    (htW : t.ColumnsTo W) (hweight : 2 * (W - 1) < weight) : s.area weight < t.area weight := by
  obtain ⟨hs1, hs2⟩ := hsW
  obtain ⟨ht1, ht2⟩ := htW
  have hmul : (s.stop.line - s.start.line + 1) * weight ≤ (t.stop.line - t.start.line) * weight :=
    Int.mul_le_mul_of_nonneg_right (by omega) (by omega)
  rw [Int.add_mul, Int.one_mul] at hmul
  rw [area_eq hs, area_eq (by omega)]
  omega

/-- With the bound as the weight the areas can be equal. -/
example : (⟨⟨2, 1, none⟩, ⟨2, 4, none⟩⟩ : Span).area (2 * (4 - 1)) =
    (⟨⟨1, 4, none⟩, ⟨2, 1, none⟩⟩ : Span).area (2 * (4 - 1)) := by decide

/-- Where a span inside another one has fewer lines, it shares at most one end with it, and so the
columns of the other end are not lost twice. -/
theorem area_lt_of_inside (hs : s.Ordered) (hin : s.StrictlyInside t) (hsW : s.ColumnsTo W)
    (htW : t.ColumnsTo W) (hweight : W ≤ weight) : s.area weight < t.area weight := by
  have hlines := hs.lines
  obtain ⟨hin, hne⟩ := hin
  obtain ⟨hs1, hs2⟩ := hsW
  obtain ⟨ht1, ht2⟩ := htW
  unfold Inside at hin hne
  simp only [Point.le_iff] at hin hne
  rw [area_eq hlines, area_eq (by omega)]
  by_cases heq : s.stop.line - s.start.line = t.stop.line - t.start.line
  · rw [heq]
    omega
  · by_cases hone : s.stop.line - s.start.line + 1 = t.stop.line - t.start.line
    · -- one line less: the spans share the line of their starts or that of their stops
      rw [← hone, Int.add_mul, Int.one_mul]
      omega
    · have hmul : (s.stop.line - s.start.line + 2) * weight ≤
          (t.stop.line - t.start.line) * weight :=
        Int.mul_le_mul_of_nonneg_right (by omega) (by omega)
      rw [Int.add_mul] at hmul
      omega

end Span

namespace Cursor

variable {weight W : Int} {p : Position} {root n m : Node}

/-- As long as twice the columns stay below the weight, no node at the cursor has a span strictly
inside that of the node which is found. -/
theorem nodeAt_most_specific (hweight : 2 * (W - 1) < weight)
    (hspans : ∀ k ∈ root.nodes, ∀ r ∈ k.label.span, r.Ordered ∧ r.ColumnsTo W)
    (hn : nodeAt weight root p = some n) :
    ∀ m ∈ root.nodes, covers p m = true → ∀ s ∈ n.label.span, ∀ t ∈ m.label.span,
      ¬ t.StrictlyInside s := by
  intro m hm hc s hs t ht hin
  obtain ⟨-, hsW⟩ := hspans n (nodeAt_least hn).1 s hs
  obtain ⟨hordered, htW⟩ := hspans m hm t ht
  have hbound : W ≤ weight := by
    have := hsW.1
    omega
  have hlt := Span.area_lt_of_inside hordered hin htW hsW hbound
  exact Int.not_lt.2 (area_le_of_nodeAt hn hm hc hs ht) hlt

theorem nodeAt_most_specific_sample : 2 * (14 - 1) < (1000 : Int) ∧
    (∀ k ∈ boldNote.nodes, ∀ r ∈ k.label.span, r.Ordered ∧ r.ColumnsTo 14) ∧
    ∃ n, nodeAt 1000 boldNote ⟨0, 8⟩ = some n ∧ n.label.id = 4 ∧
      (boldNote.nodes.filter (covers ⟨0, 8⟩)).map (·.label.id) = [0, 1, 3, 4] ∧
      ∀ m ∈ boldNote.nodes, covers ⟨0, 8⟩ m = true → ∀ s ∈ n.label.span, ∀ t ∈ m.label.span,
        ¬ t.StrictlyInside s := by
  have hspans : ∀ k ∈ boldNote.nodes, ∀ r ∈ k.label.span, r.Ordered ∧ r.ColumnsTo 14 := by decide
  have hweight : 2 * (14 - 1) < (1000 : Int) := by decide
  exact ⟨hweight, hspans, _, rfl, rfl, rfl, nodeAt_most_specific hweight hspans rfl⟩

def IsSingleLine (n : Node) : Prop := ∃ s ∈ n.label.span, s.start.line = s.stop.line

instance : DecidablePred IsSingleLine := fun _ => inferInstanceAs (Decidable (∃ _ ∈ _, _))

/-- A node at the cursor whose span is on several lines, and which is smaller than the nodes on one
line at the cursor that come before it and no larger than those that come after it. -/
def PassesOver (weight : Int) (p : Position) (root k : Node) : Prop :=
  ¬ IsSingleLine k ∧ ∃ before after, root.nodes = before ++ k :: after ∧
    Smallest weight p (before.filter IsSingleLine) k (after.filter IsSingleLine)

theorem isSingleLine_iff_of_nodeAt (hn : nodeAt weight root p = some n) :
    IsSingleLine n ↔ ¬ ∃ k, PassesOver weight p root k := by
  obtain ⟨before, after, hsplit, h⟩ := smallest_of_nodeAt hn
  rw [iff_not_comm]
  constructor
  · rintro ⟨k, hk, before', after', hsplit', h'⟩ hs
    rcases mem_of_splits (hsplit.symm.trans hsplit') with rfl | ⟨hmem, hmem'⟩ | ⟨hmem, hmem'⟩
    · exact hk hs
    · have hlt := h'.lt_before n (List.mem_filter.2 ⟨hmem, by simpa using hs⟩) h.covers
      have hle := h.le_after k hmem' h'.covers
      omega
    · have hlt := h.lt_before k hmem h'.covers
      have hle := h'.le_after n (List.mem_filter.2 ⟨hmem', by simpa using hs⟩) h.covers
      omega
  · refine fun hs => ⟨n, hs, before, after, hsplit, h.covers, ?_, ?_⟩
    · exact fun k hk => h.lt_before k (List.mem_filter.1 hk).1
    · exact fun k hk => h.le_after k (List.mem_filter.1 hk).1

theorem isSingleLine_of_columns (hweight : 2 * (W - 1) < weight)
    (hspans : ∀ k ∈ root.nodes, ∀ r ∈ k.label.span, r.ColumnsTo W)
    (hn : nodeAt weight root p = some n) (hm : m ∈ root.nodes) (hc : covers p m = true)
    (hs : IsSingleLine m) : IsSingleLine n := by
  obtain ⟨t, ht, hline⟩ := hs
  obtain ⟨hmem, hcn, -⟩ := nodeAt_least hn
  obtain ⟨s, hs, hcover⟩ := covers_eq_true.1 hcn
  refine ⟨s, hs, ?_⟩
  have hlines := Span.lines_of_covers hcover
  by_contra hne
  have hlt := Span.area_lt_of_fewer_lines (s := t) (t := s) (by omega) (by omega)
    (hspans m hm t ht) (hspans n hmem s hs) hweight
  exact Int.not_lt.2 (area_le_of_nodeAt hn hm hc hs ht) hlt

/-- Where a node on one line is at the cursor, such a node is found unless one on several lines passes
over all of them, which cannot be while the columns stay within half the weight. -/
theorem nodeAt_isSingleLine_iff (weight : Int) (hm : m ∈ root.nodes) (hc : covers p m = true)
    (hs : IsSingleLine m) :
    ∃ n, nodeAt weight root p = some n ∧
      (IsSingleLine n ↔ ¬ ∃ k, PassesOver weight p root k) ∧
      ∀ W, 2 * (W - 1) < weight → (∀ k ∈ root.nodes, ∀ r ∈ k.label.span, r.ColumnsTo W) →
        IsSingleLine n := by
  obtain ⟨n, hn⟩ := exists_nodeAt weight hm hc
  refine ⟨n, hn, isSingleLine_iff_of_nodeAt hn, fun W hweight hspans => ?_⟩
  exact isSingleLine_of_columns hweight hspans hn hm hc hs

def wideLine : Node :=
  let line : Option Span := some ⟨⟨1, 1, some 0⟩, ⟨1, 1002, some 1001⟩⟩
  .node { id := 0, kind := Kind.root, span := some ⟨⟨1, 1, some 0⟩, ⟨2, 1, some 1002⟩⟩ } [
    .node { id := 1, kind := Kind.paragraph, span := line } [
      .node { id := 2, kind := Kind.text, span := line } []]]

theorem nodeAt_isSingleLine_iff_sample : ∃ m ∈ wideLine.nodes, covers ⟨0, 0⟩ m = true ∧
    IsSingleLine m ∧
    (∃ n, nodeAt 1000 wideLine ⟨0, 0⟩ = some n ∧ ¬ IsSingleLine n ∧
      ∃ k, PassesOver 1000 ⟨0, 0⟩ wideLine k) ∧
    2 * (1002 - 1) < (2003 : Int) ∧
    (∀ k ∈ wideLine.nodes, ∀ r ∈ k.label.span, r.ColumnsTo 1002) ∧
    ∃ n, nodeAt 2003 wideLine ⟨0, 0⟩ = some n ∧ IsSingleLine n := by
  obtain ⟨m, hm, hc, hs⟩ : ∃ m ∈ wideLine.nodes, covers ⟨0, 0⟩ m = true ∧ IsSingleLine m := by
    decide
  have hspans : ∀ k ∈ wideLine.nodes, ∀ r ∈ k.label.span, r.ColumnsTo 1002 := by decide
  refine ⟨m, hm, hc, hs, ?_, by decide, hspans, ?_⟩
  · obtain ⟨n, hn, hiff, -⟩ := nodeAt_isSingleLine_iff 1000 hm hc hs
    have hroot : ¬ IsSingleLine wideLine := by decide
    obtain rfl : wideLine = n := Option.some.inj hn
    exact ⟨_, rfl, hroot, not_not.1 (mt hiff.2 hroot)⟩
  · obtain ⟨n, hn, -, hcolumns⟩ := nodeAt_isSingleLine_iff 2003 hm hc hs
    exact ⟨n, hn, hcolumns 1002 (by decide) hspans⟩

/-- The line is one column wider than a second line weighs, and so the whole text is found. -/
theorem wide_line_passed_over : Settings.check {} = .ok () ∧
    (∀ k ∈ wideLine.nodes, ∀ r ∈ k.label.span, r.Ordered) ∧
    (∃ m ∈ wideLine.nodes, covers ⟨0, 0⟩ m = true ∧ IsSingleLine m) ∧
    ∃ n, nodeAt ({} : CursorSettings).weight wideLine ⟨0, 0⟩ = some n ∧ ¬ IsSingleLine n := by
  refine ⟨rfl, by decide, by decide, wideLine, rfl, by decide⟩

end Cursor
end Outline
