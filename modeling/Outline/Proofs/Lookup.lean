import Outline.Cursor.Lookup
import Outline.Proofs.Enclosure
import Outline.Proofs.Visit

/-! The node under a cursor. A span covers the places from its start to its stop, in the order of
points (`Span.covers_iff`). Of the nodes whose spans cover the cursor, the running best of the
search is at every moment the first of the smallest ones so far (`Found.step`), and so the answer is
the first of the smallest ones in pre-order, and no other node is (`nodeAt_first_smallest`). -/

namespace Outline

theorem Span.covers_iff {s : Span} {line column : Int} : s.covers line column = true ↔
    s.start ≤ ⟨line, column, none⟩ ∧ ⟨line, column, none⟩ ≤ s.stop := by
  rw [Point.le_iff, Point.le_iff, covers]
  dsimp only
  split_ifs
  all_goals simp only [false_iff, true_iff]
  all_goals omega

namespace Cursor

variable {weight : Int} {p : Position} {root n m : Node} {before after ns : List Node}

theorem covers_eq_true : covers p n = true ↔
    ∃ s, n.label.span = some s ∧ s.covers (p.line + 1) (p.character + 1) = true := by
  unfold covers
  cases n.label.span <;> simp

theorem area_of_span {s : Span} (h : n.label.span = some s) : area weight n = s.area weight := by
  rw [area, h]

/-- A node at the cursor that is smaller than those before it and no larger than those after it. -/
structure Smallest (weight : Int) (p : Position) (before : List Node) (n : Node)
    (after : List Node) : Prop where
  covers : covers p n = true
  lt_before : ∀ m ∈ before, Cursor.covers p m = true → area weight n < area weight m
  le_after : ∀ m ∈ after, Cursor.covers p m = true → area weight n ≤ area weight m

theorem Smallest.le (h : Smallest weight p before n after) (hm : m ∈ before ++ n :: after)
    (hc : Cursor.covers p m = true) : area weight n ≤ area weight m := by
  rcases List.mem_append.1 hm with hm | hm
  · exact Int.le_of_lt (h.lt_before m hm hc)
  · rcases List.mem_cons.1 hm with rfl | hm
    · exact Int.le_refl _
    · exact h.le_after m hm hc

/-- What a search has found after some nodes: nothing if none of them is at the cursor, and else the
first of the smallest ones. -/
inductive Found (weight : Int) (p : Position) : List Node → Option Node → Prop
  | nothing {ns : List Node} (h : ∀ n ∈ ns, covers p n = false) : Found weight p ns none
  | smallest {before after : List Node} {n : Node} (h : Smallest weight p before n after) :
    Found weight p (before ++ n :: after) (some n)

theorem better_none (weight : Int) (p : Position) (m : Node) :
    better weight p none m = if covers p m = true then some m else none := rfl

theorem better_some (weight : Int) (p : Position) (n m : Node) : better weight p (some n) m =
    if covers p m = true ∧ area weight m < area weight n then some m else some n := by
  unfold better
  by_cases hc : covers p m = true <;> simp [hc]

theorem Found.step {best : Option Node} (h : Found weight p ns best) (m : Node) :
    Found weight p (ns ++ [m]) (better weight p best m) := by
  cases h with
  | nothing h =>
    rw [better_none]
    split_ifs with hc
    · refine .smallest ⟨hc, fun k hk hck => ?_, by simp⟩
      rw [h k hk] at hck
      cases hck
    · refine .nothing (List.forall_mem_append.2 ⟨h, List.forall_mem_singleton.2 ?_⟩)
      exact Bool.eq_false_iff.2 hc
  | smallest h =>
    rw [better_some]
    split_ifs with hlt
    · -- the new node is smaller than the best one, and that is no larger than any other
      exact .smallest ⟨hlt.1, fun k hk hck => Int.lt_of_lt_of_le hlt.2 (h.le hk hck), by simp⟩
    · rw [List.append_assoc, List.cons_append]
      refine .smallest ⟨h.covers, h.lt_before, fun k hk hck => ?_⟩
      rcases List.mem_append.1 hk with hk | hk
      · exact h.le_after k hk hck
      · obtain rfl := List.mem_singleton.1 hk
        exact Int.not_lt.1 (not_and.1 hlt hck)

theorem found_foldl (weight : Int) (p : Position) (ns : List Node) :
    Found weight p ns (ns.foldl (better weight p) none) := by
  induction ns using List.reverseRecOn with
  | nil => exact .nothing (by simp)
  | append_singleton ns m ih =>
    rw [List.foldl_append]
    exact ih.step m

theorem found_nodeAt (weight : Int) (root : Node) (p : Position) :
    Found weight p root.nodes (nodeAt weight root p) := by
  have h := found_foldl weight p root.nodes
  rw [Node.nodes, List.foldl_map] at h
  rw [nodeAt, Tree.walk_eq_visits]
  exact h

theorem smallest_of_nodeAt (hn : nodeAt weight root p = some n) :
    ∃ before after, root.nodes = before ++ n :: after ∧ Smallest weight p before n after := by
  have h := found_nodeAt weight root p
  rw [hn] at h
  generalize root.nodes = ns at h
  cases h with
  | smallest h => exact ⟨_, _, rfl, h⟩

theorem exists_nodeAt (weight : Int) (hm : m ∈ root.nodes) (hc : covers p m = true) :
    ∃ n, nodeAt weight root p = some n := by
  have h := found_nodeAt weight root p
  generalize root.nodes = ns at h hm
  generalize nodeAt weight root p = best at h
  cases h with
  | nothing h =>
    rw [h m hm] at hc
    cases hc
  | smallest => exact ⟨_, rfl⟩

theorem nodeAt_least (hn : nodeAt weight root p = some n) : n ∈ root.nodes ∧ covers p n = true ∧
    ∀ m ∈ root.nodes, covers p m = true → area weight n ≤ area weight m := by
  obtain ⟨before, after, hsplit, h⟩ := smallest_of_nodeAt hn
  rw [hsplit]
  exact ⟨by simp, h.covers, fun m hm hc => h.le hm hc⟩

theorem mem_of_splits {α : Type} {before after before' after' : List α} {x y : α}
    (h : before ++ x :: after = before' ++ y :: after') :
    x = y ∨ (x ∈ before' ∧ y ∈ after) ∨ (y ∈ before ∧ x ∈ after') := by
  rcases List.append_eq_append_iff.1 h with ⟨c, rfl, hc⟩ | ⟨c, rfl, hc⟩
  · rcases c with _ | ⟨z, c⟩
    · exact .inl (List.cons.inj hc).1
    · obtain ⟨rfl, rfl⟩ := List.cons.inj hc
      exact .inr (.inl (by simp))
  · rcases c with _ | ⟨z, c⟩
    · exact .inl (List.cons.inj hc).1.symm
    · obtain ⟨rfl, rfl⟩ := List.cons.inj hc
      exact .inr (.inr (by simp))

theorem area_le_of_nodeAt {s t : Span} (hn : nodeAt weight root p = some n) (hm : m ∈ root.nodes)
    (hc : covers p m = true) (hs : n.label.span = some s) (ht : m.label.span = some t) :
    s.area weight ≤ t.area weight := by
  obtain ⟨-, -, hleast⟩ := nodeAt_least hn
  rw [← area_of_span hs, ← area_of_span ht]
  exact hleast m hm hc

theorem Found.functional {best best' : Option Node} (h : Found weight p ns best)
    (h' : Found weight p ns best') : best = best' := by
  generalize hms : ns = ms at h'
  cases h with
  | nothing h =>
    cases h' with
    | nothing => rfl
    | smallest h' =>
      have hc := h'.covers
      rw [h _ (by rw [hms]; simp)] at hc
      cases hc
  | smallest h =>
    cases h' with
    | nothing h' =>
      have hc := h.covers
      rw [h' _ (by rw [← hms]; simp)] at hc
      cases hc
    | smallest h' =>
      rcases mem_of_splits hms with rfl | ⟨hmem, hmem'⟩ | ⟨hmem, hmem'⟩
      · rfl
      · have hlt := h'.lt_before _ hmem h.covers
        exact absurd (h.le_after _ hmem' h'.covers) (Int.not_le.2 hlt)
      · have hlt := h.lt_before _ hmem h'.covers
        exact absurd (h'.le_after _ hmem' h.covers) (Int.not_le.2 hlt)

/-- The place of the cursor in the source, where lines and columns count from one. -/
def Position.point (p : Position) : Point := ⟨p.line + 1, p.character + 1, none⟩

def IsAt (p : Position) (n : Node) : Prop := ∃ s ∈ n.label.span, s.start ≤ p.point ∧ p.point ≤ s.stop

theorem covers_iff_isAt : covers p n = true ↔ IsAt p n := by
  rw [covers_eq_true]
  refine exists_congr fun s => and_congr_right fun _ => ?_
  exact Span.covers_iff

/-- Nothing is found iff no node is at the cursor. What is found is at the cursor, no node there is
smaller, and of those with the same area it is the first in pre-order; areas can be any integers. -/
theorem nodeAt_first_smallest (weight : Int) (root : Node) (p : Position) :
    (nodeAt weight root p = none ↔ ¬ ∃ n ∈ root.nodes, IsAt p n) ∧
    ∀ n, nodeAt weight root p = some n ↔
      ∃ before after, root.nodes = before ++ n :: after ∧ IsAt p n ∧
        (∀ m ∈ before, IsAt p m → area weight n < area weight m) ∧
        ∀ m ∈ after, IsAt p m → area weight n ≤ area weight m := by
  have hfound := found_nodeAt weight root p
  simp only [← covers_iff_isAt]
  refine ⟨⟨fun hnone => ?_, fun hnot => ?_⟩, fun n => ⟨fun hn => ?_, ?_⟩⟩
  · rintro ⟨n, hn, hc⟩
    obtain ⟨m, hm⟩ := exists_nodeAt weight hn hc
    rw [hnone] at hm
    cases hm
  · refine hfound.functional (.nothing fun n hn => ?_)
    exact Bool.eq_false_iff.2 fun hc => hnot ⟨n, hn, hc⟩
  · obtain ⟨before, after, hsplit, h⟩ := smallest_of_nodeAt hn
    exact ⟨before, after, hsplit, h.covers, h.lt_before, h.le_after⟩
  · rintro ⟨before, after, hsplit, hc, hlt, hle⟩
    rw [hsplit] at hfound
    exact hfound.functional (.smallest ⟨hc, hlt, hle⟩)

/-- A line counts as one column here, and so the last node, whose columns count down, has an area
below zero. -/
example : (nodeAt 1 (.node { id := 0, kind := Kind.root, span := some ⟨⟨1, 1, none⟩, ⟨2, 9, none⟩⟩ } [
    .node { id := 1, kind := Kind.text, span := some ⟨⟨1, 8, none⟩, ⟨1, 9, none⟩⟩ } [],
    .node { id := 2, kind := Kind.text, span := some ⟨⟨1, 8, none⟩, ⟨2, 1, none⟩⟩ } []]) ⟨0, 7⟩).map
      (·.label.id) = some 2 := rfl

def boldText : Text := "Some **bold**\ntext\n\nEnd".toList

def boldNote : Node :=
  let span (line column line' column' : Int) : Option Span :=
    some ⟨⟨line, column, none⟩, ⟨line', column', none⟩⟩
  .node { id := 0, kind := Kind.root, span := span 1 1 4 4 } [
    .node { id := 1, kind := Kind.paragraph, span := span 1 1 2 5 } [
      .node { id := 2, kind := Kind.text, span := span 1 1 1 6 } [],
      .node { id := 3, kind := Kind.strong, span := span 1 6 1 14 } [
        .node { id := 4, kind := Kind.text, span := span 1 8 1 12 } []],
      .node { id := 5, kind := Kind.text, span := span 2 1 2 5 } []],
    .node { id := 6, kind := Kind.paragraph, span := span 4 1 4 4 } [
      .node { id := 7, kind := Kind.text, span := span 4 1 4 4 } []]]

end Cursor
end Outline
