import Outline.Proofs.Spotting

/-! Spans inside one another. The block of a token whose lines lie within those of another token
begins inside the other block, and ends inside it unless it begins after the other block's last line
that is not blank (`Source.Covers.encloses`). A piece of running text in a block can be outside it
by what the block's span leaves out, and a piece in a container is inside it (`SpanWithin`). A tree
may be added below some nodes if they enclose everything in it and every node in it encloses what is
below (`Placed`). -/

namespace Outline.Document

/-- The kinds of running text. Raw HTML is among them, although it can be a block too. -/
def runningKinds : List Kind :=
  [Kind.text, Kind.emphasis, Kind.strong, Kind.delete, Kind.inlineCode, Kind.link, Kind.image,
    Kind.html]

def IsBlock (kind : Kind) : Prop := kind ∉ runningKinds

instance : DecidablePred IsBlock := fun kind => inferInstanceAs (Decidable (kind ∉ runningKinds))

def containerKinds : List Kind := [Kind.emphasis, Kind.strong, Kind.delete, Kind.link]

def IsContainer (kind : Kind) : Prop := kind ∈ containerKinds

instance : DecidablePred IsContainer :=
  fun kind => inferInstanceAs (Decidable (kind ∈ containerKinds))

def textBlocks : List Kind := [Kind.paragraph, Kind.heading, Kind.tableCell]

/-- Raw HTML is a block where no running text stands. -/
def IsBlockIn (parent kind : Kind) : Prop :=
  IsBlock kind ∨ kind = Kind.html ∧ parent ∉ textBlocks ++ containerKinds

/-- The second span does not begin on an earlier line, and on the lines after the first span that it
reaches are only blanks and quote markers. -/
structure LinesWithin (s : Source) (a b : Span) : Prop where
  start : a.start.line ≤ b.start.line
  beyond : ∀ line, a.stop.line < line → line ≤ b.stop.line → s.BlankAt (line - 1)

/-- The second span begins inside the first one, and it ends there exactly when it does not begin on
a later line than those of the first one. -/
structure BlockWithin (a b : Span) : Prop where
  start : a.start ≤ b.start
  stop : b.stop ≤ a.stop ↔ b.start.line ≤ a.stop.line

/-- The points are on one line, the first one before the second one, and the characters from the one
to the other are all of a class. -/
structure Source.Between (s : Source) (p : Char → Bool) (a b : Point) : Prop where
  line : a.line = b.line
  column : a.column < b.column
  chars : ∃ l, s.line? (a.line - 1) = some l ∧ b.column ≤ l.length + 1 ∧
    ∀ (k : Nat) (c : Char), a.column ≤ k + 1 → k + 1 < b.column → l[k]? = some c → p c = true

/-- The second span begins before the first one exactly when it begins in the margin of its line,
and it ends after the first one exactly when it ends on a later line, or in white space at the end
of the line. -/
structure PieceWithin (s : Source) (a b : Span) : Prop where
  start : ¬ a.start ≤ b.start ↔ s.Between Source.isMargin b.start a.start
  stop : ¬ b.stop ≤ a.stop ↔ a.stop.line < b.stop.line ∨ s.Between Text.isBlank a.stop b.stop

/-- How the span of a node is inside that of a node above it, by their kinds and that of the node
right above the inner one. -/
structure SpanWithin (s : Source) (outer parent inner : Kind) (a b : Span) : Prop where
  lines : LinesWithin s a b
  block : ¬ IsContainer outer → IsBlockIn parent inner → BlockWithin a b
  piece : ¬ IsContainer outer → ¬ IsContainer inner → PieceWithin s a b
  marked : IsContainer outer → ¬ IsContainer inner → a.start ≤ b.start ∧ b.stop ≤ a.stop

/-- How far a node encloses one below it, if both have spans. -/
structure Encloses (s : Source) (parent : Kind) (i j : Info) : Prop where
  notText : i.kind ≠ Kind.text
  within : ∀ a ∈ i.span, ∀ b ∈ j.span, SpanWithin s i.kind parent j.kind a b

variable {s : Source} {t : Text} {outer : List Info} {i j : Info} {us : List (Tree Info)}
  {parent kind inner : Kind} {a b c p : Span}

namespace LinesWithin

theorem refl (s : Source) (a : Span) : LinesWithin s a a :=
  ⟨Int.le_refl _, by omega⟩

theorem trans (h : LinesWithin s a b) (h' : LinesWithin s b c) : LinesWithin s a c where
  start := Int.le_trans h.start h'.start
  beyond line hlt hle := by
    by_cases hb : line ≤ b.stop.line
    · exact h.beyond line hlt hb
    · exact h'.beyond line (by omega) hle

theorem join (hb : LinesWithin s a b) (hc : LinesWithin s a c)
    (hstart : p.start.line = b.start.line) (hstop : p.stop.line = c.stop.line) :
    LinesWithin s a p where
  start := hstart ▸ hb.start
  beyond := hstop ▸ hc.beyond

end LinesWithin

section PieceWithin

theorem Source.Between.not_le {p : Char → Bool} {x y : Point} (h : s.Between p x y) : ¬ y ≤ x := by
  obtain ⟨hline, hcolumn, -⟩ := h
  rw [Point.le_iff]
  omega

theorem PieceWithin.of_or (hstart : a.start ≤ b.start ∨ s.Between Source.isMargin b.start a.start)
    (hstop : b.stop ≤ a.stop ∨ a.stop.line < b.stop.line ∨
      s.Between Text.isBlank a.stop b.stop) : PieceWithin s a b where
  start := ⟨hstart.resolve_left, Source.Between.not_le⟩
  stop := by
    refine ⟨hstop.resolve_left, fun h => ?_⟩
    obtain hline | hbetween := h
    · rw [Point.le_iff]
      omega
    · exact hbetween.not_le

/-- What is left out of a block's first and last line is all that can be outside it. -/
theorem PieceWithin.of_trims (ha : s.Trims a) (hlines : LinesWithin s a b)
    (hstop : ∀ l, s.line? (b.stop.line - 1) = some l → b.stop.column ≤ l.length + 1) :
    PieceWithin s a b := by
  obtain ⟨l, hl, hlength, hmargin⟩ := ha.start
  obtain ⟨l', hl', hblank⟩ := ha.stop
  have hstartLine := hlines.start
  refine .of_or ?_ ?_
  · by_cases hle : a.start ≤ b.start
    · exact .inl hle
    · rw [Point.le_iff] at hle
      have hline : b.start.line = a.start.line := by omega
      exact .inr ⟨hline, by omega, l, hline ▸ hl, hlength, fun k c _ hk hc => hmargin k c hk hc⟩
  · by_cases hle : b.stop ≤ a.stop
    · exact .inl hle
    · rw [Point.le_iff] at hle
      by_cases hline : a.stop.line < b.stop.line
      · exact .inr (.inl hline)
      · have hline : a.stop.line = b.stop.line := by omega
        exact .inr (.inr ⟨hline, by omega, l', hl', hstop l' (hline ▸ hl'),
          fun k c hk _ hc => hblank k c hk hc⟩)

theorem BlockWithin.piece (h : BlockWithin a b) (hb : b.start.line ≤ b.stop.line) :
    PieceWithin s a b := by
  refine .of_or (.inl h.start) ?_
  by_cases hle : b.stop ≤ a.stop
  · exact .inl hle
  · rw [h.stop] at hle
    exact .inr (.inl (by omega))

end PieceWithin

section Covers

theorem contentIndex_mono {depth depth' : Nat} (h : depth ≤ depth') (l : Text) :
    Source.contentIndex depth l ≤ Source.contentIndex depth' l := by
  induction depth generalizing depth' l with
  | zero =>
    cases depth' with
    | zero => exact Nat.le_refl _
    | succ depth' =>
      rw [Source.contentIndex, Source.contentIndex]
      split
      · omega
      · exact Nat.le_refl _
  | succ depth ih =>
    cases depth' with
    | zero => omega
    | succ depth' =>
      rw [Source.contentIndex, Source.contentIndex]
      split
      · next rest hrest => exact Nat.add_le_add_left (ih (by omega) rest) _
      · exact Nat.le_refl _

variable {n m : Int × Int} {depth depth' : Nat}

/-- Spans of tokens nest as the lines of the tokens do, but for blocks that begin where the outer
block has only blank lines left. -/
theorem Source.Covers.encloses (hn : s.Covers depth n a) (hm : s.Covers depth' m b)
    (hlines : n.1 ≤ m.1 ∧ m.2 ≤ n.2) (hpos : m.1 < m.2) (hdepth : depth ≤ depth') :
    LinesWithin s a b ∧ BlockWithin a b := by
  have hfirst : s.firstLine n ≤ s.firstLine m := by
    unfold Source.firstLine
    omega
  have hfinal : s.finalLine m ≤ s.finalLine n := by
    unfold Source.finalLine Source.firstLine
    omega
  have hn1 := hn.startLine
  have hm1 := hm.startLine
  have hm2 := hm.stopLine
  have hm3 := hm.ordered
  have hblank : ∀ line, a.stop.line < line → line ≤ b.stop.line → s.BlankAt (line - 1) :=
    fun line hlt hle => hn.blankAfter (line - 1) (by omega) (by omega)
  refine ⟨⟨by omega, hblank⟩, ?_, ?_⟩
  · rw [Point.le_iff]
    by_cases he : s.firstLine n = s.firstLine m
    · obtain ⟨l, hl, hcolumn⟩ := hn.startColumn
      obtain ⟨l', hl', hcolumn'⟩ := hm.startColumn
      rw [← he, hl] at hl'
      cases hl'
      have := contentIndex_mono hdepth l
      omega
    · omega
  · rw [Point.le_iff]
    by_cases hle : b.stop.line ≤ a.stop.line
    · refine iff_of_true ?_ (Int.le_trans hm3 hle)
      by_cases he : b.stop.line = a.stop.line
      · obtain ⟨l, hl, hcolumn⟩ := hn.stopColumn
        obtain ⟨l', hl', hcolumn'⟩ := hm.stopColumn
        rw [he, hl] at hl'
        cases hl'
        omega
      · omega
    · refine iff_of_false (by omega) ?_
      obtain hone | hfull := hm.stopsAt
      · omega
      · exact absurd (hblank b.stop.line (by omega) (Int.le_refl _)) hfull

end Covers

theorem IsBlock.not_container (h : IsBlock kind) : ¬ IsContainer kind := by
  have hsub : containerKinds ⊆ runningKinds := by decide
  exact fun hc => h (hsub hc)

theorem IsContainer.not_text (h : IsContainer kind) : kind ≠ Kind.text := by
  rintro rfl
  exact absurd h (by decide)

theorem not_isBlockIn_text (parent : Kind) : ¬ IsBlockIn parent Kind.text := by
  rintro (hblock | ⟨hhtml, -⟩)
  · exact absurd hblock (by decide)
  · exact absurd hhtml (by decide)

theorem isContainer_of_inlineKind? {type : String} (h : inlineKind? type = some kind) :
    IsContainer kind := by
  unfold inlineKind? at h
  split_ifs at h <;> cases h <;> decide

theorem kind_of_inlineKind? {type : String} (h : inlineKind? type = some kind) :
    kind ≠ Kind.text ∧ ¬ IsBlock kind :=
  ⟨(isContainer_of_inlineKind? h).not_text,
    fun hblock => hblock.not_container (isContainer_of_inlineKind? h)⟩

namespace SpanWithin

theorem join (hb : SpanWithin s kind parent inner a b) (hc : SpanWithin s kind parent inner a c)
    (hinner : ¬ IsBlockIn parent inner) (hline : p.start.line = b.start.line)
    (hcolumn : b.start.column ≤ p.start.column) (hstop : p.stop = c.stop) :
    SpanWithin s kind parent inner a p where
  lines := hb.lines.join hc.lines hline (by rw [hstop])
  block _ h := absurd h hinner
  piece hkind hcontainer := by
    obtain ⟨hstart, -⟩ := hb.piece hkind hcontainer
    obtain ⟨-, hend⟩ := hc.piece hkind hcontainer
    refine ⟨⟨fun hle => ?_, Source.Between.not_le⟩, hstop ▸ hend⟩
    rw [Point.le_iff] at hle
    obtain ⟨hsame, -, l, hl, hlength, hchars⟩ := hstart.1 (by rw [Point.le_iff]; omega)
    refine ⟨hline.trans hsame, by omega, l, hline ▸ hl, hlength, fun k c hk hk' hc => ?_⟩
    exact hchars k c (by omega) hk' hc
  marked hkind hcontainer := by
    obtain ⟨hstart, -⟩ := hb.marked hkind hcontainer
    obtain ⟨-, hend⟩ := hc.marked hkind hcontainer
    rw [Point.le_iff] at hstart
    exact ⟨Point.le_iff.2 (by omega), hstop ▸ hend⟩

end SpanWithin

namespace Encloses

theorem of_none (hi : i.kind ≠ Kind.text) (hj : j.span = none) : Encloses s parent i j where
  notText := hi
  within _ _ b hb := by rw [hj] at hb; cases hb

theorem congr {i' j' : Info} (h : Encloses s parent i j)
    (hi : i'.kind = i.kind ∧ i'.span = i.span) (hj : j'.kind = j.kind ∧ j'.span = j.span) :
    Encloses s parent i' j' where
  notText := hi.1 ▸ h.notText
  within := by
    rw [hi.1, hi.2, hj.1, hj.2]
    exact h.within

/-- Right below which node a node is matters only for what counts as a block there. -/
theorem reparent {parent' : Kind} (h : Encloses s parent i j)
    (hp : IsContainer i.kind ∨ (IsBlockIn parent' j.kind → IsBlockIn parent j.kind)) :
    Encloses s parent' i j where
  notText := h.notText
  within a ha b hb := by
    obtain ⟨hlines, hblock, hpiece, hmarked⟩ := h.within a ha b hb
    exact ⟨hlines, fun hkind h => hblock hkind (hp.resolve_left hkind h), hpiece, hmarked⟩

end Encloses

def parentKind (outer : List Info) : Kind := (outer.head?.map (·.kind)).getD ""

/-- The tree may stand below these nodes, innermost first: each of them encloses every node of the
tree, and so does every node those below it. -/
inductive Placed (s : Source) : List Info → Tree Info → Prop
  | node {outer : List Info} {i : Info} {us : List (Tree Info)}
      (self : ∀ o ∈ outer, Encloses s (parentKind outer) o i)
      (wraps : us ≠ [] → IsContainer i.kind → i.span ≠ none → Wraps s i.kind us i.span)
      (below : ∀ u ∈ us, Placed s (i :: outer) u) : Placed s outer (.node i us)

theorem placed_node : Placed s outer (.node i us) ↔
    (∀ o ∈ outer, Encloses s (parentKind outer) o i) ∧
    (us ≠ [] → IsContainer i.kind → i.span ≠ none → Wraps s i.kind us i.span) ∧
    ∀ u ∈ us, Placed s (i :: outer) u := by
  constructor
  · rintro ⟨hself, hwraps, hbelow⟩
    exact ⟨hself, hwraps, hbelow⟩
  · rintro ⟨hself, hwraps, hbelow⟩
    exact .node hself hwraps hbelow

theorem placed_leaf :
    Placed s outer (.node i []) ↔ ∀ o ∈ outer, Encloses s (parentKind outer) o i :=
  ⟨fun h => (placed_node.1 h).1, fun h => .node h (fun hne => absurd rfl hne) nofun⟩

theorem placed_block (hi : ¬ IsContainer i.kind) : Placed s outer (.node i us) ↔
    (∀ o ∈ outer, Encloses s (parentKind outer) o i) ∧ ∀ u ∈ us, Placed s (i :: outer) u := by
  rw [placed_node]
  refine and_congr_right fun _ => and_iff_right fun _ h => absurd h hi

namespace Placed

variable {u : Tree Info}

theorem below_text (h : Placed s outer (.node i us)) (hi : i.kind = Kind.text) : us = [] := by
  rcases us with _ | ⟨⟨j, ws⟩, us⟩
  · rfl
  · obtain ⟨-, -, hbelow⟩ := placed_node.1 h
    obtain ⟨hj, -⟩ := placed_node.1 (hbelow _ List.mem_cons_self)
    exact absurd hi (hj i List.mem_cons_self).notText

theorem under (h : Placed s outer u) :
    ∀ o ∈ outer, u.All fun j => ∃ parent, Encloses s parent o j := by
  induction h with
  | node self wraps below ih =>
    refine fun o ho => Tree.all_node.2 ⟨⟨_, self o ho⟩, fun u hu => ?_⟩
    exact ih u hu o (List.mem_cons_of_mem _ ho)

theorem lines (h : Placed s outer u) :
    u.All fun j => ∀ c ∈ u.label.span, ∀ b ∈ j.span, LinesWithin s c b := by
  obtain ⟨i, us⟩ := u
  refine Tree.all_node.2 ⟨fun c hc b hb => ?_, fun u hu v hv c hc b hb => ?_⟩
  · cases hc.symm.trans hb
    exact LinesWithin.refl s c
  · obtain ⟨-, -, hbelow⟩ := placed_node.1 h
    obtain ⟨parent, hv⟩ := (hbelow u hu).under i List.mem_cons_self v hv
    exact (hv.within c hc b hb).lines

theorem reframe {outer' : List Info} {P : Info → Prop} (pre : List Info)
    (h : Placed s (pre ++ outer) u) (hu : u.All P)
    (hself : ∀ pre j, P j → (∀ o ∈ pre ++ outer, Encloses s (parentKind (pre ++ outer)) o j) →
      ∀ o ∈ pre ++ outer', Encloses s (parentKind (pre ++ outer')) o j) :
    Placed s (pre ++ outer') u := by
  generalize hx : pre ++ outer = all at h
  induction h generalizing pre with
  | @node all i us self wraps below ih =>
    subst hx
    obtain ⟨hi, hus⟩ := Tree.all_node.1 hu
    exact .node (hself pre i hi self) wraps fun u h => ih u h (i :: pre) (hus u h) rfl

theorem swap {i' : Info} (h : Placed s (i :: outer) u)
    (hi : i'.kind = i.kind ∧ i'.span = i.span) : Placed s (i' :: outer) u := by
  refine reframe [] (P := fun _ => True) h (fun _ _ => trivial) fun pre j _ hj o ho => ?_
  have hparent : parentKind (pre ++ i' :: outer) = parentKind (pre ++ i :: outer) := by
    rcases pre with _ | ⟨o, pre⟩
    · exact hi.1
    · rfl
  rw [hparent]
  obtain ho | ho := List.mem_append.1 ho
  · exact hj o (List.mem_append_left _ ho)
  · obtain rfl | ho := List.mem_cons.1 ho
    · exact (hj i (by simp)).congr hi ⟨rfl, rfl⟩
    · exact hj o (by simp [ho])

theorem enter (h : Placed s outer u) (hi : IsContainer i.kind)
    (hu : u.All fun j => ∃ parent, Encloses s parent i j) : Placed s (i :: outer) u := by
  refine reframe [] h hu fun pre j ⟨_, hij⟩ hj o ho => ?_
  have hblock : IsBlockIn (parentKind (pre ++ i :: outer)) j.kind →
      IsBlockIn (parentKind (pre ++ outer)) j.kind := by
    rcases pre with _ | ⟨o', pre⟩
    · exact Or.imp_right fun hhtml => absurd (List.mem_append_right _ hi) hhtml.2
    · exact id
  obtain ho | ho := List.mem_append.1 ho
  · exact (hj o (List.mem_append_left _ ho)).reparent (.inr hblock)
  · obtain rfl | ho := List.mem_cons.1 ho
    · exact hij.reparent (.inl hi)
    · exact (hj o (List.mem_append_right _ ho)).reparent (.inr hblock)

end Placed

end Outline.Document
