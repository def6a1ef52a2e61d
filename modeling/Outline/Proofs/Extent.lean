import Mathlib.Data.List.TakeWhile
import Outline.Proofs.PlacedBlocks
import Outline.Proofs.SpanNesting
import Outline.Proofs.Specificity

/-! How far a block goes. A block should end after the last character of its lines that is not white
space. The line on which it ends is looked for with another notion: a line of spaces, tabs and quote
markers counts as blank, and no other line does. On the line that is found all white space is cut
off. So the end is the right one exactly when the two notions agree from there on (`block_stop`);
they do not on the last line of an HTML tag (`tag_end_lost`). The start is looked for past spaces
and tabs only. So a span is out of order if its block begins where its line has only white space
left, and in no other case (`blocks_inOrder`). -/

namespace Outline

namespace Text

variable {p : Char → Bool} {t l before rest : Text} {c : Char} {i j k : Nat}

theorem length_trimEnd (hc : l[k]? = some c) (hp : p c = false)
    (hlast : ∀ k' c', l[k']? = some c' → p c' = false → k' ≤ k) :
    (trimEnd p l).length = k + 1 := by
  obtain ⟨hk, hget⟩ := List.getElem?_eq_some_iff.1 hc
  have hsplit : l = l.take k ++ [c] ++ l.drop (k + 1) := by
    rw [← hget, List.take_append_getElem, List.take_append_drop]
  have hrest : ∀ c' ∈ l.drop (k + 1), p c' = true := by
    intro c' hc'
    obtain ⟨n, hn⟩ := List.mem_iff_getElem?.1 hc'
    rw [List.getElem?_drop] at hn
    by_contra hshown
    have := hlast _ _ hn (Bool.eq_false_iff.2 hshown)
    omega
  rw [hsplit, trimEnd_append_of_all hrest, trimEnd_concat hp, List.length_append,
    List.length_take, List.length_singleton]
  omega

theorem all_of_length_trimEnd_le (h : (trimEnd p (before ++ rest)).length ≤ before.length) :
    ∀ c ∈ rest, p c = true := by
  obtain ⟨cut, hcut, hall⟩ := trimEnd_append p (before ++ rest)
  have hlength := congrArg List.length hcut
  rw [List.length_append, List.length_append] at hlength
  have hsuffix : rest <:+ cut := List.suffix_of_suffix_length_le (List.suffix_append before rest)
    (hcut ▸ List.suffix_append _ _) (by omega)
  exact fun c hc => hall c (hsuffix.subset hc)

theorem lineStart_add_lt (hij : i < j) (hl : (lines t)[i]? = some l) :
    lineStart t i + l.length < lineStart t j := by
  have hi : i < (lines t).length := (List.getElem?_eq_some_iff.1 hl).1
  have htake : (lines t).take (i + 1) = (lines t).take i ++ [l] := by
    rw [List.take_add_one, hl]
    rfl
  obtain ⟨more, hmore⟩ : (lines t).take (i + 1) <+: (lines t).take j :=
    List.take_prefix_take_left hij
  rw [lineStart, lineStart, ← hmore, htake, List.map_append, List.map_append, List.sum_append,
    List.sum_append, List.map_singleton, List.sum_singleton]
  omega

end Text

namespace Document

/-- The lines of a token are there: they go from a first to a last line of the text, both counted
from zero. -/
structure Source.HasLines (s : Source) (m : Int × Int) (first last : Int) : Prop where
  starts : first = m.1 + s.offset
  stops : last = m.2 - 1 + s.offset
  ordered : first ≤ last
  inside : last < s.lines.length

def Source.ShowsAt (s : Source) (i : Int) (k : Nat) : Prop :=
  ∃ l c, s.line? i = some l ∧ l[k]? = some c ∧ Text.isBlank c = false

/-- The last place on some lines where something shows. -/
structure Source.LastShown (s : Source) (first last i : Int) (k : Nat) : Prop where
  within : first ≤ i ∧ i ≤ last
  shows : s.ShowsAt i k
  last : ∀ j k', s.ShowsAt j k' → i ≤ j → j ≤ last → j = i ∧ k' ≤ k

variable {load : Loader} {settings : ReadingSettings} {s : Source} {t : Text}
  {tokens pre : List BlockToken} {token : BlockToken} {tree : Tree Info} {kind : Kind}
  {m : Int × Int} {a : Span} {depth k : Nat} {first last i : Int}

section Stop

/-- The end of a span that covers some lines is past the last place of them where something shows,
as long as the lines are blank in the narrower sense after this place, and the place's own line is
not, unless there is no line before it. -/
theorem Source.Covers.stop_iff (h : s.Covers depth m a)
    (hi : s.LastShown (s.firstLine m) (s.finalLine m) i k) :
    a.stop.line = i + 1 ∧ a.stop.column = k + 2 ↔
      (i = s.firstLine m ∨ ¬ s.BlankAt i) ∧ ∀ j, i < j → j ≤ s.finalLine m → s.BlankAt j := by
  obtain ⟨hfirst, hfinal⟩ := hi.within
  have hstart := h.startLine
  have hordered := h.ordered
  have hle := h.stopLine
  constructor
  · rintro ⟨hline, -⟩
    refine ⟨h.stopsAt.imp (by omega) fun hfull => ?_, fun j hj hjle => ?_⟩
    · rwa [hline, Int.add_sub_cancel] at hfull
    · exact h.blankAfter j (by omega) hjle
  · rintro ⟨hown, hafter⟩
    have hline : a.stop.line = i + 1 := by
      obtain hlt | heq | hgt := Int.lt_trichotomy a.stop.line (i + 1)
      · obtain hone | hfull := hown
        · omega
        · exact absurd (h.blankAfter i (by omega) hfinal) hfull
      · exact heq
      · obtain hone | hfull := h.stopsAt
        · omega
        · exact absurd (hafter _ (by omega) (by omega)) hfull
    obtain ⟨l, hl, hcolumn⟩ := h.stopColumn
    rw [hline, Int.add_sub_cancel] at hl
    obtain ⟨l', c, hl', hc, hshown⟩ := hi.shows
    cases hl.symm.trans hl'
    have hlength := Text.length_trimEnd hc hshown fun k' c' hc' hshown' =>
      (hi.last i k' ⟨l, c', hl, hc', hshown'⟩ (Int.le_refl _) hfinal).2
    exact ⟨hline, by omega⟩

theorem Source.HasLines.clamped (h : s.HasLines m first last) :
    s.firstLine m = first ∧ s.finalLine m = last := by
  obtain ⟨hfirst, hlast, hordered, hinside⟩ := h
  unfold Source.finalLine Source.firstLine
  omega

/-- Where a block ends. Let a token make a block, and let something show on its lines, the last time
at position `k` of line `i`. The block's span ends there exactly when all its lines after `i` hold
nothing but spaces, tabs and quote markers, and line `i` holds something else or is the first of
them. -/
theorem block_stop (hm : ∀ token ∈ tokens, ∀ m ∈ token.map, 0 ≤ m.1)
    (h : parseWith load settings (fun _ => tokens) t = .ok tree) (hp : pre ++ [token] <+: tokens)
    (hk : madeKind? token = some kind) (hkind : MayBeBlock kind) (hmap : token.map = some m)
    (hlines : (bodySource settings t).HasLines m first last)
    (hi : (bodySource settings t).LastShown first last i k) :
    ∃ (st : BlockState) (a : Span) (after : List PlacedBlock),
      stateAfter load settings t pre = .ok st ∧
      placedBlocks tree = st.placed ++ (kind, a) :: after ∧
      (a.stop.line = i + 1 ∧ a.stop.column = k + 2 ↔
        (i = first ∨ ¬ (bodySource settings t).BlankAt i) ∧
        ∀ j, i < j → j ≤ last → (bodySource settings t).BlankAt j) := by
  obtain ⟨st, new, after, hst, hplaces, hplaced⟩ := placedBlocks_parseWith hm h hp
  obtain ⟨hsource, -⟩ := stateAfter_keeps hst
  have hreads : st.source.Reads t := hsource ▸ reads_bodySource settings t
  have hm0 : 0 ≤ m.1 := hm token (hp.subset (by simp)) m hmap
  obtain ⟨a, ha, hcovers, -⟩ := BlockState.spanOf_some hreads hm0
  have hnew : new = [(kind, a)] := by
    cases hplaces with
    | block kind' span hk' hspan =>
      cases hk.symm.trans hk'
      rw [hmap, ha] at hspan
      cases hspan
      rw [placed?, if_pos hkind]
      rfl
    | pieces new hk' hpieces => cases hk.symm.trans hk'
  obtain ⟨rfl, rfl⟩ := hlines.clamped
  rw [hsource] at hcovers
  refine ⟨st, a, after, hst, ?_, hcovers.stop_iff hi⟩
  rw [hplaced, hnew, List.append_assoc, List.singleton_append]

def openFence : Text := "---\n---\n```\na\n\n".toList

def fenceToken : BlockToken :=
  { type := "fence", map := some (0, 3), content := "a\n".toList, markup := "```".toList }

theorem block_stop_sample : (bodySource {} openFence).HasLines (0, 3) 2 4 ∧
    (bodySource {} openFence).LastShown 2 4 3 0 ∧
    ∃ tree st a after, parseWith Yaml.load {} (fun _ => [fenceToken]) openFence = .ok tree ∧
      stateAfter Yaml.load {} openFence [] = .ok st ∧
      placedBlocks tree = st.placed ++ (Kind.code, a) :: after ∧
      a.stop.line = 4 ∧ a.stop.column = 2 := by
  have hfull : (bodySource {} openFence).line? 3 = some ['a'] := by decide +kernel
  have hempty : (bodySource {} openFence).line? 4 = some [] := by decide +kernel
  have hlines : (bodySource {} openFence).HasLines (0, 3) 2 4 :=
    ⟨by decide +kernel, by decide +kernel, by decide, by decide +kernel⟩
  have hshown : (bodySource {} openFence).LastShown 2 4 3 0 := by
    refine ⟨by decide, ⟨_, 'a', hfull, rfl, rfl⟩, ?_⟩
    rintro j k ⟨l, c, hl, hc, -⟩ hfrom hto
    obtain rfl | rfl : j = 3 ∨ j = 4 := by omega
    · cases hfull.symm.trans hl
      obtain ⟨hk, -⟩ := List.getElem?_eq_some_iff.1 hc
      exact ⟨rfl, Nat.le_of_lt_succ hk⟩
    · cases hempty.symm.trans hl
      cases hc
  have hown : ¬ (bodySource {} openFence).BlankAt 3 := by
    rintro ⟨l, hl, hblank⟩
    cases hfull.symm.trans hl
    exact absurd hblank (by decide)
  have hafter : ∀ j : Int, 3 < j → j ≤ 4 → (bodySource {} openFence).BlankAt j := by
    intro j hfrom hto
    obtain rfl : j = 4 := by omega
    exact ⟨[], hempty, rfl⟩
  have hm : ∀ token ∈ [fenceToken], ∀ m ∈ token.map, 0 ≤ m.1 := by decide
  have hp : [] ++ [fenceToken] <+: [fenceToken] := List.prefix_refl _
  -- trees have no decidable equality; the kinds of their blocks have
  have hkinds : (parseWith Yaml.load {} (fun _ => [fenceToken]) openFence).toOption.map
      (fun tree => (placedBlocks tree).map (·.1)) = some [Kind.root, Kind.yaml, Kind.code] := by
    decide +kernel
  obtain ⟨tree, htree, -⟩ := exists_of_toOption hkinds
  obtain ⟨st, a, after, hst, hplaced, hstop⟩ :=
    block_stop hm htree hp rfl (by decide) rfl hlines hshown
  exact ⟨hlines, hshown, tree, st, a, after, htree, hst, hplaced, hstop.2 ⟨.inr hown, hafter⟩⟩

/-- A line that closes an HTML tag has nothing but a `>` on it, which is no quote marker here. It is
the last line of the block, but the block's span stops before it. -/
theorem tag_end_lost :
    ((Markdown.read {} "<div\n>".toList).map fun token => (token.type, token.map)) =
      [("html_block", some (0, 2))] ∧
    (bodySource {} "<div\n>".toList).HasLines (0, 2) 0 1 ∧
    (bodySource {} "<div\n>".toList).LastShown 0 1 1 0 ∧
    ∃ tree root a, parse {} "<div\n>".toList = .ok tree ∧
      placedBlocks tree = [root, (Kind.html, a)] ∧ a.stop.line = 1 ∧ a.stop.column = 5 := by
  have hclose : (bodySource {} "<div\n>".toList).line? 1 = some ['>'] := by decide +kernel
  refine ⟨by decide +kernel, ⟨rfl, rfl, by decide, by decide +kernel⟩, ?_, ?_⟩
  · refine ⟨by decide, ⟨_, '>', hclose, rfl, rfl⟩, ?_⟩
    rintro j k ⟨l, c, hl, hc, -⟩ hfrom hto
    obtain rfl : j = 1 := by omega
    cases hclose.symm.trans hl
    obtain ⟨hk, -⟩ := List.getElem?_eq_some_iff.1 hc
    exact ⟨rfl, Nat.le_of_lt_succ hk⟩
  · have htest : (parse {} "<div\n>".toList).toOption.map placedBlocks =
        some [(Kind.root, ⟨⟨1, 1, some 0⟩, ⟨2, 2, some 6⟩⟩),
          (Kind.html, ⟨⟨1, 1, some 0⟩, ⟨1, 5, some 4⟩⟩)] := by decide +kernel
    obtain ⟨tree, htree, hplaced⟩ := exists_of_toOption htest
    exact ⟨tree, _, _, htree, hplaced, rfl, rfl⟩

end Stop

section Order

structure InOrder (a : Span) : Prop where
  ordered : a.Ordered
  offsets : ∃ p q, a.start.offset = some p ∧ a.stop.offset = some q ∧ p ≤ q

/-- The span is on one line. It starts right after a space or a tab, where nothing but white space
is left of the line, and stops where the white space at the end of the line is cut off. -/
structure Strays (t : Text) (a : Span) : Prop where
  oneLine : a.stop.line = a.start.line
  columns : ∃ before c rest,
    (Text.lines t)[(a.start.line - 1).toNat]? = some (before ++ c :: rest) ∧
      a.start.column = before.length + 2 ∧ Text.isSpaceOrTab c = true ∧
      (∀ b ∈ rest, Text.isBlank b = true) ∧
      a.stop.column = (Text.trimEnd Text.isBlank (before ++ c :: rest)).length + 1

/-- Of a span between places of the text, with its start on its line or just past it, it is known
why if it is out of order. -/
structure Settled (t : Text) (a : Span) : Prop where
  fits : a.Fits t
  start : ∃ l, (Text.lines t)[(a.start.line - 1).toNat]? = some l ∧ a.start.column ≤ l.length + 1
  way : a.Ordered ∨ Strays t a

variable {st st' : BlockState} {new : List PlacedBlock}

theorem isBlank_of_isSpaceOrTab {c : Char} (h : Text.isSpaceOrTab c = true) :
    Text.isBlank c = true := by
  rw [Text.isSpaceOrTab, Bool.or_eq_true, beq_iff_eq, beq_iff_eq] at h
  obtain rfl | rfl := h
  · rfl
  · rfl

theorem Strays.not_ordered (h : Strays t a) : ¬ a.Ordered := by
  obtain ⟨hline, before, c, rest, -, hstart, hc, hrest, hstop⟩ := h
  have hcut : Text.trimEnd Text.isBlank (before ++ c :: rest) = Text.trimEnd Text.isBlank before :=
    Text.trimEnd_append_of_all (List.forall_mem_cons.2 ⟨isBlank_of_isSpaceOrTab hc, hrest⟩)
  have hle := length_trimEnd_le Text.isBlank before
  rw [hcut] at hstop
  rw [Span.Ordered, Point.le_iff]
  omega

theorem Settled.inOrder_iff (h : Settled t a) : InOrder a ↔ ¬ Strays t a := by
  refine ⟨fun hin hstrays => hstrays.not_ordered hin.ordered, fun hnot => ?_⟩
  have hordered : a.Ordered := h.way.resolve_right hnot
  obtain ⟨l, hl, hcolumn⟩ := h.start
  have hpast := h.fits.stop.column
  refine ⟨hordered, _, _, h.fits.start.offset, h.fits.stop.offset, ?_⟩
  rw [Span.Ordered, Point.le_iff] at hordered
  obtain hlt | ⟨heq, hle⟩ := hordered
  · have hline := h.fits.start.line
    have hlater := Text.lineStart_add_lt (j := (a.stop.line - 1).toNat) (by omega) hl
    omega
  · rw [heq]
    omega

theorem settled_of_joins {line column : Int} (hfits : a.Fits t) (hjoins : a.Joins 1 1 line column) :
    Settled t a := by
  obtain ⟨l, hl⟩ : ∃ l, (Text.lines t)[0]? = some l :=
    ⟨_, List.getElem?_eq_getElem (List.length_pos_iff.2 (Text.lines_ne_nil t))⟩
  have hline := hfits.stop.line
  have hcolumn := hfits.stop.column
  have hstart := hjoins.startLine
  have hstart' := hjoins.startColumn
  refine ⟨hfits, ⟨l, ?_, by omega⟩, .inl ?_⟩
  · rw [hstart]
    exact hl
  · rw [Span.Ordered, Point.le_iff]
    omega

theorem settled_of_onOneLine (hfits : a.Fits t) (h : OnOneLine t a) : Settled t a := by
  obtain ⟨l, hl, hcolumn⟩ := h.inside
  have hcolumns := h.columns
  refine ⟨hfits, ⟨l, hl, by omega⟩, .inl ?_⟩
  rw [Span.Ordered, Point.le_iff]
  exact .inr ⟨h.line.2.symm, hcolumns.2⟩

/-- The position is the first one of the line, or follows a space, a tab or a quote marker. -/
def Skipped (l : Text) (n : Nat) : Prop :=
  n = 0 ∨ ∃ before c rest, l = before ++ c :: rest ∧ n = before.length + 1 ∧
    (Text.isSpaceOrTab c = true ∨ c = '>')

theorem skipped_contentIndex (depth : Nat) (l : Text) :
    Skipped l (Source.contentIndex depth l) := by
  obtain ⟨before, rest, hl, hlength, hmargin⟩ := Source.contentIndex_prefix depth l
  rw [← hlength]
  obtain rfl | ⟨before, c, rfl⟩ := List.eq_nil_or_concat before
  · exact .inl rfl
  · rw [List.concat_eq_append] at hl hmargin ⊢
    refine .inr ⟨before, c, rest, by rw [hl, List.append_assoc]; rfl, by simp, ?_⟩
    simpa [Source.isMargin] using hmargin c (by simp)

theorem Skipped.le_length {l : Text} {n : Nat} (h : Skipped l n) : n ≤ l.length := by
  obtain rfl | ⟨before, c, rest, rfl, rfl, -⟩ := h
  · exact Nat.zero_le _
  · rw [List.length_append, List.length_cons]
    omega

/-- A search that goes past all that is not white space ends behind a space or a tab. -/
theorem Skipped.crossed {l : Text} {n : Nat} (h : Skipped l n)
    (hlt : (Text.trimEnd Text.isBlank l).length < n) :
    ∃ before c rest, l = before ++ c :: rest ∧ n = before.length + 1 ∧
      Text.isSpaceOrTab c = true ∧ ∀ b ∈ rest, Text.isBlank b = true := by
  obtain rfl | ⟨before, c, rest, rfl, rfl, hc⟩ := h
  · exact absurd hlt (Nat.not_lt_zero _)
  · have hall := Text.all_of_length_trimEnd_le (Nat.le_of_lt_succ hlt)
    obtain ⟨hblank, hrest⟩ := List.forall_mem_cons.1 hall
    have hmark : c ≠ '>' := by
      rintro rfl
      exact absurd hblank (by decide)
    exact ⟨before, c, rest, rfl, rfl, hc.resolve_right hmark, hrest⟩

theorem Source.Covers.settled (h : s.Covers depth m a) (hs : s.Reads t) (hfits : a.Fits t) :
    Settled t a := by
  obtain ⟨l, hl, hstart⟩ := h.startColumn
  have hline := h.startLine
  have hordered := h.ordered
  have hget : (Text.lines t)[(a.start.line - 1).toNat]? = some l := by
    obtain ⟨h1, h2⟩ := hfits.start.line
    obtain ⟨hentry, -⟩ := Text.entry?_of_lt (Text.lines t) (i := a.start.line - 1) (by omega)
      (by omega)
    rw [Source.line?, hs.lines, ← Int.add_sub_cancel (s.firstLine m) 1, ← hline, hentry] at hl
    exact hl
  have hskipped := skipped_contentIndex depth l
  have hle := hskipped.le_length
  refine ⟨hfits, ⟨l, hget, by omega⟩, ?_⟩
  by_cases hplaces : a.Ordered
  · exact .inl hplaces
  · rw [Span.Ordered, Point.le_iff] at hplaces
    obtain ⟨l', hl', hstop⟩ := h.stopColumn
    have hone : a.stop.line = a.start.line := by omega
    rw [hone, hline, Int.add_sub_cancel, hl] at hl'
    cases hl'
    obtain ⟨before, c, rest, rfl, hindex, hc, hrest⟩ := hskipped.crossed (by omega)
    exact .inr ⟨hone, before, c, rest, hget, by omega, hc, hrest, hstop⟩

theorem Places.settled (h : Places t st token new) (hs : st.source.Reads t)
    (hm : ∀ m ∈ token.map, 0 ≤ m.1) : ∀ b ∈ new, Settled t b.2 := by
  cases h with
  | block kind span hk hspan =>
    intro b hb
    rcases hmap : token.map with _ | m
    · rw [hmap] at hspan
      cases hspan
      rw [placed?_of_none rfl] at hb
      cases hb
    · obtain ⟨a, ha, hcovers, hfits⟩ := BlockState.spanOf_some hs (hm m hmap)
      rw [hmap, ha] at hspan
      cases hspan
      rw [placed?] at hb
      split at hb
      · obtain rfl := List.mem_singleton.1 hb
        exact hcovers.settled hs hfits
      · cases hb
  | pieces new hk hnew =>
    exact fun b hb => settled_of_onOneLine (hnew b hb).fits (hnew b hb).oneLine

theorem settled_documentSpan (t : Text) : Settled t (documentSpan t) :=
  settled_of_joins (documentSpan_fits t) ⟨rfl, rfl, rfl, rfl⟩

theorem initial_settled (h : initial load settings t = .ok st) :
    ∀ b ∈ st.placed, Settled t b.2 := by
  have hfits := (initial_fits h).root
  obtain ⟨offset, first, rfl, -, ⟨-, rfl⟩ | ⟨-, b, data, span, rfl, line, column, hjoins⟩⟩ :=
    initial_cases h
  · rw [placed_root rfl, placedBlocks_close]
    exact List.forall_mem_singleton.2 (settled_documentSpan t)
  · have hspan : span.Fits t := hfits.children.labels _ (List.mem_singleton_self _) span rfl
    rw [placed_root rfl, placedBlocks_close]
    exact List.forall_mem_cons.2 ⟨settled_documentSpan t,
      List.forall_mem_singleton.2 (settled_of_joins hspan hjoins)⟩

/-- When spans of blocks are out of order. Of every block that has a span, the start is not after
the stop, by line and column as well as by offset, unless the block begins where its line has only
white space left, right after a space or a tab, and ends there. -/
theorem blocks_inOrder (hm : ∀ token ∈ tokens, ∀ m ∈ token.map, 0 ≤ m.1)
    (h : parseWith load settings (fun _ => tokens) t = .ok tree) :
    ∀ v ∈ tree.visits, ∀ a ∈ v.node.label.span, MayBeBlock v.node.label.kind →
      (InOrder a ↔ ¬ Strays t a) := by
  rw [parseWith_eq] at h
  obtain ⟨st, hst, rfl⟩ := map_eq_ok.1 h
  have hrun : st.Fits t ∧ st.Bare ∧ ∀ b ∈ st.placed, Settled t b.2 := by
    refine stateAfter_ok (P := fun _ st => BlockState.Fits t st ∧ BlockState.Bare st ∧
      ∀ b ∈ st.placed, Settled t b.2) hst ?_ ?_
    · exact fun s hs => ⟨initial_fits hs, initial_bare hs, initial_settled hs⟩
    · rintro pre token s s' hp ⟨hfits, hbare, hsettled⟩ hstep
      have hway := blockStep_way settings.taskItems token s
      have hm' := hm token (hp.subset (by simp))
      obtain ⟨hbare', new, hplaces, hplaced⟩ := hway.places hstep hfits hm' hbare
      refine ⟨hway.fits_of_ok hstep hfits hm', hbare', ?_⟩
      rw [hplaced]
      exact List.forall_mem_append.2 ⟨hsettled, hplaces.settled hfits.source hm'⟩
  intro v hv a ha hkind
  have hmem : (v.node.label.kind, a) ∈ placedBlocks st.finish := by
    refine List.mem_filterMap.2 ⟨v.node.label, List.mem_map.2 ⟨v, hv, rfl⟩, ?_⟩
    rw [placed?, if_pos hkind, Option.mem_def.1 ha]
    rfl
  rw [placed_finish] at hmem
  exact (hrun.2.2 _ hmem).inOrder_iff

theorem blocks_inOrder_sample :
    (∀ token ∈ Markdown.read {} "> -\n>   a\n".toList, ∀ m ∈ token.map, 0 ≤ m.1) ∧
    ∃ tree, parseWith Yaml.load {} (fun _ => Markdown.read {} "> -\n>   a\n".toList)
        "> -\n>   a\n".toList = .ok tree ∧
      (placedBlocks tree).map (·.1) =
        [Kind.root, Kind.blockquote, Kind.list, Kind.listItem, Kind.paragraph] ∧
      ∀ v ∈ tree.visits, ∀ a ∈ v.node.label.span, MayBeBlock v.node.label.kind →
        (InOrder a ↔ ¬ Strays "> -\n>   a\n".toList a) := by
  have hm : ∀ token ∈ Markdown.read {} "> -\n>   a\n".toList, ∀ m ∈ token.map, 0 ≤ m.1 := by
    decide +kernel
  -- trees have no decidable equality; the kinds of their blocks have
  have hkinds : (parseWith Yaml.load {} (fun _ => Markdown.read {} "> -\n>   a\n".toList)
      "> -\n>   a\n".toList).toOption.map (fun tree => (placedBlocks tree).map (·.1)) =
        some [Kind.root, Kind.blockquote, Kind.list, Kind.listItem, Kind.paragraph] := by
    decide +kernel
  obtain ⟨tree, htree, hkinds⟩ := exists_of_toOption hkinds
  exact ⟨hm, tree, htree, hkinds, blocks_inOrder hm htree⟩

/-- A line with a space and a no-break space: it is not blank to a Markdown reader. The paragraph
starts at its second character, where the search for the start ends, and stops before its first one,
as all white space is cut off at the end. -/
theorem space_out_of_order : ∃ tree, parse {} " \u00a0".toList = .ok tree ∧
    ∃ v ∈ tree.visits, v.node.label.kind = Kind.paragraph ∧
      ∃ a ∈ v.node.label.span, ¬ a.start ≤ a.stop ∧
        a.start.offset = some 1 ∧ a.stop.offset = some 0 := by
  have htest : (parse {} " \u00a0".toList).toOption.map (fun tree => tree.visits.any fun v =>
      decide (v.node.label.kind = Kind.paragraph) && v.node.label.span.any fun a =>
        decide (¬ a.start ≤ a.stop) && decide (a.start.offset = some 1) &&
          decide (a.stop.offset = some 0)) = some true := by decide +kernel
  obtain ⟨tree, htree, hfound⟩ := exists_of_toOption htest
  refine ⟨tree, htree, ?_⟩
  simpa [List.any_eq_true, Option.any_eq_true, and_assoc] using hfound

end Order

end Document

end Outline
