import Mathlib.Data.List.Infix
import Outline.Document.Parse
import Outline.Proofs.Displacement
import Outline.Proofs.LineTable
import Outline.Proofs.Tokens

/-! Positions in the tree of a document. A point fits a text if its line is one of the text's lines
and its offset is that of its column on this line. Whatever the tokens are, as long as their lines
count from zero, every span that is made from them fits: a span is made of looked up points only
(`Reads.spanOf`), and what is done to spans afterwards keeps column and offset together. So no look
up fails, and what can stop the reading of a document is a closing token too many or a number that
is none (`BlockWay.fits`). -/

namespace Outline

namespace Text

/-- Where a line starts: after the lines before it, each with its line feed. -/
def lineStart (t : Text) (i : Nat) : Nat := (((lines t).take i).map (·.length + 1)).sum

theorem getElem?_starts (ls : List Text) (n : Nat) {i : Nat} (hi : i < ls.length) :
    (starts ls n)[i]? = some (n + ((ls.take i).map (·.length + 1)).sum) := by
  induction ls generalizing n i with
  | nil => cases hi
  | cons l ls ih =>
    cases i with
    | zero => rfl
    | succ i =>
      rw [starts, List.getElem?_cons_succ, ih _ (Nat.lt_of_succ_lt_succ hi), List.take_succ_cons,
        List.map_cons, List.sum_cons]
      congr 1
      omega

theorem entry?_of_lt {α : Type} (xs : List α) {i : Int} (h0 : 0 ≤ i) (h : i < xs.length) :
    entry? xs i = xs[i.toNat]? ∧ i.toNat < xs.length := by
  refine ⟨?_, by omega⟩
  unfold entry?
  rw [if_pos h0]

end Text

instance : LE Point := ⟨fun p q => p.line < q.line ∨ p.line = q.line ∧ p.column ≤ q.column⟩

theorem Point.le_iff {p q : Point} :
    p ≤ q ↔ p.line < q.line ∨ p.line = q.line ∧ p.column ≤ q.column :=
  Iff.rfl

theorem Point.le_refl (p : Point) : p ≤ p := .inr ⟨rfl, Int.le_refl _⟩

theorem Point.le_trans {p q r : Point} (h : p ≤ q) (h' : q ≤ r) : p ≤ r := by
  rw [Point.le_iff] at *
  omega

instance : DecidableLE Point := fun p q =>
  inferInstanceAs (Decidable (p.line < q.line ∨ p.line = q.line ∧ p.column ≤ q.column))

/-- The line is one of the text, and the offset is where the column is on it. -/
structure Point.Fits (t : Text) (p : Point) : Prop where
  line : 1 ≤ p.line ∧ p.line ≤ (Text.lines t).length
  column : 1 ≤ p.column
  offset : p.offset = some (Text.lineStart t (p.line - 1).toNat + p.column - 1)

structure Span.Fits (t : Text) (s : Span) : Prop where
  start : s.start.Fits t
  stop : s.stop.Fits t

structure Span.Joins (s : Span) (line column line' column' : Int) : Prop where
  startLine : s.start.line = line
  startColumn : s.start.column = column
  stopLine : s.stop.line = line'
  stopColumn : s.stop.column = column'

def Info.Fits (t : Text) (i : Info) : Prop := ∀ s ∈ i.span, s.Fits t

namespace Tree

variable {α : Type} {a : α} {us : List (Tree α)}

/-- What holds of every subtree holds of the tree and of the subtrees of its children. -/
theorem forall_visits_node {P : Tree α → Prop} : (∀ v ∈ (Tree.node a us).visits, P v.node) ↔
    P (.node a us) ∧ ∀ u ∈ us, ∀ v ∈ u.visits, P v.node := by
  have hfrom : ∀ (p : Option (Tree α)) (u : Tree α),
      (∀ v ∈ visitsFrom p u, P v.node) ↔ ∀ v ∈ u.visits, P v.node := by
    rintro p ⟨b, ws⟩
    rw [visits, visitsFrom_node, visitsFrom_node, List.forall_mem_cons, List.forall_mem_cons]
  rw [visits, visitsFrom_node, List.forall_mem_cons]
  refine and_congr_right fun _ => ?_
  simp only [List.mem_flatMap, ← hfrom (some (node a us))]
  constructor
  · intro h u hu v hv
    exact h v ⟨u, hu, hv⟩
  · rintro h v ⟨u, hu, hv⟩
    exact h u hu v hv

def All (P : α → Prop) (u : Tree α) : Prop := ∀ v ∈ u.visits, P v.node.label

theorem all_node {P : α → Prop} : (Tree.node a us).All P ↔ P a ∧ ∀ u ∈ us, u.All P :=
  forall_visits_node (P := fun u => P u.label)

end Tree

namespace Document

variable {s : Source} {t : Text} {c : Search} {us : List (Tree Info)}

def AllFit (t : Text) (us : List (Tree Info)) : Prop := ∀ u ∈ us, u.All (Info.Fits t)

theorem AllFit.nil : AllFit t [] := nofun

theorem AllFit.cons {u : Tree Info} (hu : u.All (Info.Fits t)) (hus : AllFit t us) :
    AllFit t (u :: us) :=
  List.forall_mem_cons.2 ⟨hu, hus⟩

theorem AllFit.append {ws : List (Tree Info)} (hus : AllFit t us) (hws : AllFit t ws) :
    AllFit t (us ++ ws) :=
  List.forall_mem_append.2 ⟨hus, hws⟩

theorem AllFit.reverse (hus : AllFit t us) : AllFit t us.reverse :=
  fun u hu => hus u (List.mem_reverse.1 hu)

theorem AllFit.labels (hus : AllFit t us) : ∀ u ∈ us, u.label.Fits t := by
  rintro ⟨i, below⟩ hu
  exact (Tree.all_node.1 (hus _ hu)).1

theorem AllFit.node {i : Info} (hi : i.Fits t) (hus : AllFit t us) :
    (Tree.node i us).All (Info.Fits t) :=
  Tree.all_node.2 ⟨hi, hus⟩

/-- The source has the lines of the text and their starts. -/
structure Source.Reads (s : Source) (t : Text) : Prop where
  lines : s.lines = Text.lines t
  starts : s.starts = Text.starts (Text.lines t) 0

namespace Source.Reads

theorem line? (h : s.Reads t) {i : Int} (h0 : 0 ≤ i) (hi : i < (Text.lines t).length) :
    ∃ l, s.line? i = some l := by
  obtain ⟨he, hlt⟩ := Text.entry?_of_lt (Text.lines t) h0 hi
  rw [Source.line?, h.lines, he, List.getElem?_eq_getElem hlt]
  exact ⟨_, rfl⟩

theorem line?_eq (h : s.Reads t) {i : Int} (h0 : 0 ≤ i) :
    s.line? i = (Text.lines t)[i.toNat]? := by
  rw [Source.line?, Text.entry?, if_pos h0, h.lines]

theorem point? (h : s.Reads t) {line column : Int} (h1 : 1 ≤ line)
    (hl : line ≤ (Text.lines t).length) (hc : 1 ≤ column) :
    ∃ offset, s.point? line column = some ⟨line, column, offset⟩ ∧
      Point.Fits t ⟨line, column, offset⟩ := by
  have hlength := Text.length_starts (Text.lines t) 0
  have hi : line - 1 < (Text.starts (Text.lines t) 0).length := by omega
  obtain ⟨he, hlt⟩ := Text.entry?_of_lt _ (Int.sub_nonneg.2 h1) hi
  rw [hlength] at hlt
  rw [Source.point?, h.starts, he, Text.getElem?_starts _ _ hlt, Nat.zero_add]
  exact ⟨_, rfl, ⟨h1, hl⟩, hc, rfl⟩

theorem spanOf (h : s.Reads t) {line column line' column' : Int} (h1 : 1 ≤ line)
    (hl : line ≤ (Text.lines t).length) (hc : 1 ≤ column) (h1' : 1 ≤ line')
    (hl' : line' ≤ (Text.lines t).length) (hc' : 1 ≤ column') :
    ∃ span, s.spanOf line column line' column' = .ok span ∧ span.Fits t ∧
      span.Joins line column line' column' := by
  obtain ⟨_, hp, hfits⟩ := h.point? h1 hl hc
  obtain ⟨_, hp', hfits'⟩ := h.point? h1' hl' hc'
  unfold Source.spanOf Source.span?
  rw [hp, hp']
  exact ⟨_, rfl, ⟨hfits, hfits'⟩, ⟨rfl, rfl, rfl, rfl⟩⟩

end Source.Reads

/-- What is found fits, and the search stays on its line. -/
structure FoundIn (t : Text) (c : Search) (r : Option Span × Search) : Prop where
  span : ∀ p ∈ r.1, p.Fits t
  line : r.2.line = c.line

theorem FoundIn.proper {r : Option Span × Search} (h : FoundIn t c r) (hc : c.Proper) :
    r.2.Proper := by
  rw [Search.Proper, h.line]
  exact hc

theorem FoundIn.none : FoundIn t c (none, c) := ⟨by simp, rfl⟩

/-- The span is on the line looked at. -/
def OnLine (c : Search) (span : Option Span) : Prop :=
  ∀ p ∈ span, ∃ i ∈ c.line, p.start.line = i + 1 ∧ p.stop.line = i + 1

theorem OnLine.none : OnLine c none := by simp [OnLine]

theorem OnLine.some {p : Span} {i column column' : Int} (hline : c.line = some i)
    (h : p.Joins (i + 1) column (i + 1) column') : OnLine c (some p) := by
  simp [OnLine, hline, h.startLine, h.stopLine]

theorem OnLine.congr {c' : Search} {span : Option Span} (h : OnLine c span)
    (hc : c'.line = c.line) : OnLine c' span := by
  rw [OnLine, hc]
  exact h

def spansOf (us : List (Tree Info)) : List Span := us.filterMap (·.label.span)

theorem mem_spansOf {b : Span} : b ∈ spansOf us ↔ ∃ u ∈ us, u.label.span = some b :=
  List.mem_filterMap

theorem spansOf_append (us ws : List (Tree Info)) :
    spansOf (us ++ ws) = spansOf us ++ spansOf ws :=
  List.filterMap_append

theorem spansOf_cons (u : Tree Info) (us : List (Tree Info)) :
    spansOf (u :: us) = u.label.span.toList ++ spansOf us := by
  rcases h : u.label.span with _ | b <;> simp [spansOf, h]

/-- How many characters the mark before the text of a container has. -/
def markWidth (kind : Kind) : Nat := if kind = Kind.emphasis ∨ kind = Kind.link then 1 else 2

/-- The mark of a container other than a link has the width that its kind says. -/
def IsMark (kind : Kind) (markup : Text) : Prop :=
  kind ≠ Kind.link → markup.length = markWidth kind

instance (kind : Kind) (markup : Text) : Decidable (IsMark kind markup) :=
  inferInstanceAs (Decidable (_ → _))

/-- From the first located node to the last one, and on both sides as far beyond as the marks of a
container go, but not before the line. A link goes on to its end on the line of the last node. -/
inductive Wraps (s : Source) (kind : Kind) (us : List (Tree Info)) : Option Span → Prop
  | none (h : spansOf us = []) : Wraps s kind us none
  | some (p first last : Span) (column : Int) (hf : (spansOf us).head? = some first)
      (hl : (spansOf us).getLast? = some last)
      (joins : p.Joins first.start.line (max 1 (first.start.column - markWidth kind))
        last.stop.line column)
      (beyond : last.stop.column ≤ column)
      (marked : kind ≠ Kind.link → column = last.stop.column + markWidth kind)
      (linked : kind = Kind.link → ∃ markup l, s.line? (last.stop.line - 1) = some l ∧
        column = Source.linkEnd markup l (last.stop.column - 1) + 1) : Wraps s kind us (some p)

namespace Source.Reads

theorem searchLine? (h : s.Reads t) (hc : c.Proper) :
    ∃ r, s.searchLine? c = .ok r ∧
      ∀ q ∈ r, c.line = some q.1 ∧ 0 ≤ q.1 ∧ q.1 < (Text.lines t).length := by
  obtain ⟨_ | i, column⟩ := c
  · exact ⟨none, rfl, nofun⟩
  · have hi : 0 ≤ i := hc i rfl
    unfold Source.searchLine?
    dsimp only
    split_ifs with hend
    · exact ⟨none, rfl, nofun⟩
    · rw [h.lines, Int.not_le] at hend
      obtain ⟨l, hl⟩ := h.line? hi hend
      rw [hl]
      exact ⟨some (i, l), rfl, by simpa using ⟨hi, hend⟩⟩

theorem locate (h : s.Reads t) (hc : c.Proper) (value : Text) :
    ∃ r, s.locate value c = .ok r ∧ FoundIn t c r ∧ OnLine c r.1 := by
  unfold Source.locate
  split_ifs
  · exact ⟨_, rfl, .none, .none⟩
  · obtain ⟨_ | ⟨i, l⟩, hr, hi⟩ := h.searchLine? hc
    · rw [hr]
      exact ⟨_, rfl, .none, .none⟩
    · obtain ⟨hline, h0, hlt⟩ := hi _ rfl
      rw [hr]
      rcases hf : Text.findFrom? value l c.column with _ | k
      · simp only [Bind.bind, Except.bind, hf]
        exact ⟨_, rfl, .none, .none⟩
      · obtain ⟨span, hspan, hfits, hjoins⟩ : ∃ span, s.spanOf (i + 1) (k + 1) (i + 1)
            (((k + value.length : Nat) : Int) + 1) = .ok span ∧ span.Fits t ∧ span.Joins .. :=
          h.spanOf (by omega) (by omega) (by omega) (by omega) (by omega) (by omega)
        simp only [Bind.bind, Except.bind, hf, hspan]
        exact ⟨_, rfl, ⟨by simpa using hfits, rfl⟩, .some hline hjoins⟩

theorem locateImage (h : s.Reads t) (hc : c.Proper) :
    ∃ r, s.locateImage c = .ok r ∧ FoundIn t c r ∧ OnLine c r.1 := by
  unfold Source.locateImage
  obtain ⟨_ | ⟨i, l⟩, hr, hi⟩ := h.searchLine? hc
  · rw [hr]
    exact ⟨_, rfl, .none, .none⟩
  · obtain ⟨hline, h0, hlt⟩ := hi _ rfl
    rw [hr]
    rcases hf : Text.findFrom? ['!', '['] l c.column with _ | k
    · simp only [Bind.bind, Except.bind, hf]
      exact ⟨_, rfl, .none, .none⟩
    · rcases hf' : Text.findFrom? [')'] l k with _ | close
      · simp only [Bind.bind, Except.bind, hf, hf']
        exact ⟨_, rfl, .none, .none⟩
      · obtain ⟨span, hspan, hfits, hjoins⟩ : ∃ span, s.spanOf (i + 1) (k + 1) (i + 1)
            (close + 2) = .ok span ∧ span.Fits t ∧ span.Joins .. :=
          h.spanOf (by omega) (by omega) (by omega) (by omega) (by omega) (by omega)
        simp only [Bind.bind, Except.bind, hf, hf', hspan]
        exact ⟨_, rfl, ⟨by simpa using hfits, rfl⟩, .some hline hjoins⟩

theorem le_linkEnd (markup l : Text) {stop : Int} (h : 0 ≤ stop) :
    stop ≤ linkEnd markup l stop := by
  unfold linkEnd
  dsimp only
  split_ifs
  · omega
  · split
    · next close hclose =>
      have := (Text.exists_of_findFrom? hclose).1
      omega
    · omega
  · omega
  · omega

theorem wrap (h : s.Reads t) (kind : Kind) (markup : Text) (c : Search)
    (hus : ∀ u ∈ us, u.label.Fits t) :
    ∃ r, s.wrap kind markup us c = .ok r ∧ FoundIn t c r ∧
      (IsMark kind markup → Wraps s kind us r.1) := by
  have hlocated : ∀ p ∈ spansOf us, p.Fits t := by
    intro p hp
    obtain ⟨u, hu, hup⟩ := mem_spansOf.1 hp
    exact hus u hu p hup
  unfold Source.wrap
  dsimp only
  rw [← spansOf]
  generalize hf : (spansOf us).head? = head
  generalize hl : (spansOf us).getLast? = last
  obtain _ | first := head
  · exact ⟨_, rfl, .none, fun _ => .none (List.head?_eq_none_iff.1 hf)⟩
  obtain _ | last := last
  · exact ⟨_, rfl, .none, fun _ => .none (List.getLast?_eq_none_iff.1 hl)⟩
  obtain ⟨⟨h1, h2⟩, h3, -⟩ := (hlocated first (List.mem_of_head? hf)).start
  obtain ⟨⟨h4, h5⟩, h6, -⟩ := (hlocated last (List.mem_of_getLast? hl)).stop
  dsimp only
  split
  · next hkind =>
    obtain ⟨span, hspan, hfits, hjoins⟩ : ∃ span, s.spanOf first.start.line
        (max 1 (first.start.column - markup.length)) last.stop.line
        (last.stop.column + markup.length) = .ok span ∧ span.Fits t ∧ span.Joins .. :=
      h.spanOf h1 h2 (by omega) h4 h5 (by omega)
    rw [hspan]
    refine ⟨_, rfl, ⟨by simpa using hfits, rfl⟩, fun hmark => ?_⟩
    rw [hmark hkind] at hjoins
    exact .some span first last _ hf hl hjoins (by omega) (fun _ => rfl) fun h => absurd h hkind
  · next hkind =>
    obtain ⟨l, hline⟩ : ∃ l, s.line? (last.stop.line - 1) = some l :=
      h.line? (by omega) (by omega)
    have hclose := le_linkEnd markup l (Int.sub_nonneg.2 h6)
    have hwidth : markWidth kind = 1 := if_pos (.inr (not_not.1 hkind))
    obtain ⟨span, hspan, hfits, hjoins⟩ : ∃ span, s.spanOf first.start.line
        (max 1 (first.start.column - 1)) last.stop.line
        (linkEnd markup l (last.stop.column - 1) + 1) = .ok span ∧ span.Fits t ∧ span.Joins .. :=
      h.spanOf h1 h2 (by omega) h4 h5 (by omega)
    rw [hline]
    dsimp only
    rw [hspan]
    refine ⟨_, rfl, ⟨by simpa using hfits, ?_⟩, fun _ => .some span first last _ hf hl
      (hwidth ▸ hjoins) (by omega) (fun h => absurd h hkind) fun _ => ⟨markup, l, hline, rfl⟩⟩
    dsimp only
    split
    · rfl
    · rfl

end Source.Reads

/-- Everything in the state fits, and the search is at a proper line. -/
structure InlineState.Fits (t : Text) (st : InlineState) : Prop where
  search : st.search.Proper
  base : AllFit t st.base
  frames : ∀ f ∈ st.frames, AllFit t f.children

section Inline

variable {st : InlineState} {token : InlineToken} {x : Except Fault InlineState} {i : Info}

theorem Info.fits_of_none (hi : i.span = none) : i.Fits t := by
  intro p hp
  rw [hi] at hp
  cases hp

theorem AllFit.consNode {below : List (Tree Info)} (hi : i.Fits t) (hbelow : AllFit t below)
    (hus : AllFit t us) : AllFit t (.node i below :: us) :=
  AllFit.cons (AllFit.node hi hbelow) hus

theorem InlineState.search_onTop (st : InlineState) (f : List (Tree Info) → List (Tree Info)) :
    (st.onTop f).search = st.search := by
  unfold InlineState.onTop
  split <;> rfl

theorem InlineState.Fits.onTop (h : st.Fits t) (f : List (Tree Info) → List (Tree Info))
    (hf : ∀ us, AllFit t us → AllFit t (f us)) : (st.onTop f).Fits t := by
  obtain ⟨base, _ | ⟨top, rest⟩, search⟩ := st
  · exact ⟨h.search, hf _ h.base, h.frames⟩
  · obtain ⟨htop, hrest⟩ := List.forall_mem_cons.1 h.frames
    exact ⟨h.search, h.base, List.forall_mem_cons.2 ⟨hf _ htop, hrest⟩⟩

theorem InlineState.Fits.push (h : st.Fits t) (hi : i.Fits t) : (st.push i).Fits t :=
  h.onTop (.node i [] :: ·) fun _ hus => AllFit.consNode hi AllFit.nil hus

/-- A text that goes on in another piece begins where it did, and ends where it did or where the
piece does. -/
def GoesOn (i : Info) (span : Option Span) (w : Info) : Prop :=
  i.kind = Kind.text ∧ w.kind = Kind.text ∧ ∀ p ∈ w.span, ∃ a ∈ i.span,
    p.start = a.start ∧ (p.stop = a.stop ∨ ∃ b ∈ span, p.stop = b.stop)

theorem addText_cases (value : Text) (span : Option Span) (us : List (Tree Info)) :
    InlineState.addText value span us =
        .node { kind := Kind.text, value := some value, span := span } [] :: us ∨
      ∃ i w below rest, us = .node i below :: rest ∧
        InlineState.addText value span us = .node w below :: rest ∧ GoesOn i span w := by
  rcases us with _ | ⟨⟨i, below⟩, rest⟩
  · exact .inl rfl
  · by_cases hi : i.kind = Kind.text
    · right
      simp only [InlineState.addText, if_pos hi]
      refine ⟨i, _, below, rest, rfl, rfl, hi, hi, ?_⟩
      intro p hp
      cases hspan : i.span with
      | none => simp [hspan] at hp
      | some a =>
        refine ⟨a, rfl, ?_⟩
        cases span with
        | none =>
          have hpa : a = p := by simpa [hspan] using hp
          exact hpa ▸ ⟨rfl, .inl rfl⟩
        | some b =>
          have hpa : Span.mk a.start b.stop = p := by simpa [hspan] using hp
          exact hpa ▸ ⟨rfl, .inr ⟨b, rfl, rfl⟩⟩
    · left
      simp only [InlineState.addText, if_neg hi]

theorem AllFit.addText {span : Option Span} (hs : ∀ p ∈ span, p.Fits t) (value : Text)
    (hus : AllFit t us) : AllFit t (InlineState.addText value span us) := by
  obtain h | ⟨i, w, below, rest, rfl, h, -, -, hspan⟩ := addText_cases value span us
  · rw [h]
    exact AllFit.consNode hs AllFit.nil hus
  · rw [h]
    obtain ⟨hu, hrest⟩ := List.forall_mem_cons.1 hus
    obtain ⟨hi, hbelow⟩ := Tree.all_node.1 hu
    refine AllFit.consNode (fun p hp => ?_) hbelow hrest
    obtain ⟨a, ha, hstart, hstop | ⟨b, hb, hstop⟩⟩ := hspan p hp
    · exact ⟨hstart ▸ (hi a ha).start, hstop ▸ (hi a ha).stop⟩
    · exact ⟨hstart ▸ (hi a ha).start, hstop ▸ (hs b hb).stop⟩

/-- Whatever way a token of running text goes, it goes there without a fault. -/
theorem InlineWay.fits (hw : InlineWay s token st x) (hs : s.Reads t) (h : st.Fits t) :
    ∃ st', x = .ok st' ∧ st'.Fits t := by
  have hsearch : ∀ c : Search, c.Proper → InlineState.Fits t { st with search := c } :=
    fun c hc => ⟨hc, h.base, h.frames⟩
  cases hw with
  | opens kind hk =>
    exact ⟨_, rfl, h.search, h.base, List.forall_mem_cons.2 ⟨AllFit.nil, h.frames⟩⟩
  | closesNone hn hf => exact ⟨_, rfl, h⟩
  | closes hn f rest hf =>
    obtain ⟨hchildren, hrest⟩ : AllFit t f.children ∧ ∀ g ∈ rest, AllFit t g.children := by
      have hframes := h.frames
      rw [hf] at hframes
      exact List.forall_mem_cons.1 hframes
    obtain ⟨r, hr, hfound, -⟩ := hs.wrap f.info.kind f.markup st.search hchildren.reverse.labels
    have hst : InlineState.Fits t { st with frames := rest, search := r.2 } :=
      ⟨hfound.proper h.search, h.base, hrest⟩
    rw [hr]
    exact ⟨_, rfl, hst.onTop (f.close r.1 :: ·) fun us hus =>
      AllFit.consNode hfound.span hchildren.reverse hus⟩
  | emptyText ht hc => exact ⟨_, rfl, h⟩
  | text ht hc =>
    obtain ⟨r, hr, hfound, -⟩ := hs.locate h.search token.content
    rw [hr]
    exact ⟨_, rfl, (hsearch _ (hfound.proper h.search)).onTop _ fun us hus =>
      hus.addText hfound.span token.content⟩
  | softBreak ht =>
    exact ⟨_, rfl, (hsearch _ h.search.nextLine).onTop _ fun us hus =>
      hus.addText (by simp) ['\n']⟩
  | hardBreak ht =>
    exact ⟨_, rfl, (hsearch _ h.search.nextLine).push (Info.fits_of_none rfl)⟩
  | literal kind ht =>
    obtain ⟨r, hr, hfound, -⟩ := hs.locate h.search token.content
    rw [hr]
    exact ⟨_, rfl, (hsearch _ (hfound.proper h.search)).push hfound.span⟩
  | image ht =>
    obtain ⟨r, hr, hfound, -⟩ := hs.locateImage h.search
    rw [hr]
    exact ⟨_, rfl, (hsearch _ (hfound.proper h.search)).push hfound.span⟩
  | other => exact ⟨_, rfl, h.push (Info.fits_of_none rfl)⟩

theorem InlineState.Fits.finish (h : st.Fits t) : AllFit t st.finish := by
  refine AllFit.append ?_ h.base
  refine List.foldlRecOn (motive := AllFit t) st.frames _ AllFit.nil fun inner hinner f hf => ?_
  exact AllFit.consNode (Info.fits_of_none rfl) (hinner.append (h.frames f hf)).reverse AllFit.nil

theorem addInline_fits (hs : s.Reads t) {line : Option Int} (hl : ∀ i ∈ line, 0 ≤ i)
    (hus : AllFit t us) (tokens : List InlineToken) :
    ∃ ws, addInline s line us tokens = .ok ws ∧ AllFit t ws := by
  have hstart : InlineState.Fits t ⟨us, [], ⟨line, 0⟩⟩ := ⟨hl, hus, by simp⟩
  obtain ⟨st, hst, hfits⟩ : ∃ st, tokens.foldlM (inlineStep s) ⟨us, [], ⟨line, 0⟩⟩ = .ok st ∧
      InlineState.Fits t st :=
    foldlM_total tokens hstart fun token st h => (inlineStep_way s token st).fits hs h
  unfold addInline
  rw [hst]
  exact ⟨_, rfl, hfits.finish⟩

end Inline

end Document
end Outline
