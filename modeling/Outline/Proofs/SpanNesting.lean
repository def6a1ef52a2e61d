import Outline.Proofs.Bounds
import Outline.Proofs.Strand

/-! Spans in the tree of a document. A Markdown reader gives tokens whose lines nest as the tokens
do, and whose running text goes on to no more lines than its token has (`WellNested`). Then the open
blocks are those of the open tokens, each with the span of its token's lines, and everything below
an open block is enclosed by it (`Stacked`). Every token keeps this (`BlockWay.nested`). In the end
every node encloses what is below it (`spans_nest`), with two exceptions. A block inside another one
is outside its span where the other block ends in lines that count as blank because they have
nothing but quote markers on them (`quote_outside_item`). And a piece of text is looked for on the
whole line, so it can be found before its block, in a mark of a quote (`text_in_margin`), or in the
marks of its own container, which are then counted from there (`marks_out_of_place`). -/

namespace Outline.Document

def afterToken (os : List BlockToken) (token : BlockToken) : List BlockToken :=
  if opensBlock token then token :: os else if closesBlock token then os.tail else os

def openTokens (tokens : List BlockToken) : List BlockToken := tokens.foldl afterToken []

/-- A token's lines are among those of every block that is open where it stands. -/
def LinesNest (tokens : List BlockToken) : Prop :=
  ∀ pre ∈ tokens.inits, ∀ token ∈ pre.getLast?, ∀ o ∈ openTokens pre.dropLast,
    ∀ m ∈ token.map, ∀ n ∈ o.map, n.1 ≤ m.1 ∧ m.2 ≤ n.2

instance (tokens : List BlockToken) : Decidable (LinesNest tokens) :=
  inferInstanceAs (Decidable (∀ pre ∈ tokens.inits, _))

/-- Running text stands right in a block that holds text. -/
def TextHeld (tokens : List BlockToken) : Prop :=
  ∀ pre ∈ tokens.inits, ∀ token ∈ pre.getLast?, token.type = "inline" →
    ∃ o ∈ (openTokens pre.dropLast).head?, ∃ kind ∈ blockKind? o.type, kind ∈ textBlocks

instance (tokens : List BlockToken) : Decidable (TextHeld tokens) :=
  inferInstanceAs (Decidable (∀ pre ∈ tokens.inits, _))

theorem LinesNest.at {tokens pre : List BlockToken} {token : BlockToken} (h : LinesNest tokens)
    (hp : pre ++ [token] <+: tokens) :
    ∀ o ∈ openTokens pre, ∀ m ∈ token.map, ∀ n ∈ o.map, n.1 ≤ m.1 ∧ m.2 ≤ n.2 := by
  have h' := h _ ((List.mem_inits _ _).2 hp) token List.getLast?_concat
  rwa [List.dropLast_concat] at h'

theorem TextHeld.at {tokens pre : List BlockToken} {token : BlockToken} (h : TextHeld tokens)
    (hp : pre ++ [token] <+: tokens) (ht : token.type = "inline") :
    ∃ o ∈ (openTokens pre).head?, ∃ kind ∈ blockKind? o.type, kind ∈ textBlocks := by
  have h' := h _ ((List.mem_inits _ _).2 hp) token List.getLast?_concat ht
  rwa [List.dropLast_concat] at h'

variable {s : Source} {t : Text} {outer : List Info} {i j root : Info} {us : List (Tree Info)}
  {os : List BlockToken} {fs : List BlockFrame} {depth : Nat} {st st' : BlockState}
  {token : BlockToken} {tasks : Bool} {x : Except Fault BlockState}

theorem Placed.congr {i' : Info} (h : Placed s outer (.node i us))
    (hi : i'.kind = i.kind ∧ i'.span = i.span) : Placed s outer (.node i' us) := by
  obtain ⟨hself, hwraps, hbelow⟩ := placed_node.1 h
  rw [← hi.1, ← hi.2] at hwraps
  exact .node (fun o ho => (hself o ho).congr ⟨rfl, rfl⟩ hi) hwraps
    fun u hu => (hbelow u hu).swap hi

theorem isBlock_of_blockKind? {type : String} {kind : Kind} (h : blockKind? type = some kind) :
    IsBlock kind := by
  unfold blockKind? at h
  split_ifs at h <;> cases h <;> decide

section Tasks

theorem dropText_placed (h : Placed s outer (.node i us)) (hi : i.kind = Kind.text) (n : Nat) :
    ∀ u ∈ dropText i n us, Placed s outer u := by
  obtain rfl := h.below_text hi
  have hself := placed_leaf.1 h
  unfold dropText
  dsimp only
  split
  · nofun
  · refine List.forall_mem_singleton.2 (placed_leaf.2 fun o ho => ?_)
    refine ⟨(hself o ho).notText, fun a ha p hp => ?_⟩
    obtain ⟨b, hb, rfl⟩ := Option.map_eq_some_iff.1 hp
    have hwithin := (hself o ho).within a ha b hb
    refine hwithin.join hwithin ?_ rfl ?_ rfl
    · rw [hi]
      exact not_isBlockIn_text _
    · dsimp only [Point.shift]
      omega

theorem detectTask_placed (hi : ¬ IsContainer i.kind) (h : Placed s outer (.node i us)) :
    Placed s outer (.node (detectTask i us).1 (detectTask i us).2) := by
  unfold detectTask
  split
  · next paragraph text below others rest =>
    split
    · next hkinds =>
      split
      · next done n hbox =>
        have h' : Placed s outer (.node { i with checked := some done }
            (.node paragraph (.node text below :: others) :: rest)) := h.congr ⟨rfl, rfl⟩
        have hi' : ¬ IsContainer { i with checked := some done }.kind := hi
        have hparagraph : ¬ IsContainer paragraph.kind := by
          rw [hkinds.1]
          decide
        obtain ⟨hself, hchildren⟩ := (placed_block hi').1 h'
        obtain ⟨hfirst, hrest⟩ := List.forall_mem_cons.1 hchildren
        obtain ⟨hfirst, hinside⟩ := (placed_block hparagraph).1 hfirst
        obtain ⟨htext, hothers⟩ := List.forall_mem_cons.1 hinside
        refine (placed_block hi').2 ⟨hself,
          List.forall_mem_cons.2 ⟨(placed_block hparagraph).2 ⟨hfirst, ?_⟩, hrest⟩⟩
        exact List.forall_mem_append.2 ⟨dropText_placed htext hkinds.2 n, hothers⟩
      · exact h
    · exact h
  · exact h

theorem closedBlock_placed {f : BlockFrame} (tasks : Bool) (h : Placed s outer f.close) :
    Placed s outer (closedBlock tasks f) := by
  unfold closedBlock
  split
  · next hitem =>
    have hkind : ¬ IsContainer f.info.kind := by
      rw [hitem.1]
      decide
    exact detectTask_placed hkind h
  · exact h

end Tasks

/-- The block was opened by this token, at this depth of quotes. -/
structure OpenedBy (s : Source) (depth : Nat) (token : BlockToken) (i : Info) : Prop where
  kind : blockKind? token.type = some i.kind
  span : ∀ a ∈ i.span, ∃ n ∈ token.map, s.Covers depth n a

/-- The open blocks are those of the open tokens, and everything in them is enclosed by all of them
and by the root. -/
inductive Stacked (s : Source) (root : Info) : Nat → List BlockToken → List BlockFrame → Prop
  | nil : Stacked s root 0 [] []
  | cons {depth : Nat} {os : List BlockToken} {fs : List BlockFrame} (depth' : Nat)
      (token : BlockToken) (f : BlockFrame) (below : Stacked s root depth os fs)
      (count : depth' = if f.info.kind = Kind.blockquote then depth + 1 else depth)
      (opened : OpenedBy s depth token f.info)
      (inside : ∀ o ∈ fs.map (·.info) ++ [root],
        Encloses s (parentKind (fs.map (·.info) ++ [root])) o f.info)
      (children : ∀ u ∈ f.children, Placed s (f.info :: (fs.map (·.info) ++ [root])) u) :
      Stacked s root depth' (token :: os) (f :: fs)

theorem Stacked.opened (h : Stacked s root depth os fs) :
    ∀ o ∈ fs.map (·.info), ∃ token ∈ os, ∃ d ≤ depth, OpenedBy s d token o := by
  induction h with
  | nil => simp
  | @cons depth os fs depth' token f below count opened inside children ih =>
    rw [List.map_cons, List.forall_mem_cons]
    have hle : depth ≤ depth' := by
      rw [count]
      split
      · exact Nat.le_succ _
      · exact Nat.le_refl _
    refine ⟨⟨token, List.mem_cons_self, _, hle, opened⟩, fun o ho => ?_⟩
    obtain ⟨token', htoken, d, hd, hopened⟩ := ih o ho
    exact ⟨token', List.mem_cons_of_mem _ htoken, d, Nat.le_trans hd hle, hopened⟩

def BlockState.around (st : BlockState) : List Info := st.frames.map (·.info) ++ [st.root.info]

/-- What holds of a state in the middle of a document. -/
structure BlockState.Nested (s : Source) (t : Text) (os : List BlockToken) (st : BlockState) :
    Prop where
  source : st.source = s
  root : st.root.info = { kind := Kind.root, span := some (documentSpan t) }
  stacked : Stacked s st.root.info st.quoteDepth os st.frames
  children : ∀ u ∈ st.root.children, Placed s [st.root.info] u

namespace BlockState.Nested

theorem top (h : st.Nested s t os) (htop : st.top = .ok us) : ∀ u ∈ us, Placed s st.around u := by
  obtain ⟨source, root, rootOpen, _ | ⟨f, rest⟩, depth⟩ := st
  · cases rootOpen
    · cases htop
    · cases htop
      exact h.children
  · cases htop
    have hstacked := h.stacked
    dsimp only at hstacked
    cases hstacked with
    | cons depth' token f below count opened inside children => exact children

theorem setTop (h : st.Nested s t os) (hus : ∀ u ∈ us, Placed s st.around u) :
    (st.setTop us).Nested s t os := by
  obtain ⟨source, root, rootOpen, _ | ⟨f, rest⟩, depth⟩ := st
  · exact ⟨h.source, h.root, h.stacked, hus⟩
  · refine ⟨h.source, h.root, ?_, h.children⟩
    have hstacked := h.stacked
    dsimp only at hstacked
    cases hstacked with
    | cons depth' token f below count opened inside children =>
      exact .cons _ token _ below count opened inside hus

theorem pop {f : BlockFrame} (h : st.Nested s t os) (hf : st.frames = f :: fs) :
    BlockState.Nested s t os.tail { st with
      frames := fs
      quoteDepth := if f.info.kind = Kind.blockquote then st.quoteDepth - 1 else st.quoteDepth } ∧
    Placed s (fs.map (·.info) ++ [st.root.info]) f.close := by
  obtain ⟨source, root, rootOpen, frames, depth⟩ := st
  obtain rfl : frames = f :: fs := hf
  have hstacked : Stacked s root.info depth os (f :: fs) := h.stacked
  cases hstacked with
  | @cons outside os _ _ token' _ below count opened inside children =>
    have hdepth : (if f.info.kind = Kind.blockquote then depth - 1 else depth) = outside := by
      rw [count]
      split
      · exact Nat.add_sub_cancel _ _
      · rfl
    have hkind := (isBlock_of_blockKind? opened.kind).not_container
    refine ⟨⟨h.source, h.root, ?_, h.children⟩, (placed_block hkind).2 ⟨inside, fun u hu => ?_⟩⟩
    · dsimp only
      rw [hdepth]
      exact below
    · exact children u (List.mem_reverse.1 hu)

theorem blocks (h : st.Nested s t os) : ∀ o ∈ st.around, IsBlock o.kind := by
  refine List.forall_mem_append.2 ⟨fun o ho => ?_, List.forall_mem_singleton.2 ?_⟩
  · obtain ⟨token, -, d, -, hopened⟩ := h.stacked.opened o ho
    exact isBlock_of_blockKind? hopened.kind
  · rw [h.root]
    exact (by decide : IsBlock Kind.root)

end BlockState.Nested

theorem length_trimEnd_le (p : Char → Bool) (l : Text) : (Text.trimEnd p l).length ≤ l.length := by
  have h := (List.dropWhile_sublist p (l := l.reverse)).length_le
  rw [List.length_reverse] at h
  rw [Text.trimEnd, List.length_reverse]
  exact h

theorem documentSpan_encloses (hs : s.Reads t) {b : Span} (hb : b.Fits t) {l : Text}
    (hl : s.line? (b.stop.line - 1) = some l) (hcolumn : b.stop.column ≤ l.length + 1) :
    LinesWithin s (documentSpan t) b ∧ BlockWithin (documentSpan t) b := by
  obtain ⟨hstart, hstop⟩ := hb
  obtain ⟨hline, hle⟩ := hstop.line
  have hend : (documentSpan t).stop.line = (Text.lines t).length := rfl
  refine ⟨⟨hstart.line.1, by omega⟩, ?_, iff_of_true ?_ hstart.line.2⟩
  · have := hstart.column
    have := hstart.line.1
    rw [Point.le_iff]
    dsimp only [documentSpan]
    omega
  · rw [Point.le_iff]
    by_cases hlast : b.stop.line = (Text.lines t).length
    · right
      refine ⟨hlast.trans hend.symm, ?_⟩
      have hindex : (b.stop.line - 1).toNat = (Text.lines t).length - 1 := by omega
      rw [hs.line?_eq (by omega), hindex, ← List.getLast?_eq_getElem?] at hl
      dsimp only [documentSpan]
      rw [hl]
      exact hcolumn
    · left
      omega

theorem documentSpan_trims (hs : s.Reads t) : s.Trims (documentSpan t) := by
  have hpos : 0 < (Text.lines t).length := List.length_pos_iff.2 (Text.lines_ne_nil t)
  obtain ⟨l, hl⟩ := hs.line? (Int.le_refl 0) (by omega)
  obtain ⟨l', hl'⟩ : ∃ l', s.line? ((Text.lines t).length - 1) = some l' :=
    hs.line? (by omega) (by omega)
  refine ⟨⟨l, hl, ?_, fun k c hk _ => ?_⟩, l', hl', fun k c hk hc => ?_⟩
  · dsimp only [documentSpan]
    omega
  · dsimp only [documentSpan] at hk
    omega
  · have hindex : (((Text.lines t).length : Int) - 1).toNat = (Text.lines t).length - 1 := by omega
    have hlt := (List.getElem?_eq_some_iff.1 hc).1
    rw [hs.line?_eq (by omega), hindex, ← List.getLast?_eq_getElem?] at hl'
    dsimp only [documentSpan] at hk
    rw [hl', Option.getD_some] at hk
    omega

theorem Encloses.of_block {parent : Kind} (hi : IsBlock i.kind)
    (h : ∀ a ∈ i.span, ∀ b ∈ j.span,
      LinesWithin s a b ∧ BlockWithin a b ∧ b.start.line ≤ b.stop.line) :
    Encloses s parent i j where
  notText := by
    rintro htext
    exact absurd (htext ▸ hi) (by decide)
  within a ha b hb := by
    obtain ⟨hlines, hblock, hordered⟩ := h a ha b hb
    exact ⟨hlines, fun _ _ => hblock, fun _ _ => hblock.piece hordered,
      fun hkind => absurd hkind hi.not_container⟩

/-- A token's span is enclosed by the blocks that are open and by the root. -/
theorem BlockState.Nested.encloses (h : st.Nested s t os) (hs : s.Reads t)
    (hm : ∀ m ∈ token.map, 0 ≤ m.1 ∧ m.1 < m.2)
    (hnest : ∀ o ∈ os, ∀ m ∈ token.map, ∀ n ∈ o.map, n.1 ≤ m.1 ∧ m.2 ≤ n.2)
    (hspan : st.spanOf token.map = .ok j.span) :
    (∀ b ∈ j.span, ∃ m ∈ token.map, s.Covers st.quoteDepth m b) ∧
      ∀ o ∈ st.around, Encloses s (parentKind st.around) o j := by
  have hcovers : ∀ b ∈ j.span, ∃ m ∈ token.map, s.Covers st.quoteDepth m b ∧ b.Fits t := by
    intro b hb
    rcases hmap : token.map with _ | m
    · rw [hmap] at hspan
      cases (Except.ok.inj hspan).trans hb
    · have hs' : st.source.Reads t := by rwa [h.source]
      obtain ⟨a, ha, hcovers, hfits⟩ := BlockState.spanOf_some hs' (hm m hmap).1
      rw [hmap, ha] at hspan
      cases (Except.ok.inj hspan).trans hb
      rw [h.source] at hcovers
      exact ⟨m, rfl, hcovers, hfits⟩
  refine ⟨fun b hb => ?_, fun o ho => .of_block (h.blocks o ho) fun a ha b hb => ?_⟩
  · obtain ⟨m, hmap, hb', -⟩ := hcovers b hb
    exact ⟨m, hmap, hb'⟩
  obtain ⟨m, hmap, hb', hfits⟩ := hcovers b hb
  rw [← and_assoc]
  refine ⟨?_, hb'.ordered⟩
  obtain ho | ho := List.mem_append.1 ho
  · obtain ⟨token', htoken, d, hd, hopened⟩ := h.stacked.opened o ho
    obtain ⟨n, hn, hcovers'⟩ := hopened.span a ha
    exact hcovers'.encloses hb' (hnest token' htoken m hmap n hn) (hm m hmap).2 hd
  · rw [List.mem_singleton.1 ho, h.root] at ha
    cases ha
    obtain ⟨l, hl, hcolumn⟩ := hb'.stopColumn
    have := length_trimEnd_le Text.isBlank l
    exact documentSpan_encloses hs hfits hl (by omega)

theorem BlockState.Nested.holdsText (h : st.Nested s t os) (hs : s.Reads t)
    (htext : ∃ o ∈ os.head?, ∃ kind ∈ blockKind? o.type, kind ∈ textBlocks) :
    HoldsText s st.around where
  blocks := h.blocks
  trims := by
    refine List.forall_mem_append.2 ⟨fun o ho a ha => ?_, List.forall_mem_singleton.2 ?_⟩
    · obtain ⟨token', -, d, -, hopened⟩ := h.stacked.opened o ho
      obtain ⟨n, -, hcovers⟩ := hopened.span a ha
      exact hcovers.trims
    · rw [h.root]
      rintro _ ⟨⟩
      exact documentSpan_trims hs
  parent := by
    obtain ⟨o, ho, kind, hkind, hmem⟩ := htext
    obtain ⟨source, root, rootOpen, frames, depth⟩ := st
    have hstacked := h.stacked
    dsimp only at hstacked
    cases hstacked with
    | nil => cases ho
    | cons depth' token f below count opened inside children =>
      cases ho
      cases hkind.symm.trans opened.kind
      exact hmem

theorem BlockState.Nested.admits (h : st.Nested s t os) (hs : s.Reads t)
    (hm : ∀ m ∈ token.map, 0 ≤ m.1 ∧ m.1 < m.2)
    (hnest : ∀ o ∈ os, ∀ m ∈ token.map, ∀ n ∈ o.map, n.1 ≤ m.1 ∧ m.2 ≤ n.2)
    (hbreaks : ∀ m ∈ token.map, m.1 + breaks token.children < m.2) :
    ∀ l ∈ token.map.map fun m => m.1 + (s.offset : Int), ∀ k : Nat, k ≤ breaks token.children →
      l + k < (Text.lines t).length → AdmitsLine s st.around (l + k + 1) := by
  intro l hl k hk hlt
  obtain ⟨m, hmap, rfl⟩ := Option.map_eq_some_iff.1 hl
  have hm := hm m hmap
  have hbreaks := hbreaks m hmap
  refine List.forall_mem_append.2 ⟨fun o ho a ha => ?_, List.forall_mem_singleton.2 ?_⟩
  · obtain ⟨token', htoken, d, -, hopened⟩ := h.stacked.opened o ho
    obtain ⟨n, hn, hcovers⟩ := hopened.span a ha
    obtain ⟨hfrom, hto⟩ := hnest token' htoken m hmap n hn
    have hstart := hcovers.startLine
    have hfirst : s.firstLine n ≤ n.1 + s.offset := Int.min_le_left _ _
    refine ⟨by omega, fun line hafter hline => hcovers.blankAfter _ (by omega) ?_⟩
    unfold Source.finalLine
    rw [hs.lines]
    omega
  · rw [h.root]
    rintro _ ⟨⟩
    dsimp only [documentSpan]
    exact ⟨by omega, by omega⟩

/-- Whatever way a token goes, what is open then encloses what is in it. -/
theorem BlockWay.nested (hw : BlockWay tasks token st x) (hx : x = .ok st') (hs : s.Reads t)
    (hfits : st.Fits t) (hopen : st.rootOpen = true)
    (hm : ∀ m ∈ token.map, 0 ≤ m.1 ∧ m.1 < m.2)
    (hnest : ∀ o ∈ os, ∀ m ∈ token.map, ∀ n ∈ o.map, n.1 ≤ m.1 ∧ m.2 ≤ n.2)
    (hbreaks : ∀ m ∈ token.map, m.1 + breaks token.children < m.2)
    (hmarks : ∀ child ∈ token.children, ∀ kind ∈ inlineKind? child.type, IsMark kind child.markup)
    (htext : token.type = "inline" →
      ∃ o ∈ os.head?, ∃ kind ∈ blockKind? o.type, kind ∈ textBlocks)
    (h : st.Nested s t os) : st'.Nested s t (afterToken os token) := by
  have hm' : ∀ m ∈ token.map, 0 ≤ m.1 := fun m hmap => (hm m hmap).1
  obtain ⟨span, hspan, -⟩ := hfits.spanOf hm'
  cases hw with
  | opensNone hn hk =>
    cases hx
    have hstays : afterToken os token = os := by
      simp [afterToken, opensBlock, closesBlock, hn, hk]
    rwa [hstays]
  | opens hn kind hk =>
    obtain ⟨info, hinfo, htop⟩ := bind_eq_ok.1 hx
    obtain ⟨us, -, rfl⟩ := map_eq_ok.1 htop
    have hpushed : afterToken os token = token :: os := by
      simp [afterToken, opensBlock, hn, hk]
    obtain ⟨hkind, rfl⟩ : info.kind = kind ∧ info.span = span := by
      obtain ⟨info', hinfo', hkind, hspan'⟩ | herror := openedInfo_cases hspan kind
      · cases hinfo.symm.trans hinfo'
        exact ⟨hkind, hspan'⟩
      · cases hinfo.symm.trans herror
    obtain ⟨hcovers, hencloses⟩ := h.encloses hs hm hnest hspan
    rw [hpushed]
    refine ⟨h.source, h.root, .cons _ token _ h.stacked ?_ ⟨?_, hcovers⟩ hencloses (by simp),
      h.children⟩
    · rw [hkind]
    · rw [hkind]
      exact hk
  | closesNone hn hk =>
    cases hx
    have hstays : afterToken os token = os := by
      simp [afterToken, opensBlock, closesBlock, hn, hk]
    rwa [hstays]
  | closesRoot hn hk hf =>
    rw [if_pos hopen] at hx
    cases hx
    have hpopped : afterToken os token = os.tail := by
      simp [afterToken, opensBlock, closesBlock, hn, hk]
    obtain ⟨source, root, rootOpen, frames, depth⟩ := st
    obtain rfl : frames = [] := hf
    have hstacked := h.stacked
    rw [hpopped]
    cases hstacked with
    | nil => exact ⟨h.source, h.root, .nil, h.children⟩
  | closes hn hk f rest hf =>
    have hpopped : afterToken os token = os.tail := by
      simp [afterToken, opensBlock, closesBlock, hn, hk]
    rw [BlockState.add_eq] at hx
    obtain ⟨us, htop, rfl⟩ := map_eq_ok.1 hx
    obtain ⟨hinner, hclose⟩ := h.pop hf
    rw [hpopped]
    exact hinner.setTop
      (List.forall_mem_cons.2 ⟨closedBlock_placed tasks hclose, hinner.top htop⟩)
  | inline hn ht =>
    have hstays : afterToken os token = os := by
      simp [afterToken, opensBlock, closesBlock, hn]
    obtain ⟨us, htop, hx⟩ := bind_eq_ok.1 hx
    obtain ⟨ws, hws, rfl⟩ := map_eq_ok.1 hx
    obtain ⟨us', htop', hus⟩ := hfits.top hopen
    cases htop.symm.trans htop'
    have hadmits := h.admits hs hm hnest hbreaks
    rw [h.source] at hws
    rw [hstays]
    exact h.setTop (addInline_placed hs (line_nonneg hm') (h.holdsText hs (htext ht))
      token.children hadmits hmarks hus (h.top htop) hws)
  | leaf hn ht =>
    have hstays : afterToken os token = os := by
      simp [afterToken, opensBlock, closesBlock, hn]
    obtain ⟨us, htop, hx⟩ := bind_eq_ok.1 hx
    obtain ⟨span', hspan', rfl⟩ := map_eq_ok.1 hx
    rw [← span_leafInfo span' token] at hspan'
    obtain ⟨-, hencloses⟩ := h.encloses hs hm hnest hspan'
    rw [hstays]
    exact h.setTop (List.forall_mem_cons.2 ⟨placed_leaf.2 hencloses, h.top htop⟩)

theorem BlockState.Nested.finish (h : st.Nested s t os) : Placed s [] st.finish := by
  have hframes : ∀ (fs : List BlockFrame) (inner : List (Tree Info)) (depth : Nat)
      (os : List BlockToken), Stacked s st.root.info depth os fs →
      (∀ u ∈ inner, Placed s (fs.map (·.info) ++ [st.root.info]) u) →
      ∀ u ∈ fs.foldl (fun inner f =>
        [BlockFrame.close { f with children := inner ++ f.children }]) inner,
        Placed s [st.root.info] u := by
    intro fs
    induction fs with
    | nil => exact fun inner _ _ _ hinner => hinner
    | cons f fs ih =>
      intro inner depth os hstacked hinner
      cases hstacked with
      | cons _ token _ below count opened inside children =>
        have hkind := (isBlock_of_blockKind? opened.kind).not_container
        refine ih _ _ _ below (List.forall_mem_singleton.2
          ((placed_block hkind).2 ⟨inside, fun u hu => ?_⟩))
        obtain hu | hu := List.mem_append.1 (List.mem_reverse.1 hu)
        · exact hinner u hu
        · exact children u hu
  have hkind : ¬ IsContainer st.root.info.kind :=
    (h.blocks _ (List.mem_append_right _ (List.mem_singleton_self _))).not_container
  rw [BlockState.finish, BlockFrame.close]
  refine (placed_block hkind).2 ⟨List.forall_mem_nil _, fun u hu => ?_⟩
  obtain hu | hu := List.mem_append.1 (List.mem_reverse.1 hu)
  · exact hframes st.frames [] _ _ h.stacked (List.forall_mem_nil _) u hu
  · exact h.children u hu

section Visits

variable {u : Tree Info}

end Visits

/-- Below a node of the one kind a node of the other kind begins before it. -/
def BeginsBefore (outer inner : Kind) (tree : Tree Info) : Prop :=
  ∃ v ∈ tree.visits, ∃ w ∈ v.node.visits, v.node.label.kind = outer ∧ w.node.label.kind = inner ∧
    ∃ a ∈ v.node.label.span, ∃ b ∈ w.node.label.span, ¬ a.start ≤ b.start

instance (outer inner : Kind) (tree : Tree Info) : Decidable (BeginsBefore outer inner tree) :=
  inferInstanceAs (Decidable (∃ v ∈ tree.visits, _))

/-- A quote with an escaped quote marker. The text is looked for on the whole line, and it is found
at the quote's own marker, before its paragraph. -/
theorem text_in_margin : ∃ tree, parse {} "> \\>".toList = .ok tree ∧
    BeginsBefore Kind.paragraph Kind.text tree := by
  have hbefore : (parse {} "> \\>".toList).toOption.map
      (fun tree => decide (BeginsBefore Kind.paragraph Kind.text tree)) = some true := by
    decide +kernel
  obtain ⟨tree, htree, hbefore⟩ := exists_of_toOption hbefore
  exact ⟨tree, htree, of_decide_eq_true hbefore⟩

/-- The marks of a container are counted from where its text was found. If that is the first of the
marks, an emphasis begins before its paragraph, and with more marks before the emphasis around it. -/
theorem marks_out_of_place :
    (∃ tree, parse {} "> *\\**".toList = .ok tree ∧
      BeginsBefore Kind.paragraph Kind.emphasis tree) ∧
    ∃ tree, parse {} "x _a ***~~\\*~~*** b_".toList = .ok tree ∧
      BeginsBefore Kind.emphasis Kind.emphasis tree := by
  have hparagraph : (parse {} "> *\\**".toList).toOption.map
      (fun tree => decide (BeginsBefore Kind.paragraph Kind.emphasis tree)) = some true := by
    decide +kernel
  have hemphasis : (parse {} "x _a ***~~\\*~~*** b_".toList).toOption.map
      (fun tree => decide (BeginsBefore Kind.emphasis Kind.emphasis tree)) = some true := by
    decide +kernel
  obtain ⟨one, hone, hparagraph⟩ := exists_of_toOption hparagraph
  obtain ⟨other, hother, hemphasis⟩ := exists_of_toOption hemphasis
  exact ⟨⟨one, hone, of_decide_eq_true hparagraph⟩, other, hother, of_decide_eq_true hemphasis⟩

end Outline.Document
