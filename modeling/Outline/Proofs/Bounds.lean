import Outline.Proofs.Body
import Outline.Proofs.BlockSpans

/-! Documents made of any tokens. While the root is open, a token leaves a state whose spans fit, or
stops at a number that is none (`BlockWay.fits`). If no beginning of the tokens closes more blocks
than it opens, the number of open blocks is the difference of the two, and the root is never closed
(`Underway.step`). So the look ups in the lines of the text and in the open blocks all succeed
(`parseWith_positions`). -/

namespace Outline

theorem Point.Fits.shift {t : Text} {p : Point} (h : p.Fits t) (n : Nat) :
    (Document.Point.shift p n).Fits t where
  line := h.line
  column := by
    have := h.column
    dsimp only [Document.Point.shift]
    omega
  offset := by
    dsimp only [Document.Point.shift]
    rw [h.offset, Option.map_some]
    congr 1
    omega

namespace Document

def opensBlock (token : BlockToken) : Bool :=
  decide (token.nesting = .opens) && (blockKind? token.type).isSome

def closesBlock (token : BlockToken) : Bool :=
  decide (token.nesting = .closes) && (blockKind? (openingOf token.type)).isSome

/-- No beginning of the tokens closes more blocks than it opens. -/
def Balanced (tokens : List BlockToken) : Prop :=
  ∀ pre ∈ tokens.inits, pre.countP closesBlock ≤ pre.countP opensBlock

instance (tokens : List BlockToken) : Decidable (Balanced tokens) :=
  inferInstanceAs (Decidable (∀ pre ∈ tokens.inits, _))

variable {t : Text} {st st' : BlockState} {f : BlockFrame} {token : BlockToken} {tasks : Bool}
  {us : List (Tree Info)} {x : Except Fault BlockState}

structure BlockFrame.Fits (t : Text) (f : BlockFrame) : Prop where
  info : f.info.Fits t
  children : AllFit t f.children

structure BlockState.Fits (t : Text) (st : BlockState) : Prop where
  source : st.source.Reads t
  root : st.root.Fits t
  frames : ∀ f ∈ st.frames, f.Fits t

theorem BlockFrame.Fits.close (h : f.Fits t) : f.close.All (Info.Fits t) :=
  AllFit.node h.info h.children.reverse

theorem dropText_fits {i : Info} (hi : i.Fits t) (n : Nat) (hus : AllFit t us) :
    AllFit t (dropText i n us) := by
  unfold dropText
  dsimp only
  split
  · exact AllFit.nil
  · refine AllFit.consNode ?_ hus AllFit.nil
    intro p hp
    obtain ⟨a, ha, rfl⟩ := Option.map_eq_some_iff.1 hp
    exact ⟨(hi a ha).start.shift n, (hi a ha).stop⟩

theorem detectTask_fits {item : Info} (hi : item.Fits t) (hus : AllFit t us) :
    (Tree.node (detectTask item us).1 (detectTask item us).2).All (Info.Fits t) := by
  unfold detectTask
  split
  · next paragraph text below others rest =>
    obtain ⟨hfirst, hrest⟩ := List.forall_mem_cons.1 hus
    obtain ⟨hparagraph, hchildren⟩ := Tree.all_node.1 hfirst
    obtain ⟨htext, hothers⟩ := List.forall_mem_cons.1 hchildren
    obtain ⟨htext, hbelow⟩ := Tree.all_node.1 htext
    split
    · split
      · next done n hbox =>
        exact AllFit.node hi
          (AllFit.consNode hparagraph ((dropText_fits htext n hbelow).append hothers) hrest)
      · exact AllFit.node hi hus
    · exact AllFit.node hi hus
  · exact AllFit.node hi hus

theorem closedBlock_fits (tasks : Bool) (h : f.Fits t) :
    (closedBlock tasks f).All (Info.Fits t) := by
  unfold closedBlock
  split
  · exact detectTask_fits h.info h.children.reverse
  · exact h.close

namespace BlockState

/-- While the root is open, there is a block to add to. -/
theorem Fits.top (h : st.Fits t) (hopen : st.rootOpen = true) :
    ∃ us, st.top = .ok us ∧ AllFit t us := by
  obtain ⟨source, root, rootOpen, _ | ⟨f, rest⟩, depth⟩ := st
  · cases hopen
    exact ⟨_, rfl, h.root.children⟩
  · exact ⟨_, rfl, (h.frames f List.mem_cons_self).children⟩

theorem Fits.setTop (h : st.Fits t) (hus : AllFit t us) : (st.setTop us).Fits t := by
  obtain ⟨source, root, rootOpen, _ | ⟨f, rest⟩, depth⟩ := st
  · exact ⟨h.source, ⟨h.root.info, hus⟩, h.frames⟩
  · obtain ⟨hf, hrest⟩ := List.forall_mem_cons.1 h.frames
    exact ⟨h.source, h.root, List.forall_mem_cons.2 ⟨⟨hf.info, hus⟩, hrest⟩⟩

theorem length_setTop (st : BlockState) (us : List (Tree Info)) :
    (st.setTop us).frames.length = st.frames.length := by
  obtain ⟨source, root, rootOpen, _ | ⟨f, rest⟩, depth⟩ := st
  · rfl
  · rfl

theorem rootOpen_setTop (st : BlockState) (us : List (Tree Info)) :
    (st.setTop us).rootOpen = st.rootOpen := by
  obtain ⟨source, root, rootOpen, _ | ⟨f, rest⟩, depth⟩ := st
  · rfl
  · rfl

theorem add_eq (st : BlockState) (u : Tree Info) :
    st.add u = st.top.map fun us => st.setTop (u :: us) := bind_ok_eq_map ..

theorem spanOf_some (hs : st.source.Reads t) {m : Int × Int} (hm : 0 ≤ m.1) :
    ∃ a, st.spanOf (some m) = .ok (some a) ∧ st.source.Covers st.quoteDepth m a ∧ a.Fits t := by
  obtain ⟨a, ha, hcovers, hfits⟩ := hs.blockSpan? hm st.quoteDepth
  refine ⟨a, ?_, hcovers, hfits⟩
  rw [BlockState.spanOf, ha]

theorem Fits.spanOf (h : st.Fits t) {map : Option (Int × Int)} (hm : ∀ m ∈ map, 0 ≤ m.1) :
    ∃ span, st.spanOf map = .ok span ∧ ∀ p ∈ span, p.Fits t := by
  cases map with
  | none => exact ⟨none, rfl, by simp⟩
  | some m =>
    obtain ⟨a, ha, -, hfits⟩ := spanOf_some h.source (hm m rfl)
    exact ⟨some a, ha, by simpa using hfits⟩

theorem Fits.finish (h : st.Fits t) : st.finish.All (Info.Fits t) := by
  refine AllFit.node h.root.info (AllFit.append ?_ h.root.children).reverse
  refine List.foldlRecOn (motive := AllFit t) st.frames _ AllFit.nil fun inner hinner f hf => ?_
  have hframe : f.Fits t := h.frames f hf
  exact AllFit.consNode hframe.info (hinner.append hframe.children).reverse AllFit.nil

end BlockState

theorem kind_of_blockKind? {type : String} {kind : Kind} (h : blockKind? type = some kind) :
    kind ≠ Kind.text := by
  unfold blockKind? at h
  split_ifs at h <;> cases h <;> decide

theorem listStart_error {v : Value} {e : Fault} (h : listStart v = .error e) : e = .badNumber := by
  unfold listStart at h
  split at h
  · cases h
  · split at h <;> split at h <;> cases h <;> rfl

/-- The node of an opening token is of the token's kind and has its span, or a number is none. -/
theorem openedInfo_cases {span : Option Span} (hspan : st.spanOf token.map = .ok span)
    (kind : Kind) :
    (∃ info, openedInfo st token kind = .ok info ∧ info.kind = kind ∧ info.span = span) ∨
      openedInfo st token kind = .error .badNumber := by
  unfold openedInfo
  rw [hspan]
  by_cases hheading : kind = Kind.heading
  · rcases hdepth : Number.readInt? (token.tag.drop 1) with _ | d
    · right
      simp only [Bind.bind, Except.bind, if_pos hheading]
    · left
      simp only [Bind.bind, Except.bind, if_pos hheading]
      exact ⟨_, rfl, rfl, rfl⟩
  by_cases hlist : kind = Kind.list ∧ token.type = "ordered_list_open"
  · rcases hstart : listStart (token.attributes.get "start") with e | n
    · right
      simp only [Bind.bind, Except.bind, if_neg hheading, if_pos hlist.1, if_pos hlist.2,
        listStart_error hstart]
    · left
      simp only [Bind.bind, Except.bind, if_neg hheading, if_pos hlist.1, if_pos hlist.2]
      exact ⟨_, rfl, rfl, rfl⟩
  · left
    simp only [Bind.bind, Except.bind, if_neg hheading]
    split
    · next hk =>
      rw [if_neg fun ht => hlist ⟨hk, ht⟩]
      exact ⟨_, rfl, rfl, rfl⟩
    · exact ⟨_, rfl, rfl, rfl⟩

theorem kind_openedInfo {kind : Kind} {info : Info} (h : openedInfo st token kind = .ok info) :
    info.kind = kind := by
  obtain ⟨span, hspan, -⟩ := bind_eq_ok.1 h
  obtain ⟨info', hinfo, hkind, -⟩ | herror := openedInfo_cases hspan kind
  · cases h.symm.trans hinfo
    exact hkind
  · cases h.symm.trans herror

theorem span_leafInfo (span : Option Span) (token : BlockToken) :
    (leafInfo span token).span = span := by
  unfold leafInfo
  split_ifs <;> rfl

theorem kind_leafInfo (span : Option Span) (token : BlockToken) :
    (leafInfo span token).kind = token.type ∨
      (leafInfo span token).kind ∈ [Kind.code, Kind.thematicBreak, Kind.html] := by
  unfold leafInfo
  split_ifs
  · exact .inr List.mem_cons_self
  · exact .inr List.mem_cons_self
  · exact .inr (by simp)
  · exact .inr (by simp)
  · exact .inl rfl
  · exact .inl rfl

theorem line_nonneg {s : Source} (hm : ∀ m ∈ token.map, 0 ≤ m.1) :
    ∀ i ∈ token.map.map fun m => m.1 + (s.offset : Int), 0 ≤ i := by
  intro i hi
  obtain ⟨m, hmap, rfl⟩ := Option.map_eq_some_iff.1 hi
  have := hm m hmap
  omega

theorem BlockState.Fits.top_of_ok (h : st.Fits t) (htop : st.top = .ok us) : AllFit t us := by
  obtain ⟨source, root, rootOpen, _ | ⟨f, rest⟩, depth⟩ := st
  · cases rootOpen
    · cases htop
    · cases htop
      exact h.root.children
  · cases htop
    exact (h.frames f List.mem_cons_self).children

theorem BlockWay.fits_of_ok (hw : BlockWay tasks token st x) (hx : x = .ok st') (h : st.Fits t)
    (hm : ∀ m ∈ token.map, 0 ≤ m.1) : st'.Fits t := by
  obtain ⟨span, hspan, hspanFits⟩ := h.spanOf hm
  cases hw with
  | opensNone hn hk =>
    cases hx
    exact h
  | opens hn kind hk =>
    obtain ⟨info, hinfo, htop⟩ := bind_eq_ok.1 hx
    obtain ⟨us, -, rfl⟩ := map_eq_ok.1 htop
    obtain ⟨info', hinfo', -, rfl⟩ | herror := openedInfo_cases hspan kind
    · cases hinfo.symm.trans hinfo'
      exact ⟨h.source, h.root, List.forall_mem_cons.2 ⟨⟨hspanFits, AllFit.nil⟩, h.frames⟩⟩
    · cases hinfo.symm.trans herror
  | closesNone hn hk =>
    cases hx
    exact h
  | closesRoot hn hk hf =>
    split at hx
    · cases hx
      exact ⟨h.source, h.root, h.frames⟩
    · cases hx
  | closes hn hk f rest hf =>
    obtain ⟨hclosed, hrest⟩ : f.Fits t ∧ ∀ g ∈ rest, g.Fits t := by
      have hframes := h.frames
      rw [hf] at hframes
      exact List.forall_mem_cons.1 hframes
    have hst : ∀ depth, BlockState.Fits t { st with frames := rest, quoteDepth := depth } :=
      fun _ => ⟨h.source, h.root, hrest⟩
    rw [BlockState.add_eq] at hx
    obtain ⟨us, htop, rfl⟩ := map_eq_ok.1 hx
    exact (hst _).setTop (AllFit.cons (closedBlock_fits tasks hclosed) ((hst _).top_of_ok htop))
  | inline hn ht =>
    obtain ⟨us, htop, hx⟩ := bind_eq_ok.1 hx
    obtain ⟨ws, hws, rfl⟩ := map_eq_ok.1 hx
    obtain ⟨ws', hws', hfits⟩ :=
      addInline_fits h.source (line_nonneg hm) (h.top_of_ok htop) token.children
    cases hws.symm.trans hws'
    exact h.setTop hfits
  | leaf hn ht =>
    obtain ⟨us, htop, hx⟩ := bind_eq_ok.1 hx
    obtain ⟨span', hspan', rfl⟩ := map_eq_ok.1 hx
    cases hspan.symm.trans hspan'
    have hleaf : (leafInfo span token).Fits t := by
      intro p hp
      rw [span_leafInfo] at hp
      exact hspanFits p hp
    exact h.setTop (AllFit.consNode hleaf AllFit.nil (h.top_of_ok htop))

/-- Whatever way a token goes while the root is open, what can be wrong is a number. -/
theorem BlockWay.ok_or_badNumber (hw : BlockWay tasks token st x) (h : st.Fits t)
    (hopen : st.rootOpen = true) (hm : ∀ m ∈ token.map, 0 ≤ m.1) :
    (∃ st', x = .ok st') ∨ x = .error .badNumber := by
  obtain ⟨span, hspan, -⟩ := h.spanOf hm
  obtain ⟨us, htop, hus⟩ := h.top hopen
  cases hw with
  | opensNone hn hk => exact .inl ⟨_, rfl⟩
  | opens hn kind hk =>
    obtain ⟨info, hinfo, -⟩ | hnumber := openedInfo_cases hspan kind
    · rw [hinfo, htop]
      exact .inl ⟨_, rfl⟩
    · rw [hnumber]
      exact .inr rfl
  | closesNone hn hk => exact .inl ⟨_, rfl⟩
  | closesRoot hn hk hf =>
    rw [if_pos hopen]
    exact .inl ⟨_, rfl⟩
  | closes hn hk f rest hf =>
    have hst : ∀ depth, BlockState.Fits t { st with frames := rest, quoteDepth := depth } := by
      have hframes := h.frames
      rw [hf] at hframes
      exact fun _ => ⟨h.source, h.root, (List.forall_mem_cons.1 hframes).2⟩
    obtain ⟨ws, hws, -⟩ := (hst _).top hopen
    rw [BlockState.add_eq, hws]
    exact .inl ⟨_, rfl⟩
  | inline hn ht =>
    obtain ⟨ws, hws, -⟩ := addInline_fits h.source (line_nonneg hm) hus token.children
    rw [htop, bind_ok, hws]
    exact .inl ⟨_, rfl⟩
  | leaf hn ht =>
    rw [htop, bind_ok, hspan]
    exact .inl ⟨_, rfl⟩

theorem BlockWay.fits (hw : BlockWay tasks token st x) (h : st.Fits t) (hopen : st.rootOpen = true)
    (hm : ∀ m ∈ token.map, 0 ≤ m.1) :
    (∃ st', x = .ok st' ∧ st'.Fits t) ∨ x = .error .badNumber := by
  obtain ⟨st', hx⟩ | hnumber := hw.ok_or_badNumber h hopen hm
  · exact .inl ⟨st', hx, hw.fits_of_ok hx h hm⟩
  · exact .inr hnumber

/-- An opening token opens one more block, and a closing token closes the last one, if there is
one. -/
theorem BlockWay.count (hw : BlockWay tasks token st x) (hx : x = .ok st')
    (hopen : st.rootOpen = true) (hclose : closesBlock token = true → st.frames ≠ []) :
    st'.rootOpen = true ∧ st'.frames.length + [token].countP closesBlock =
      st.frames.length + [token].countP opensBlock := by
  cases hw with
  | opensNone hn hk =>
    cases hx
    simp [opensBlock, closesBlock, hn, hk, hopen]
  | opens hn kind hk =>
    obtain ⟨info, -, htop⟩ := bind_eq_ok.1 hx
    obtain ⟨us, -, rfl⟩ := map_eq_ok.1 htop
    simp [opensBlock, closesBlock, hn, hk, hopen]
  | closesNone hn hk =>
    cases hx
    simp [opensBlock, closesBlock, hn, hk, hopen]
  | closesRoot hn hk hf => exact absurd hf (hclose (by simp [closesBlock, hn, hk]))
  | closes hn hk f rest hf =>
    rw [BlockState.add_eq] at hx
    obtain ⟨us, -, rfl⟩ := map_eq_ok.1 hx
    rw [BlockState.rootOpen_setTop, BlockState.length_setTop]
    simp [opensBlock, closesBlock, hn, hk, hf, hopen]
  | inline hn ht =>
    obtain ⟨us, -, hx⟩ := bind_eq_ok.1 hx
    obtain ⟨ws, -, rfl⟩ := map_eq_ok.1 hx
    rw [BlockState.rootOpen_setTop, BlockState.length_setTop]
    simp [opensBlock, closesBlock, hn, hopen]
  | leaf hn ht =>
    obtain ⟨us, -, hx⟩ := bind_eq_ok.1 hx
    obtain ⟨span, -, rfl⟩ := map_eq_ok.1 hx
    rw [BlockState.rootOpen_setTop, BlockState.length_setTop]
    simp [opensBlock, closesBlock, hn, hopen]

structure Underway (t : Text) (pre : List BlockToken) (st : BlockState) : Prop where
  fits : st.Fits t
  rootOpen : st.rootOpen = true
  count : st.frames.length + pre.countP closesBlock = pre.countP opensBlock

section Fold

variable {tokens pre : List BlockToken} {start : BlockState}

theorem Balanced.count (h : Balanced tokens) (hp : pre <+: tokens) :
    pre.countP closesBlock ≤ pre.countP opensBlock :=
  h pre (List.mem_inits _ _ |>.2 hp)

theorem Balanced.frames_ne_nil (hb : Balanced tokens) (hp : pre ++ [token] <+: tokens)
    (hnow : st.frames.length + pre.countP closesBlock = pre.countP opensBlock)
    (hclose : closesBlock token = true) : st.frames ≠ [] := by
  intro hf
  have hcount := hb.count hp
  have hopens : opensBlock token = false := by
    have hn : token.nesting = .closes := by simp_all [closesBlock]
    rw [opensBlock, hn]
    rfl
  rw [List.countP_append, List.countP_append, List.countP_singleton, List.countP_singleton,
    if_pos hclose, hopens, if_neg Bool.false_ne_true] at hcount
  rw [hf, List.length_nil] at hnow
  omega

theorem Underway.step (h : Underway t pre st) (hb : Balanced tokens)
    (hm : ∀ m ∈ token.map, 0 ≤ m.1) (hp : pre ++ [token] <+: tokens)
    (hx : blockStep tasks st token = .ok st') : Underway t (pre ++ [token]) st' := by
  have hw := blockStep_way tasks token st
  obtain ⟨hopen, hcount⟩ := hw.count hx h.rootOpen (hb.frames_ne_nil hp h.count)
  obtain ⟨st'', hst, hfits⟩ | herror := hw.fits h.fits h.rootOpen hm
  · rw [hx] at hst
    cases hst
    refine ⟨hfits, hopen, ?_⟩
    have := h.count
    rw [List.countP_append, List.countP_append]
    omega
  · rw [hx] at herror
    cases herror

/-- Balanced tokens are read into a state whose spans fit, unless a number is none. -/
theorem foldlM_fits (tasks : Bool) (hb : Balanced tokens)
    (hm : ∀ token ∈ tokens, ∀ m ∈ token.map, 0 ≤ m.1) (hstart : Underway t [] start) :
    (∃ st, tokens.foldlM (blockStep tasks) start = .ok st ∧ st.Fits t) ∨
      tokens.foldlM (blockStep tasks) start = .error .badNumber := by
  have hrun : ∀ pre st, pre <+: tokens → pre.foldlM (blockStep tasks) start = .ok st →
      Underway t pre st := by
    intro pre st hp hst
    refine foldlM_ok hst hstart fun pre' token s s' hp' h hx => ?_
    have hshort := hp'.trans hp
    exact h.step hb (hm token (hshort.subset (by simp))) hshort hx
  rcases hst : tokens.foldlM (blockStep tasks) start with e | st
  · right
    obtain ⟨pre, token, st, hp, hpre, hx⟩ := foldlM_error hst
    have h := hrun pre st ((List.prefix_append _ _).trans hp) hpre
    obtain ⟨st', hst', -⟩ | herror :=
      (blockStep_way tasks token st).fits h.fits h.rootOpen (hm token (hp.subset (by simp)))
    · rw [hx] at hst'
      cases hst'
    · rw [← hx, herror]
  · exact .inl ⟨st, rfl, (hrun tokens st (List.prefix_refl _) hst).fits⟩

end Fold

theorem reads_ofText (t : Text) (offset : Nat) :
    { Source.ofText t with offset := offset }.Reads t :=
  ⟨rfl, rfl⟩

/-- The end of the text is the end of its last line. -/
theorem documentSpan_fits (t : Text) : (documentSpan t).Fits t := by
  obtain ⟨init, final, hlines⟩ := List.eq_nil_or_concat' (Text.lines t) |>.resolve_left
    (Text.lines_ne_nil t)
  have hsum := Text.sum_length_lines t
  have hlast : (Text.lines t).getLast? = some final := by rw [hlines, List.getLast?_concat]
  have hlength : (Text.lines t).length = init.length + 1 := by
    rw [hlines, List.length_append, List.length_singleton]
  have hstart : Text.lineStart t init.length = (init.map (·.length + 1)).sum := by
    rw [Text.lineStart, hlines, List.take_left]
  have hfirst : Text.lineStart t 0 = 0 := by rw [Text.lineStart, List.take_zero]; rfl
  rw [hlines, List.map_append, List.sum_append, List.map_singleton, List.sum_singleton] at hsum
  constructor
  · refine ⟨⟨Int.le_refl 1, ?_⟩, Int.le_refl 1, ?_⟩
    · dsimp only [documentSpan]
      omega
    · dsimp only [documentSpan]
      rw [Int.sub_self, Int.toNat_zero, hfirst]
      rfl
  · unfold documentSpan
    dsimp only
    rw [hlast, Option.getD_some]
    refine ⟨⟨?_, Int.le_refl _⟩, ?_, ?_⟩
    · dsimp only
      omega
    · dsimp only
      omega
    · have hindex : (((Text.lines t).length : Int) - 1).toNat = init.length := by omega
      dsimp only
      rw [hindex, hstart]
      congr 1
      omega

theorem metadataNode_fits {b : Frontmatter.Block} (h : Frontmatter.block? t = some b)
    (data : Option Value) :
    ∃ span, metadataNode (Source.ofText t) b data = .ok (yamlNode b data span) ∧ span.Fits t ∧
      span.Joins 1 1 b.endLine ((Text.trimEnd Text.isBlank
        (((Source.ofText t).line? (b.endLine - 1)).getD [])).length + 1) := by
  obtain ⟨-, hcount, hfirst, hlast⟩ := Frontmatter.block?_eq_some h
  have hle : (t.take b.length).count '\n' ≤ t.count '\n' := (List.take_sublist _ _).count_le _
  have hlines := Text.length_lines t
  have hcolumn : (1 : Int) ≤ (Text.trimEnd Text.isBlank
    (((Source.ofText t).line? (b.endLine - 1)).getD [])).length + 1 := by omega
  have hend : (1 : Int) ≤ b.endLine := by omega
  have hreads : (Source.ofText t).Reads t := reads_ofText t 0
  obtain ⟨span, hspan, hfits, hjoins⟩ := hreads.spanOf (Int.le_refl 1) (by omega) (Int.le_refl 1)
    hend (by omega) hcolumn
  unfold metadataNode
  dsimp only
  rw [hspan]
  exact ⟨span, rfl, hfits, hjoins⟩

def BlockState.start (source : Source) (span : Span) (first : List (Tree Info)) : BlockState :=
  { source := source, root := ⟨{ kind := Kind.root, span := some span }, first⟩ }

theorem fold_eq (tasks : Bool) (source : Source) (span : Span) (first : List (Tree Info))
    (tokens : List BlockToken) : fold tasks source span first tokens =
      (tokens.foldlM (blockStep tasks) (.start source span first)).map BlockState.finish :=
  bind_ok_eq_map ..

theorem underway_start {source : Source} {span : Span} {first : List (Tree Info)}
    (hs : source.Reads t) (hspan : span.Fits t) (hfirst : AllFit t first) :
    Underway t [] (.start source span first) where
  fits := ⟨hs, ⟨by simpa [BlockState.start, Info.Fits] using hspan, hfirst⟩,
    by simp [BlockState.start]⟩
  rootOpen := rfl
  count := rfl

theorem fold_fits {source : Source} {span : Span} {first : List (Tree Info)}
    {tokens : List BlockToken} (tasks : Bool) (hs : source.Reads t) (hspan : span.Fits t)
    (hfirst : AllFit t first) (hb : Balanced tokens)
    (hm : ∀ token ∈ tokens, ∀ m ∈ token.map, 0 ≤ m.1) :
    (∃ u, fold tasks source span first tokens = .ok u ∧ u.All (Info.Fits t)) ∨
      fold tasks source span first tokens = .error .badNumber := by
  rw [fold_eq]
  obtain ⟨st, hst, hfits⟩ | herror :=
    foldlM_fits tasks hb hm (underway_start hs hspan hfirst)
  · rw [hst]
    exact .inl ⟨_, rfl, hfits.finish⟩
  · rw [herror]
    exact .inr rfl

theorem metadata_error {load : Loader} {raw : Text} {e : Fault} (h : metadata load raw = .error e) :
    ∃ fault, e = .metadata fault := by
  unfold metadata at h
  split at h
  · cases h
  · cases h
    exact ⟨_, rfl⟩
  · cases h
  · cases h
  · cases h

theorem parseWith_cases {load : Loader} {settings : ReadingSettings} {tokens : List BlockToken}
    (hb : Balanced tokens) (hm : ∀ token ∈ tokens, ∀ m ∈ token.map, 0 ≤ m.1) (t : Text) :
    (∃ u, parseWith load settings (fun _ => tokens) t = .ok u ∧ u.All (Info.Fits t)) ∨
      parseWith load settings (fun _ => tokens) t = .error .badNumber ∨
      ∃ fault, parseWith load settings (fun _ => tokens) t = .error (.metadata fault) := by
  unfold parseWith
  dsimp only
  split
  · exact (fold_fits settings.taskItems (reads_ofText t 0) (documentSpan_fits t) AllFit.nil hb
      hm).imp_right .inl
  · next b hblock =>
    have hb' : Frontmatter.block? t = some b := by
      split at hblock
      · exact hblock
      · cases hblock
    rcases hdata : metadata load b.raw with e | data
    · obtain ⟨fault, rfl⟩ := metadata_error hdata
      exact .inr (.inr ⟨fault, rfl⟩)
    · obtain ⟨span, hyaml, hfits, -⟩ := metadataNode_fits hb' data
      have hyamlFits : AllFit t [yamlNode b data span] :=
        AllFit.consNode (by simpa [Info.Fits] using hfits) AllFit.nil AllFit.nil
      rw [bind_ok, hyaml, bind_ok]
      exact (fold_fits settings.taskItems (reads_ofText t b.lineCount) (documentSpan_fits t)
        hyamlFits hb hm).imp_right .inl

/-- Whatever text and settings and whatever balanced tokens with lines from zero on: no line of the
text and no open block is looked up that is not there, and every span of the tree is between places
of the text, column and offset together. -/
theorem parseWith_positions {load : Loader} {settings : ReadingSettings}
    {tokens : List BlockToken} {t : Text}
    (hb : Balanced tokens) (hm : ∀ token ∈ tokens, ∀ m ∈ token.map, 0 ≤ m.1 ∧ 0 ≤ m.2) :
    parseWith load settings (fun _ => tokens) t ≠ .error .lineOutOfRange ∧
    parseWith load settings (fun _ => tokens) t ≠ .error .noOpenBlock ∧
    ∀ tree, parseWith load settings (fun _ => tokens) t = .ok tree →
      ∀ v ∈ tree.visits, ∀ span ∈ v.node.label.span, span.Fits t := by
  obtain ⟨u, h, hfits⟩ | h | ⟨fault, h⟩ :=
    parseWith_cases hb (fun token htoken m hmap => (hm token htoken m hmap).1) t
  · rw [h]
    refine ⟨nofun, nofun, ?_⟩
    rintro tree ⟨⟩
    exact hfits
  · rw [h]
    exact ⟨nofun, nofun, nofun⟩
  · rw [h]
    exact ⟨nofun, nofun, nofun⟩

/-- A task with emphasis, whose tokens point past the text and stop before they start. -/
def strayTokens : List BlockToken :=
  [{ type := "list_item_open", nesting := .opens, map := some (7, 2) },
   { type := "paragraph_open", nesting := .opens, map := some (0, 9) },
   { type := "inline", map := some (0, 1)
     children := [
      { type := "text", content := "[x] a ".toList },
      { type := "em_open", nesting := .opens, markup := ['*'] },
      { type := "text", content := ['b'] },
      { type := "em_close", nesting := .closes }] },
   { type := "paragraph_close", nesting := .closes },
   { type := "list_item_close", nesting := .closes }]

theorem parseWith_positions_sample :
    Balanced strayTokens ∧ (∀ token ∈ strayTokens, ∀ m ∈ token.map, 0 ≤ m.1 ∧ 0 ≤ m.2) ∧
    ∃ tree, parseWith Yaml.load {} (fun _ => strayTokens) "[x] a *b*\n".toList = .ok tree ∧
      (tree.visits.filterMap (·.node.label.span)).length = 6 ∧
      ∀ v ∈ tree.visits, ∀ span ∈ v.node.label.span, span.Fits "[x] a *b*\n".toList := by
  have hb : Balanced strayTokens := by decide +kernel
  have hm : ∀ token ∈ strayTokens, ∀ m ∈ token.map, 0 ≤ m.1 ∧ 0 ≤ m.2 := by decide +kernel
  -- trees have no decidable equality; the number of their spans has
  have hcount : (parseWith Yaml.load {} (fun _ => strayTokens) "[x] a *b*\n".toList).toOption.map
      (fun tree => (tree.visits.filterMap (·.node.label.span)).length) = some 6 := by
    decide +kernel
  have hfits : ∀ tree,
      parseWith Yaml.load {} (fun _ => strayTokens) "[x] a *b*\n".toList = .ok tree →
      ∀ v ∈ tree.visits, ∀ span ∈ v.node.label.span, span.Fits "[x] a *b*\n".toList :=
    (parseWith_positions hb hm).2.2
  rcases htree : parseWith Yaml.load {} (fun _ => strayTokens) "[x] a *b*\n".toList with e | tree
  · rw [htree] at hcount
    cases hcount
  · rw [htree] at hcount
    exact ⟨hb, hm, tree, rfl, Option.some.inj hcount, hfits tree htree⟩

end Document
end Outline
