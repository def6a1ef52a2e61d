import Outline.Document.Parse
import Outline.Proofs.Displacement

/-! A metadata block moves the body down and changes nothing else. After a block that ends with a
line feed the source of the whole text is the source of the body, displaced by the lines and the
characters of the block (`holds_ofText`). Every block token then tracks itself (`Holds.blockStep`),
and so does the fold over all of them: the children of the document are the node of the block and
the displaced children of the body. -/

namespace Outline

open Document

theorem Document.Source.lastLine?_nonneg (s : Source) {last r : Int} {steps : Nat}
    (hl : (steps : Int) ≤ last) (hr : s.lastLine? last steps = some r) : 0 ≤ r := by
  induction steps generalizing last with
  | zero =>
    cases hr
    omega
  | succ steps ih =>
    rw [Source.lastLine?] at hr
    cases hline : s.line? last with
    | none => simp [hline] at hr
    | some l =>
      simp only [hline, Option.bind_eq_bind, Option.bind_some] at hr
      split at hr
      · exact ih (by omega) hr
      · cases hr
        omega

namespace Displacement

variable {d : Displacement} {whole part : Source} {before : List (Tree Info)} {root : Info}
  {st : BlockState}

theorem Holds.lastLine? (h : d.Holds whole part) {last : Int} {steps : Nat}
    (hl : (steps : Int) ≤ last) :
    whole.lastLine? (last + d.lines) steps =
      (part.lastLine? last steps).map (· + (d.lines : Int)) := by
  induction steps generalizing last with
  | zero => rfl
  | succ steps ih =>
    have hprev : last + d.lines - 1 = last - 1 + d.lines := by omega
    rw [Source.lastLine?, Source.lastLine?, h.line last (by omega), hprev, ih (by omega)]
    cases part.line? last with
    | none => rfl
    | some l =>
      simp only [Option.bind_eq_bind, Option.bind_some]
      split <;> rfl

theorem Holds.blockSpan? (h : d.Holds whole part) {m : Int × Int} (hm : 0 ≤ m.1) (depth : Nat) :
    whole.blockSpan? depth m = (part.blockSpan? depth m).map d.span := by
  have hpos : 0 < part.lines.length := List.length_pos_iff.2 h.nonempty
  have hfirst : min (m.1 + whole.offset) (whole.lines.length - 1 : Int) =
      min (m.1 + part.offset) (part.lines.length - 1) + d.lines := by
    rw [h.length, h.offset]
    omega
  have hlast : ∀ first : Int, min (max (first + d.lines) (m.2 - 1 + whole.offset))
        (whole.lines.length - 1) =
      min (max first (m.2 - 1 + part.offset)) (part.lines.length - 1) + d.lines := by
    intro first
    rw [h.length, h.offset]
    omega
  unfold Source.blockSpan?
  simp only [hfirst, hlast]
  generalize hf : min (m.1 + part.offset) (part.lines.length - 1 : Int) = first
  generalize hl : min (max first (m.2 - 1 + part.offset)) (part.lines.length - 1 : Int) = last
  have hsteps : (last + d.lines - (first + d.lines)).toNat = (last - first).toNat := by omega
  have hnonneg : 0 ≤ first := by omega
  have hle : ((last - first).toNat : Int) ≤ last := by omega
  rw [hsteps, h.lastLine? hle]
  cases hr : part.lastLine? last (last - first).toNat with
  | none => rfl
  | some r =>
    have hrn : 0 ≤ r := part.lastLine?_nonneg hle hr
    simp only [Option.map_some, Option.bind_eq_bind, Option.bind_some, h.line first hnonneg,
      h.line r hrn]
    cases part.line? first with
    | none => rfl
    | some top =>
      cases part.line? r with
      | none => rfl
      | some final =>
        have h1 : first + d.lines + 1 = first + 1 + d.lines := by omega
        have h2 : r + d.lines + 1 = r + 1 + d.lines := by omega
        simp only [Option.bind_some, h1, h2]
        exact h.span? (by omega) (by omega) _ _

def blockFrame (d : Displacement) (f : BlockFrame) : BlockFrame :=
  ⟨d.info f.info, f.children.map d.tree⟩

/-- The displaced state of a longer source, whose root is another one and has more children. -/
def blockState (d : Displacement) (whole : Source) (root : Info) (before : List (Tree Info))
    (st : BlockState) : BlockState :=
  { source := whole
    root := ⟨root, st.root.children.map d.tree ++ before⟩
    rootOpen := st.rootOpen
    frames := st.frames.map d.blockFrame
    quoteDepth := st.quoteDepth }

/-- The children of the innermost open block after displacement, among them those that come before
the others if that block is the root. -/
def onTop (d : Displacement) (before : List (Tree Info)) (st : BlockState)
    (ts : List (Tree Info)) : List (Tree Info) :=
  ts.map d.tree ++ if st.frames.isEmpty then before else []

abbrev TracksBlocks (d : Displacement) (whole part : Source) (root : Info)
    (before : List (Tree Info)) (x y : Except Fault BlockState) : Prop :=
  Tracks (·.source = part) (d.blockState whole root before) x y

theorem tracks_top (st : BlockState) :
    Tracks (fun _ => True) (d.onTop before st) st.top (d.blockState whole root before st).top := by
  obtain ⟨source, r, rootOpen, _ | ⟨f, frames⟩, depth⟩ := st
  · cases rootOpen with
    | true => exact Tracks.pure trivial rfl
    | false => exact Tracks.error _
  · exact Tracks.pure trivial (List.append_nil _).symm

theorem tracks_setTop (hst : st.source = part) (ts : List (Tree Info)) :
    d.TracksBlocks whole part root before (.ok (st.setTop ts))
      (.ok ((d.blockState whole root before st).setTop (d.onTop before st ts))) := by
  obtain ⟨source, r, rootOpen, _ | ⟨f, frames⟩, depth⟩ := st
  · exact Tracks.pure hst rfl
  · refine Tracks.pure hst ?_
    simp [BlockState.setTop, blockState, blockFrame, onTop]

theorem Holds.spanOf_map (h : d.Holds whole part) (hst : st.source = part)
    {m : Option (Int × Int)} (hm : ∀ p ∈ m, 0 ≤ p.1) :
    Tracks (fun _ => True) (Option.map d.span) (st.spanOf m)
      ((d.blockState whole root before st).spanOf m) := by
  cases m with
  | none => exact Tracks.pure trivial rfl
  | some p =>
    have hspan := h.blockSpan? (hm p rfl) st.quoteDepth
    simp only [BlockState.spanOf, blockState, hst, hspan]
    cases part.blockSpan? st.quoteDepth p with
    | none => exact Tracks.error _
    | some s => exact Tracks.pure trivial rfl

theorem tracks_add (hst : st.source = part) (t : Tree Info) :
    d.TracksBlocks whole part root before (st.add t)
      ((d.blockState whole root before st).add (d.tree t)) := by
  unfold BlockState.add
  apply (tracks_top st).bind
  intro ts _
  exact tracks_setTop hst (t :: ts)

theorem dropText_info (i : Info) (n : Nat) (below : List (Tree Info)) :
    dropText (d.info i) n (below.map d.tree) = (dropText i n below).map d.tree := by
  have hshift : ∀ p : Point, Point.shift (d.point p) n = d.point (Point.shift p n) := by
    intro p
    obtain ⟨line, column, _ | offset⟩ := p
    · rfl
    · simp [Point.shift, point]
      omega
  unfold dropText
  by_cases hrest : ((i.value.getD []).drop n).isEmpty
  · simp [info, hrest]
  · cases hspan : i.span with
    | none => simp [info, hrest, hspan]
    | some s => simp [info, hrest, hspan, Displacement.span, hshift]

theorem detectTask_info (item : Info) (ts : List (Tree Info)) :
    detectTask (d.info item) (ts.map d.tree) =
      (d.info (detectTask item ts).1, (detectTask item ts).2.map d.tree) := by
  obtain _ | ⟨⟨paragraph, _ | ⟨⟨text, below⟩, others⟩⟩, rest⟩ := ts
  · rfl
  · simp [detectTask]
  · by_cases hkind : paragraph.kind = Kind.paragraph ∧ text.kind = Kind.text
    · have hvalue : (d.info text).value = text.value := rfl
      cases hbox : taskBox? (text.value.getD []) with
      | none => simp [detectTask, hkind, hvalue, hbox]
      | some box =>
        simp [detectTask, hkind, hvalue, hbox, dropText_info]
        rfl
    · simp [detectTask, hkind]

theorem leafInfo_span (span : Option Span) (t : BlockToken) :
    leafInfo (span.map d.span) t = d.info (leafInfo span t) := by
  unfold leafInfo
  split_ifs <;> rfl

theorem Holds.openedInfo (h : d.Holds whole part) (hst : st.source = part) {t : BlockToken}
    (hm : ∀ p ∈ t.map, 0 ≤ p.1) (kind : Kind) :
    Tracks (fun _ => True) d.info (openedInfo st t kind)
      (openedInfo (d.blockState whole root before st) t kind) := by
  unfold Document.openedInfo
  apply (h.spanOf_map hst hm).bind
  intro span _
  apply Tracks.ite
  · intro hheading
    cases Number.readInt? (t.tag.drop 1) with
    | none => exact Tracks.error _
    | some n => exact Tracks.pure trivial rfl
  intro _
  apply Tracks.ite
  · intro hlist
    apply Tracks.ite
    · intro hordered
      cases listStart (t.attributes.get "start") with
      | error e => exact Tracks.error e
      | ok n => exact Tracks.pure trivial rfl
    intro _
    exact Tracks.pure trivial rfl
  intro _
  exact Tracks.pure trivial rfl

theorem tracks_closeBlock (hst : st.source = part) (tasks : Bool) :
    d.TracksBlocks whole part root before (closeBlock tasks st)
      (closeBlock tasks (d.blockState whole root before st)) := by
  obtain ⟨source, r, rootOpen, _ | ⟨f, frames⟩, depth⟩ := st
  · cases rootOpen with
    | true => exact Tracks.pure hst rfl
    | false => exact Tracks.error _
  · let inner : BlockState := ⟨source, r, rootOpen, frames,
      if f.info.kind = Kind.blockquote then depth - 1 else depth⟩
    have hinner : inner.source = part := hst
    have hadd : ∀ (i : Info) (ts : List (Tree Info)),
        d.TracksBlocks whole part root before (inner.add (.node i ts))
          ((d.blockState whole root before inner).add (.node (d.info i) (ts.map d.tree))) := by
      intro i ts
      rw [← tree_node]
      exact tracks_add hinner (.node i ts)
    simp only [closeBlock, blockState, List.map_cons, blockFrame, kind_info, ← List.map_reverse]
    apply Tracks.ite
    · intro htask
      rw [detectTask_info]
      exact hadd _ _
    intro _
    exact hadd _ _

theorem Holds.blockStep (h : d.Holds whole part) (hb : NoText before) (hst : st.source = part)
    (tasks : Bool) {t : BlockToken} (hm : ∀ p ∈ t.map, 0 ≤ p.1) :
    d.TracksBlocks whole part root before (blockStep tasks st t)
      (blockStep tasks (d.blockState whole root before st) t) := by
  unfold Document.blockStep
  cases t.nesting with
  | opens =>
    cases blockKind? t.type with
    | none => exact Tracks.pure hst rfl
    | some kind =>
      apply (h.openedInfo hst hm kind).bind
      intro i _
      apply (tracks_top st).bind
      intro ts _
      exact Tracks.pure hst rfl
  | closes =>
    apply Tracks.ite
    · intro hkind
      exact tracks_closeBlock hst tasks
    intro _
    exact Tracks.pure hst rfl
  | stands =>
    apply (tracks_top st).bind
    intro ts _
    apply Tracks.ite
    · intro hinline
      have hline : t.map.map (fun m => m.1 + (whole.offset : Int)) =
          (t.map.map fun m => m.1 + (st.source.offset : Int)).map (· + (d.lines : Int)) := by
        rw [Option.map_map, hst, h.offset]
        congr 1
        funext m
        simp only [Function.comp]
        omega
      have hnonneg : ∀ i ∈ t.map.map fun m => m.1 + (st.source.offset : Int), 0 ≤ i := by
        intro i hi
        obtain ⟨m, hmap, rfl⟩ := Option.map_eq_some_iff.1 hi
        have := hm m hmap
        omega
      have hbefore : NoText (if st.frames.isEmpty then before else []) := by
        split
        · exact hb
        · simp [NoText]
      have hsource : (d.blockState whole root before st).source = whole := rfl
      simp only [hsource, hline]
      rw [hst] at hnonneg ⊢
      apply (h.addInline hbefore hnonneg ts t.children).bind
      intro us _
      exact tracks_setTop hst us
    intro _
    apply (h.spanOf_map hst hm).bind
    intro span _
    rw [leafInfo_span]
    exact tracks_setTop hst (.node (leafInfo span t) [] :: ts)

theorem children_close (f : BlockFrame) : f.close.children = f.children.reverse := rfl

theorem close_blockFrame (f : BlockFrame) : (d.blockFrame f).close = d.tree f.close := by
  rw [BlockFrame.close, BlockFrame.close, tree_node, blockFrame, List.map_reverse]

theorem children_finish (before : List (Tree Info)) (st : BlockState) :
    (d.blockState whole root before st).finish.children =
      before.reverse ++ st.finish.children.map d.tree := by
  have hframes : (st.frames.map d.blockFrame).foldl (fun inner f =>
        [BlockFrame.close { f with children := inner ++ f.children }]) [] =
      (st.frames.foldl (fun inner f =>
        [BlockFrame.close { f with children := inner ++ f.children }]) []).map d.tree := by
    rw [List.foldl_map]
    refine @List.foldl_hom _ _ _ (List.map d.tree) _ _ st.frames [] ?_
    intro inner f
    rw [List.map_singleton, ← close_blockFrame, blockFrame, blockFrame, List.map_append]
  rw [BlockState.finish, BlockState.finish, children_close, children_close]
  simp only [blockState, hframes, List.append_assoc, List.reverse_append, List.map_append,
    List.map_reverse]

/-- The children made of a longer document's tokens: those that were there, and the displaced ones
of the shorter document. -/
theorem Holds.fold (h : d.Holds whole part) (hb : NoText before) (tasks : Bool)
    {ts : List BlockToken} (hm : ∀ t ∈ ts, ∀ p ∈ t.map, 0 ≤ p.1) (span span' : Span) :
    (Document.fold tasks whole span before ts).map Tree.children =
      (Document.fold tasks part span' [] ts).map fun t =>
        before.reverse ++ t.children.map d.tree := by
  let root : Info := { kind := Kind.root, span := some span }
  let start : BlockState :=
    { source := part, root := ⟨{ kind := Kind.root, span := some span' }, []⟩ }
  have hstart : start.source = part := rfl
  have hrun : d.TracksBlocks whole part root before (ts.foldlM (Document.blockStep tasks) start)
      (ts.foldlM (Document.blockStep tasks) (d.blockState whole root before start)) :=
    Tracks.foldlM (fun t ht st hst => h.blockStep hb hst tasks (hm t ht)) hstart
  have hfold : Document.fold tasks whole span before ts =
      ts.foldlM (Document.blockStep tasks) (d.blockState whole root before start) >>=
        fun st => .ok st.finish := rfl
  have hfold' : Document.fold tasks part span' [] ts =
      ts.foldlM (Document.blockStep tasks) start >>= fun st => .ok st.finish := rfl
  rw [hfold, hfold', hrun.eq]
  cases ts.foldlM (Document.blockStep tasks) start with
  | error e => rfl
  | ok st => exact congrArg Except.ok (children_finish before st)

theorem holds_ofText (a t : Text) :
    Holds ⟨a.count '\n' + 1, a.length + 1⟩
      { Source.ofText (a ++ '\n' :: t) with offset := a.count '\n' + 1 } (Source.ofText t) where
  length := by
    simp only [Source.ofText, Text.lines_append, List.length_append, Text.length_lines]
    omega
  line i hi := by
    simp only [Source.line?, Source.ofText, Text.lines_append, ← Text.length_lines a]
    exact Text.entry?_append _ _ hi
  start i hi := by
    have hstarts : Text.starts (Text.lines (a ++ '\n' :: t)) 0 =
        Text.starts (Text.lines a) 0 ++
          (Text.starts (Text.lines t) 0).map (· + (a.length + 1)) := by
      rw [Text.lines_append, Text.starts_append, Text.sum_length_lines, Text.starts_add]
    have hlength : a.count '\n' + 1 = (Text.starts (Text.lines a) 0).length := by
      rw [Text.length_starts, Text.length_lines]
    simp only [Source.ofText, hstarts, hlength]
    rw [Text.entry?_append _ _ hi, Text.entry?_map]
  offset := (Nat.zero_add _).symm
  nonempty := Text.lines_ne_nil t

end Displacement

namespace Document

theorem Source.exists_point? {s : Source} {line : Int} (h1 : 1 ≤ line)
    (h2 : line ≤ s.starts.length) (column : Int) : ∃ p, s.point? line column = some p := by
  have hi : (line - 1).toNat < s.starts.length := by omega
  unfold Source.point? Text.entry?
  rw [if_pos (by omega), List.getElem?_eq_getElem hi]
  exact ⟨_, rfl⟩

def yamlNode (b : Frontmatter.Block) (data : Option Value) (span : Span) : Tree Info :=
  .node { kind := Kind.yaml, span := some span, value := some b.raw
          data := [("frontmatter", data.getD .null)] } []

/-- The node of a metadata block has a span: its first and its closing line are lines of the
text. -/
theorem metadataNode_eq {t : Text} {b : Frontmatter.Block} (h : Frontmatter.block? t = some b)
    (data : Option Value) :
    ∃ span, metadataNode (Source.ofText t) b data = .ok (yamlNode b data span) := by
  obtain ⟨-, hcount, hfirst, hlast⟩ := Frontmatter.block?_eq_some h
  have hle : (t.take b.length).count '\n' ≤ t.count '\n' := (List.take_sublist _ _).count_le _
  have hstarts : (Source.ofText t).starts.length = t.count '\n' + 1 := by
    simp only [Source.ofText, Text.length_starts, Text.length_lines]
  have hpoint : ∀ line : Int, 1 ≤ line → line ≤ b.endLine → ∀ column,
      ∃ p, (Source.ofText t).point? line column = some p :=
    fun line h1 h2 => Source.exists_point? h1 (by omega)
  let closing := ((Source.ofText t).line? (b.endLine - 1)).getD []
  obtain ⟨p, hp⟩ := hpoint 1 (by omega) (by omega) 1
  obtain ⟨q, hq⟩ := hpoint b.endLine (by omega) (by omega)
    ((Text.trimEnd Text.isBlank closing).length + 1)
  unfold metadataNode Source.spanOf Source.span?
  simp only [hp, hq, closing]
  exact ⟨⟨p, q⟩, rfl⟩

/-- A metadata block that ends with a line feed moves the body of a document down and changes
nothing else: the document's children are the block's node and the children of the body read on its
own, displaced by the lines and the characters of the block. A fault in the body is the same in
both. -/
theorem children_parseWith_of_block {load : Loader} {settings : ReadingSettings}
    (hs : settings.frontmatter = true) {t : Text} {b : Frontmatter.Block}
    (hb : Frontmatter.block? t = some b)
    (hend : (t.take b.length).getLast? = some '\n') {data : Option Value}
    (hdata : metadata load b.raw = .ok data) {read : Text → List BlockToken}
    (hmaps : ∀ token ∈ read (t.drop b.length), ∀ m ∈ token.map, 0 ≤ m.1) :
    ∃ span, (parseWith load settings read t).map Tree.children =
      (parseWith load { settings with frontmatter := false } read (t.drop b.length)).map fun body =>
        yamlNode b data span :: body.children.map (Displacement.tree ⟨b.lineCount, b.length⟩) := by
  obtain ⟨hlength, hcount, -, -⟩ := Frontmatter.block?_eq_some hb
  obtain ⟨a, ha⟩ := List.getLast?_eq_some_iff.1 hend
  have ht : t = a ++ '\n' :: t.drop b.length := by
    rw [← List.singleton_append, ← List.append_assoc, ← ha, List.take_append_drop]
  have hlines : b.lineCount = a.count '\n' + 1 := by
    rw [hcount, ha, List.count_append, List.count_singleton_self]
  have hcharacters : b.length = a.length + 1 := by
    have := congrArg List.length ha
    rw [List.length_take_of_le hlength, List.length_append] at this
    exact this
  have hholds : Displacement.Holds ⟨b.lineCount, b.length⟩
      { Source.ofText t with offset := b.lineCount } (Source.ofText (t.drop b.length)) := by
    have h := Displacement.holds_ofText a (t.drop b.length)
    rw [← ht, ← hlines, ← hcharacters] at h
    exact h
  obtain ⟨span, hyaml⟩ := metadataNode_eq hb data
  refine ⟨span, ?_⟩
  have hwhole : parseWith load settings read t = fold settings.taskItems
      { Source.ofText t with offset := b.lineCount } (documentSpan t)
      [yamlNode b data span] (read (t.drop b.length)) := by
    simp only [parseWith, hs, if_true, hb, hdata]
    change (metadataNode (Source.ofText t) b data >>= fun yaml => _) = _
    rw [hyaml]
    rfl
  have hkind : NoText [yamlNode b data span] := by
    intro u hu
    cases hu
    exact (by decide : Kind.yaml ≠ Kind.text)
  rw [hwhole, hholds.fold hkind settings.taskItems hmaps _ (documentSpan (t.drop b.length))]
  rfl

theorem children_parseWith_of_block_sample :
    Frontmatter.block? "---\na: b\n---\n> - [x] *b*\n".toList = some ⟨"a: b".toList, 13, 3, 3⟩ ∧
    (∀ token ∈ Markdown.read {} "> - [x] *b*\n".toList, ∀ m ∈ token.map, 0 ≤ m.1) ∧
    ∃ data span, metadata Yaml.load "a: b".toList = .ok (some data) ∧
      (parse {} "---\na: b\n---\n> - [x] *b*\n".toList).map Tree.children =
        (parseWith Yaml.load { frontmatter := false } (Markdown.read {}) "> - [x] *b*\n".toList).map
          fun body => yamlNode ⟨"a: b".toList, 13, 3, 3⟩ (some data) span ::
            body.children.map (Displacement.tree ⟨3, 13⟩) := by
  have hs : ReadingSettings.frontmatter {} = true := rfl
  have hb : Frontmatter.block? "---\na: b\n---\n> - [x] *b*\n".toList =
    some ⟨"a: b".toList, 13, 3, 3⟩ := by decide
  -- values have no decidable equality; that there is one can be decided
  have hvalue : ∀ r : Except Fault (Option Value), r.toOption.join.isSome = true →
      ∃ data, r = .ok (some data) := by
    rintro (e | _ | data) h
    · cases h
    · cases h
    · exact ⟨data, rfl⟩
  obtain ⟨data, hdata⟩ := hvalue (metadata Yaml.load "a: b".toList) (by decide +kernel)
  have hmaps : ∀ token ∈ Markdown.read {} "> - [x] *b*\n".toList, ∀ m ∈ token.map, 0 ≤ m.1 := by
    decide +kernel
  obtain ⟨span, hchildren⟩ := children_parseWith_of_block hs hb (by decide) hdata hmaps
  exact ⟨hb, hmaps, data, span, hdata, hchildren⟩

end Document
end Outline
