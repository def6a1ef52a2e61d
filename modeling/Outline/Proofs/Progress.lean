import Outline.Proofs.Bounds

/-! A document on its way. `stateAfter` is the state after the first tokens of a text's body; the
tree of the text comes from the state after all of them (`parseWith_eq`). What holds before the
first token and is kept by every token holds on the whole way (`stateAfter_ok`). The source in which
lines are looked up and the root's own span stay what they are at first (`stateAfter_keeps`).
Whatever tokens came, the spans in the state fit the text, also after a closing token too many
(`stateAfter_fits`). -/

namespace Outline.Document

def hasMetadata (settings : ReadingSettings) (t : Text) : Bool :=
  settings.frontmatter && (Frontmatter.block? t).isSome

/-- The state before the first token of a text's body. -/
def initial (load : Loader) (settings : ReadingSettings) (t : Text) : Except Fault BlockState :=
  match if settings.frontmatter then Frontmatter.block? t else none with
  | none => .ok (.start (Source.ofText t) (documentSpan t) [])
  | some b =>
    (metadata load b.raw >>= metadataNode (Source.ofText t) b).map fun yaml =>
      .start { Source.ofText t with offset := b.lineCount } (documentSpan t) [yaml]

/-- The source in which the spans of a text's body are looked up. -/
def bodySource (settings : ReadingSettings) (t : Text) : Source :=
  match if settings.frontmatter then Frontmatter.block? t else none with
  | none => Source.ofText t
  | some b => { Source.ofText t with offset := b.lineCount }

def stateAfter (load : Loader) (settings : ReadingSettings) (t : Text)
    (tokens : List BlockToken) : Except Fault BlockState :=
  initial load settings t >>= tokens.foldlM (blockStep settings.taskItems)

variable {load : Loader} {settings : ReadingSettings} {t : Text} {tokens pre : List BlockToken}
  {token : BlockToken} {st st' : BlockState} {tasks : Bool} {x : Except Fault BlockState}
  {us : List (Tree Info)}

theorem parseWith_eq (load : Loader) (settings : ReadingSettings) (tokens : List BlockToken)
    (t : Text) :
    parseWith load settings (fun _ => tokens) t =
      (stateAfter load settings t tokens).map BlockState.finish := by
  unfold parseWith stateAfter initial
  generalize (if settings.frontmatter then Frontmatter.block? t else none) = block
  rcases block with _ | b
  · exact fold_eq ..
  · dsimp only
    rcases metadata load b.raw with e | data
    · rfl
    · rw [bind_ok, bind_ok]
      rcases metadataNode (Source.ofText t) b data with e | yaml
      · rfl
      · exact fold_eq ..

theorem stateAfter_append (load : Loader) (settings : ReadingSettings) (t : Text)
    (pre post : List BlockToken) :
    stateAfter load settings t (pre ++ post) =
      stateAfter load settings t pre >>= post.foldlM (blockStep settings.taskItems) := by
  unfold stateAfter
  rcases initial load settings t with e | st
  · rfl
  · rw [bind_ok, bind_ok, List.foldlM_append]

theorem stateAfter_concat (load : Loader) (settings : ReadingSettings) (t : Text)
    (pre : List BlockToken) (token : BlockToken) : stateAfter load settings t (pre ++ [token]) =
      stateAfter load settings t pre >>= fun st => blockStep settings.taskItems st token := by
  rw [stateAfter_append]
  simp only [List.foldlM_cons, List.foldlM_nil, bind_pure]

theorem exists_stateAfter (h : stateAfter load settings t tokens = .ok st) (hp : pre <+: tokens) :
    ∃ st', stateAfter load settings t pre = .ok st' := by
  obtain ⟨post, rfl⟩ := hp
  rw [stateAfter_append] at h
  obtain ⟨st', h', -⟩ := bind_eq_ok.1 h
  exact ⟨st', h'⟩

/-- What holds before the first token and is kept by every token holds on the whole way. -/
theorem stateAfter_ok {P : List BlockToken → BlockState → Prop}
    (h : stateAfter load settings t tokens = .ok st)
    (hs : ∀ s, initial load settings t = .ok s → P [] s)
    (hstep : ∀ pre token s s', pre ++ [token] <+: tokens → P pre s →
      blockStep settings.taskItems s token = .ok s' → P (pre ++ [token]) s') : P tokens st := by
  obtain ⟨s, hinit, hrun⟩ := bind_eq_ok.1 h
  exact foldlM_ok hrun (hs s hinit) hstep

/-- The node of the metadata block, if there is one, is all that stands in the root at first. It
starts with the text. -/
theorem initial_cases (h : initial load settings t = .ok st) :
    ∃ offset first, st = .start { Source.ofText t with offset := offset } (documentSpan t) first ∧
      AllFit t first ∧ (hasMetadata settings t = false ∧ first = [] ∨
        hasMetadata settings t = true ∧ ∃ b data span, first = [yamlNode b data span] ∧
          ∃ line column, span.Joins 1 1 line column) := by
  unfold initial at h
  split at h
  · next hnone =>
    cases h
    refine ⟨0, [], rfl, AllFit.nil, .inl ⟨?_, rfl⟩⟩
    unfold hasMetadata
    rcases hs : settings.frontmatter
    · rfl
    · rw [hs, if_pos rfl] at hnone
      rw [hnone]
      rfl
  · next b hblock =>
    obtain ⟨hs, hb⟩ : settings.frontmatter = true ∧ Frontmatter.block? t = some b := by
      split at hblock
      · next hs => exact ⟨hs, hblock⟩
      · cases hblock
    obtain ⟨yaml, hyaml, rfl⟩ := map_eq_ok.1 h
    obtain ⟨data, -, hnode⟩ := bind_eq_ok.1 hyaml
    obtain ⟨span, hspan, hfits, hjoins⟩ := metadataNode_fits hb data
    cases hnode.symm.trans hspan
    refine ⟨b.lineCount, _, rfl, ?_, .inr ⟨?_, b, data, span, rfl, _, _, hjoins⟩⟩
    · exact AllFit.consNode (by simpa [Info.Fits] using hfits) AllFit.nil AllFit.nil
    · rw [hasMetadata, hs, hb]
      rfl

theorem initial_fits (h : initial load settings t = .ok st) : st.Fits t := by
  obtain ⟨offset, first, rfl, hfits, -⟩ := initial_cases h
  exact (underway_start (reads_ofText t offset) (documentSpan_fits t) hfits).fits

theorem reads_bodySource (settings : ReadingSettings) (t : Text) :
    (bodySource settings t).Reads t := by
  unfold bodySource
  split
  · exact reads_ofText t 0
  · exact reads_ofText t _

theorem initial_keeps (h : initial load settings t = .ok st) : st.source = bodySource settings t ∧
    st.root.info = { kind := Kind.root, span := some (documentSpan t) } := by
  unfold initial at h
  unfold bodySource
  split at h
  · cases h
    exact ⟨rfl, rfl⟩
  · obtain ⟨yaml, -, rfl⟩ := map_eq_ok.1 h
    exact ⟨rfl, rfl⟩

theorem setTop_keeps (st : BlockState) (us : List (Tree Info)) :
    (st.setTop us).source = st.source ∧ (st.setTop us).root.info = st.root.info := by
  obtain ⟨source, root, rootOpen, _ | ⟨f, rest⟩, depth⟩ := st
  · exact ⟨rfl, rfl⟩
  · exact ⟨rfl, rfl⟩

theorem BlockWay.keeps (hw : BlockWay tasks token st x) (hx : x = .ok st') :
    st'.source = st.source ∧ st'.root.info = st.root.info := by
  cases hw with
  | opensNone => cases hx; exact ⟨rfl, rfl⟩
  | opens hn kind hk =>
    obtain ⟨i, -, hx⟩ := bind_eq_ok.1 hx
    obtain ⟨us, -, rfl⟩ := map_eq_ok.1 hx
    exact ⟨rfl, rfl⟩
  | closesNone => cases hx; exact ⟨rfl, rfl⟩
  | closesRoot hn hk hf =>
    split at hx
    · cases hx
      exact ⟨rfl, rfl⟩
    · cases hx
  | closes hn hk f rest hf =>
    rw [BlockState.add_eq] at hx
    obtain ⟨us, -, rfl⟩ := map_eq_ok.1 hx
    exact setTop_keeps ..
  | inline hn ht =>
    obtain ⟨us, -, hx⟩ := bind_eq_ok.1 hx
    obtain ⟨ws, -, rfl⟩ := map_eq_ok.1 hx
    exact setTop_keeps ..
  | leaf hn ht =>
    obtain ⟨us, -, hx⟩ := bind_eq_ok.1 hx
    obtain ⟨span, -, rfl⟩ := map_eq_ok.1 hx
    exact setTop_keeps ..

theorem stateAfter_keeps (h : stateAfter load settings t tokens = .ok st) :
    st.source = bodySource settings t ∧
      st.root.info = { kind := Kind.root, span := some (documentSpan t) } := by
  refine stateAfter_ok (P := fun _ st => st.source = bodySource settings t ∧
    st.root.info = { kind := Kind.root, span := some (documentSpan t) }) h ?_ ?_
  · exact fun s hs => initial_keeps hs
  · intro pre token s s' _ hs hstep
    obtain ⟨hsource, hroot⟩ := (blockStep_way _ token s).keeps hstep
    rw [hsource, hroot]
    exact hs

theorem stateAfter_fits (hm : ∀ token ∈ tokens, ∀ m ∈ token.map, 0 ≤ m.1)
    (h : stateAfter load settings t tokens = .ok st) : st.Fits t := by
  refine stateAfter_ok (P := fun _ st => st.Fits t) h ?_ ?_
  · exact fun s hs => initial_fits hs
  · intro pre token s s' hp hfits hstep
    exact (blockStep_way _ token s).fits_of_ok hstep hfits (hm token (hp.subset (by simp)))

end Outline.Document
