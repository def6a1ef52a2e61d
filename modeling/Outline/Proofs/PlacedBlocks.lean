import Outline.Proofs.Enclosure
import Outline.Proofs.Origins
import Outline.Proofs.Picks
import Outline.Proofs.Pieces

/-! Blocks with their spans, in the order of their tokens. What the state says of blocks that have a
span is a list that only grows: a token that makes a block adds it at the end, with the span of its
lines, and running text adds nothing but raw HTML (`BlockWay.places`). Closing a block changes
nothing in it, and in the end this is the list of the tree (`placed_finish`). -/

namespace Outline.Document

/-- The kinds that a block can have, but for a text. Raw HTML is among them, although it can be
running text too. -/
def MayBeBlock (kind : Kind) : Prop := IsBlock kind ∨ kind = Kind.html

instance : DecidablePred MayBeBlock := fun _ => inferInstanceAs (Decidable (_ ∨ _))

abbrev PlacedBlock := Kind × Span

def placed? (i : Info) : Option PlacedBlock :=
  if MayBeBlock i.kind then i.span.map (i.kind, ·) else none

def placedBlocks (u : Tree Info) : List PlacedBlock := u.labels.filterMap placed?

def placedIn (us : List (Tree Info)) : List PlacedBlock := us.reverse.flatMap placedBlocks

def BlockState.placed (st : BlockState) : List PlacedBlock :=
  ((st.frames ++ [st.root]).map fun f => placedBlocks f.close).reverse.flatten

/-- Raw HTML in running text, where it was found. -/
structure HtmlPiece (t : Text) (b : PlacedBlock) : Prop where
  kind : b.1 = Kind.html
  fits : b.2.Fits t
  oneLine : OnOneLine t b.2

variable {t : Text} {s : Source} {i j : Info} {us ws : List (Tree Info)}

theorem placed?_congr (hkind : i.kind = j.kind) (hspan : i.span = j.span) :
    placed? i = placed? j := by
  rw [placed?, placed?, hkind, hspan]

theorem placed?_of_not (h : ¬ MayBeBlock i.kind) : placed? i = none := if_neg h

theorem placed?_of_none (h : i.span = none) : placed? i = none := by
  rw [placed?, h, Option.map_none, ite_self]

theorem placed?_text (h : i.kind = Kind.text) : placed? i = none :=
  placed?_of_not (by rw [h]; decide)

theorem ignoresTasks_placed? : IgnoresTasks placed? := ⟨fun _ => placed?_text, fun _ _ => rfl⟩

theorem placedBlocks_close (f : BlockFrame) :
    placedBlocks f.close = (placed? f.info).toList ++ placedIn f.children :=
  picks_close placed? f

section Inline

variable {st st' : InlineState} {token : InlineToken} {x : Except Fault InlineState}

theorem not_mayBeBlock_of_inlineKind? {type : String} {kind : Kind}
    (h : inlineKind? type = some kind) : ¬ MayBeBlock kind := by
  unfold inlineKind? at h
  split_ifs at h <;> cases h <;> decide

theorem htmlPiece_of_locate {value : Text} {c : Search} {r : Option Span × Search}
    {b : PlacedBlock} (hs : s.Reads t) (hc : c.Proper) (hr : s.locate value c = .ok r)
    (hkind : i.kind = Kind.html) (hspan : i.span = r.1) (hb : b ∈ placed? i) : HtmlPiece t b := by
  obtain ⟨p, hp, rfl⟩ : ∃ p, r.1 = some p ∧ (Kind.html, p) = b := by
    have hhtml : MayBeBlock Kind.html := by decide
    rw [placed?, hkind, if_pos hhtml, hspan] at hb
    exact Option.map_eq_some_iff.1 hb
  obtain ⟨r', hr', hfound, -⟩ := hs.locate hc value
  cases hr.symm.trans hr'
  refine ⟨rfl, hfound.span p hp, ?_⟩
  obtain rfl | ⟨p', hp', hspotted, -⟩ := locate_found hs hc hr
  · cases hp
  · cases hp.symm.trans hp'
    exact hspotted.place

theorem InlineWay.adds (hw : InlineWay s token st x) (hx : x = .ok st') (hs : s.Reads t)
    (hc : st.search.Proper) (h : st.Adds placed? (HtmlPiece t) us) :
    st'.Adds placed? (HtmlPiece t) us := by
  cases hw with
  | opens kind hk =>
    cases hx
    refine h.opens ⟨?_, fun span => placed?_of_not ?_⟩ _
    · rw [kind_openedInline]
      exact (kind_of_inlineKind? hk).1
    · dsimp only
      rw [kind_openedInline]
      exact not_mayBeBlock_of_inlineKind? hk
  | closesNone hn hf =>
    cases hx
    exact h
  | closes hn f rest hf =>
    obtain ⟨r, -, rfl⟩ := map_eq_ok.1 hx
    exact h.closes hf r.1 r.2
  | emptyText ht hcontent =>
    cases hx
    exact h
  | text ht hcontent =>
    obtain ⟨r, -, rfl⟩ := map_eq_ok.1 hx
    exact h.addText ignoresTasks_placed? _ r.1 r.2
  | softBreak ht =>
    cases hx
    exact h.addText ignoresTasks_placed? _ none _
  | hardBreak ht =>
    cases hx
    exact h.pass (placed?_of_none rfl) _
  | literal kind ht =>
    obtain ⟨r, hr, rfl⟩ := map_eq_ok.1 hx
    obtain ⟨-, rfl⟩ | ⟨-, rfl⟩ := ht
    · have hcode : ¬ MayBeBlock Kind.inlineCode := by decide
      exact h.pass (placed?_of_not hcode) r.2
    · exact h.push (fun b hb => htmlPiece_of_locate hs hc hr rfl rfl hb) r.2
  | image ht =>
    obtain ⟨r, -, rfl⟩ := map_eq_ok.1 hx
    have himage : ¬ MayBeBlock Kind.image := by decide
    exact h.pass (placed?_of_not himage) r.2
  | other ht =>
    cases hx
    exact h.pass (placed?_of_none rfl) st.search

theorem addInline_adds {line : Option Int} {tokens : List InlineToken} (hs : s.Reads t)
    (hl : ∀ i ∈ line, 0 ≤ i) (hfits : AllFit t us) (hus : ∀ u ∈ us, Bare u)
    (h : addInline s line us tokens = .ok ws) : Adds placed? (HtmlPiece t) us ws := by
  obtain ⟨st, hst, hws⟩ := bind_eq_ok.1 h
  cases hws
  have hrun : st.Fits t ∧ st.Adds placed? (HtmlPiece t) us := by
    refine foldlM_ok (P := fun _ st => InlineState.Fits t st ∧
      InlineState.Adds placed? (HtmlPiece t) us st) hst
      ⟨⟨hl, hfits, by simp⟩, ⟨.refl hus, by simp, by simp⟩⟩ ?_
    rintro pre token st st' - ⟨hfits, hadds⟩ hstep
    have hway := inlineStep_way s token st
    obtain ⟨st'', hok, hfits'⟩ := hway.fits hs hfits
    cases hstep.symm.trans hok
    exact ⟨hfits', hway.adds hstep hs hfits.search hadds⟩
  exact hrun.2.finish

end Inline

section Block

variable {st st' : BlockState} {token : BlockToken} {tasks : Bool} {x : Except Fault BlockState}

/-- What a token adds to the blocks with spans: itself, or raw HTML in its running text. -/
inductive Places (t : Text) (st : BlockState) (token : BlockToken) : List PlacedBlock → Prop
  | block (kind : Kind) (span : Option Span) (hk : madeKind? token = some kind)
    (hspan : st.spanOf token.map = .ok span) :
    Places t st token (placed? { kind := kind, span := span }).toList
  | pieces (new : List PlacedBlock) (hk : madeKind? token = none)
    (hnew : ∀ b ∈ new, HtmlPiece t b) : Places t st token new

theorem placed_root (hf : st.frames = []) : st.placed = placedBlocks st.root.close :=
  picks_root placed? hf

theorem BlockWay.places (hw : BlockWay tasks token st x) (hx : x = .ok st') (hfits : st.Fits t)
    (hm : ∀ m ∈ token.map, 0 ≤ m.1) (h : st.Bare) :
    st'.Bare ∧ ∃ new, Places t st token new ∧ st'.placed = st.placed ++ new := by
  obtain ⟨hbare, new, hbrings, hplaced⟩ :=
    hw.brings (P := HtmlPiece t) hx ignoresTasks_placed? h fun us ws htop hus hws =>
      addInline_adds hfits.source (line_nonneg hm) (hfits.top_of_ok htop) hus hws
  refine ⟨hbare, new, ?_, hplaced⟩
  cases hbrings with
  | nothing hn hk =>
    refine .pieces [] ?_ (List.forall_mem_nil _)
    rw [madeKind?]
    rcases hnesting : token.nesting with _ | _ | _
    · exact hk hnesting
    · rfl
    · exact absurd hnesting hn
  | opened hn kind hk info hinfo =>
    have hmade : madeKind? token = some kind := by rw [madeKind?, hn]; exact hk
    obtain ⟨span, hspan, -⟩ := hfits.spanOf hm
    obtain ⟨info', hinfo', hkind, hinfospan⟩ | herror := openedInfo_cases hspan kind
    · cases hinfo.symm.trans hinfo'
      have hsame : placed? info = placed? { kind := kind, span := span } :=
        placed?_congr hkind hinfospan
      rw [hsame]
      exact .block kind span hmade hspan
    · cases hinfo.symm.trans herror
  | leaf hn ht span hspan =>
    have hsame : placed? (leafInfo span token) =
        placed? { kind := (leafInfo span token).kind, span := span } :=
      placed?_congr rfl (span_leafInfo span token)
    rw [hsame]
    exact .block _ span (madeKind?_of_leaf hn ht span) hspan
  | running hn ht new hnew =>
    have hmade : madeKind? token = none := by rw [madeKind?, hn]; exact if_pos ht
    exact .pieces new hmade hnew

theorem placed_finish (st : BlockState) : placedBlocks st.finish = st.placed :=
  picks_finish placed? st

end Block

section Run

variable {load : Loader} {settings : ReadingSettings} {t : Text} {tokens pre : List BlockToken}
  {token : BlockToken} {st st' : BlockState}

/-- Later tokens leave the blocks with spans as they are and add others after them. -/
theorem placed_foldlM (hm : ∀ token ∈ tokens, ∀ m ∈ token.map, 0 ≤ m.1) (hfits : st.Fits t)
    (hbare : st.Bare) (h : tokens.foldlM (blockStep settings.taskItems) st = .ok st') :
    st'.Fits t ∧ st'.Bare ∧ ∃ new, st'.placed = st.placed ++ new := by
  refine foldlM_ok (P := fun _ s => BlockState.Fits t s ∧ BlockState.Bare s ∧
    ∃ new, s.placed = st.placed ++ new) h ⟨hfits, hbare, [], (List.append_nil _).symm⟩ ?_
  rintro pre token s s' hp ⟨hfits, hbare, new, hplaced⟩ hstep
  have hway := blockStep_way settings.taskItems token s
  have hm' := hm token (hp.subset (by simp))
  obtain ⟨hbare', new', -, hplaced'⟩ := hway.places hstep hfits hm' hbare
  refine ⟨hway.fits_of_ok hstep hfits hm', hbare', new ++ new', ?_⟩
  rw [hplaced', hplaced, List.append_assoc]

theorem stateAfter_bare (hm : ∀ token ∈ tokens, ∀ m ∈ token.map, 0 ≤ m.1)
    (h : stateAfter load settings t tokens = .ok st) : st.Bare := by
  obtain ⟨s, hs, hrun⟩ := bind_eq_ok.1 h
  exact (placed_foldlM hm (initial_fits hs) (initial_bare hs) hrun).2.1

/-- What a token adds stands in the tree between what was there before it and what came later. -/
theorem placedBlocks_parseWith {tree : Tree Info}
    (hm : ∀ token ∈ tokens, ∀ m ∈ token.map, 0 ≤ m.1)
    (h : parseWith load settings (fun _ => tokens) t = .ok tree) (hp : pre ++ [token] <+: tokens) :
    ∃ st new after, stateAfter load settings t pre = .ok st ∧ Places t st token new ∧
      placedBlocks tree = st.placed ++ new ++ after := by
  rw [parseWith_eq] at h
  obtain ⟨final, hfinal, rfl⟩ := map_eq_ok.1 h
  have hpre : pre <+: tokens := (List.prefix_append _ _).trans hp
  obtain ⟨st, hst⟩ := exists_stateAfter hfinal hpre
  obtain ⟨st', hst'⟩ := exists_stateAfter hfinal hp
  obtain ⟨post, rfl⟩ := hp
  rw [stateAfter_append, hst', bind_ok] at hfinal
  rw [stateAfter_concat, hst, bind_ok] at hst'
  have hbefore : ∀ token ∈ pre, ∀ m ∈ token.map, 0 ≤ m.1 :=
    fun token htoken => hm token (hpre.subset htoken)
  have htoken : ∀ m ∈ token.map, 0 ≤ m.1 := hm token (by simp)
  have hfits : st.Fits t := stateAfter_fits hbefore hst
  have hway := blockStep_way settings.taskItems token st
  obtain ⟨hbare, new, hplaces, hnew⟩ :=
    hway.places hst' hfits htoken (stateAfter_bare hbefore hst)
  obtain ⟨-, -, after, hafter⟩ := placed_foldlM
    (fun token htoken => hm token (List.mem_append_right _ htoken))
    (hway.fits_of_ok hst' hfits htoken) hbare hfinal
  refine ⟨st, new, after, hst, hplaces, ?_⟩
  rw [placed_finish, hafter, hnew]

end Run

end Outline.Document
