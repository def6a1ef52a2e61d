import Outline.Proofs.Enclosure
import Outline.Proofs.Picks

/-! Running text below the nodes around it. A piece of text is found after all that was found before
it, and a container of running text goes from its first located child to its last one, or farther on
the same lines. So it goes around all pieces below it (`Hull`), as long as the pieces stand in the
order of the source: this is kept for everything in the open containers together (`Strand`), by
every token (`InlineWay.nested`). In the end all nodes of the running text may stand below the
blocks around it if the lines that its tokens reach may (`addInline_placed`). -/

namespace Outline.Document

variable {s : Source} {t : Text} {outer : List Info} {i j : Info} {us : List (Tree Info)}
  {c c' : Search} {span : Option Span}

/-- The blocks around running text, innermost first. -/
structure HoldsText (s : Source) (outer : List Info) : Prop where
  blocks : ∀ o ∈ outer, IsBlock o.kind
  trims : ∀ o ∈ outer, ∀ a ∈ o.span, s.Trims a
  parent : parentKind outer ∈ textBlocks

/-- Running text may stand on this line below these nodes. -/
def AdmitsLine (s : Source) (outer : List Info) (line : Int) : Prop :=
  ∀ o ∈ outer, ∀ a ∈ o.span, a.start.line ≤ line ∧
    ∀ l, a.stop.line < l → l ≤ line → s.BlankAt (l - 1)

/-- Nothing is found and the search stays where it is, or a span is found. -/
def Finds (t : Text) (c : Search) (span : Option Span) (c' : Search) : Prop :=
  span = none ∧ c' = c ∨ ∃ p, span = some p ∧ Spotted t c p c'

theorem Finds.before (h : Finds t c span c') : c.Before c' := by
  obtain ⟨-, rfl⟩ | ⟨p, -, hspotted⟩ := h
  · exact .refl c'
  · exact hspotted.before

theorem Finds.line (h : Finds t c span c') : c'.line = c.line := by
  obtain ⟨-, rfl⟩ | ⟨p, -, hspotted⟩ := h
  · rfl
  · exact hspotted.next.1

theorem finds_of_locate {value : Text} {r : Option Span × Search} (hs : s.Reads t)
    (hc : c.Proper) (h : s.locate value c = .ok r) : Finds t c r.1 r.2 := by
  obtain rfl | ⟨p, hp, hspotted, -⟩ := locate_found hs hc h
  · exact .inl ⟨rfl, rfl⟩
  · exact .inr ⟨p, hp, hspotted⟩

theorem finds_of_locateImage {r : Option Span × Search} (hs : s.Reads t) (hc : c.Proper)
    (h : s.locateImage c = .ok r) : Finds t c r.1 r.2 := by
  obtain rfl | ⟨p, hp, hspotted⟩ := locateImage_found hs hc h
  · exact .inl ⟨rfl, rfl⟩
  · exact .inr ⟨p, hp, hspotted⟩

theorem HoldsText.notText (h : HoldsText s outer) : ∀ o ∈ outer, o.kind ≠ Kind.text := by
  rintro o ho htext
  exact h.blocks o ho (by rw [htext]; decide)

theorem HoldsText.not_isBlockIn {kind : Kind} (h : HoldsText s outer) (hk : ¬ IsBlock kind) :
    ¬ IsBlockIn (parentKind outer) kind :=
  not_or.2 ⟨hk, fun hhtml => hhtml.2 (List.mem_append_left _ h.parent)⟩

namespace Encloses

theorem of_finds (houter : HoldsText s outer) (hs : s.Reads t)
    (hadmits : ∀ l ∈ c.line, l < (Text.lines t).length → AdmitsLine s outer (l + 1))
    (hj : ¬ IsBlock j.kind) (h : Finds t c j.span c') :
    ∀ o ∈ outer, Encloses s (parentKind outer) o j := by
  intro o ho
  refine ⟨houter.notText o ho, fun a ha b hb => ?_⟩
  obtain ⟨hnone, -⟩ | ⟨p, hp, hspotted⟩ := h
  · cases hnone.symm.trans hb
  obtain rfl : p = b := Option.some.inj (hp.symm.trans hb)
  obtain ⟨⟨h1, hsame⟩, -, l, hl, hlength⟩ := hspotted.place
  have hlt := (List.getElem?_eq_some_iff.1 hl).1
  obtain ⟨hfrom, hbeyond⟩ := hadmits _ hspotted.start.1 (by omega) o ho a ha
  have hlines : LinesWithin s a p :=
    ⟨by omega, fun line hlt hle => hbeyond line hlt (by omega)⟩
  have hblock := (houter.blocks o ho).not_container
  refine ⟨hlines, fun _ h => absurd h (houter.not_isBlockIn hj), fun _ _ => ?_,
    fun h => absurd h hblock⟩
  refine .of_trims (houter.trims o ho a ha) hlines fun l' hl' => ?_
  rw [hsame, hs.line?_eq (by omega), hl] at hl'
  cases hl'
  exact hlength

theorem goOn {w : Info} {value : Text} {parent : Kind} (hj : Encloses s parent i j)
    (hpiece : Encloses s parent i { kind := Kind.text, value := some value, span := span })
    (h : GoesOn j span w) : Encloses s parent i w := by
  obtain ⟨hkind, hw, hspan⟩ := h
  refine ⟨hj.notText, fun a ha p hp => ?_⟩
  have htext := not_isBlockIn_text parent
  obtain ⟨b, hb, hstart, hstop⟩ := hspan p hp
  have hfirst := hj.within a ha b hb
  rw [hkind] at hfirst
  rw [hw]
  have hline : p.start.line = b.start.line := by rw [hstart]
  have hcolumn : b.start.column ≤ p.start.column := Int.le_of_eq (by rw [hstart])
  obtain hstop | ⟨c, hc, hstop⟩ := hstop
  · exact hfirst.join hfirst htext hline hcolumn hstop
  · exact hfirst.join (hpiece.within a ha c hc) htext hline hcolumn hstop

end Encloses

section Hull

/-- The span of a node that is no container. -/
def piece? (i : Info) : Option Span := if IsContainer i.kind then none else i.span

/-- A node without span has nothing located below it, and another one goes from the first piece in
it to the last one, or farther on the same lines. -/
inductive Hull (u : Tree Info) : Prop
  | none (h : u.All (·.span = none))
  | some (p first last : Span) (span : u.label.span = some p)
      (hf : (picks piece? u).head? = some first) (hl : (picks piece? u).getLast? = some last)
      (startLine : p.start.line = first.start.line)
      (start : 1 ≤ p.start.column ∧ p.start.column ≤ first.start.column)
      (stopLine : p.stop.line = last.stop.line) (stop : last.stop.column ≤ p.stop.column)

theorem picks_leaf (h : i.span = none ∨ ¬ IsContainer i.kind) :
    picks piece? (.node i []) = i.span.toList := by
  rw [picks_node, List.flatMap_nil, List.append_nil, piece?]
  obtain hnone | hkind := h
  · rw [hnone, ite_self]
  · rw [if_neg hkind]

theorem picks_container (hi : IsContainer i.kind) :
    picks piece? (.node i us) = us.flatMap (picks piece?) := by
  rw [picks_node, piece?, if_pos hi]
  rfl

theorem hull_leaf (hi : ¬ IsContainer i.kind) (h : ∀ p ∈ i.span, 1 ≤ p.start.column) :
    Hull (.node i []) := by
  rcases hspan : i.span with _ | p
  · exact .none (Tree.all_node.2 ⟨hspan, nofun⟩)
  · have hpicks := picks_leaf (.inr hi)
    rw [hspan] at hpicks
    refine .some p p p hspan ?_ ?_ rfl ⟨h p hspan, Int.le_refl _⟩ rfl (Int.le_refl _)
    · rw [hpicks]
      rfl
    · rw [hpicks]
      rfl

theorem mem_picks {u : Tree Info} {b : Span} : b ∈ picks piece? u ↔
    ∃ v ∈ u.visits, ¬ IsContainer v.node.label.kind ∧ v.node.label.span = some b := by
  rw [picks, Tree.labels, List.filterMap_map, List.mem_filterMap]
  refine exists_congr fun v => and_congr_right fun _ => ?_
  rw [Function.comp, piece?]
  split <;> simp_all

theorem picks_of_none {u : Tree Info} (h : u.All (·.span = none)) : picks piece? u = [] := by
  refine List.eq_nil_iff_forall_not_mem.2 fun b hb => ?_
  obtain ⟨v, hv, -, hspan⟩ := mem_picks.1 hb
  cases (h v hv).symm.trans hspan

theorem head_pieces {p : Span} (h : ∀ u ∈ us, Hull u) (hp : (spansOf us).head? = some p) :
    ∃ first, (us.flatMap (picks piece?)).head? = some first ∧
      p.start.line = first.start.line ∧
      1 ≤ p.start.column ∧ p.start.column ≤ first.start.column := by
  induction us with
  | nil => cases hp
  | cons u us ih =>
    obtain ⟨hu, hus⟩ := List.forall_mem_cons.1 h
    rw [spansOf_cons] at hp
    rw [List.flatMap_cons]
    cases hu with
    | none hnone =>
      obtain ⟨i, ws⟩ := u
      have hlabel := (Tree.all_node.1 hnone).1
      rw [picks_of_none hnone]
      rw [Tree.label, hlabel] at hp
      exact ih hus hp
    | some p' first last hspan hf hl hline hcolumn =>
      rw [hspan] at hp
      obtain rfl : p' = p := Option.some.inj hp
      refine ⟨first, ?_, hline, hcolumn⟩
      rw [List.head?_append, hf]
      rfl

theorem getLast_pieces {p : Span} (h : ∀ u ∈ us, Hull u) (hp : (spansOf us).getLast? = some p) :
    ∃ last, (us.flatMap (picks piece?)).getLast? = some last ∧
      p.stop.line = last.stop.line ∧ last.stop.column ≤ p.stop.column := by
  induction us using List.reverseRecOn with
  | nil => cases hp
  | append_singleton us u ih =>
    obtain ⟨hus, hu⟩ := List.forall_mem_append.1 h
    rw [spansOf_append, spansOf_cons, List.getLast?_append] at hp
    rw [List.flatMap_append, List.flatMap_singleton, List.getLast?_append]
    cases hu u (List.mem_singleton_self u) with
    | none hnone =>
      obtain ⟨i, ws⟩ := u
      have hlabel := (Tree.all_node.1 hnone).1
      rw [picks_of_none hnone]
      rw [Tree.label, hlabel] at hp
      exact ih hus hp
    | some p' first last hspan hf hl hline hcolumn hline' hcolumn' =>
      rw [hspan] at hp
      obtain rfl : p' = p := Option.some.inj hp
      refine ⟨last, ?_, hline', hcolumn'⟩
      rw [hl]
      rfl

theorem Wraps.hull (hw : Wraps s i.kind us i.span) (hi : IsContainer i.kind) (h : ∀ u ∈ us, Hull u) :
    Hull (.node i us) := by
  generalize hspan : i.span = span at hw
  cases hw with
  | none hnone =>
    refine .none (Tree.all_node.2 ⟨hspan, fun u hu => ?_⟩)
    cases h u hu with
    | none hnone => exact hnone
    | some p first last hp =>
      have hmem : p ∈ spansOf us := mem_spansOf.2 ⟨u, hu, hp⟩
      rw [hnone] at hmem
      cases hmem
  | some p first last column hf hl hjoins hbeyond =>
    obtain ⟨a, ha, hline, hcolumn⟩ := head_pieces h hf
    obtain ⟨b, hb, hline', hcolumn'⟩ := getLast_pieces h hl
    obtain ⟨h1, h2, h3, h4⟩ := hjoins
    rw [← picks_container hi] at ha hb
    exact .some p a b hspan ha hb (h1.trans hline) (by omega) (h3.trans hline') (by omega)

end Hull

/-- Pieces in the order of the source are between the first and the last one. -/
theorem between_of_order {spans : List Span} {first last : Span}
    (horder : spans.Pairwise fun a b => a.stop ≤ b.start) (hvalid : ∀ b ∈ spans, b.start ≤ b.stop)
    (hf : spans.head? = some first) (hl : spans.getLast? = some last) :
    ∀ b ∈ spans, first.start ≤ b.start ∧ b.stop ≤ last.stop := by
  obtain ⟨rest, rfl⟩ := List.head?_eq_some_iff.1 hf
  obtain ⟨init, hinit⟩ := List.getLast?_eq_some_iff.1 hl
  intro b hb
  constructor
  · obtain rfl | hb := List.mem_cons.1 hb
    · exact Point.le_refl _
    · exact Point.le_trans (hvalid first List.mem_cons_self) (List.rel_of_pairwise_cons horder hb)
  · rw [hinit] at horder hb hvalid
    obtain hb | hb := List.mem_append.1 hb
    · exact Point.le_trans
        ((List.pairwise_append.1 horder).2.2 b hb last (List.mem_singleton_self _))
        (hvalid last (by simp))
    · rw [List.mem_singleton.1 hb]
      exact Point.le_refl _

theorem around_pieces {u : Tree Info} {p : Span} (h : Hull u) (hp : u.label.span = some p)
    (horder : (picks piece? u).Pairwise fun a b => a.stop ≤ b.start)
    (hvalid : ∀ b ∈ picks piece? u, b.start ≤ b.stop) :
    ∀ b ∈ picks piece? u, p.start ≤ b.start ∧ b.stop ≤ p.stop := by
  cases h with
  | none hnone =>
    rw [picks_of_none hnone]
    exact List.forall_mem_nil _
  | some p' first last hspan hf hl hline hcolumn hline' hcolumn' =>
    cases hspan.symm.trans hp
    intro b hb
    obtain ⟨hfirst, hlast⟩ := between_of_order horder hvalid hf hl b hb
    rw [Point.le_iff] at hfirst hlast
    exact ⟨Point.le_iff.2 (by omega), Point.le_iff.2 (by omega)⟩

theorem encloses_container (houter : HoldsText s outer) (hi : IsContainer i.kind)
    (hull : Hull (.node i us)) (hus : ∀ u ∈ us, Placed s outer u) :
    ∀ o ∈ outer, Encloses s (parentKind outer) o i := by
  intro o ho
  refine ⟨houter.notText o ho, fun a ha p hp => ?_⟩
  have hpieces : ∀ b ∈ picks piece? (.node i us), LinesWithin s a b := by
    intro b hb
    rw [picks_container hi] at hb
    obtain ⟨u, hu, hb⟩ := List.mem_flatMap.1 hb
    obtain ⟨v, hv, -, hb⟩ := mem_picks.1 hb
    obtain ⟨parent, hencloses⟩ := (hus u hu).under o ho v hv
    exact (hencloses.within a ha b hb).lines
  have hblock : ¬ IsBlock i.kind := fun h => h.not_container hi
  refine ⟨?_, fun _ h => absurd h (houter.not_isBlockIn hblock), fun _ h => absurd hi h,
    fun _ h => absurd hi h⟩
  cases hull with
  | none hnone => cases (Tree.all_node.1 hnone).1.symm.trans hp
  | some p' first last hspan hf hl hline _ hline' _ =>
    cases hspan.symm.trans hp
    exact (hpieces first (List.mem_of_head? hf)).join (hpieces last (List.mem_of_getLast? hl)) hline
      hline'

/-- A span around the pieces in a tree of running text is around what is located in the tree. -/
theorem SpanWithin.of_around {u : Tree Info} {v : Visit Info} {kind parent : Kind} {p b : Span}
    (hkind : IsContainer kind) (hull : Hull u) (hu : Placed s outer u)
    (haround : ∀ b ∈ picks piece? u, p.start ≤ b.start ∧ b.stop ≤ p.stop) (hv : v ∈ u.visits)
    (hb : v.node.label.span = some b) : SpanWithin s kind parent v.node.label.kind p b where
  lines := by
    cases hull with
    | none hnone => cases (hnone v hv).symm.trans hb
    | some q first last hspan hf hl hline _ hline' _ =>
      have hfirst := (haround first (List.mem_of_head? hf)).1
      have hlast := (haround last (List.mem_of_getLast? hl)).2
      rw [Point.le_iff] at hfirst hlast
      have hq : LinesWithin s p q := ⟨by omega, by omega⟩
      exact hq.trans (hu.lines v hv q hspan b hb)
  block h := absurd hkind h
  piece h := absurd hkind h
  marked _ hinner := haround b (mem_picks.2 ⟨v, hv, hinner, hb⟩)

/-- Nodes of running text, newest first, whose pieces stand in the order of the source up to the
place of the search. -/
structure Strand (s : Source) (outer : List Info) (c : Search) (us : List (Tree Info)) : Prop where
  placed : ∀ u ∈ us, Placed s outer u
  hull : ∀ u ∈ us, Hull u
  order : (picksIn piece? us).Pairwise fun a b => a.stop ≤ b.start
  valid : ∀ b ∈ picksIn piece? us, 1 ≤ b.start.column ∧ b.start ≤ b.stop
  passed : ∀ b ∈ picksIn piece? us, c.Passed b.stop

namespace Strand

theorem nil : Strand s outer c [] := ⟨nofun, nofun, .nil, nofun, nofun⟩

theorem goOn (h : Strand s outer c us) (hc : c.Before c') : Strand s outer c' us :=
  ⟨h.placed, h.hull, h.order, h.valid, fun b hb => (h.passed b hb).of_before hc⟩

theorem tail {u : Tree Info} (h : Strand s outer c (u :: us)) : Strand s outer c us := by
  obtain ⟨hplaced, hhull, horder, hvalid, hpassed⟩ := h
  rw [picksIn_cons] at horder hvalid hpassed
  exact ⟨(List.forall_mem_cons.1 hplaced).2, (List.forall_mem_cons.1 hhull).2,
    (List.pairwise_append.1 horder).1, (List.forall_mem_append.1 hvalid).1,
    (List.forall_mem_append.1 hpassed).1⟩

theorem cons (h : Strand s outer c us) (hi : ∀ o ∈ outer, Encloses s (parentKind outer) o i)
    (hkind : i.span = none ∨ ¬ IsContainer i.kind)
    (hspan : ∀ p ∈ i.span, (1 ≤ p.start.column ∧ p.start ≤ p.stop) ∧ c.Passed p.stop ∧
      ∀ b ∈ picksIn piece? us, b.stop ≤ p.start) : Strand s outer c (.node i [] :: us) := by
  have hpicks : picksIn piece? (.node i [] :: us) = picksIn piece? us ++ i.span.toList := by
    rw [picksIn_cons, picks_leaf hkind]
  refine ⟨List.forall_mem_cons.2 ⟨placed_leaf.2 hi, h.placed⟩,
    List.forall_mem_cons.2 ⟨?_, h.hull⟩, ?_, ?_, ?_⟩
  · obtain hnone | hkind := hkind
    · exact .none (Tree.all_node.2 ⟨hnone, nofun⟩)
    · exact hull_leaf hkind fun p hp => (hspan p hp).1.1
  · rw [hpicks, List.pairwise_append]
    refine ⟨h.order, ?_, fun b hb p hp => (hspan p (Option.mem_toList.1 hp)).2.2 b hb⟩
    rcases i.span with _ | p
    · exact .nil
    · exact List.pairwise_singleton _ p
  · rw [hpicks]
    exact List.forall_mem_append.2
      ⟨h.valid, fun p hp => (hspan p (Option.mem_toList.1 hp)).1⟩
  · rw [hpicks]
    exact List.forall_mem_append.2
      ⟨h.passed, fun p hp => (hspan p (Option.mem_toList.1 hp)).2.1⟩

theorem push (h : Strand s outer c us) (hi : ∀ o ∈ outer, Encloses s (parentKind outer) o i)
    (hkind : i.span = none ∨ ¬ IsContainer i.kind) (hfound : Finds t c i.span c') :
    Strand s outer c' (.node i [] :: us) := by
  refine (h.goOn hfound.before).cons hi hkind fun p hp => ?_
  obtain ⟨hnone, -⟩ | ⟨p', hp', hspotted⟩ := hfound
  · cases hnone.symm.trans hp
  · cases hp'.symm.trans hp
    obtain ⟨hline, hcolumns, -⟩ := hspotted.place
    refine ⟨⟨hcolumns.1, ?_⟩, hspotted.passed, fun b hb => (h.passed b hb).le hspotted⟩
    rw [Point.le_iff]
    omega

theorem extend {w : Info} (h : Strand s outer c (.node i [] :: us)) (hfound : Finds t c span c')
    (hw : ∀ o ∈ outer, Encloses s (parentKind outer) o w) (hgoes : GoesOn i span w) :
    Strand s outer c' (.node w [] :: us) := by
  obtain ⟨hi, hkind, hspan⟩ := hgoes
  have htext : ∀ {k : Kind}, k = Kind.text → ¬ IsContainer k := by
    rintro _ rfl
    decide
  refine (h.tail.goOn hfound.before).cons hw (.inr (htext hkind)) fun p hp => ?_
  obtain ⟨a, ha, hstart, hstop⟩ := hspan p hp
  have hpicks : picksIn piece? (.node i [] :: us) = picksIn piece? us ++ [a] := by
    rw [picksIn_cons, picks_leaf (.inr (htext hi)), Option.mem_def.1 ha]
    rfl
  obtain ⟨-, hhull, horder, hvalid, hpassed⟩ := h
  rw [hpicks] at horder hvalid hpassed
  have hmem : a ∈ picksIn piece? us ++ [a] := by simp
  obtain ⟨hcolumn, hle⟩ := hvalid a hmem
  have hafter : ∀ b ∈ picksIn piece? us, b.stop ≤ a.start := fun b hb =>
    (List.pairwise_append.1 horder).2.2 b hb a (List.mem_singleton_self a)
  rw [hstart]
  obtain hstop | ⟨b, hb, hstop⟩ := hstop
  · rw [hstop]
    exact ⟨⟨hcolumn, hle⟩, (hpassed a hmem).of_before hfound.before, hafter⟩
  · rw [hstop]
    obtain ⟨hnone, -⟩ | ⟨p', hp', hspotted⟩ := hfound
    · cases hnone.symm.trans hb
    · cases hp'.symm.trans hb
      have hbetween := Point.le_trans hle ((hpassed a hmem).le hspotted)
      exact ⟨⟨hcolumn, Point.le_trans hbetween hspotted.ordered⟩, hspotted.passed, hafter⟩

theorem addText {rest : List (Tree Info)} {value : Text} (h : Strand s outer c (us ++ rest))
    (hfound : Finds t c span c') (hpiece : ∀ o ∈ outer, Encloses s (parentKind outer) o
      { kind := Kind.text, value := some value, span := span }) :
    Strand s outer c' (InlineState.addText value span us ++ rest) := by
  obtain hadd | ⟨i, w, below, us, rfl, hadd, hgoes⟩ := addText_cases value span us
  · rw [hadd]
    have htext : ¬ IsContainer Kind.text := by decide
    exact h.push hpiece (.inr htext) hfound
  · rw [hadd]
    have hplaced := (List.forall_mem_cons.1 h.placed).1
    obtain rfl := hplaced.below_text hgoes.1
    exact h.extend hfound
      (fun o ho => (placed_leaf.1 hplaced o ho).goOn (hpiece o ho) hgoes) hgoes

theorem close {cs : List (Tree Info)} (h : Strand s outer c (cs ++ us))
    (houter : HoldsText s outer) (hi : IsContainer i.kind)
    (hw : Wraps s i.kind cs.reverse i.span) : Strand s outer c (.node i cs.reverse :: us) := by
  obtain ⟨hplaced, hhull, horder, hvalid, hpassed⟩ := h
  have hpicks : picksIn piece? (.node i cs.reverse :: us) = picksIn piece? (cs ++ us) := by
    rw [picksIn_cons, picksIn_append, picks_container hi]
    rfl
  obtain ⟨hcs, hus⟩ := List.forall_mem_append.1 hplaced
  obtain ⟨hhulls, hhull⟩ := List.forall_mem_append.1 hhull
  have hself : Hull (.node i cs.reverse) :=
    hw.hull hi fun u hu => hhulls u (List.mem_reverse.1 hu)
  have hbetween : ∀ p ∈ i.span, ∀ b ∈ picks piece? (.node i cs.reverse),
      p.start ≤ b.start ∧ b.stop ≤ p.stop := by
    rw [← hpicks, picksIn_cons] at horder hvalid
    exact fun p hp => around_pieces hself hp (List.pairwise_append.1 horder).2.1
      fun b hb => (hvalid b (List.mem_append_right _ hb)).2
  have hmem : ∀ u ∈ cs, ∀ b ∈ picks piece? u, b ∈ picks piece? (.node i cs.reverse) := by
    intro u hu b hb
    rw [picks_container hi]
    exact List.mem_flatMap.2 ⟨u, List.mem_reverse.2 hu, hb⟩
  have hcontainer : Placed s outer (.node i cs.reverse) := by
    refine .node (fun o ho => ?_) (fun _ _ _ => hw) fun u hu => ?_
    · exact encloses_container houter hi hself (fun u hu => hcs u (List.mem_reverse.1 hu)) o ho
    · rw [List.mem_reverse] at hu
      refine (hcs u hu).enter hi fun v hv => ⟨"", hi.not_text, fun p hp b hb => ?_⟩
      exact .of_around hi (hhulls u hu) (hcs u hu)
        (fun b hb => hbetween p hp b (hmem u hu b hb)) hv hb
  rw [← hpicks] at horder hvalid hpassed
  exact ⟨List.forall_mem_cons.2 ⟨hcontainer, hus⟩, List.forall_mem_cons.2 ⟨hself, hhull⟩, horder,
    hvalid, hpassed⟩

end Strand

/-- What holds of a state in the middle of the running text of a block. -/
structure InlineState.Nested (s : Source) (outer : List Info) (st : InlineState) : Prop where
  base : ∀ u ∈ st.base, Placed s outer u
  strand : Strand s outer st.search (st.frames.flatMap (·.children))
  frames : ∀ f ∈ st.frames, IsContainer f.info.kind ∧ IsMark f.info.kind f.markup

namespace InlineState.Nested

variable {st : InlineState}

theorem consTop {u : Tree Info} (h : st.Nested s outer)
    (hu : Strand s outer c' (u :: st.frames.flatMap (·.children))) :
    (InlineState.onTop { st with search := c' } (u :: ·)).Nested s outer := by
  obtain ⟨base, _ | ⟨f, rest⟩, search⟩ := st
  · exact ⟨List.forall_mem_cons.2 ⟨hu.placed u List.mem_cons_self, h.base⟩, hu.tail, h.frames⟩
  · exact ⟨h.base, hu, List.forall_mem_cons.2 (List.forall_mem_cons.1 h.frames)⟩

theorem push (h : st.Nested s outer) (hi : ∀ o ∈ outer, Encloses s (parentKind outer) o i)
    (hkind : i.span = none ∨ ¬ IsContainer i.kind) (hfound : Finds t st.search i.span c') :
    (InlineState.push { st with search := c' } i).Nested s outer :=
  h.consTop (h.strand.push hi hkind hfound)

theorem addText {value : Text} (h : st.Nested s outer) (hfound : Finds t st.search span c')
    (hpiece : ∀ o ∈ outer, Encloses s (parentKind outer) o
      { kind := Kind.text, value := some value, span := span }) :
    (InlineState.onTop { st with search := c' } (InlineState.addText value span)).Nested s
      outer := by
  obtain ⟨base, _ | ⟨f, rest⟩, search⟩ := st
  · refine ⟨?_, h.strand.goOn hfound.before, h.frames⟩
    obtain hadd | ⟨i, w, below, us, rfl, hadd, hgoes⟩ := addText_cases value span base
    · change ∀ u ∈ InlineState.addText value span base, _
      rw [hadd]
      exact List.forall_mem_cons.2 ⟨placed_leaf.2 hpiece, h.base⟩
    · obtain ⟨hplaced, hrest⟩ := List.forall_mem_cons.1 h.base
      obtain rfl := hplaced.below_text hgoes.1
      have hi := placed_leaf.1 hplaced
      change ∀ u ∈ InlineState.addText value span (.node i [] :: us), _
      rw [hadd]
      exact List.forall_mem_cons.2
        ⟨placed_leaf.2 fun o ho => (hi o ho).goOn (hpiece o ho) hgoes, hrest⟩
  · exact ⟨h.base, h.strand.addText hfound hpiece,
      List.forall_mem_cons.2 (List.forall_mem_cons.1 h.frames)⟩

/-- Containers that are still open are closed without a span, and so they say nothing of what is
below them. -/
theorem finish (h : st.Nested s outer) (houter : HoldsText s outer) :
    ∀ u ∈ st.finish, Placed s outer u := by
  refine List.forall_mem_append.2 ⟨?_, h.base⟩
  refine List.foldlRecOn (motive := fun inner => ∀ u ∈ inner, Placed s outer u) st.frames _ nofun ?_
  intro inner hinner f hf
  have hkind := (h.frames f hf).1
  refine List.forall_mem_singleton.2 (.node ?_ (fun _ _ hne => absurd rfl hne) fun u hu => ?_)
  · exact fun o ho => .of_none (houter.notText o ho) rfl
  · have hu' : Placed s outer u := by
      obtain hu | hu := List.mem_append.1 (List.mem_reverse.1 hu)
      · exact hinner u hu
      · exact h.strand.placed u (List.mem_flatMap.2 ⟨f, hf, hu⟩)
    exact hu'.enter hkind fun v hv => ⟨"", hkind.not_text, nofun⟩

end InlineState.Nested

def breaks (tokens : List InlineToken) : Nat :=
  tokens.countP fun token => token.type == "softbreak" || token.type == "hardbreak"

theorem InlineWay.nested {token : InlineToken} {st st' : InlineState}
    {x : Except Fault InlineState} (hw : InlineWay s token st x) (hx : x = .ok st')
    (hs : s.Reads t) (houter : HoldsText s outer)
    (hadmits : ∀ l ∈ st.search.line, l < (Text.lines t).length → AdmitsLine s outer (l + 1))
    (hmark : ∀ kind ∈ inlineKind? token.type, IsMark kind token.markup)
    (hfits : st.Fits t) (h : st.Nested s outer) :
    st'.Nested s outer ∧
      ∃ k ≤ breaks [token], st'.search.line = st.search.line.map (· + (k : Int)) := by
  have hsame : ∀ c : Search, c.line = st.search.line →
      ∃ k ≤ breaks [token], c.line = st.search.line.map (· + (k : Int)) :=
    fun c hc => ⟨0, Nat.zero_le _, by simp [hc]⟩
  have hnext : InlineState.Nested s outer { st with search := st.search.nextLine } :=
    ⟨h.base, h.strand.goOn (.nextLine _), h.frames⟩
  have hpiece : ∀ (i : Info) (c' : Search), ¬ IsBlock i.kind → Finds t st.search i.span c' →
      ∀ o ∈ outer, Encloses s (parentKind outer) o i :=
    fun i c' hi hfound => .of_finds houter hs hadmits hi hfound
  have hnone : ∀ {i : Info}, i.span = none → ∀ o ∈ outer, Encloses s (parentKind outer) o i :=
    fun hi o ho => .of_none (houter.notText o ho) hi
  cases hw with
  | opens kind hk =>
    cases hx
    refine ⟨⟨h.base, h.strand, List.forall_mem_cons.2 ⟨?_, h.frames⟩⟩, hsame _ rfl⟩
    rw [kind_openedInline]
    exact ⟨isContainer_of_inlineKind? hk, hmark kind hk⟩
  | closesNone hn hf =>
    cases hx
    exact ⟨h, hsame _ rfl⟩
  | closes hn f rest hf =>
    obtain ⟨r, hr, rfl⟩ := map_eq_ok.1 hx
    have hframes := hfits.frames
    have hopen := h.frames
    have hstrand := h.strand
    rw [hf] at hframes hopen hstrand
    obtain ⟨⟨hkind, hmarkup⟩, hrest⟩ := List.forall_mem_cons.1 hopen
    have hlabels : ∀ u ∈ f.children.reverse, u.label.Fits t :=
      ((List.forall_mem_cons.1 hframes).1).reverse.labels
    obtain ⟨r', hr', hfound, hwraps⟩ := hs.wrap f.info.kind f.markup st.search hlabels
    cases hr.symm.trans hr'
    have hclosed : Strand s outer r.2 (f.close r.1 :: rest.flatMap (·.children)) :=
      (hstrand.close (i := { f.info with span := r.1 }) houter hkind (hwraps hmarkup)).goOn
        (wrap_before hr)
    have hinner : InlineState.Nested s outer { st with frames := rest, search := r.2 } :=
      ⟨h.base, hclosed.tail, hrest⟩
    rw [InlineState.search_onTop]
    exact ⟨hinner.consTop hclosed, hsame _ hfound.line⟩
  | emptyText ht hc =>
    cases hx
    exact ⟨h, hsame _ rfl⟩
  | text ht hc =>
    obtain ⟨r, hr, rfl⟩ := map_eq_ok.1 hx
    have hfound := finds_of_locate hs hfits.search hr
    have htext : ¬ IsBlock Kind.text := by decide
    rw [InlineState.search_onTop]
    exact ⟨h.addText hfound (hpiece _ _ htext hfound), hsame _ hfound.line⟩
  | softBreak ht =>
    cases hx
    rw [InlineState.search_onTop]
    exact ⟨hnext.addText (t := t) (.inl ⟨rfl, rfl⟩) (hnone rfl), 1, by simp [breaks, ht], rfl⟩
  | hardBreak ht =>
    cases hx
    rw [InlineState.push, InlineState.search_onTop]
    exact ⟨hnext.push (t := t) (hnone rfl) (.inl rfl) (.inl ⟨rfl, rfl⟩), 1,
      by simp [breaks, ht], rfl⟩
  | literal kind ht =>
    obtain ⟨r, hr, rfl⟩ := map_eq_ok.1 hx
    have hfound := finds_of_locate hs hfits.search hr
    have hkind : ¬ IsBlock kind ∧ ¬ IsContainer kind := by
      obtain ⟨-, rfl⟩ | ⟨-, rfl⟩ := ht
      · decide
      · decide
    rw [InlineState.push, InlineState.search_onTop]
    exact ⟨h.push (hpiece _ _ hkind.1 hfound) (.inr hkind.2) hfound, hsame _ hfound.line⟩
  | image ht =>
    obtain ⟨r, hr, rfl⟩ := map_eq_ok.1 hx
    have hfound := finds_of_locateImage hs hfits.search hr
    have hkind : ¬ IsBlock Kind.image ∧ ¬ IsContainer Kind.image := by decide
    rw [InlineState.push, InlineState.search_onTop]
    exact ⟨h.push (hpiece _ _ hkind.1 hfound) (.inr hkind.2) hfound, hsame _ hfound.line⟩
  | other =>
    cases hx
    rw [InlineState.push, InlineState.search_onTop]
    exact ⟨h.push (t := t) (hnone rfl) (.inl rfl) (.inl ⟨rfl, rfl⟩), hsame _ rfl⟩

/-- Running text may be added to a block if every line that its tokens reach may. -/
theorem addInline_placed {line : Option Int} {ws : List (Tree Info)} (hs : s.Reads t)
    (hl : ∀ l ∈ line, 0 ≤ l) (houter : HoldsText s outer)
    (tokens : List InlineToken)
    (hadmits : ∀ l ∈ line, ∀ k : Nat, k ≤ breaks tokens → l + k < (Text.lines t).length →
      AdmitsLine s outer (l + k + 1))
    (hmarks : ∀ token ∈ tokens, ∀ kind ∈ inlineKind? token.type, IsMark kind token.markup)
    (hfits : AllFit t us) (hus : ∀ u ∈ us, Placed s outer u)
    (h : addInline s line us tokens = .ok ws) : ∀ w ∈ ws, Placed s outer w := by
  obtain ⟨st, hst, rfl⟩ : ∃ st, tokens.foldlM (inlineStep s) ⟨us, [], ⟨line, 0⟩⟩ = .ok st ∧
      st.finish = ws := by
    obtain ⟨st, hst, hws⟩ := bind_eq_ok.1 h
    exact ⟨st, hst, Except.ok.inj hws⟩
  have hrun : st.Fits t ∧ st.Nested s outer ∧
      ∃ k ≤ breaks tokens, st.search.line = line.map (· + (k : Int)) := by
    refine foldlM_ok (P := fun pre st => InlineState.Fits t st ∧ st.Nested s outer ∧
      ∃ k ≤ breaks pre, st.search.line = line.map (· + (k : Int))) hst ?_ ?_
    · exact ⟨⟨hl, hfits, by simp⟩, ⟨hus, .nil, by simp⟩, 0, Nat.le_refl 0, by simp⟩
    · rintro pre token st st' hp ⟨hfits, hnested, k, hk, hline⟩ hstep
      have hbreaks : breaks (pre ++ [token]) = breaks pre + breaks [token] := List.countP_append
      have hle : breaks pre ≤ breaks tokens :=
        ((List.prefix_append pre [token]).trans hp).sublist.countP_le
      have hhere : ∀ l ∈ st.search.line, l < (Text.lines t).length →
          AdmitsLine s outer (l + 1) := by
        intro l hl hlt
        rw [hline] at hl
        obtain ⟨l', hl', rfl⟩ := Option.map_eq_some_iff.1 hl
        exact hadmits l' hl' k (by omega) hlt
      have hw := inlineStep_way s token st
      obtain ⟨st'', hst'', hfits'⟩ := hw.fits hs hfits
      cases hstep.symm.trans hst''
      obtain ⟨hnested', k', hk', hline'⟩ := hw.nested hstep hs houter hhere
        (hmarks token (hp.subset (by simp))) hfits hnested
      refine ⟨hfits', hnested', k + k', by omega, ?_⟩
      rw [hline', hline, Option.map_map]
      congr 1
      funext l
      simp only [Function.comp]
      omega
  exact hrun.2.1.finish houter

end Outline.Document
