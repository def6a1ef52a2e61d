import Mathlib.Data.Char
import Mathlib.Data.List.Lex
import Mathlib.Data.List.TakeWhile
import Outline.Proofs.Naming

/-! The tags of a text and the reference at its end. Both are read by patterns from the left. After a
number sign the pattern takes a whole run of tag characters, and no number sign is lost inside it, so
that what is found is what stands between a number sign and the end of such a run (`mem_tags`). After
a circumflex it takes a whole run too, as nothing in the run is blank, and goes on to the next
circumflex unless only blanks follow. As there is no circumflex in a reference, one place at most is
right, and the first match is there (`blockRef?_eq_some_iff`). -/

namespace Outline

theorem Text.takeWhile_run {p : Char → Bool} {s after : Text} (hall : ∀ c ∈ s, p c = true)
    (hend : ∀ c ∈ after.head?, p c = false) : (s ++ after).takeWhile p = s := by
  have hafter : after.takeWhile p = [] := by
    cases after with
    | nil => rfl
    | cons d after => exact List.takeWhile_cons_of_neg (by simp [hend d rfl])
  rw [List.takeWhile_append_of_pos hall, hafter, List.append_nil]

namespace Text.Pattern

variable {p : Char → Bool} {k : Text → Option Text} {q : Pattern} {c : Char} {t r m rest : Text}

theorem manyFrom_eq_some (h : k (t.dropWhile p) = some r) : manyFrom p k t = some r := by
  induction t with
  | nil => exact h
  | cons c t ih =>
    rw [manyFrom]
    by_cases hc : p c = true
    · rw [List.dropWhile_cons_of_pos hc] at h
      rw [if_pos hc, ih h, Option.some_or]
    · rw [List.dropWhile_cons_of_neg hc] at h
      rw [if_neg hc, h]

theorem exists_of_manyFrom (h : manyFrom p k t = some r) :
    ∃ taken left, t = taken ++ left ∧ (∀ c ∈ taken, p c = true) ∧ k left = some r := by
  induction t with
  | nil => exact ⟨[], [], rfl, by simp, h⟩
  | cons c t ih =>
    rw [manyFrom] at h
    split_ifs at h with hc
    · rcases Option.or_eq_some_iff.1 h with h | ⟨-, h⟩
      · obtain ⟨taken, left, rfl, hall, hk⟩ := ih h
        exact ⟨c :: taken, left, rfl, List.forall_mem_cons.2 ⟨hc, hall⟩, hk⟩
      · exact ⟨[], c :: t, rfl, by simp, h⟩
    · exact ⟨[], c :: t, rfl, by simp, h⟩

/-- A sign and a run of characters that is not empty. -/
theorem run_signed (sign : Char) (p : Char → Bool) (k : Text → Option Text) (c : Char) (t : Text) :
    (char sign ++ one p ++ many p).run (c :: t) k =
      if c = sign ∧ t.takeWhile p ≠ [] then manyFrom p k t.tail else none := by
  change (if c == sign then (one p).run t (fun t => manyFrom p k t) else none) = _
  rcases t with _ | ⟨d, t⟩
  · simp [run]
  · change (if c == sign then if p d then manyFrom p k t else none else none) = _
    by_cases hd : p d = true
    · simp [hd]
    · simp [hd]

theorem dropWhile_tail (h : t.takeWhile p ≠ []) : t.tail.dropWhile p = t.dropWhile p := by
  rcases t with _ | ⟨d, t⟩
  · rfl
  · by_cases hd : p d = true
    · rw [List.dropWhile_cons_of_pos hd, List.tail_cons]
    · exact absurd (List.takeWhile_cons_of_neg hd) h

theorem match?_of_rest? (h : q.rest? (c :: t) = some (t.dropWhile p)) :
    q.match? (c :: t) = some (c :: t.takeWhile p) := by
  have hlength := congrArg List.length (List.takeWhile_append_dropWhile (p := p) (l := t))
  have htake : t.take (t.takeWhile p).length = t.takeWhile p :=
    List.prefix_iff_eq_take.1 (List.takeWhile_prefix p) |>.symm
  rw [List.length_append] at hlength
  rw [match?, h, Option.map_some, List.length_cons, ← hlength, Nat.add_right_comm,
    Nat.add_sub_cancel, List.take_succ_cons, htake]

theorem exists_of_search? (h : q.search? t = some m) :
    ∃ before rest, t = before ++ rest ∧ q.match? rest = some m := by
  induction t with
  | nil => exact ⟨[], [], rfl, h⟩
  | cons c t ih =>
    rcases Option.or_eq_some_iff.1 h with h | ⟨-, h⟩
    · exact ⟨[], c :: t, rfl, h⟩
    · obtain ⟨before, rest, rfl, hm⟩ := ih h
      exact ⟨c :: before, rest, rfl, hm⟩

theorem exists_search? (h : q.match? rest = some m) (before : Text) :
    ∃ m', q.search? (before ++ rest) = some m' := by
  induction before with
  | nil =>
    cases rest with
    | nil => exact ⟨m, h⟩
    | cons c rest => exact ⟨m, by rw [List.nil_append, search?, h, Option.some_or]⟩
  | cons c before ih =>
    obtain ⟨m', hm'⟩ := ih
    rw [List.cons_append, search?, hm']
    cases q.match? (c :: (before ++ rest)) with
    | none => exact ⟨m', rfl⟩
    | some m => exact ⟨m, rfl⟩

end Text.Pattern

namespace Graph

open Text (isBlank trimEnd)

variable {t s r w : Text} {c : Char}

section Tags

/-- Somewhere in the text a number sign is followed by `s`, a run of tag characters that does not go
on. -/
def IsTag (t s : Text) : Prop :=
  ∃ before after, t = before ++ '#' :: (s ++ after) ∧ s ≠ [] ∧ (∀ c ∈ s, isTagChar c = true) ∧
    ∀ c ∈ after.head?, isTagChar c = false

theorem not_isTag_nil : ¬ IsTag [] s := by
  rintro ⟨before, after, h, -⟩
  simp at h

theorem isTag_cons :
    IsTag (c :: t) s ↔ (c = '#' ∧ t.takeWhile isTagChar = s ∧ s ≠ []) ∨ IsTag t s := by
  constructor
  · rintro ⟨before, after, h, hs, hall, hend⟩
    rcases before with _ | ⟨d, before⟩
    · obtain ⟨rfl, rfl⟩ := List.cons.inj h
      exact .inl ⟨rfl, Text.takeWhile_run hall hend, hs⟩
    · obtain ⟨-, rfl⟩ := List.cons.inj h
      exact .inr ⟨before, after, rfl, hs, hall, hend⟩
  · rintro (⟨rfl, rfl, hs⟩ | ⟨before, after, rfl, h⟩)
    · refine ⟨[], t.dropWhile isTagChar, ?_, hs, fun c hc => List.mem_takeWhile_imp hc, ?_⟩
      · rw [List.takeWhile_append_dropWhile]
        rfl
      · intro c hc
        have hnot := List.head?_dropWhile_not isTagChar t
        rw [Option.mem_def.1 hc] at hnot
        simpa using hnot
    · exact ⟨c :: before, after, rfl, h⟩

theorem isTag_dropWhile : IsTag (t.dropWhile isTagChar) s ↔ IsTag t s := by
  induction t with
  | nil => rfl
  | cons c t ih =>
    by_cases hc : isTagChar c = true
    · rw [List.dropWhile_cons_of_pos hc, ih, isTag_cons, or_iff_right]
      rintro ⟨rfl, -⟩
      revert hc
      decide
    · rw [List.dropWhile_cons_of_neg hc]

theorem match?_tagPattern (c : Char) (t : Text) : tagPattern.match? (c :: t) =
    if c = '#' ∧ t.takeWhile isTagChar ≠ [] then some (c :: t.takeWhile isTagChar) else none := by
  have hrun : tagPattern.rest? (c :: t) = if c = '#' ∧ t.takeWhile isTagChar ≠ [] then
      Text.Pattern.manyFrom isTagChar some t.tail else none :=
    Text.Pattern.run_signed '#' isTagChar some c t
  split_ifs at hrun ⊢ with h
  · rw [Text.Pattern.manyFrom_eq_some rfl, Text.Pattern.dropWhile_tail h.2] at hrun
    exact Text.Pattern.match?_of_rest? hrun
  · rw [Text.Pattern.match?, hrun, Option.map_none]

/-- Behind what is found the search goes on. -/
theorem findFrom_tagPattern (fuel : Nat) (c : Char) (t : Text) :
    tagPattern.findFrom (fuel + 1) (c :: t) =
      if c = '#' ∧ t.takeWhile isTagChar ≠ [] then
        (c :: t.takeWhile isTagChar) :: tagPattern.findFrom fuel (t.dropWhile isTagChar)
      else tagPattern.findFrom fuel t := by
  have hdrop : (t.takeWhile isTagChar ++ t.dropWhile isTagChar).drop
      (t.takeWhile isTagChar).length = t.dropWhile isTagChar := List.drop_left
  rw [List.takeWhile_append_dropWhile] at hdrop
  rw [Text.Pattern.findFrom, match?_tagPattern]
  split_ifs with h
  · dsimp only
    rw [List.length_cons, List.drop_succ_cons, hdrop]
  · rfl

theorem mem_findFrom_tagPattern {m : Text} (fuel : Nat) (h : t.length ≤ fuel) :
    m ∈ tagPattern.findFrom fuel t ↔ ∃ s, m = '#' :: s ∧ IsTag t s := by
  induction fuel generalizing t with
  | zero =>
    obtain rfl := List.length_eq_zero_iff.1 (Nat.le_zero.1 h)
    simp [Text.Pattern.findFrom, not_isTag_nil]
  | succ fuel ih =>
    rcases t with _ | ⟨c, t⟩
    · simp [Text.Pattern.findFrom, not_isTag_nil]
    · have hlength : t.length ≤ fuel := Nat.le_of_succ_le_succ h
      rw [findFrom_tagPattern]
      split_ifs with hc
      · obtain ⟨rfl, hne⟩ := hc
        have hrest := (List.dropWhile_sublist (l := t) isTagChar).length_le.trans hlength
        rw [List.mem_cons, ih hrest]
        constructor
        · rintro (rfl | ⟨s, rfl, hs⟩)
          · exact ⟨_, rfl, isTag_cons.2 (.inl ⟨rfl, rfl, hne⟩)⟩
          · exact ⟨s, rfl, isTag_cons.2 (.inr (isTag_dropWhile.1 hs))⟩
        · rintro ⟨s, rfl, hs⟩
          rcases isTag_cons.1 hs with ⟨-, rfl, -⟩ | hs
          · exact .inl rfl
          · exact .inr ⟨s, rfl, isTag_dropWhile.2 hs⟩
      · rw [ih hlength]
        refine exists_congr fun s => and_congr_right fun _ => ?_
        rw [isTag_cons, or_iff_right]
        rintro ⟨hsign, rfl, hs⟩
        exact hc ⟨hsign, hs⟩

theorem mem_insertTag {x y : Text} {l : List Text} : x ∈ insertTag y l ↔ x = y ∨ x ∈ l := by
  induction l with
  | nil => simp [insertTag]
  | cons z l ih =>
    rw [insertTag]
    split_ifs with h1 h2
    · rw [List.mem_cons]
    · rw [h2, List.mem_cons, or_self_left]
    · rw [List.mem_cons, ih, List.mem_cons, or_left_comm]

theorem pairwise_insertTag {l : List Text} (y : Text) (h : l.Pairwise (· < ·)) :
    (insertTag y l).Pairwise (· < ·) := by
  induction l with
  | nil => exact List.pairwise_singleton _ _
  | cons z l ih =>
    obtain ⟨hz, hl⟩ := List.pairwise_cons.1 h
    rw [insertTag]
    split_ifs with h1 h2
    · refine List.pairwise_cons.2 ⟨List.forall_mem_cons.2 ⟨h1, ?_⟩, h⟩
      exact fun x hx => lt_trans h1 (hz x hx)
    · exact h
    · refine List.pairwise_cons.2 ⟨fun x hx => ?_, ih hl⟩
      rcases mem_insertTag.1 hx with rfl | hx
      · exact lt_of_le_of_ne (not_lt.1 h1) (Ne.symm h2)
      · exact hz x hx

theorem mem_tags : s ∈ tags t ↔ IsTag t s := by
  have hinsert : ∀ l : List Text, s ∈ l.foldr insertTag [] ↔ s ∈ l := by
    intro l
    induction l with
    | nil => rfl
    | cons x l ih => rw [List.foldr_cons, mem_insertTag, ih, List.mem_cons]
  rw [tags, hinsert, List.mem_map]
  simp only [Text.Pattern.findAll, mem_findFrom_tagPattern _ (Nat.le_refl _)]
  constructor
  · rintro ⟨m, ⟨s, rfl, hs⟩, rfl⟩
    exact hs
  · exact fun hs => ⟨'#' :: s, ⟨s, rfl, hs⟩, rfl⟩

theorem pairwise_tags (t : Text) : (tags t).Pairwise (· < ·) := by
  unfold tags
  generalize (tagPattern.findAll t).map (·.drop 1) = l
  induction l with
  | nil => exact List.Pairwise.nil
  | cons x l ih => exact pairwise_insertTag x ih

end Tags

section Reference

/-- Without its trailing white space the text ends in a circumflex and `r`, a run of reference
characters. -/
def IsRef (t r : Text) : Prop :=
  r ≠ [] ∧ (∀ c ∈ r, isRefChar c = true) ∧ ('^' :: r) <:+ trimEnd isBlank t

theorem not_isBlank_of_isRefChar (h : isRefChar c = true) : isBlank c = false := by
  simp only [isRefChar, Text.isAsciiAlphanumeric, Text.isAsciiLetter, Text.isAsciiDigit,
    Bool.or_eq_true, Bool.and_eq_true, decide_eq_true_eq, beq_iff_eq, Char.le_def,
    UInt32.le_iff_toNat_le] at h
  have hrange : 45 ≤ c.toNat ∧ c.toNat ≤ 122 := by
    rcases h with ((⟨h1, h2⟩ | ⟨h1, h2⟩) | ⟨h1, h2⟩) | rfl
    · exact ⟨Nat.le_trans (by decide) h1, Nat.le_trans h2 (by decide)⟩
    · exact ⟨Nat.le_trans (by decide) h1, Nat.le_trans h2 (by decide)⟩
    · exact ⟨Nat.le_trans (by decide) h1, Nat.le_trans h2 (by decide)⟩
    · decide
  simp only [isBlank, Bool.or_eq_false_iff, Bool.and_eq_false_iff, beq_eq_false_iff_ne, ne_eq,
    decide_eq_false_iff_not]
  omega

theorem blankToEnd_iff : blankToEnd.isPrefixOf t = true ↔ ∀ c ∈ t, isBlank c = true := by
  change (Text.Pattern.manyFrom isBlank
    (fun t => if t == [] || t == ['\n'] then some t else none) t).isSome = true ↔ _
  constructor
  · intro h
    obtain ⟨r, hr⟩ := Option.isSome_iff_exists.1 h
    obtain ⟨taken, left, rfl, htaken, hleft⟩ := Text.Pattern.exists_of_manyFrom hr
    refine List.forall_mem_append.2 ⟨htaken, ?_⟩
    split_ifs at hleft with hend
    simp only [Bool.or_eq_true, beq_iff_eq] at hend
    rcases hend with rfl | rfl
    · simp
    · simp [isBlank]
  · intro h
    have hall : t.dropWhile isBlank = [] := List.dropWhile_eq_nil_iff.2 h
    rw [Text.Pattern.manyFrom_eq_some (by rw [hall]; rfl)]
    rfl

theorem match?_refPattern (c : Char) (t : Text) : refPattern.match? (c :: t) =
    if c = '^' ∧ t.takeWhile isRefChar ≠ [] ∧ blankToEnd.isPrefixOf (t.dropWhile isRefChar) then
      some (c :: t.takeWhile isRefChar)
    else none := by
  have hrun : refPattern.rest? (c :: t) = if c = '^' ∧ t.takeWhile isRefChar ≠ [] then
      Text.Pattern.manyFrom isRefChar
        (fun t => if blankToEnd.isPrefixOf t then some t else none) t.tail else none :=
    Text.Pattern.run_signed '^' isRefChar _ c t
  -- a shorter run is followed by a character of a reference, and that is not blank
  have hfails : ∀ d (u : Text), isRefChar d = true →
      (if blankToEnd.isPrefixOf (d :: u) then some (d :: u) else none) = none := by
    intro d u hd
    refine if_neg fun hblank => ?_
    have := blankToEnd_iff.1 hblank d List.mem_cons_self
    rw [not_isBlank_of_isRefChar hd] at this
    cases this
  rw [Text.Pattern.manyFrom_eq hfails] at hrun
  by_cases h : c = '^' ∧ t.takeWhile isRefChar ≠ []
  · rw [if_pos h, Text.Pattern.dropWhile_tail h.2] at hrun
    by_cases hblank : blankToEnd.isPrefixOf (t.dropWhile isRefChar) = true
    · rw [if_pos hblank] at hrun
      rw [if_pos ⟨h.1, h.2, hblank⟩]
      exact Text.Pattern.match?_of_rest? hrun
    · rw [if_neg hblank] at hrun
      rw [if_neg fun hall => hblank hall.2.2, Text.Pattern.match?, hrun, Option.map_none]
  · rw [if_neg h] at hrun
    rw [if_neg fun hall => h ⟨hall.1, hall.2.1⟩, Text.Pattern.match?, hrun, Option.map_none]

theorem isRef_iff : IsRef t r ↔ ∃ before after, t = before ++ '^' :: (r ++ after) ∧ r ≠ [] ∧
    (∀ c ∈ r, isRefChar c = true) ∧ ∀ c ∈ after, isBlank c = true := by
  constructor
  · rintro ⟨hr, hall, before, hbefore⟩
    obtain ⟨after, hsplit, hblank⟩ := Text.trimEnd_append isBlank t
    refine ⟨before, after, ?_, hr, hall, hblank⟩
    rw [hsplit, ← hbefore]
    simp
  · rintro ⟨before, after, rfl, hr, hall, hblank⟩
    refine ⟨hr, hall, before, ?_⟩
    obtain ⟨init, last, rfl⟩ : ∃ init last, r = init ++ [last] :=
      ⟨_, _, (List.dropLast_append_getLast hr).symm⟩
    have hlast : isBlank last = false := not_isBlank_of_isRefChar (hall last (by simp))
    have hassoc : before ++ '^' :: (init ++ [last] ++ after) =
        (before ++ '^' :: init) ++ [last] ++ after := by simp
    rw [hassoc, Text.trimEnd_append_of_all hblank, Text.trimEnd_concat hlast]
    simp

/-- There is no circumflex in a reference, so it begins after the last one. -/
theorem IsRef.unique {r' : Text} (h : IsRef t r) (h' : IsRef t r') : r = r' := by
  have hsign : isRefChar '^' = false := by decide
  obtain ⟨-, hall, before, hbefore⟩ := h
  obtain ⟨-, hall', before', hbefore'⟩ := h'
  refine Text.eq_of_append_cons (hbefore.trans hbefore'.symm) (fun hmem => ?_) fun hmem => ?_
  · rw [hall _ hmem] at hsign
    cases hsign
  · rw [hall' _ hmem] at hsign
    cases hsign

theorem isRef_of_search? {m : Text} (hm : refPattern.search? t = some m) :
    ∃ s, m = '^' :: s ∧ IsRef t s := by
  obtain ⟨before, rest, rfl, hmatch⟩ := Text.Pattern.exists_of_search? hm
  rcases rest with _ | ⟨c, rest⟩
  · cases hmatch
  · rw [match?_refPattern] at hmatch
    split_ifs at hmatch with h
    obtain rfl := Option.some.inj hmatch
    obtain ⟨rfl, hne, hblank⟩ := h
    refine ⟨_, rfl, isRef_iff.2 ⟨before, rest.dropWhile isRefChar, ?_, hne, ?_,
      blankToEnd_iff.1 hblank⟩⟩
    · rw [List.takeWhile_append_dropWhile]
    · exact fun c hc => List.mem_takeWhile_imp hc

theorem match?_ref {after : Text} (hne : r ≠ []) (hall : ∀ c ∈ r, isRefChar c = true)
    (hblank : ∀ c ∈ after, isBlank c = true) :
    refPattern.match? ('^' :: (r ++ after)) = some ('^' :: r) := by
  have hend : ∀ c ∈ after.head?, isRefChar c = false := by
    intro c hc
    refine Bool.eq_false_iff.2 fun href => ?_
    have := hblank c (List.mem_of_mem_head? hc)
    rw [not_isBlank_of_isRefChar href] at this
    cases this
  have htake : (r ++ after).takeWhile isRefChar = r := Text.takeWhile_run hall hend
  have hdrop : (r ++ after).dropWhile isRefChar = after := by
    have hsplit := List.takeWhile_append_dropWhile (p := isRefChar) (l := r ++ after)
    rw [htake] at hsplit
    exact List.append_cancel_left hsplit
  rw [match?_refPattern, htake, hdrop, if_pos ⟨rfl, hne, blankToEnd_iff.2 hblank⟩]

theorem blockRef?_eq_some_iff : blockRef? t = some r ↔ IsRef t r := by
  rw [blockRef?, Option.map_eq_some_iff]
  constructor
  · rintro ⟨m, hm, rfl⟩
    obtain ⟨s, rfl, hs⟩ := isRef_of_search? hm
    exact hs
  · intro h
    obtain ⟨before, after, ht, hne, hall, hblank⟩ := isRef_iff.1 h
    obtain ⟨m, hm⟩ := Text.Pattern.exists_search? (match?_ref hne hall hblank) before
    rw [← ht] at hm
    obtain ⟨s, rfl, hs⟩ := isRef_of_search? hm
    obtain rfl := h.unique hs
    exact ⟨_, hm, rfl⟩

end Reference

/-- Of a node that is no literal, the record has the tags of its text in the order of code points,
each once, and the reference at the end of the text if there is one. The text is the node's own one,
or if it has none that of the text nodes below it. -/
theorem properties_of_prose (preview : Int) (file : Option Text) {n : Node}
    (hprose : n.label.kind ∉ [Kind.code, Kind.inlineCode, Kind.html, Kind.yaml]) :
    let t := n.label.value.getD n.textContent
    let as := properties preview file n
    (∃ found : List Text, as.get "tags".toList = .list (found.map .str) ∧
      found.Pairwise (· < ·) ∧ ∀ s, s ∈ found ↔ IsTag t s) ∧
    (∀ r, as.get "ref".toList = .str r ↔ IsRef t r) ∧
    (as.get "ref".toList = .null ↔ ¬ ∃ r, IsRef t r) := by
  have hliteral : literalKinds.contains n.label.kind = false := by
    rw [List.contains_eq_mem, decide_eq_false_iff_not]
    exact hprose
  dsimp only
  generalize ht : n.label.value.getD n.textContent = t
  have htags : (properties preview file n).get "tags".toList = .list ((tags t).map .str) := by
    rw [← ht]
    change Value.list (if !literalKinds.contains n.label.kind then _ else _) = _
    rw [hliteral]
    rfl
  have href : (properties preview file n).get "ref".toList = textValue (blockRef? t) := by
    rw [← ht]
    change textValue (if !literalKinds.contains n.label.kind then _ else _) = _
    rw [hliteral]
    rfl
  refine ⟨⟨tags t, htags, pairwise_tags t, fun s => mem_tags⟩, fun r => ?_, ?_⟩
  · rw [href, ← blockRef?_eq_some_iff]
    cases blockRef? t with
    | none => simp [textValue]
    | some s => simp [textValue]
  · simp only [href, ← blockRef?_eq_some_iff]
    cases blockRef? t with
    | none => simp [textValue]
    | some s => simp [textValue]

/-- A paragraph with two number signs side by side, a tag that goes on in an emphasis, and two
circumflexes of which the second one begins a reference. -/
def taggedParagraph : Node :=
  .node { id := 0, kind := Kind.paragraph } [
    .node { id := 1, kind := Kind.text, value := some "##b #a/".toList } [],
    .node { id := 2, kind := Kind.emphasis } [
      .node { id := 3, kind := Kind.text, value := some "x ^no ^ref-1 \n".toList } []]]

theorem properties_of_prose_sample :
    taggedParagraph.label.kind ∉ [Kind.code, Kind.inlineCode, Kind.html, Kind.yaml] ∧
    taggedParagraph.label.value = none ∧
    taggedParagraph.textContent = "##b #a/x ^no ^ref-1 \n".toList ∧
    (properties 200 none taggedParagraph).get "ref".toList = .str "ref-1".toList ∧
    IsRef "##b #a/x ^no ^ref-1 \n".toList "ref-1".toList ∧
    ∀ s, IsTag "##b #a/x ^no ^ref-1 \n".toList s ↔ s = "a/x".toList ∨ s = "b".toList := by
  have hprose : taggedParagraph.label.kind ∉
      [Kind.code, Kind.inlineCode, Kind.html, Kind.yaml] := by decide
  obtain ⟨⟨found, hget, -, htags⟩, href, -⟩ := properties_of_prose 200 none hprose
  have hfound : found.map Value.str = [.str "a/x".toList, .str "b".toList] :=
    (Value.list.inj hget).symm
  have hstr : Function.Injective Value.str := fun _ _ h => Value.str.inj h
  obtain rfl : found = ["a/x".toList, "b".toList] := hstr.list_map hfound
  have hr : (properties 200 none taggedParagraph).get "ref".toList = .str "ref-1".toList := rfl
  refine ⟨hprose, rfl, rfl, hr, (href _).1 hr, fun s => ?_⟩
  refine (htags s).symm.trans ?_
  simp

end Graph
end Outline
