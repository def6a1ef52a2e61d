import Mathlib.Data.List.Basic
import Mathlib.Data.List.TakeWhile
import Outline.Proofs.LineTable
import Outline.Text.Pattern

/-! The metadata block of a text, line by line. The first line is a fence, and the block goes on to
the first later line that closes it (`Framed`). What the block says of itself is read off these lines
(`Block.ofLines`). The block is also what a pattern takes off the text that tries a closing line at
once and after that as few characters as possible (`rest?_pattern`). -/

namespace Outline

namespace Text

def feed (ls : List Text) : Text := ls.flatMap (· ++ ['\n'])

theorem unlines_concat (ls : List Text) (l : Text) : unlines (ls ++ [l]) = feed ls ++ l := by
  induction ls with
  | nil => rfl
  | cons m ls ih =>
    obtain ⟨n, ns, hns⟩ : ∃ n ns, ls ++ [l] = n :: ns := List.exists_cons_of_ne_nil (by simp)
    have hfeed : feed (m :: ls) = m ++ '\n' :: feed ls := by simp [feed]
    rw [List.cons_append, hns, unlines, ← hns, ih, hfeed, List.append_assoc, List.cons_append]
    simp

theorem dropLast_feed (ls : List Text) : (feed ls).dropLast = unlines ls := by
  obtain rfl | ⟨init, l, rfl⟩ := List.eq_nil_or_concat' ls
  · rfl
  · have hfeed : feed (init ++ [l]) = feed init ++ l ++ ['\n'] := by simp [feed]
    rw [hfeed, List.dropLast_concat, unlines_concat]

theorem count_feed {ls : List Text} (h : ∀ l ∈ ls, '\n' ∉ l) :
    (feed ls).count '\n' = ls.length := by
  induction ls with
  | nil => rfl
  | cons l ls ih =>
    obtain ⟨hl, hls⟩ := List.forall_mem_cons.1 h
    have hfeed : feed (l :: ls) = l ++ '\n' :: feed ls := by simp [feed]
    rw [hfeed, List.count_append, List.count_eq_zero.2 hl, List.count_cons_self, ih hls,
      List.length_cons, Nat.zero_add]

theorem not_mem_of_mem_lines {t l : Text} (hl : l ∈ lines t) : '\n' ∉ l := by
  generalize hls : lines t = ls at hl
  induction ls generalizing t with
  | nil => cases hl
  | cons m ls ih =>
    obtain ⟨hm, ⟨-, rfl⟩ | ⟨u, -, hu⟩⟩ := lines_eq_cons hls
    · rwa [List.mem_singleton.1 hl]
    · obtain rfl | hl := List.mem_cons.1 hl
      · exact hm
      · exact ih hu hl

end Text

namespace Frontmatter

open Text Pattern

/-- A fence with nothing but spaces and tabs after it. -/
def Closes (l : Text) : Prop := ∃ blanks, l = fence ++ blanks ∧ ∀ c ∈ blanks, isSpaceOrTab c = true

/-- The text begins with a metadata block: a fence, the lines inside, and the first line that closes
the block, before the other lines of the text. -/
structure Framed (t : Text) (inside : List Text) (last : Text) (after : List Text) : Prop where
  lines : Text.lines t = fence :: (inside ++ last :: after)
  closes : Closes last
  first : ∀ l ∈ inside, ¬ Closes l

def lineEnd (after : List Text) : Text := if after = [] then [] else ['\n']

def Block.ofLines (inside : List Text) (last : Text) (after : List Text) : Block where
  raw := unlines inside
  length := (unlines (fence :: (inside ++ [last]))).length + (lineEnd after).length
  lineCount := inside.length + 1 + (lineEnd after).length
  endLine := inside.length + 2

variable {t l last line inner : Text} {inside after ls : List Text}

section Closing

theorem Closes.not_mem (h : Closes l) : '\n' ∉ l := by
  obtain ⟨blanks, rfl, hblanks⟩ := h
  intro hmem
  obtain hmem | hmem := List.mem_append.1 hmem
  · revert hmem
    decide
  · exact absurd (hblanks _ hmem) (by decide)

theorem lineEnd_lines (u : Text) : lineEnd (Text.lines u) = ['\n'] := if_neg (lines_ne_nil u)

theorem closing?_of_lines (h : Text.lines t = last :: after) (hc : Closes last) :
    closing? t = some (last ++ lineEnd after) := by
  obtain ⟨-, hrest⟩ := lines_eq_cons h
  obtain ⟨blanks, rfl, hblanks⟩ := hc
  have htake : ∀ r : Text, (∀ c ∈ r.head?, isSpaceOrTab c = false) →
      ((fence ++ blanks ++ r).drop 3).takeWhile isSpaceOrTab = blanks ∧
      ((fence ++ blanks ++ r).drop 3).dropWhile isSpaceOrTab = r := by
    intro r hr
    have hdrop : (fence ++ blanks ++ r).drop 3 = blanks ++ r := rfl
    rw [hdrop, List.takeWhile_append_of_pos hblanks, List.dropWhile_append_of_pos hblanks]
    rcases r with _ | ⟨c, r⟩
    · simp
    · simp [hr c rfl]
  have hfence : ∀ r : Text, fence.isPrefixOf (fence ++ blanks ++ r) = true := fun r =>
    List.isPrefixOf_iff_prefix.2 ⟨blanks ++ r, (List.append_assoc ..).symm⟩
  obtain ⟨rfl, rfl⟩ | ⟨u, rfl, rfl⟩ := hrest
  · obtain ⟨h1, h2⟩ := htake [] (by simp)
    rw [List.append_nil] at h1 h2
    have hf := hfence []
    rw [List.append_nil] at hf
    simp only [closing?, if_pos hf, h1, h2]
    simp [lineEnd]
  · obtain ⟨h1, h2⟩ := htake ('\n' :: u) (by simp; decide)
    simp only [closing?, if_pos (hfence _), h1, h2, lineEnd_lines]

theorem closes_of_closing? (h : closing? t = some line) :
    ∃ last ∈ (Text.lines t).head?, Closes last := by
  unfold closing? at h
  split at h
  · next hf =>
    obtain ⟨rest, rfl⟩ := List.isPrefixOf_iff_prefix.1 hf
    have hsplit := List.takeWhile_append_dropWhile (p := isSpaceOrTab) (l := rest)
    have hcloses : Closes (fence ++ rest.takeWhile isSpaceOrTab) :=
      ⟨_, rfl, fun c hc => List.mem_takeWhile_imp hc⟩
    have hdrop : (fence ++ rest).drop 3 = rest := rfl
    rw [hdrop] at h
    split at h
    · next hd =>
      rw [hd, List.append_nil] at hsplit
      rw [hsplit] at hcloses
      exact ⟨fence ++ rest, by rw [lines_of_not_mem hcloses.not_mem]; rfl, hcloses⟩
    · next u hd =>
      rw [hd] at hsplit
      refine ⟨_, ?_, hcloses⟩
      rw [← hsplit, ← List.append_assoc, lines_append, hsplit, lines_of_not_mem hcloses.not_mem]
      rfl
    · cases h
  · cases h

theorem closing?_eq_none (h : Text.lines t = l :: ls) (hc : ¬ Closes l) : closing? t = none := by
  rcases hline : closing? t with _ | line
  · rfl
  · obtain ⟨last, hlast, hcloses⟩ := closes_of_closing? hline
    rw [h] at hlast
    cases hlast
    exact absurd hcloses hc

end Closing

section Search

theorem upToClosing?_true (t : Text) :
    upToClosing? true t = ((closing? t).map ([], ·)).or (upToClosing? false t) := by
  rcases hline : closing? t with _ | line
  · cases t <;> simp [upToClosing?, hline]
  · unfold upToClosing?
    simp only [if_true, hline]
    rfl

/-- In the middle of a line the search goes on to the next line. -/
theorem upToClosing?_false_append (hl : '\n' ∉ l) (u : Text) :
    upToClosing? false (l ++ '\n' :: u) =
      (upToClosing? true u).map fun r => (l ++ '\n' :: r.1, r.2) := by
  induction l with
  | nil => rfl
  | cons c l ih =>
    obtain ⟨hc, hl⟩ := not_or.1 (mt List.mem_cons.2 hl)
    have hnot : (c == '\n') = false := beq_false_of_ne (Ne.symm hc)
    rw [List.cons_append, upToClosing?]
    simp only [hnot, ih hl, Option.map_map]
    rfl

theorem upToClosing?_false_of_not_mem (hl : '\n' ∉ l) : upToClosing? false l = none := by
  induction l with
  | nil => rfl
  | cons c l ih =>
    obtain ⟨hc, hl⟩ := not_or.1 (mt List.mem_cons.2 hl)
    have hnot : (c == '\n') = false := beq_false_of_ne (Ne.symm hc)
    rw [upToClosing?]
    simp only [hnot, ih hl]
    rfl

/-- The search ends at the first line that closes a block. -/
theorem upToClosing?_of_lines (h : Text.lines t = inside ++ last :: after) (hc : Closes last)
    (hfirst : ∀ l ∈ inside, ¬ Closes l) :
    upToClosing? true t = some (feed inside, last ++ lineEnd after) := by
  induction inside generalizing t with
  | nil =>
    rw [upToClosing?_true, closing?_of_lines h hc]
    rfl
  | cons l inside ih =>
    obtain ⟨hl, hinside⟩ := List.forall_mem_cons.1 hfirst
    obtain ⟨hmem, ⟨-, hnil⟩ | ⟨u, rfl, hu⟩⟩ := lines_eq_cons h
    · cases inside <;> cases hnil
    · rw [upToClosing?_true, closing?_eq_none h hl, upToClosing?_false_append hmem, ih hu hinside]
      simp [feed]

theorem upToClosing?_eq_none (h : ∀ l ∈ Text.lines t, ¬ Closes l) : upToClosing? true t = none := by
  generalize hls : Text.lines t = ls at h
  induction ls generalizing t with
  | nil => exact absurd hls (lines_ne_nil t)
  | cons l ls ih =>
    obtain ⟨hl, hrest⟩ := List.forall_mem_cons.1 h
    rw [upToClosing?_true, closing?_eq_none hls hl]
    obtain ⟨hmem, ⟨rfl, -⟩ | ⟨u, rfl, hu⟩⟩ := lines_eq_cons hls
    · rw [upToClosing?_false_of_not_mem hmem]
      rfl
    · rw [upToClosing?_false_append hmem, ih hu hrest]
      rfl

end Search

section Blocks

theorem block?_fence (u : Text) : block? (fence ++ '\n' :: u) = (upToClosing? true u).map fun r =>
    { raw := r.1.dropLast
      length := 4 + r.1.length + r.2.length
      lineCount := 1 + r.1.count '\n' + r.2.count '\n'
      endLine := 2 + r.1.count '\n' } := by
  rcases hu : upToClosing? true u with _ | ⟨inner, line⟩
  · simp [block?, fence, hu]
  · simp [block?, fence, hu]

theorem exists_of_block? {b : Block} (h : block? t = some b) : ∃ u, t = fence ++ '\n' :: u := by
  unfold block? at h
  split at h
  · exact ⟨_, rfl⟩
  · cases h

theorem Framed.block? (h : Framed t inside last after) :
    block? t = some (.ofLines inside last after) := by
  obtain ⟨-, ⟨-, hnil⟩ | ⟨u, rfl, hu⟩⟩ := lines_eq_cons h.lines
  · cases inside <;> cases hnil
  have hinside : ∀ l ∈ inside, '\n' ∉ l := by
    intro l hl
    refine not_mem_of_mem_lines (t := u) ?_
    rw [hu]
    exact List.mem_append_left _ hl
  have hlast : last.count '\n' = 0 := List.count_eq_zero.2 h.closes.not_mem
  have hend : (lineEnd after).count '\n' = (lineEnd after).length := by
    unfold lineEnd
    split <;> rfl
  have hlength : (unlines (fence :: (inside ++ [last]))).length =
      4 + (feed inside).length + last.length := by
    rw [← List.cons_append, unlines_concat]
    simp [feed, fence]
    omega
  rw [block?_fence, upToClosing?_of_lines hu h.closes h.first, Option.map_some]
  simp only [Block.ofLines, dropLast_feed, count_feed hinside, List.count_append,
    List.length_append, hlast, hend, hlength]
  congr 2 <;> omega

theorem exists_framed (h : (Text.lines t).head? = some fence)
    (hc : ∃ l ∈ (Text.lines t).tail, Closes l) :
    ∃ inside last after, Framed t inside last after := by
  classical
  obtain ⟨ls, hls⟩ := List.head?_eq_some_iff.1 h
  rw [hls, List.tail_cons] at hc
  obtain ⟨last, hlast⟩ : ∃ last, ls.find? (fun l => decide (Closes l)) = some last :=
    Option.isSome_iff_exists.1 (List.find?_isSome.2 (by simpa using hc))
  obtain ⟨hcloses, inside, after, rfl, hfirst⟩ := List.find?_eq_some_iff_append.1 hlast
  exact ⟨inside, last, after, hls, by simpa using hcloses, by simpa using hfirst⟩

theorem block?_isSome_iff : (block? t).isSome ↔
    (Text.lines t).head? = some fence ∧ ∃ l ∈ (Text.lines t).tail, Closes l := by
  constructor
  · intro h
    obtain ⟨b, hb⟩ := Option.isSome_iff_exists.1 h
    obtain ⟨u, rfl⟩ := exists_of_block? hb
    have hlines : Text.lines (fence ++ '\n' :: u) = fence :: Text.lines u := lines_append ..
    rw [hlines]
    refine ⟨rfl, ?_⟩
    by_contra hnone
    rw [block?_fence, upToClosing?_eq_none fun l hl hc => hnone ⟨l, hl, hc⟩] at hb
    cases hb
  · rintro ⟨hfence, hc⟩
    obtain ⟨inside, last, after, h⟩ := exists_framed hfence hc
    rw [h.block?]
    rfl

end Blocks

section Pattern

def closingLine : Pattern := literal fence ++ many isSpaceOrTab ++ alt (char '\n') atEnd

/-- A fence, then a closing line, either at once or after as few characters as possible and a line
feed. -/
def pattern : Pattern :=
  literal (fence ++ ['\n']) ++ alt empty (few (fun _ => true) ++ char '\n') ++ closingLine

theorem run_literal (w r : Text) (k : Text → Option Text) :
    (literal w).run r k = if w.isPrefixOf r then k (r.drop w.length) else none := by
  induction w generalizing r with
  | nil => rfl
  | cons c w ih =>
    rcases r with _ | ⟨d, r⟩
    · rfl
    · change (if d == c then (literal w).run r k else none) = _
      rw [ih, List.isPrefixOf_cons_cons]
      by_cases hc : d = c
      · simp [hc]
      · simp [hc, Ne.symm hc]

def lineEnds (r : Text) : Option Text := (alt (char '\n') atEnd).run r some

theorem lineEnds_cons (c : Char) (r : Text) :
    lineEnds (c :: r) = if c = '\n' then some r else none := by
  by_cases hc : c = '\n'
  · simp [lineEnds, Pattern.run, char, hc]
  · simp [lineEnds, Pattern.run, char, atEnd, hc]

theorem run_closingLine (r : Text) :
    closingLine.run r some = (closing? r).map fun line => r.drop line.length := by
  have hblank : ∀ c r, isSpaceOrTab c = true → lineEnds (c :: r) = none := by
    intro c r hc
    rw [lineEnds_cons, if_neg]
    rintro rfl
    revert hc
    decide
  change (literal fence).run r (fun r => manyFrom isSpaceOrTab lineEnds r) = _
  rw [run_literal, closing?]
  split
  · next hf =>
    obtain ⟨rest, rfl⟩ := List.isPrefixOf_iff_prefix.1 hf
    have hdrop : (fence ++ rest).drop 3 = rest := rfl
    have hdrop' : (fence ++ rest).drop fence.length = rest := rfl
    have hsplit := List.takeWhile_append_dropWhile (p := isSpaceOrTab) (l := rest)
    rw [manyFrom_eq hblank, hdrop, hdrop']
    generalize hd : rest.dropWhile isSpaceOrTab = after at hsplit
    generalize rest.takeWhile isSpaceOrTab = blanks at hsplit
    subst hsplit
    rcases after with _ | ⟨c, u⟩
    · simp [lineEnds, Pattern.run, char, atEnd]
    · rw [lineEnds_cons]
      split
      · next hc =>
        subst hc
        have hlast : fence ++ (blanks ++ '\n' :: u) = fence ++ blanks ++ ['\n'] ++ u := by simp
        rw [hlast]
        simp only [Option.map_some, List.drop_left']
      · next hc =>
        split
        · next h => cases h
        · next h =>
          cases h
          exact absurd rfl hc
        · rfl
  · rfl

/-- What is left after what a search has found. -/
def leftBy (r : Text) (found : Text × Text) : Text := r.drop (found.1.length + found.2.length)

theorem leftBy_cons (c : Char) (r : Text) (found : Text × Text) :
    leftBy (c :: r) (c :: found.1, found.2) = leftBy r found := by
  rw [leftBy, List.length_cons, Nat.add_right_comm, List.drop_succ_cons]
  rfl

/-- A closing line at once, or later. -/
theorem map_upToClosing?_true (r : Text) : (upToClosing? true r).map (leftBy r) =
    (closingLine.run r some).or ((upToClosing? false r).map (leftBy r)) := by
  rw [upToClosing?_true, run_closingLine, Option.map_or, Option.map_map]
  congr 2
  funext line
  simp [leftBy]

theorem fewFrom_eq (r : Text) :
    fewFrom (fun _ => true) (fun r => (char '\n').run r fun r => closingLine.run r some) r =
      (upToClosing? false r).map (leftBy r) := by
  induction r with
  | nil => rfl
  | cons c r ih =>
    have hfound : (upToClosing? false (c :: r)).map (leftBy (c :: r)) =
        (upToClosing? (c == '\n') r).map (leftBy r) := by
      have hsearch : upToClosing? false (c :: r) =
        (upToClosing? (c == '\n') r).map fun found => (c :: found.1, found.2) := rfl
      rw [hsearch, Option.map_map]
      congr 1
      funext found
      exact leftBy_cons c r found
    rw [fewFrom, if_pos rfl, ih, hfound]
    by_cases hc : c = '\n'
    · subst hc
      exact (map_upToClosing?_true r).symm
    · have hnot : (c == '\n') = false := beq_false_of_ne hc
      have hchar : ((char '\n').run (c :: r) fun r => closingLine.run r some) = none := by
        simp [Pattern.run, char, hnot]
      rw [hchar, hnot, Option.none_or]

theorem rest?_pattern (t : Text) :
    pattern.rest? t = (block? t).map fun b => t.drop b.length := by
  change (literal (fence ++ ['\n'])).run t (fun r => (closingLine.run r some).or
    (fewFrom (fun _ => true) (fun r => (char '\n').run r fun r => closingLine.run r some) r)) = _
  rw [run_literal]
  split
  · next hf =>
    obtain ⟨u, rfl⟩ := List.isPrefixOf_iff_prefix.1 hf
    have hdrop : (fence ++ ['\n'] ++ u).drop (fence ++ ['\n']).length = u := rfl
    rw [fewFrom_eq, hdrop, ← map_upToClosing?_true, List.append_assoc, List.singleton_append,
      block?_fence, Option.map_map]
    congr 1
    funext found
    simp only [Function.comp, leftBy]
    rw [Nat.add_assoc, Nat.add_comm 4]
    rfl
  · next hf =>
    rcases hb : block? t with _ | b
    · rfl
    · obtain ⟨u, rfl⟩ := exists_of_block? hb
      exact absurd (List.isPrefixOf_iff_prefix.2 ⟨u, by simp⟩) hf

end Pattern

/-- The metadata block of a text, by the lines of the text. There is one if the first line is a
fence and a later one closes it. The first such line is its last line, and from this follows
everything that the block says. The text without the block is what the pattern of a block leaves. -/
theorem block_by_lines (t : Text) :
    ((block? t).isSome ↔
      (Text.lines t).head? = some fence ∧ ∃ l ∈ (Text.lines t).tail, Closes l) ∧
    (∀ b, block? t = some b ↔
      ∃ inside last after, Framed t inside last after ∧ b = .ofLines inside last after) ∧
    pattern.rest? t = (block? t).map (fun b => t.drop b.length) ∧
    remove t = (pattern.rest? t).getD t := by
  refine ⟨block?_isSome_iff, fun b => ⟨fun hb => ?_, ?_⟩, rest?_pattern t, ?_⟩
  · obtain ⟨hfence, hc⟩ := block?_isSome_iff.1 (Option.isSome_of_eq_some hb)
    obtain ⟨inside, last, after, h⟩ := exists_framed hfence hc
    rw [h.block?] at hb
    exact ⟨inside, last, after, h, (Option.some.inj hb).symm⟩
  · rintro ⟨inside, last, after, h, rfl⟩
    exact h.block?
  · rw [rest?_pattern, remove]
    rcases block? t with _ | b
    · rfl
    · rfl

end Frontmatter
end Outline
