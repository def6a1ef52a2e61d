import Mathlib.Data.List.Forall2
import Outline.Proofs.Drawing
import Outline.Proofs.LineTable

/-! What a drawing prints, character by character. A printed line is made of rails, a connector and
words (`Printed`), in this order and each written out here. No rail is a connector, so the first
connector ends what stands before the words, whatever they look like: depth and words can be read
from the line (`readLine_text`), and where no words go on to a second line, from the whole text
(`Prints.legible`). -/

namespace Outline.Containment

open Hierarchy (membersOf)

variable {settings : DrawingSettings} {members : NodeMap (List Node)} {threshold : Int}
  {above ns : List Node} {closed : List Bool} {seen seen' : List Nat} {lines : List Line}
  {n : Node} {l : Line}

def detail (i : Info) : Text :=
  if i.kind = Kind.heading then '[' :: i.depth.plain ++ [']']
  else if i.kind = Kind.text then ' ' :: '\x22' :: i.value.getD "None".toList ++ ['\x22']
  else if i.kind = Kind.code then '[' :: i.lang.getD [] ++ [']']
  else if i.kind = Kind.listItem then
    i.checked.elim [] fun done => ['[', if done then '✓' else '✗', ']']
  else []

def place (settings : DrawingSettings) (i : Info) : Text :=
  if settings.showSpans then i.span.elim [] fun s => ' ' :: '(' :: s.text ++ [')'] else []

/-- What stands on a line for its content. A summary gives the total and then each kind with its
count. -/
inductive Words (settings : DrawingSettings) : Content → Text → Prop
  | node (n : Node) : Words settings (.node n)
      (n.label.kind.toList ++ detail n.label.toInfo ++ place settings n.label.toInfo)
  | circular (n : Node) {t : Text} (h : Words settings (.node n) t) :
    Words settings (.circular n) (t ++ " [circular ref]".toList)
  | summary {counts : List (Kind × Nat)} {entries : List Text}
      (h : List.Forall₂ (fun e t => t = e.1.toList ++ '(' :: (toString e.2).toList ++ [')'])
        counts entries) :
    Words settings (.summary counts)
      ('[' :: (toString (counts.map (·.2)).sum).toList ++ " non-container nodes: ".toList ++
        ", ".toList.intercalate entries ++ [']'])

/-- What a line is printed as: a rail for every enclosing line but the top one, a connector on every
line but the top one, and the words. -/
def Printed (settings : DrawingSettings) (l : Line) (t : Text) : Prop :=
  ∃ words, Words settings l.content words ∧
    t = (l.closed.flatMap fun ended => (if ended then "   " else "│  ").toList) ++
      (if l.owner = none then "" else if l.last then "└─ " else "├─ ").toList ++ words

/-- How many rails and branches stand at the beginning of a line up to the first branch, and what
follows it. -/
def readLine : Text → Nat × Text
  | a :: b :: c :: t =>
    if [a, b, c] = rail true ∨ [a, b, c] = rail false then ((readLine t).1 + 1, (readLine t).2)
    else if [a, b, c] = branch true ∨ [a, b, c] = branch false then (1, t)
    else (0, a :: b :: c :: t)
  | t => (0, t)

/-- The depths and labels of all lines of a drawing. The top line has no prefix. -/
def readDrawing (t : Text) : List (Nat × Text) :=
  match (Text.lines t).dropLast with
  | [] => []
  | top :: below => (0, top) :: below.map readLine

theorem nodeName_eq (i : Info) : nodeName i = i.kind.toList ++ detail i := by
  unfold nodeName detail
  split_ifs with hh ht hc hl
  · rw [hh]; rfl
  · rw [ht]; rfl
  · rw [hc]; rfl
  · rw [hl]
    rcases i.checked with _ | _ <;> rfl
  · exact (List.append_nil _).symm

theorem nodeLabel_eq (settings : DrawingSettings) (n : Node) : nodeLabel settings n =
    n.label.kind.toList ++ detail n.label.toInfo ++ place settings n.label.toInfo := by
  unfold nodeLabel place
  rw [← nodeName_eq]
  rcases settings.showSpans with _ | _
  · exact (List.append_nil _).symm
  · rcases n.label.span with _ | s
    · exact (List.append_nil _).symm
    · simp

theorem words_summaryText (counts : List (Kind × Nat)) :
    Words settings (.summary counts) (summaryText counts) := by
  have hdigits (n : Nat) : Text.ofNat n = (toString n).toList := (String.toList_ofList).symm
  have h : List.Forall₂ (fun e t => t = e.1.toList ++ '(' :: (toString e.2).toList ++ [')']) counts
      (counts.map fun e => e.1.toList ++ '(' :: Text.ofNat e.2 ++ [')']) := by
    rw [List.forall₂_map_right_iff, List.forall₂_same]
    exact fun e _ => by rw [hdigits]
  have hw : Words settings (.summary counts) _ := .summary h
  rwa [← hdigits] at hw

theorem words_text (settings : DrawingSettings) (c : Content) :
    Words settings c (c.text settings) := by
  cases c with
  | node n =>
    rw [Content.text, nodeLabel_eq]
    exact .node n
  | circular n =>
    refine .circular n ?_
    rw [nodeLabel_eq]
    exact .node n
  | summary counts => exact words_summaryText counts

theorem printed_text (settings : DrawingSettings) (l : Line) :
    Printed settings l (l.text settings) := by
  refine ⟨l.content.text settings, words_text settings l.content, ?_⟩
  have hbranch : (if l.owner.isNone then [] else branch l.last) =
      (if l.owner = none then "" else if l.last then "└─ " else "├─ ").toList := by
    rcases l.owner with _ | o <;> rfl
  rw [Line.text, hbranch]
  rfl

/-- Every line begins with the rails of its owner's line, and below the top line with one more, which
goes on unless that line ended its branch. -/
def Railed (lines : List Line) : Prop :=
  ∀ l ∈ lines, (l.owner = none ∧ l.closed = []) ∨
    ∃ k ∈ lines, ∃ n, k.content = .node n ∧ l.owner = some n ∧
      l.closed = if k.owner = none then [] else k.closed ++ [k.last]

theorem Draws.closed_cases (h : Draws members threshold above closed seen ns lines seen')
    (hl : l ∈ lines) : (l.owner = above.head? ∧ l.closed = closed) ∨
      ∃ k ∈ lines, ∃ n, k.content = .node n ∧ l.owner = some n ∧
        l.closed = if k.owner.isNone then k.closed else k.closed ++ [k.last] := by
  induction h with
  | done => cases hl
  | circular _ _ ih =>
    rcases List.mem_cons.1 hl with rfl | hl
    · exact .inl ⟨rfl, rfl⟩
    · exact (ih hl).imp_right fun ⟨k, hk, h⟩ => ⟨k, List.mem_cons_of_mem _ hk, h⟩
  | skip _ _ _ ih => exact ih hl
  | @node above closed below _ _ _ n ns own lines _ _ hb _ _ iho ihr =>
    -- what is below the node goes on from its line
    have hbelow (ho : l.owner = some n) (hc : l.closed = below) :
        ∃ k ∈ (⟨.node n, above.head?, closed, ns.isEmpty⟩ :: (summaryLine threshold n below
          (membersOf members n) ++ own ++ lines) : List Line), ∃ n, k.content = .node n ∧
          l.owner = some n ∧ l.closed = if k.owner.isNone then k.closed else k.closed ++ [k.last] :=
      ⟨_, List.mem_cons_self, n, rfl, ho, hc.trans hb⟩
    simp only [List.mem_cons, List.mem_append] at hl
    rcases hl with rfl | (hl | hl) | hl
    · exact .inl ⟨rfl, rfl⟩
    · obtain rfl := eq_of_mem_summaryLine hl
      exact .inr (hbelow rfl rfl)
    · rcases iho hl with ⟨ho, hc⟩ | ⟨k, hk, h⟩
      · exact .inr (hbelow ho hc)
      · exact .inr ⟨k, by simp [hk], h⟩
    · exact (ihr hl).imp_right fun ⟨k, hk, h⟩ => ⟨k, by simp [hk], h⟩

theorem draw_railed (members : NodeMap (List Node)) (threshold : Int) (root : Node) :
    Railed (draw members threshold root) := by
  obtain ⟨seen, h⟩ := draw_draws members threshold root
  intro l hl
  rcases h.closed_cases hl with htop | ⟨k, hk, n, hn, ho, hc⟩
  · exact .inl htop
  · refine .inr ⟨k, hk, n, hn, ho, ?_⟩
    rcases hk' : k.owner with _ | o
    · -- only the root stands under no node
      rcases h.closed_cases hk with ⟨-, hk⟩ | ⟨_, -, _, -, ho', -⟩
      · rw [hc, hk', if_pos rfl, hk]
        rfl
      · simp [hk'] at ho'
    · rw [hc, hk']
      rfl

theorem readLine_rail (c : Bool) (t : Text) :
    readLine (rail c ++ t) = ((readLine t).1 + 1, (readLine t).2) := by
  cases c
  · exact if_pos (.inr rfl)
  · exact if_pos (.inl rfl)

theorem readLine_branch (last : Bool) (t : Text) : readLine (branch last ++ t) = (1, t) := by
  cases last <;> rfl

theorem readLine_text (content : Content) (o : Node) (closed : List Bool) (last : Bool) :
    readLine (Line.text settings ⟨content, some o, closed, last⟩) =
      (closed.length + 1, content.text settings) := by
  change readLine (closed.flatMap rail ++ branch last ++ content.text settings) = _
  rw [List.append_assoc]
  induction closed with
  | nil => exact readLine_branch _ _
  | cons c closed ih => rw [List.flatMap_cons, List.append_assoc, readLine_rail, ih]; rfl

theorem not_mem_rails (closed : List Bool) : '\n' ∉ closed.flatMap rail := by
  intro hmem
  obtain ⟨c, -, hmem⟩ := List.mem_flatMap.1 hmem
  cases c <;> exact absurd hmem (by decide)

theorem not_mem_branch : ∀ last, '\n' ∉ branch last := by decide

theorem not_mem_text {l : Line} (h : '\n' ∉ l.content.text settings) :
    '\n' ∉ l.text settings := by
  rw [Line.text, List.mem_append, List.mem_append, not_or, not_or]
  refine ⟨⟨not_mem_rails _, ?_⟩, h⟩
  split
  · exact List.not_mem_nil
  · exact not_mem_branch _

theorem drawingText_eq (lines : List Line) : drawingText settings lines =
    (lines.map (Line.text settings)).flatMap (· ++ ['\n']) := by
  rw [List.flatMap_map]
  rfl

theorem lines_flatMap {ls : List Text} (h : ∀ l ∈ ls, '\n' ∉ l) :
    Text.lines (ls.flatMap (· ++ ['\n'])) = ls ++ [[]] := by
  induction ls with
  | nil => rfl
  | cons l ls ih =>
    rw [List.flatMap_cons, List.append_assoc, List.singleton_append, Text.lines_append,
      Text.lines_of_not_mem (h l List.mem_cons_self),
      ih fun k hk => h k (List.mem_cons_of_mem _ hk)]
    rfl

/-- What the text of a drawing is: its lines in order, each with a line feed after it. Where no words
hold a line feed, depth and words of every line can be read from the text. -/
structure Prints (settings : DrawingSettings) (lines : List Line) (text : Text) : Prop where
  written : ∃ ts, List.Forall₂ (Printed settings) lines ts ∧ text = ts.flatMap (· ++ ['\n'])
  railed : Railed lines
  legible : (∀ l ∈ lines, ∀ words, Words settings l.content words → '\n' ∉ words) →
    List.Forall₂ (fun l e => e.1 = (if l.owner = none then 0 else l.closed.length + 1) ∧
      Words settings l.content e.2) lines (readDrawing text)

theorem draw_prints (members : NodeMap (List Node)) (threshold : Int) (root : Node)
    (settings : DrawingSettings) : Prints settings (draw members threshold root)
      (drawingText settings (draw members threshold root)) where
  written := by
    refine ⟨(draw members threshold root).map (Line.text settings), ?_, drawingText_eq _⟩
    rw [List.forall₂_map_right_iff, List.forall₂_same]
    exact fun l _ => printed_text settings l
  railed := draw_railed members threshold root
  legible h := by
    have hbreaks : ∀ l ∈ draw members threshold root, '\n' ∉ l.text settings :=
      fun l hl => not_mem_text (h l hl _ (words_text settings l.content))
    rw [readDrawing, drawingText_eq, lines_flatMap (List.forall_mem_map.2 hbreaks),
      List.dropLast_concat]
    obtain ⟨rest, he, hrest⟩ := draw_eq_cons members threshold root
    rw [he, List.map_cons]
    refine .cons ⟨rfl, words_text settings (.node root)⟩ ?_
    rw [List.map_map, List.forall₂_map_right_iff, List.forall₂_same]
    intro l hl
    obtain ⟨n, -, ho⟩ := hrest l hl
    obtain ⟨content, owner, closed, last⟩ := l
    cases ho
    dsimp only [Function.comp]
    rw [readLine_text]
    exact ⟨rfl, words_text settings content⟩

end Outline.Containment
