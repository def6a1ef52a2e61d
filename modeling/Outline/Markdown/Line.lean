import Outline.Text.Class
/-!
Lines of a Markdown text, as the blocks that they are in leave them. A quote takes its marker off
its lines; an item leaves its marker on the line and moves the start of the content past it.
Indentation is counted in columns, with a tab stop at every fourth.
-/

namespace Outline.Markdown

structure Line where
  /-- What the enclosing quotes leave of the line. -/
  text : Text
  shift : Nat
  /-- The column of the content; negative if the line only continues a paragraph. -/
  indent : Int
  base : Nat
  final : Bool

namespace Line

instance : Inhabited Line := ⟨⟨[], 0, 0, 0, true⟩⟩

def content (l : Line) : Text := l.text.drop l.shift

def isEmpty (l : Line) : Bool := l.text.length ≤ l.shift

def tabStop (base column : Nat) : Nat := column + (4 - (column + base) % 4)

def skipBlanks (base : Nat) : Nat → Text → Nat × Nat
  | column, c :: t =>
    if Text.isSpaceOrTab c then
      let (n, column) := skipBlanks base (if c = '\t' then tabStop base column else column + 1) t
      (n + 1, column)
    else (0, column)
  | column, [] => (0, column)

def ofText (final : Bool) (t : Text) : Line :=
  let (n, column) := skipBlanks 0 0 t
  ⟨t, n, column, 0, final⟩

/-- Takes columns off the front as far as there are blanks or markers; of a tab that is taken in
part the rest becomes spaces. -/
def cutFrom (l : Line) (columns : Nat) : Nat → Nat → Text → Text
  | column, i, c :: t =>
    if columns ≤ column then List.replicate (column - columns) ' ' ++ c :: t
    else if c = '\t' then cutFrom l columns (tabStop l.base column) (i + 1) t
    else if c = ' ' ∨ i < l.shift then cutFrom l columns (column + 1) (i + 1) t
    else c :: t
  | column, _, [] => List.replicate (column - columns) ' '

def cut (columns : Nat) (l : Line) : Text := cutFrom l columns 0 0 l.text

end Line

def normalize : Text → Text
  | '\r' :: '\n' :: t => '\n' :: normalize t
  | '\r' :: t => '\n' :: normalize t
  | c :: t => (if c.toNat = 0 then '\ufffd' else c) :: normalize t
  | [] => []

/-- The lines of a text; a last line of blanks that no line feed ends is none. -/
def linesOf (t : Text) : List Line :=
  let ls := Text.lines (normalize t)
  let last := ls.getLast?.getD []
  ls.dropLast.map (Line.ofText false) ++
    if last.all Text.isSpaceOrTab then [] else [Line.ofText true last]

structure Area where
  lines : Array Line
  /-- Paragraphs end before this line. -/
  bound : Nat
  /-- The column at which the content of the enclosing item starts. -/
  indent : Nat := 0
  /-- The column of the enclosing item's list; negative outside of lists. -/
  listIndent : Int := -1
  level : Nat := 0
  tables : Bool

namespace Area

def line (a : Area) (i : Nat) : Line := a.lines[i]?.getD default

def isEmpty (a : Area) (i : Nat) : Bool := (a.line i).isEmpty

def isCode (a : Area) (i : Nat) : Bool := (a.line i).indent - a.indent ≥ 4

def isOut (a : Area) (i : Nat) : Bool := (a.line i).indent < a.indent

def cutLines (a : Area) (columns : Nat) : Nat → Nat → List Text
  | _, 0 => []
  | i, count + 1 =>
    let l := a.line i
    (l.cut columns ++ if l.final then [] else ['\n']) :: cutLines a columns (i + 1) count

def cutAll (a : Area) (columns i j : Nat) : Text := (a.cutLines columns i (j - i)).flatten

def cutText (a : Area) (columns i j : Nat) : Text :=
  (a.cutLines columns i (j - 1 - i)).flatten ++
    if i < j then (a.line (j - 1)).cut columns else []

end Area
end Outline.Markdown
