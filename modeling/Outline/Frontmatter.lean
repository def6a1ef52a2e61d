import Outline.Text.Class
/-!
The metadata block at the top of a note: a line of three hyphens, any lines, and a closing line of
three hyphens after which only spaces and tabs stand. The first line that can close the block does.
-/

namespace Outline.Frontmatter

def fence : Text := ['-', '-', '-']

structure Block where
  raw : Text
  /-- Characters up to the end of the closing line, its line feed included. -/
  length : Nat
  /-- Line feeds among them. -/
  lineCount : Nat
  /-- The number of the closing line, counted from one. -/
  endLine : Nat
  deriving DecidableEq, Repr

def closing? (t : Text) : Option Text :=
  if fence.isPrefixOf t then
    let blanks := (t.drop 3).takeWhile Text.isSpaceOrTab
    match (t.drop 3).dropWhile Text.isSpaceOrTab with
    | [] => some (fence ++ blanks)
    | '\n' :: _ => some (fence ++ blanks ++ ['\n'])
    | _ => none
  else none

/-- The text up to the first closing line, and that line. `atStart` says whether a line starts. -/
def upToClosing? (atStart : Bool) (t : Text) : Option (Text × Text) :=
  match if atStart then closing? t else none with
  | some line => some ([], line)
  | none =>
    match t with
    | [] => none
    | c :: rest => (upToClosing? (c == '\n') rest).map fun r => (c :: r.1, r.2)

def block? (t : Text) : Option Block :=
  match t with
  | '-' :: '-' :: '-' :: '\n' :: rest =>
    match upToClosing? true rest with
    | none => none
    | some (inner, line) =>
      some {
        raw := inner.dropLast
        length := 4 + inner.length + line.length
        lineCount := 1 + inner.count '\n' + line.count '\n'
        endLine := 2 + inner.count '\n' }
  | _ => none

def remove (t : Text) : Text :=
  match block? t with
  | some b => t.drop b.length
  | none => t

end Outline.Frontmatter
