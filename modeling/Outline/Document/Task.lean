import Outline.Node
/-!
Tasks. A list item is a task if its first child is a paragraph that begins with a box, `[ ]` or
`[x]`, followed by blanks, a line feed or the end. The box and the blanks leave the text.
-/

namespace Outline.Document

/-- Whether the box is ticked, and the number of characters up to the task's own text. -/
def taskBox? : Text → Option (Bool × Nat)
  | '[' :: c :: ']' :: rest =>
    if c = ' ' ∨ c = 'x' ∨ c = 'X' then
      let blanks := rest.takeWhile Text.isSpaceOrTab
      if blanks ≠ [] ∨ rest.head?.all (· == '\n') then some (c ≠ ' ', 3 + blanks.length) else none
    else none
  | _ => none

def Point.shift (p : Point) (n : Nat) : Point :=
  { p with column := p.column + n, offset := p.offset.map (· + n) }

/-- The text node without its first characters; nothing if none are left. -/
def dropText (info : Info) (n : Nat) (below : List (Tree Info)) : List (Tree Info) :=
  let rest := (info.value.getD []).drop n
  if rest.isEmpty then []
  else [.node { info with
    value := some rest
    span := info.span.map fun s => { s with start := Point.shift s.start n } } below]

def detectTask (item : Info) (children : List (Tree Info)) : Info × List (Tree Info) :=
  match children with
  | .node paragraph (.node text below :: others) :: rest =>
    if paragraph.kind = Kind.paragraph ∧ text.kind = Kind.text then
      match taskBox? (text.value.getD []) with
      | some (done, n) =>
        ({ item with checked := some done },
          .node paragraph (dropText text n below ++ others) :: rest)
      | none => (item, children)
    else (item, children)
  | _ => (item, children)

end Outline.Document
