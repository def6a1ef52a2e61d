import Outline.Text.Basic
/-!
Places and stretches of a source text. Lines and columns count from one, and the end column is one
past the last character. A point is before another by line and then by column.
-/

namespace Outline

structure Point where
  line : Int
  column : Int
  offset : Option Int
  deriving DecidableEq, Repr

structure Span where
  start : Point
  stop : Point
  deriving DecidableEq, Repr

namespace Span

def isMultiline (s : Span) : Bool := s.stop.line > s.start.line

/-- Both ends belong to the span: a cursor just past the last character is still covered. -/
def covers (s : Span) (line column : Int) : Bool :=
  if line < s.start.line ∨ line > s.stop.line then false
  else if line = s.start.line ∧ column < s.start.column then false
  else if line = s.stop.line ∧ column > s.stop.column then false
  else true

/-- Size for telling the more specific of two spans: columns, and `weight` for every line after
the first. -/
def area (s : Span) (weight : Int) : Int :=
  let columns := s.stop.column - s.start.column
  if s.isMultiline then (s.stop.line - s.start.line) * weight + columns else columns

def text (s : Span) : Text :=
  Text.ofInt s.start.line ++ ':' :: Text.ofInt s.start.column ++ '-' ::
    Text.ofInt s.stop.line ++ ':' :: Text.ofInt s.stop.column

end Span
end Outline
