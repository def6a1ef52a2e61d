import Outline.Span
import Outline.Text.Class
import Outline.Yaml.Fault
/-!
The source text as lines, and the spans that block tokens cover in it. A span's end is trimmed of
blank lines and of blanks; its start is moved past indentation and the markers of the enclosing
quotes.
-/

namespace Outline.Document

inductive Fault where
  | noOpenBlock
  | lineOutOfRange
  | badNumber
  | metadata (fault : Yaml.Fault)
  deriving DecidableEq, Repr

structure Source where
  lines : List Text
  starts : List Nat
  /-- Lines before the text that the tokens were made from. -/
  offset : Nat := 0

namespace Source

def ofText (t : Text) : Source := ⟨Text.lines t, Text.starts (Text.lines t) 0, 0⟩

def line? (s : Source) (i : Int) : Option Text := Text.entry? s.lines i

def point? (s : Source) (line column : Int) : Option Point :=
  (Text.entry? s.starts (line - 1)).map fun start => ⟨line, column, some (start + column - 1)⟩

def span? (s : Source) (startLine startColumn stopLine stopColumn : Int) : Option Span := do
  return ⟨← s.point? startLine startColumn, ← s.point? stopLine stopColumn⟩

def isBlankLine (l : Text) : Bool := l.all fun c => Text.isSpaceOrTab c || c == '>'

/-- The position of the first character past indentation and at most `depth` quote markers, each
with the blanks after it. -/
def contentIndex : Nat → Text → Nat
  | 0, l => (l.takeWhile Text.isSpaceOrTab).length
  | depth + 1, l =>
    let blanks := (l.takeWhile Text.isSpaceOrTab).length
    match l.dropWhile Text.isSpaceOrTab with
    | '>' :: rest => blanks + 1 + contentIndex depth rest
    | _ => blanks

/-- Steps back over blank lines, at most `steps` of them. -/
def lastLine? (s : Source) (last : Int) : Nat → Option Int
  | 0 => some last
  | steps + 1 => do
    if isBlankLine (← s.line? last) then lastLine? s (last - 1) steps else return last

def blockSpan? (s : Source) (quoteDepth : Nat) (map : Int × Int) : Option Span := do
  let bottom : Int := s.lines.length - 1
  let first := min (map.1 + s.offset) bottom
  let last := min (max first (map.2 - 1 + s.offset)) bottom
  let last ← s.lastLine? last (last - first).toNat
  let top ← s.line? first
  let final ← s.line? last
  s.span? (first + 1) (contentIndex quoteDepth top + 1)
    (last + 1) ((Text.trimEnd Text.isBlank final).length + 1)

end Source
end Outline.Document
