import Outline.Text.Class
import Outline.Yaml.Fault
/-!
Places in a YAML text: what is left of it, how far in it is, and the line and column. The end of
the text counts as the end of a line.
-/

namespace Outline.Yaml

def isBreak (c : Char) : Bool :=
  c == '\n' || c == '\r' || c == '\u0085' || c == '\u2028' || c == '\u2029'

def isAllowed (c : Char) : Bool :=
  let n := c.toNat
  n == 9 || n == 10 || n == 13 || (32 ≤ n && n ≤ 126) || n == 0x85 || (0xa0 ≤ n && n ≤ 0xd7ff) ||
    (0xe000 ≤ n && n ≤ 0xfffd) || 0x10000 ≤ n

def byteOrderMark : Char := '\ufeff'

structure Place where
  rest : Text
  index : Nat := 0
  line : Nat := 0
  column : Nat := 0

namespace Place

def next (p : Place) : Place :=
  match p.rest with
  | [] => p
  | c :: t =>
    if isBreak c && !(c == '\r' && t.head? == some '\n') then ⟨t, p.index + 1, p.line + 1, 0⟩
    else ⟨t, p.index + 1, p.line, if c == byteOrderMark then p.column else p.column + 1⟩

def forward : Nat → Place → Place
  | 0, p => p
  | n + 1, p => forward n p.next

def atEnd (p : Place) : Bool := p.rest.isEmpty

def isAt (p : Place) (c : Char) : Bool := p.rest.head? == some c

def isAtAny (p : Place) (cs : String) : Bool := p.rest.head?.any cs.toList.contains

def atLineEnd (p : Place) : Bool := p.rest.head?.all isBreak

def atBreak (p : Place) : Bool := p.rest.head?.any isBreak

def atSpace (p : Place) : Bool := p.atLineEnd || p.isAt ' '

def atBlank (p : Place) : Bool := p.atSpace || p.isAt '\t'

def skipWhile (f : Char → Bool) (p : Place) : Place := p.forward (p.rest.takeWhile f).length

def skipSpaces (p : Place) : Place := p.skipWhile (· == ' ')

/-- Goes over one end of a line, and gives the character that it stands for. -/
def skipBreak (p : Place) : Text × Place :=
  match p.rest with
  | '\r' :: '\n' :: _ => (['\n'], p.forward 2)
  | c :: _ =>
    if c == '\u2028' || c == '\u2029' then ([c], p.next)
    else if isBreak c then (['\n'], p.next)
    else ([], p)
  | [] => ([], p)

def skipComment (p : Place) : Place := if p.isAt '#' then p.skipWhile (!isBreak ·) else p

def skipRestOfLine (p : Place) : Except Fault Place :=
  let p := p.skipSpaces.skipComment
  if p.atLineEnd then .ok p.skipBreak.2 else .error .malformed

/-- At a line of three hyphens or three points that separates documents. -/
def atSeparator (p : Place) : Bool :=
  (['-', '-', '-'].isPrefixOf p.rest || ['.', '.', '.'].isPrefixOf p.rest) && (p.forward 3).atBlank

end Place

def isNameChar (c : Char) : Bool := Text.isAsciiAlphanumeric c || c == '-' || c == '_'

end Outline.Yaml
