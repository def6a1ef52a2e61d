import Outline.Url.Percent
import Outline.Yaml.Place
/-!
Scalars as they are written: plain, in single or double quotes, and as blocks of lines. Each reader
starts at a place and gives the text of the scalar and the place after it.
-/

namespace Outline.Yaml.Scalar

abbrev Read := Except Fault (Text × Place)

def quotedBreaks : Nat → Place → Read
  | 0, p => .ok ([], p)
  | fuel + 1, p =>
    if p.atSeparator then .error .malformed
    else
      let p := p.skipWhile Text.isSpaceOrTab
      if p.atBreak then do
        let (b, p) := p.skipBreak
        let (more, p) ← quotedBreaks fuel p
        return (b ++ more, p)
      else return ([], p)

/-- How line ends come together: a single one becomes a space, further ones stay. -/
def folded (first more : Text) : Text :=
  if first ≠ ['\n'] then first ++ more else if more.isEmpty then [' '] else more

def quotedBlanks (p : Place) : Read :=
  let after := p.skipWhile Text.isSpaceOrTab
  if after.atEnd then .error .malformed
  else if after.atBreak then do
    let (b, q) := after.skipBreak
    let (more, q) ← quotedBreaks (q.rest.length + 1) q
    return (folded b more, q)
  else .ok (p.rest.takeWhile Text.isSpaceOrTab, after)

def escape? (c : Char) : Option Char :=
  match c with
  | '0' => some '\x00'
  | 'a' => some '\x07'
  | 'b' => some '\x08'
  | 't' | '\t' => some '\t'
  | 'n' => some '\n'
  | 'v' => some '\x0b'
  | 'f' => some '\x0c'
  | 'r' => some '\r'
  | 'e' => some '\x1b'
  | ' ' => some ' '
  | '\x22' => some '\x22'
  | '\\' => some '\\'
  | '/' => some '/'
  | 'N' => some '\u0085'
  | '_' => some '\u00a0'
  | 'L' => some '\u2028'
  | 'P' => some '\u2029'
  | _ => none

def codeLength? (c : Char) : Option Nat :=
  match c with
  | 'x' => some 2
  | 'u' => some 4
  | 'U' => some 8
  | _ => none

def escaped (p : Place) : Read :=
  match p.rest with
  | [] => .error .malformed
  | c :: t =>
    match escape? c, codeLength? c with
    | some d, _ => .ok ([d], p.next)
    | none, some n =>
      let digits := t.take n
      if digits.length = n ∧ digits.all Text.isHexDigit then
        let code := Text.hex digits
        if code ≤ 0x10ffff then .ok ([Char.ofNat code], p.forward (n + 1))
        else .error (if code < 0x80000000 then .badNumber else .tooLarge)
      else .error .malformed
    | none, none =>
      if isBreak c then
        let p := p.skipBreak.2
        quotedBreaks (p.rest.length + 1) p
      else .error .malformed

def isQuotedChar (c : Char) : Bool :=
  !(c == '\x27' || c == '\x22' || c == '\\' || Text.isSpaceOrTab c || isBreak c)

def quotedFrom (double : Bool) : Nat → Place → Read
  | 0, _ => .error .malformed
  | fuel + 1, p => do
    let quote := if double then '\x22' else '\x27'
    let (part, p) : Text × Place ← match p.rest with
      | [] => .error .malformed
      | c :: t =>
        if c = quote then
          if !double && t.head? == some quote then .ok ([quote], p.forward 2)
          else return ([], p.next)
        else if c = '\\' ∧ double then escaped p.next
        else if Text.isSpaceOrTab c || isBreak c then quotedBlanks p
        else if isQuotedChar c then
          let run := p.rest.takeWhile isQuotedChar
          .ok (run, p.forward run.length)
        else .ok ([c], p.next)
    let (more, p) ← quotedFrom double fuel p
    return (part ++ more, p)

def quoted (double : Bool) (p : Place) : Read := quotedFrom double (p.rest.length + 1) p.next

/-- The header of a block: whether the line ends after it go or all stay, and how far in it is. -/
structure Header where
  chomp : Option Bool := none
  increment : Option Nat := none

def chomp? (c : Char) : Option Bool :=
  if c = '+' then some true else if c = '-' then some false else none

def header (p : Place) : Except Fault (Header × Place) := do
  let digit (p : Place) : Except Fault (Option Nat × Place) :=
    match p.rest with
    | c :: _ =>
      if c = '0' then .error .malformed
      else if Text.isAsciiDigit c then .ok (some (c.toNat - 48), p.next)
      else .ok (none, p)
    | [] => .ok (none, p)
  let sign (p : Place) : Option Bool × Place :=
    match p.rest with
    | c :: _ => if (chomp? c).isSome then (chomp? c, p.next) else (none, p)
    | [] => (none, p)
  let (chomp, p) := sign p
  let (increment, p) ← digit p
  let (chomp, p) := if chomp.isSome || increment.isNone then (chomp, p) else sign p
  if !p.atSpace then .error .malformed
  return (⟨chomp, increment⟩, ← p.skipRestOfLine)

/-- Empty lines before the first line of a block, and the furthest column that their spaces or its
own reach. -/
def leading : Nat → Nat → Place → Text × Nat × Place
  | 0, most, p => ([], most, p)
  | fuel + 1, most, p =>
    if p.isAt ' ' then
      let p := p.next
      leading fuel (max most p.column) p
    else if p.atBreak then
      let (b, p) := p.skipBreak
      let (more, most, p) := leading fuel most p
      (b ++ more, most, p)
    else ([], most, p)

def toColumn (column : Nat) (p : Place) : Place :=
  p.forward (min (p.rest.takeWhile (· == ' ')).length (column - p.column))

def emptyLines (indent : Nat) : Nat → Place → Text × Place
  | 0, p => ([], p)
  | fuel + 1, p =>
    let p := toColumn indent p
    if p.atBreak then
      let (b, p) := p.skipBreak
      let (more, p) := emptyLines indent fuel p
      (b ++ more, p)
    else ([], p)

/-- The lines of a block, their last line end and the empty lines after it. `before` are the empty
lines in front. -/
def blockLines (fold : Bool) (indent : Nat) : Nat → Text → Place → Text × Text × Text × Place
  | 0, before, p => ([], [], before, p)
  | fuel + 1, before, p =>
    if p.column = indent ∧ ¬ p.atEnd then
      let line := p.rest.takeWhile (!isBreak ·)
      let (b, q) := (p.forward line.length).skipBreak
      let (empty, q) := emptyLines indent (q.rest.length + 1) q
      if q.column = indent ∧ ¬ q.atEnd then
        let joined :=
          if fold ∧ b = ['\n'] ∧ ¬ p.isAtAny " \t" ∧ ¬ q.isAtAny " \t" then
            (if empty.isEmpty then [' '] else [])
          else b
        let (more, b', empty', q) := blockLines fold indent fuel empty q
        (before ++ line ++ joined ++ more, b', empty', q)
      else (before ++ line, b, empty, q)
    else ([], [], before, p)

def block (fold : Bool) (parent : Int) (p : Place) : Read := do
  let (h, p) ← header p.next
  let least := (max (parent + 1) 1).toNat
  let size := p.rest.length + 1
  let (before, indent, p) : Text × Nat × Place := match h.increment with
    | none =>
      let (before, most, p) := leading size 0 p
      (before, max least most, p)
    | some n =>
      let (before, p) := emptyLines (least + n - 1) size p
      (before, least + n - 1, p)
  let (body, b, after, p) := blockLines fold indent size before p
  return (body ++ (if h.chomp = some false then [] else b) ++
    (if h.chomp = some true then after else []), p)

/-- The blanks after a part of a plain scalar: nothing if the scalar ends with them; also whether a
line ended. -/
structure Gap where
  text : Text
  place : Place
  newLine : Bool

def plainBreaks : Nat → Place → Option Text × Place
  | 0, p => (some [], p)
  | fuel + 1, p =>
    if p.isAt ' ' then plainBreaks fuel p.next
    else if p.atBreak then
      let (b, p) := p.skipBreak
      if p.atSeparator then (none, p)
      else
        let (more, p) := plainBreaks fuel p
        (more.map (b ++ ·), p)
    else (some [], p)

def gap (p : Place) : Gap :=
  let after := p.skipSpaces
  if after.atBreak then
    let (b, q) := after.skipBreak
    if q.atSeparator then ⟨[], q, true⟩
    else match plainBreaks (q.rest.length + 1) q with
      | (some more, q) => ⟨folded b more, q, true⟩
      | (none, q) => ⟨[], q, true⟩
  else ⟨p.rest.takeWhile (· == ' '), after, false⟩

def plainLength (flow : Bool) : Text → Nat
  | [] => 0
  | c :: t =>
    if Text.isSpaceOrTab c || isBreak c then 0
    else if c = ':' ∧ (t.head?.all fun d => Text.isSpaceOrTab d || isBreak d ||
        (flow && ",[]\x7b\x7d".toList.contains d)) then 0
    else if flow ∧ ",?[]\x7b\x7d".toList.contains c then 0
    else plainLength flow t + 1

def plainFrom (flow : Bool) (indent : Int) : Nat → Text → Bool → Place → Text × Place × Bool
  | 0, _, fresh, p => ([], p, fresh)
  | fuel + 1, before, fresh, p =>
    let n := if p.isAt '#' then 0 else plainLength flow p.rest
    if n = 0 then ([], p, fresh)
    else
      let part := before ++ p.rest.take n
      let g := gap (p.forward n)
      if g.text.isEmpty || g.place.isAt '#' || (!flow && (g.place.column : Int) < indent) then
        (part, g.place, g.newLine)
      else
        let (more, p, fresh) := plainFrom flow indent fuel g.text g.newLine g.place
        (part ++ more, p, fresh)

end Outline.Yaml.Scalar
