import Outline.Number.Integer
import Outline.Url.Percent
import Outline.Yaml.Place
/-!
What stands around the content of a YAML text: the names of anchors and aliases, tags, and
directives. A tag names a kind of node, in full or as a handle and the part after it; a directive
gives handles their meaning.
-/

namespace Outline.Yaml

/-- Without a handle the name is complete. -/
structure TagName where
  handle : Option Text
  name : Text
  deriving DecidableEq, Repr

inductive Directive where
  | version (major : Nat)
  | handle (handle meaning : Text)
  | unknown
  deriving DecidableEq, Repr

def anchorName (p : Place) : Except Fault (Text × Place) :=
  let name := p.next.rest.takeWhile isNameChar
  let after := p.next.forward name.length
  if name.isEmpty || !(after.atBlank || after.isAtAny "?:,]\x7d%@\x60") then .error .malformed
  else .ok (name, after)

def isAddressChar (c : Char) : Bool :=
  isNameChar c || ";/?:@&=+$,.!~*\x27()[]%".toList.contains c

def ofBytes? : Nat → List Nat → Option Text
  | 0, _ => none
  | _ + 1, [] => some []
  | fuel + 1, b :: bs =>
    if b < 128 then (ofBytes? fuel bs).map (Char.ofNat b :: ·)
    else
      let n := Url.announced b
      let more := bs.take n
      if n ≠ 0 ∧ more.length = n ∧ more.all Url.isContinuation then do
        let c ← Url.charOf? (b :: more)
        return c :: (← ofBytes? fuel (bs.drop n))
      else none

def decodeAddress : Nat → Text → Option Text
  | 0, _ => none
  | _ + 1, [] => some []
  | fuel + 1, c :: t =>
    if c = '%' then do
      let bytes := Url.codes (c :: t)
      if bytes.isEmpty then none
      let text ← ofBytes? (bytes.length + 1) bytes
      return text ++ (← decodeAddress fuel ((c :: t).drop (3 * bytes.length)))
    else (decodeAddress fuel t).map (c :: ·)

def address (p : Place) : Except Fault (Text × Place) :=
  let run := p.rest.takeWhile isAddressChar
  match decodeAddress (run.length + 1) run with
  | some t => if run.isEmpty then .error .malformed else .ok (t, p.forward run.length)
  | none => .error .malformed

def handle (p : Place) : Except Fault (Text × Place) :=
  if !p.isAt '!' then .error .malformed
  else if p.next.isAt ' ' then .ok (['!'], p.next)
  else
    let name := p.next.rest.takeWhile isNameChar
    let after := p.next.forward name.length
    if after.isAt '!' then .ok ('!' :: name ++ ['!'], after.next) else .error .malformed

def tagName (p : Place) : Except Fault (TagName × Place) := do
  let (tag, q) : TagName × Place ←
    if p.next.isAt '<' then do
      let (name, q) ← address (p.forward 2)
      if q.isAt '>' then .ok (⟨none, name⟩, q.next) else .error .malformed
    else if p.next.atBlank then .ok (⟨none, ['!']⟩, p.next)
    else do
      let word := p.next.rest.takeWhile fun c => !(isBreak c || c == ' ')
      let (h, q) ← if word.contains '!' then handle p else .ok (['!'], p.next)
      let (name, q) ← address q
      .ok (⟨some h, name⟩, q)
  if q.atSpace then return (tag, q) else .error .malformed

/-- Decimal digits, at most as many as are read into a number. -/
def versionPart (p : Place) : Except Fault (Nat × Place) :=
  let digits := p.rest.takeWhile Text.isAsciiDigit
  if digits.isEmpty then .error .malformed
  else match Number.readNat? digits with
    | some n => .ok (n, p.forward digits.length)
    | none => .error .badNumber

def directive (p : Place) : Except Fault (Directive × Place) := do
  let name := p.next.rest.takeWhile isNameChar
  let q := p.next.forward name.length
  if name.isEmpty || !q.atSpace then .error .malformed
  let (d, q) : Directive × Place ←
    if name = "YAML".toList then do
      let (major, q) ← versionPart q.skipSpaces
      if !q.isAt '.' then .error .malformed
      let (_, q) ← versionPart q.next
      if q.atSpace then .ok (.version major, q) else .error .malformed
    else if name = "TAG".toList then do
      let (h, q) ← handle q.skipSpaces
      if !q.isAt ' ' then .error .malformed
      let (meaning, q) ← address q.skipSpaces
      if q.atSpace then .ok (.handle h meaning, q) else .error .malformed
    else .ok (.unknown, q.skipWhile (!isBreak ·))
  return (d, ← q.skipRestOfLine)

end Outline.Yaml
