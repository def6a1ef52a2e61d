import Outline.Yaml.Property
import Outline.Yaml.Scalar
/-!
The tokens of a YAML text. Outside of brackets the columns of lines open and close collections:
a column further in than all open ones opens one, and a line closes those that are further in than
itself. A mapping's key may show only by the colon after it, so every place where a key may begin
is kept until its line ends or a colon comes; then the token of a key goes in at that place.

A fault does not hide what comes before it: it stands as the last token.
-/

namespace Outline.Yaml

inductive Token where
  | directive (d : Directive)
  | start
  | stop
  | blockSequence
  | blockMapping
  | blockEnd
  | openSequence
  | closeSequence
  | openMapping
  | closeMapping
  | entry
  | comma
  | key
  | value
  | alias (name : Text)
  | anchor (name : Text)
  | tag (t : TagName)
  | scalar (plain : Bool) (text : Text)
  | fault (f : Fault)
  deriving DecidableEq, Repr

/-- Where a key may have begun. Outside of brackets, at the column of an open collection, it must
turn out to be one. -/
structure PossibleKey where
  number : Nat
  required : Bool
  index : Nat
  line : Nat
  column : Nat

structure Scan where
  place : Place
  tokens : List Token := []
  depth : Nat := 0
  /-- Columns of the collections open outside of brackets, the innermost first. -/
  columns : List Nat := []
  keys : List (Nat × PossibleKey) := []
  keyAllowed : Bool := true

namespace Scan

abbrev Step := Except Fault Scan

/-- The column of the innermost collection, one less than the first column if there is none. -/
def column (s : Scan) : Int :=
  match s.columns with
  | [] => -1
  | c :: _ => c

def push (t : Token) (s : Scan) : Scan := { s with tokens := t :: s.tokens }

def take (t : Token) (s : Scan) : Scan := { s.push t with place := s.place.next }

/-- Over spaces, comments and line ends; also whether a line ended. -/
def skipBlank : Nat → Bool → Place → Place × Bool
  | 0, ended, p => (p, ended)
  | fuel + 1, ended, p =>
    let p := p.skipSpaces.skipComment
    if p.atBreak then skipBlank fuel true p.skipBreak.2 else (p, ended)

def longestKey : Nat := 1024

/-- Gives up the possible keys that no colon can follow any more. -/
def dropStale (s : Scan) : Step :=
  let stale (k : Nat × PossibleKey) : Bool :=
    k.2.line != s.place.line || longestKey < s.place.index - k.2.index
  if s.keys.any fun k => stale k && k.2.required then .error .malformed
  else .ok { s with keys := s.keys.filter (!stale ·) }

/-- Closes the collections further in than a column. -/
def unwind (column : Int) (s : Scan) : Scan :=
  if s.depth ≠ 0 then s
  else
    let inner := s.columns.takeWhile fun c : Nat => column < c
    { s with
      tokens := List.replicate inner.length .blockEnd ++ s.tokens
      columns := s.columns.drop inner.length }

def dropKey (s : Scan) : Step :=
  if s.keys.any fun k => k.1 == s.depth && k.2.required then .error .malformed
  else .ok { s with keys := s.keys.filter (·.1 != s.depth) }

def keepKey (s : Scan) : Step :=
  if s.keyAllowed then do
    let required := s.depth == 0 && s.column == s.place.column
    let p := s.place
    let key : PossibleKey := ⟨s.tokens.length, required, p.index, p.line, p.column⟩
    let s ← s.dropKey
    return { s with keys := (s.depth, key) :: s.keys }
  else return s

def openAt (column : Nat) (t : Token) (s : Scan) : Scan :=
  if s.depth = 0 ∧ s.column < column then { s.push t with columns := column :: s.columns } else s

/-- An entry, key or value by its sign. Outside of brackets it stands only where a key may. -/
def sign (t collection : Token) (nextKey : Bool) (s : Scan) : Step := do
  if s.depth = 0 ∧ ¬ s.keyAllowed then .error .malformed
  let s ← (s.openAt s.place.column collection).dropKey
  return { s.take t with keyAllowed := nextKey }

/-- A colon after a key, or one without. -/
def colon (s : Scan) : Step :=
  match s.keys.find? (·.1 == s.depth) with
  | none => s.sign .value .blockMapping (s.depth == 0)
  | some (_, k) =>
    let after := s.tokens.take (s.tokens.length - k.number)
    let before := { s with
      tokens := s.tokens.drop (s.tokens.length - k.number)
      keys := s.keys.filter (·.1 != s.depth) }
    let s := (before.openAt k.column .blockMapping).push .key
    .ok { { s with tokens := after ++ s.tokens }.take .value with keyAllowed := false }

def openBracket (t : Token) (s : Scan) : Step := do
  let s ← s.keepKey
  return { s.take t with depth := s.depth + 1, keyAllowed := true }

def closeBracket (t : Token) (s : Scan) : Step := do
  let s ← s.dropKey
  if s.depth = 0 then .error .malformed
  return { s.take t with depth := s.depth - 1, keyAllowed := false }

def comma (s : Scan) : Step := do
  let s ← s.dropKey
  return { s.take .comma with keyAllowed := true }

def content (read : Place → Except Fault (Token × Place)) (s : Scan) : Step := do
  let s ← s.keepKey
  let (t, p) ← read s.place
  return { s.push t with place := p, keyAllowed := false }

def plain (s : Scan) : Step := do
  let s ← s.keepKey
  let (text, p, fresh) :=
    Scalar.plainFrom (s.depth != 0) (s.column + 1) s.place.rest.length [] false s.place
  return { s.push (.scalar true text) with place := p, keyAllowed := fresh }

def block (fold : Bool) (s : Scan) : Step := do
  let s ← s.dropKey
  let (text, p) ← Scalar.block fold s.column s.place
  return { s.push (.scalar false text) with place := p, keyAllowed := true }

def separator (read : Place → Except Fault (Token × Place)) (s : Scan) : Step := do
  let s ← (s.unwind (-1)).dropKey
  let (t, p) ← read s.place
  return { s.push t with place := p, keyAllowed := false }

def isIndicator (c : Char) : Bool := "-?:,[]\x7b\x7d#&*!|>\x27\x22%@\x60".toList.contains c

def startsPlain (s : Scan) : Bool :=
  match s.place.rest with
  | [] => false
  | c :: _ =>
    !(isIndicator c || Text.isSpaceOrTab c || isBreak c) ||
      (!s.place.next.atBlank && (c == '-' || (s.depth == 0 && (c == '?' || c == ':'))))

def token (s : Scan) : Step :=
  let p := s.place
  let first := p.column = 0
  let flow := s.depth ≠ 0
  let alone := p.next.atBlank
  let as_ (f : Text → Token) (e : Except Fault (Text × Place)) : Except Fault (Token × Place) :=
    e.map fun r => (f r.1, r.2)
  match p.rest.headD ' ' with
  | '[' => s.openBracket .openSequence
  | '\x7b' => s.openBracket .openMapping
  | ']' => s.closeBracket .closeSequence
  | '\x7d' => s.closeBracket .closeMapping
  | ',' => s.comma
  | '*' => s.content fun p => as_ .alias (anchorName p)
  | '&' => s.content fun p => as_ .anchor (anchorName p)
  | '!' => s.content fun p => (tagName p).map fun r => (.tag r.1, r.2)
  | '\x27' => s.content fun p => as_ (.scalar false) (Scalar.quoted false p)
  | '\x22' => s.content fun p => as_ (.scalar false) (Scalar.quoted true p)
  | c =>
    if c = '%' ∧ first then
      s.separator fun p => (directive p).map fun r => (.directive r.1, r.2)
    else if c = '-' ∧ first ∧ p.atSeparator then s.separator fun p => .ok (.start, p.forward 3)
    else if c = '.' ∧ first ∧ p.atSeparator then s.separator fun p => .ok (.stop, p.forward 3)
    else if c = '-' ∧ alone then s.sign .entry .blockSequence true
    else if c = '?' ∧ (flow ∨ alone) then s.sign .key .blockMapping (s.depth == 0)
    else if c = ':' ∧ (flow ∨ alone) then s.colon
    else if c = '|' ∧ ¬ flow then s.block false
    else if c = '>' ∧ ¬ flow then s.block true
    else if s.startsPlain then s.plain
    else .error .malformed

def toEnd : Nat → Scan → Scan
  | 0, s => s
  | fuel + 1, s =>
    let (p, ended) := skipBlank (s.place.rest.length + 1) false s.place
    let s := { s with place := p, keyAllowed := s.keyAllowed || (ended && s.depth == 0) }
    match s.dropStale with
    | .error f => s.push (.fault f)
    | .ok s =>
      let s := s.unwind p.column
      if p.atEnd then
        match (s.unwind (-1)).dropKey with
        | .error f => s.push (.fault f)
        | .ok s => s
      else match s.token with
        | .error f => s.push (.fault f)
        | .ok s => toEnd fuel s

end Scan

def Token.ofText (t : Text) : List Token :=
  if !t.all isAllowed then [.fault .malformed]
  else
    let p : Place := { rest := t }
    let p := if p.isAt byteOrderMark then p.next else p
    (Scan.toEnd (t.length + 1) { place := p }).tokens.reverse

end Outline.Yaml
