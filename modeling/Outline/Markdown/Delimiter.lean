import Outline.Document.Token
import Outline.Text.Class
/-!
Emphasis. Runs of stars, low lines and tildes are first kept as texts, one delimiter for each; then
every delimiter that can close looks back for the nearest one that it can close, and the texts of
such a pair become the tokens around what is emphasised. Lower bounds and jumps over what is
matched already keep the search short.
-/

namespace Outline.Markdown

structure Delimiter where
  mark : Char
  length : Nat
  token : Nat
  opens : Bool
  closes : Bool
  partner : Option Nat := none
  deriving Inhabited

def isFlankBlank (c : Char) : Bool :=
  let n := c.toNat
  (9 ≤ n && n ≤ 13) || n == 32 || n == 0xa0 || n == 0x1680 || (0x2000 ≤ n && n ≤ 0x200a) ||
    n == 0x202f || n == 0x205f || n == 0x3000

/-- Whether a run can open and close, from the characters around it. Low lines may not do so inside
of words. -/
def flanks (inWord : Bool) (last next : Char) : Bool × Bool :=
  let lastMark := Text.isPunctuationOrSymbol last
  let nextMark := Text.isPunctuationOrSymbol next
  let lastBlank := isFlankBlank last
  let nextBlank := isFlankBlank next
  let left := !nextBlank && (!nextMark || lastBlank || lastMark)
  let right := !lastBlank && (!lastMark || nextBlank || nextMark)
  (left && (inWord || !right || lastMark), right && (inWord || !left || nextMark))

/-- A run that can both open and close does not pair with one if their lengths add up to a multiple
of three and are none themselves. -/
def isOddMatch (opener closer : Delimiter) : Bool :=
  (opener.closes || closer.opens) && (opener.length + closer.length) % 3 == 0 &&
    (opener.length % 3 != 0 || closer.length % 3 != 0)

structure Balance where
  delimiters : Array Delimiter
  /-- How many delimiters before each one the search passes over. -/
  jumps : Array Nat := #[]
  header : Nat := 0
  /-- The token of the delimiter before, if a run can go on after it. -/
  lastToken : Option Nat := none
  /-- Where the search ends, by mark, length modulo three and whether the closer can open. -/
  bottoms : List ((Char × Nat) × Int) := []

namespace Balance

def at_ (b : Balance) (i : Nat) : Delimiter := b.delimiters[i]?.getD default

def jump (b : Balance) (i : Nat) : Nat := b.jumps[i]?.getD 0

def bottomKey (d : Delimiter) : Char × Nat := (d.mark, (if d.opens then 3 else 0) + d.length % 3)

def bottom (b : Balance) (d : Delimiter) : Int := (b.bottoms.lookup (bottomKey d)).getD (-1)

def opener? (b : Balance) (closer : Delimiter) (bottom : Int) : Nat → Int → Option Nat
  | 0, _ => none
  | fuel + 1, i =>
    if i ≤ bottom then none
    else
      let o := b.at_ i.toNat
      if o.mark = closer.mark ∧ o.opens ∧ o.partner.isNone ∧ ¬ isOddMatch o closer then some i.toNat
      else opener? b closer bottom fuel (i - (b.jump i.toNat + 1))

def pair (b : Balance) (opener closer : Nat) : Balance :=
  let skipped :=
    if 0 < opener ∧ ¬ (b.at_ (opener - 1)).opens then b.jump (opener - 1) + 1 else 0
  let o := b.at_ opener
  { b with
    jumps := (b.jumps.setIfInBounds closer (closer - opener + skipped)).setIfInBounds opener skipped
    delimiters := (b.delimiters.setIfInBounds closer { b.at_ closer with opens := false })
      |>.setIfInBounds opener { o with partner := some closer, closes := false }
    lastToken := none }

def step (b : Balance) (k : Nat) : Balance :=
  let d := b.at_ k
  let goesOn := (b.at_ b.header).mark = d.mark ∧ b.lastToken.any (· + 1 == d.token)
  let b := { b with
    jumps := b.jumps.push 0
    header := if goesOn then b.header else k
    lastToken := some d.token }
  if !d.closes then b
  else
    let start : Int := b.header - (b.jump b.header : Int) - 1
    match b.opener? d (b.bottom d) (k + 1) start with
    | some o => b.pair o k
    | none => { b with bottoms := (bottomKey d, start) :: b.bottoms }

end Balance

def balance (ds : Array Delimiter) : Array Delimiter :=
  ((List.range ds.size).foldl Balance.step { delimiters := ds }).delimiters

abbrev InlineTokens := Array InlineToken

def change (ts : InlineTokens) (i : Nat) (f : InlineToken → InlineToken) : InlineTokens :=
  ts.modify i f

def markAs (type : String) (nesting : Nesting) (markup : Text) (t : InlineToken) : InlineToken :=
  { t with type := type, nesting := nesting, markup := markup, content := [] }

/-- A single tilde left before the end of deleted text moves behind it. -/
def moveTilde (ts : InlineTokens) (i : Nat) : InlineTokens :=
  let rec last : Nat → Nat → Nat
    | 0, j => j
    | fuel + 1, j =>
      if (ts[j + 1]?).any (·.type == "s_close") then last fuel (j + 1) else j
  ts.swapIfInBounds i (last ts.size i)

def strike (ts : InlineTokens) (ds : Array Delimiter) : InlineTokens :=
  let mark (acc : InlineTokens × List Nat) (d : Delimiter) : InlineTokens × List Nat :=
    match d.mark == '~', d.partner with
    | true, some p =>
      let stop := (ds[p]?.getD default).token
      let ts := change acc.1 d.token (markAs "s_open" .opens ['~', '~'])
      let ts := change ts stop (markAs "s_close" .closes ['~', '~'])
      let lone := 0 < stop ∧ (ts[stop - 1]?).any fun t => t.type == "text" && t.content == ['~']
      (ts, if lone then (stop - 1) :: acc.2 else acc.2)
    | _, _ => acc
  let (ts, lone) := ds.toList.foldl mark (ts, [])
  lone.foldl moveTilde ts

/-- Marks emphasis, from the last delimiter back; two pairs next to each other make strong
emphasis. -/
def emphasize (ds : Array Delimiter) : Nat → InlineTokens → InlineTokens
  | 0, ts => ts
  | n + 1, ts =>
    let d := ds[n]?.getD default
    match d.mark == '*' || d.mark == '_', d.partner with
    | true, some p =>
      let stop := (ds[p]?.getD default).token
      let before := ds[n - 1]?.getD default
      let after := ds[p + 1]?.getD default
      let strong := 0 < n && before.partner == some (p + 1) && before.mark == d.mark &&
        before.token + 1 == d.token && after.token == stop + 1
      let markup := if strong then [d.mark, d.mark] else [d.mark]
      let name := if strong then "strong" else "em"
      let ts := change ts d.token (markAs (name ++ "_open") .opens markup)
      let ts := change ts stop (markAs (name ++ "_close") .closes markup)
      if strong then
        let clear (t : InlineToken) : InlineToken := { t with content := [] }
        match n with
        | 0 => ts
        | m + 1 => emphasize ds m (change (change ts before.token clear) after.token clear)
      else emphasize ds n ts
    | _, _ => emphasize ds n ts

end Outline.Markdown
