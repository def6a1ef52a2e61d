import Outline.Markdown.Delimiter
import Outline.Markdown.Html
import Outline.Markdown.Target
/-!
Running text. At every position the first character decides what can be there: a line end, an
escape, code, a run of delimiters, a link, an image, an address in angle brackets, HTML or an
entity. A link's label is found by skipping over what is inside of it, which looks for links in
turn; how deep this goes is limited, and what was skipped once is remembered.
-/

namespace Outline.Markdown

structure Running where
  source : Array Char
  definitions : List Definition
  strikethrough : Bool

structure Memo where
  /-- Where what starts at a position ends; zero if unknown. -/
  skips : Array Nat
  /-- The last run of backticks of a length that was passed. -/
  ticks : List (Nat × Nat) := []
  ticksKnown : Bool := false

inductive Piece where
  | plain (t : Text)
  | lineEnd
  | token (t : InlineToken)
  | autolink (address shown : Text)
  | run (mark : Char) (count : Nat) (opens closes : Bool)
  | link (address title : Text) (start stop : Nat)

namespace Running

def char? (r : Running) (i : Nat) : Option Char := r.source[i]?

def slice (r : Running) (i j : Nat) : Text := (r.source.extract i j).toList

def isAt (r : Running) (c : Char) (i : Nat) : Bool := r.char? i == some c

def spanEnd (r : Running) (p : Char → Bool) (stop : Nat) : Nat → Nat → Nat
  | 0, i => i
  | fuel + 1, i =>
    if i < stop ∧ (r.char? i).any p then spanEnd r p stop fuel (i + 1) else i

def spanFrom (r : Running) (p : Char → Bool) (stop i : Nat) : Nat := r.spanEnd p stop (stop - i) i

def isSpecial (c : Char) : Bool :=
  "\n!#$%&*+-:<=>@[\\]^_\x60\x7b\x7d~".toList.contains c

def isWide (c : Char) : Bool := Text.isSpaceOrTab c || c == '\n'

abbrev Found := Option (Piece × Nat)

def textToken (type : String) (content : Text) : InlineToken := { type := type, content := content }

def escape? (r : Running) (i stop : Nat) : Found :=
  if stop ≤ i + 1 then none
  else (r.char? (i + 1)).map fun c =>
    if c = '\n' then (.token (textToken "hardbreak" []), r.spanFrom Text.isSpaceOrTab stop (i + 2))
    else (.token (textToken "text_special" (if Text.isAsciiPunctuation c then [c] else ['\\', c])),
      i + 2)

def codeContent (t : Text) : Text :=
  let t := t.map fun c => if c = '\n' then ' ' else c
  if t.head? = some ' ' ∧ t.getLast? = some ' ' ∧ ¬ t.all Text.isBlank then (t.drop 1).dropLast
  else t

def closingTicks (r : Running) (stop length : Nat) : Nat → Nat → Memo → Option (Nat × Nat) × Memo
  | 0, _, m => (none, m)
  | fuel + 1, i, m =>
    let start := r.spanFrom (· != '\x60') r.source.size i
    if r.source.size ≤ start then (none, { m with ticksKnown := true })
    else
      let after := max (start + 1) (r.spanFrom (· == '\x60') stop (start + 1))
      if after - start = length then (some (start, after), m)
      else
        let m := { m with ticks := (after - start, start) :: m.ticks }
        closingTicks r stop length fuel after m

def code (r : Running) (m : Memo) (i stop : Nat) : Found × Memo :=
  let after := r.spanFrom (· == '\x60') stop i
  let length := after - i
  let mark := List.replicate length '\x60'
  if m.ticksKnown ∧ (m.ticks.lookup length).getD 0 ≤ i then (some (.plain mark, after), m)
  else
    match r.closingTicks stop length (r.source.size + 1) after m with
    | (some (start, next), m) =>
      (some (.token { type := "code_inline", markup := mark
                      content := codeContent (r.slice after start) }, next), m)
    | (none, m) => (some (.plain mark, after), m)

def run? (r : Running) (c : Char) (i stop : Nat) : Found :=
  let after := r.spanFrom (· == c) stop i
  let last := if i = 0 then ' ' else (r.char? (i - 1)).getD ' '
  let next := if after < stop then (r.char? after).getD ' ' else ' '
  let (opens, closes) := flanks (c != '_') last next
  if c = '~' ∧ after - i < 2 then none else some (.run c (after - i) opens closes, after)

def isAddressChar (c : Char) : Bool := 32 < c.toNat && c != '<' && c != '>'

def dropLineEnd (t : Text) : Text := if t.getLast? = some '\n' then t.dropLast else t

/-- A scheme of two to thirty-two characters, a colon, and no blanks. -/
def isAddress (t : Text) : Bool :=
  match t with
  | [] => false
  | c :: rest =>
    let scheme := rest.takeWhile fun c =>
      Text.isAsciiAlphanumeric c || c == '+' || c == '.' || c == '-'
    Text.isAsciiLetter c && 1 ≤ scheme.length && scheme.length ≤ 31 &&
      match rest.drop scheme.length with
      | ':' :: t => (dropLineEnd t).all isAddressChar
      | _ => false

def isMailChar (c : Char) : Bool :=
  Text.isAsciiAlphanumeric c || ".!#$%&\x27*+/=?^_\x60\x7b|\x7d~-".toList.contains c

def isMailLabel (l : Text) : Bool :=
  l.length ≤ 63 && l.all (fun c => Text.isAsciiAlphanumeric c || c == '-') &&
    l.head?.any Text.isAsciiAlphanumeric && l.getLast?.any Text.isAsciiAlphanumeric

def isMail (t : Text) : Bool :=
  let t := dropLineEnd t
  let user := t.takeWhile isMailChar
  match t.drop user.length with
  | '@' :: domain => !user.isEmpty && (Text.splitOn '.' domain).all isMailLabel
  | _ => false

def autolink? (r : Running) (i stop : Nat) : Found :=
  let close := r.spanFrom (fun c => c != '<' && c != '>') stop (i + 1)
  if stop ≤ close ∨ ¬ r.isAt '>' close then none
  else
    let inner := r.slice (i + 1) close
    let found (address : Text) : Found :=
      if Url.isAllowed address then some (.autolink address (Url.display inner), close + 1)
      else none
    if isAddress inner then found (Url.normalize inner)
    else if isMail inner then found (Url.normalize ("mailto:".toList ++ inner))
    else none

def html? (r : Running) (i stop : Nat) : Found :=
  if stop ≤ i + 2 then none
  else if (r.char? (i + 1)).any fun c =>
      c == '!' || c == '?' || c == '/' || Text.isAsciiLetter c then
    (Html.tag.match? (r.slice i r.source.size)).map fun t =>
      (.token (textToken "html_inline" t), i + t.length)
  else none

/-- The code of a numbered entity, from what stands after its number sign, and its length there. -/
def numbered? (t : Text) : Option (Nat × Nat) :=
  let read (base most lead : Nat) (p : Char → Bool) (t : Text) : Option (Nat × Nat) :=
    let digits := t.takeWhile p
    if digits ≠ [] ∧ digits.length ≤ most ∧ (t.drop digits.length).head? = some ';' then
      (Text.readBase base digits).map (·, lead + digits.length + 1)
    else none
  match t with
  | 'x' :: t | 'X' :: t => read 16 6 1 Text.isHexDigit t
  | t => read 10 7 0 Text.isAsciiDigit t

def longestEntity : Nat := 34

def entity? (r : Running) (i stop : Nat) : Found :=
  if stop ≤ i + 1 then none
  else if r.isAt '#' (i + 1) then
    (numbered? (r.slice (i + 2) (i + 2 + longestEntity))).map fun (code, n) =>
      (.token (textToken "text_special"
        [if Text.isWritable code then Char.ofNat code else '\ufffd']), i + 2 + n)
  else do
    let name ← entityName? (r.slice (i + 1) (i + 1 + longestEntity))
    let value ← Text.entity? name
    return (.token (textToken "text_special" value), i + name.length + 2)

abbrev Skip := Memo → Nat → Nat × Memo

/-- The closing bracket of a label whose content starts at a position. `flat` labels may hold no
links. -/
def labelEnd (r : Running) (skip : Skip) (flat : Bool) (stop : Nat) :
    Nat → Memo → Nat → Nat → Option Nat × Memo
  | 0, m, _, _ => (none, m)
  | fuel + 1, m, depth, i =>
    if stop ≤ i then (none, m)
    else
      let depth := if r.isAt ']' i then depth - 1 else depth
      if depth = 0 then (some i, m)
      else
        let (next, m) := skip m i
        if r.isAt '[' i then
          if next = i + 1 then labelEnd r skip flat stop fuel m (depth + 1) next
          else if flat then (none, m)
          else labelEnd r skip flat stop fuel m depth next
        else labelEnd r skip flat stop fuel m depth next

def label (r : Running) (skip : Skip) (flat : Bool) (stop : Nat) (m : Memo) (i : Nat) :
    Option Nat × Memo :=
  r.labelEnd skip flat stop (stop - i + 1) m 1 (i + 1)

def titleAt? (r : Running) (start i stop : Nat) : Option (Text × Nat) :=
  if stop ≤ i ∨ start = i then none
  else match title (r.slice i stop) with
    | .closed s n => some (s, i + n)
    | _ => none

/-- A title after blanks and the blanks after it; without a title, the place after the blanks. -/
def titlePart (r : Running) (i stop : Nat) : Text × Nat :=
  let after := r.spanFrom isWide stop i
  match r.titleAt? i after stop with
  | some (s, next) => (s, r.spanFrom isWide stop next)
  | none => ([], after)

def addressAt? (r : Running) (i stop : Nat) : Option (Text × Nat) :=
  (destination? (r.slice i stop)).map fun (raw, n) =>
    let address := Url.normalize raw
    if Url.isAllowed address then (address, i + n) else ([], i)

/-- The definition that a label refers to: the one in brackets that starts at `i`, or else the text
from `start` to `stop` itself. Also where the reference ends. -/
def reference? (r : Running) (skip : Skip) (bound : Nat) (m : Memo) (start stop i : Nat) :
    Option (Definition × Nat) × Memo :=
  let (close, m) : Option Nat × Memo :=
    if !r.definitions.isEmpty ∧ i < bound ∧ r.isAt '[' i then r.label skip false bound m i
    else (none, m)
  let name := match close with
    | some e => r.slice (i + 1) e
    | none => []
  let name := if name.isEmpty then r.slice start stop else name
  ((define? r.definitions name).map (·, (close.getD stop) + 1), m)

def link (r : Running) (skip : Skip) (m : Memo) (i bound : Nat) : Found × Memo :=
  match r.label skip true bound m i with
  | (none, m) => (none, m)
  | (some stop, m) =>
    let refer (m : Memo) (j : Nat) : Found × Memo :=
      match r.reference? skip bound m (i + 1) stop j with
      | (some (d, next), m) => (some (.link d.address d.title (i + 1) stop, next), m)
      | (none, m) => (none, m)
    if stop + 1 < bound ∧ r.isAt '(' (stop + 1) then
      let j := r.spanFrom isWide bound (stop + 2)
      if bound ≤ j then (none, m)
      else
        let (address, title, j) := match r.addressAt? j bound with
          | some (address, j) =>
            let (title, j) := r.titlePart j bound
            (address, title, j)
          | none => ([], [], j)
        if j < bound ∧ r.isAt ')' j then (some (.link address title (i + 1) stop, j + 1), m)
        else refer m (j + 1)
    else refer m (stop + 1)

def imageToken (address title content : Text) : Piece :=
  .token { type := "image", content := content
           attributes := ("src", .str address) :: ("alt", .str []) ::
             if title.isEmpty then [] else [("title", .str title)] }

def image (r : Running) (skip : Skip) (m : Memo) (i bound : Nat) : Found × Memo :=
  if i + 1 < bound ∧ ¬ r.isAt '[' (i + 1) then (none, m)
  else match r.label skip false bound m (i + 1) with
    | (none, m) => (none, m)
    | (some stop, m) =>
      let content := r.slice (i + 2) stop
      if stop + 1 < bound ∧ r.isAt '(' (stop + 1) then
        let j := r.spanFrom isWide bound (stop + 2)
        if bound ≤ j then (none, m)
        else
          let (address, j) := (r.addressAt? j bound).getD ([], j)
          let (title, j) := r.titlePart j bound
          if j < bound ∧ r.isAt ')' j then (some (imageToken address title content, j + 1), m)
          else (none, m)
      else
        match r.reference? skip bound m (i + 2) stop (stop + 1) with
        | (some (d, next), m) => (some (imageToken d.address d.title content, next), m)
        | (none, m) => (none, m)

/-- What is at a position. Runs of delimiters are looked for only if `runs` is set. -/
def piece (r : Running) (skip : Skip) (runs : Bool) (m : Memo) (i stop : Nat) : Found × Memo :=
  match r.char? i with
  | none => (none, m)
  | some c =>
    if !isSpecial c then
      let after := r.spanFrom (!isSpecial ·) stop i
      (some (.plain (r.slice i after), after), m)
    else if c = '\n' then (some (.lineEnd, r.spanFrom Text.isSpaceOrTab stop (i + 1)), m)
    else if c = '\\' then (r.escape? i stop, m)
    else if c = '\x60' then r.code m i stop
    else if c = '*' ∨ c = '_' ∨ (c = '~' ∧ r.strikethrough) then
      (if runs then r.run? c i stop else none, m)
    else if c = '[' then r.link skip m i stop
    else if c = '!' then r.image skip m i stop
    else if c = '<' then ((r.autolink? i stop) <|> (r.html? i stop), m)
    else if c = '&' then (r.entity? i stop, m)
    else (none, m)

/-- Skips what starts at a position; at the deepest level, everything. -/
def skipAt (r : Running) (stop : Nat) : Nat → Skip
  | depth, m, i =>
    match m.skips[i]?.getD 0 with
    | n + 1 => (n + 1, m)
    | 0 =>
      let (next, m) : Nat × Memo := match depth with
        | 0 => (stop + 1, m)
        | depth + 1 =>
          match r.piece (skipAt r stop depth) false m i stop with
          | (some (_, next), m) => (next, m)
          | (none, m) => (i + 1, m)
      (next, { m with skips := m.skips.setIfInBounds i next })

end Running

structure Reading where
  position : Nat := 0
  /-- Plain text not yet made a token, backwards. -/
  pending : Text := []
  tokens : InlineTokens := #[]
  delimiters : Array Delimiter := #[]
  groups : List (Array Delimiter) := []
  memo : Memo

namespace Reading

def flush (st : Reading) : Reading :=
  if st.pending.isEmpty then st
  else { st with
    tokens := st.tokens.push (Running.textToken "text" st.pending.reverse)
    pending := [] }

def push (st : Reading) (t : InlineToken) : Reading :=
  let st := st.flush
  { st with tokens := st.tokens.push t }

def pushDelimiter (st : Reading) (content : Text) (d : Nat → Delimiter) : Reading :=
  let st := st.push (Running.textToken "text" content)
  { st with delimiters := st.delimiters.push (d (st.tokens.size - 1)) }

/-- A run as delimiters; tildes go in pairs, and an odd one stays text. -/
def pushRun (st : Reading) (mark : Char) (count : Nat) (opens closes : Bool) : Reading :=
  if mark = '~' then
    let st := if count % 2 = 1 then st.push (Running.textToken "text" [mark]) else st
    (List.range (count / 2)).foldl (fun st _ =>
      st.pushDelimiter [mark, mark] fun k => ⟨mark, 0, k, opens, closes, none⟩) st
  else
    (List.range count).foldl (fun st _ =>
      st.pushDelimiter [mark] fun k => ⟨mark, count, k, opens, closes, none⟩) st

/-- The end of a line: two spaces or more before it make it a break, and all go. -/
def endLine (st : Reading) : Reading :=
  match st.pending with
  | ' ' :: ' ' :: rest =>
    { st with pending := rest.dropWhile (· == ' ') }.push (Running.textToken "hardbreak" [])
  | ' ' :: rest => { st with pending := rest }.push (Running.textToken "softbreak" [])
  | _ => st.push (Running.textToken "softbreak" [])

def linkOpen (markup address title : Text) : InlineToken :=
  { type := "link_open", nesting := .opens, markup := markup
    attributes := ("href", .str address) :: if title.isEmpty then [] else [("title", .str title)] }

def linkClose : InlineToken := { type := "link_close", nesting := .closes }

def add (inside : Nat → Reading → Reading) (st : Reading) : Piece → Reading
  | .plain t => { st with pending := t.reverse ++ st.pending }
  | .lineEnd => st.endLine
  | .token t => st.push t
  | .autolink address shown =>
    ((st.push (linkOpen "autolink".toList address [])).push (Running.textToken "text" shown)).push
      linkClose
  | .run mark count opens closes => st.pushRun mark count opens closes
  | .link address title start stop =>
    let outer := st.delimiters
    let st := st.push (linkOpen [] address title)
    let st := inside stop { st with position := start, delimiters := #[] }
    let st := { st with groups := st.delimiters :: st.groups, delimiters := outer }
    st.push linkClose

def readTo (r : Running) (inside : Nat → Reading → Reading) (skip : Running.Skip) (stop : Nat) :
    Nat → Reading → Reading
  | 0, st => st.flush
  | fuel + 1, st =>
    let i := st.position
    if stop ≤ i then st.flush
    else
      match r.piece skip true st.memo i stop with
      | (some (p, next), m) =>
        readTo r inside skip stop fuel
          { ({ st with memo := m }.add inside p) with position := next }
      | (none, m) =>
        readTo r inside skip stop fuel { st with
          memo := m
          position := i + 1
          pending := (r.char? i).toList ++ st.pending }

def readAt (r : Running) : Nat → Nat → Reading → Reading
  | 0, stop, st =>
    { st with pending := (r.slice st.position stop).reverse ++ st.pending }.flush
  | depth + 1, stop, st =>
    readTo r (readAt r depth) (r.skipAt stop (depth + 1)) stop (stop - st.position) st

end Reading

/-- Neighbouring texts become one, whatever they came from. -/
def joinTexts : List InlineToken → List InlineToken
  | [] => []
  | t :: ts =>
    let isText := t.type == "text" || t.type == "text_special"
    match isText, joinTexts ts with
    | true, u :: us =>
      if u.type == "text" then { u with content := t.content ++ u.content } :: us
      else { t with type := "text" } :: u :: us
    | true, [] => [{ t with type := "text" }]
    | false, us => t :: us

def deepestLink : Nat := 20

def inlineTokens (definitions : List Definition) (strikethrough : Bool) (t : Text) :
    List InlineToken :=
  let r : Running := ⟨t.toArray, definitions, strikethrough⟩
  let size := r.source.size
  let st := Reading.readAt r deepestLink size { memo := { skips := Array.replicate (size + 1) 0 } }
  let groups := (st.delimiters :: st.groups).map balance
  let ts := groups.foldl strike st.tokens
  let ts := groups.foldl (fun ts ds => emphasize ds ds.size ts) ts
  joinTexts ts.toList

end Outline.Markdown
