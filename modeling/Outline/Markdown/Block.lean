import Outline.Document.Token
import Outline.Markdown.Definition
/-!
Blocks. Each kind of block is a reader that looks at the lines from one on and, if they begin such
a block, gives its tokens and the line after it. The readers are tried in a fixed order; a paragraph
is what no other reader takes. Quotes and items read their content with the reader of blocks that
they are given, one level further in.
-/

namespace Outline.Markdown

structure Blocks where
  tokens : List BlockToken := []
  definitions : List Definition := []

namespace Blocks

instance : Append Blocks := ⟨fun a b => ⟨a.tokens ++ b.tokens, a.definitions ++ b.definitions⟩⟩

def ofTokens (ts : List BlockToken) : Blocks := ⟨ts, []⟩

end Blocks

abbrev Lines := Nat × Nat

def Lines.map (ls : Lines) : Option (Int × Int) := some (ls.1, ls.2)

def opening (type : String) (ls : Lines) : BlockToken :=
  { type := type, nesting := .opens, map := ls.map }

def closing (type : String) : BlockToken := { type := type, nesting := .closes }

def inlineOf (content : Text) (ls : Lines) : BlockToken :=
  { type := "inline", content := content, map := ls.map }

def enclose (open_ : BlockToken) (b : Blocks) (close : String) : Blocks :=
  ⟨open_ :: b.tokens ++ [closing close], b.definitions⟩

/-- Reads the blocks of an area from a line up to another; also gives the line reached. -/
abbrev Reader := Area → Nat → Nat → Blocks × Nat

namespace Area

/-- The lines of code in a row; empty lines between them count, those after them do not. -/
def codeEnd (a : Area) (stop : Nat) : Nat → Nat → Nat → Nat
  | 0, last, _ => last
  | fuel + 1, last, i =>
    if stop ≤ i then last
    else if a.isEmpty i then codeEnd a stop fuel last (i + 1)
    else if a.isCode i then codeEnd a stop fuel (i + 1) (i + 1)
    else last

def code? (a : Area) (i stop : Nat) : Option (Blocks × Nat) :=
  if a.isCode i then
    let last := a.codeEnd stop (stop - i) (i + 1) (i + 1)
    some (.ofTokens [{ type := "code_block", map := Lines.map (i, last)
                       content := a.cutText (4 + a.indent) i last ++ ['\n'] }], last)
  else none

/-- The line at which a fenced block ends, and whether that line closes it. -/
def fenceEnd (a : Area) (f : Fence) (stop : Nat) : Nat → Nat → Nat × Bool
  | 0, i => (i, false)
  | fuel + 1, i =>
    let l := a.line i
    if stop ≤ i ∨ (a.isOut i ∧ ¬ l.isEmpty) ∨ (l.isEmpty ∧ l.final) then (i, false)
    else if !a.isCode i && f.isClosedBy l.content then (i, true)
    else fenceEnd a f stop fuel (i + 1)

def fencedCode? (a : Area) (i stop : Nat) : Option (Blocks × Nat) :=
  if a.isCode i then none
  else (fence? (a.line i).content).map fun f =>
    let (last, closed) := a.fenceEnd f stop (stop - i) (i + 1)
    let next := if closed then last + 1 else last
    (.ofTokens [{ type := "fence", map := Lines.map (i, next), info := f.info
                  content := a.cutAll (a.line i).indent.toNat (i + 1) last }], next)

def breakLine? (a : Area) (i : Nat) : Option (Blocks × Nat) :=
  if !a.isCode i && isBreakLine (a.line i).content then
    some (.ofTokens [{ type := "hr", map := Lines.map (i, i + 1) }], i + 1)
  else none

def htmlEnd (a : Area) (e : Html.Ending) (stop : Nat) : Nat → Nat → Nat
  | 0, i => i
  | fuel + 1, i =>
    if stop ≤ i ∨ a.isOut i then i
    else if e.isMet (a.line i).content then (if a.isEmpty i then i else i + 1)
    else htmlEnd a e stop fuel (i + 1)

def html? (a : Area) (i stop : Nat) : Option (Blocks × Nat) :=
  if a.isCode i then none
  else
    let content := (a.line i).content
    (Html.start? content).map fun (e, _) =>
      let last := if e.isMet content then i + 1 else a.htmlEnd e stop (stop - i) (i + 1)
      (.ofTokens [{ type := "html_block", map := Lines.map (i, last)
                    content := a.cutAll a.indent i last }], last)

def headingTokens (level : Nat) (content : Text) (ls inner : Lines) : Blocks :=
  .ofTokens [{ opening "heading_open" ls with tag := 'h' :: Text.ofNat level },
    inlineOf content inner, closing "heading_close"]

def signedHeading? (a : Area) (i : Nat) : Option (Blocks × Nat) :=
  if a.isCode i then none
  else (heading? (a.line i).content).map fun (level, content) =>
    (headingTokens level content (i, i + 1) (i, i + 1), i + 1)

def underlined? (a : Area) (i stop : Nat) : Option (Blocks × Nat) :=
  if a.isCode i then none
  else (a.underlineFrom? stop (stop - i) (i + 1)).map fun (last, level) =>
    (headingTokens level (Text.trim Text.isBlank (a.cutText a.indent i last)) (i, last + 1)
      (i, last), last + 1)

def paragraph (a : Area) (i : Nat) : Blocks × Nat :=
  let last := a.paragraphEnd (a.bound - i) (i + 1)
  (.ofTokens [opening "paragraph_open" (i, last),
    inlineOf (Text.trim Text.isBlank (a.cutText a.indent i last)) (i, last),
    closing "paragraph_close"], last)

/-- A line of a quote without its marker; one blank after the marker goes with it. -/
def unquote (l : Line) : Line :=
  let column := l.indent.toNat + 1
  let make (t : Text) (start base : Nat) (tab : Nat) : Line :=
    let (n, c) := Line.skipBlanks (l.base + tab) start t
    ⟨t, n, (c - start : Nat), base, l.final⟩
  match l.content.drop 1 with
  | ' ' :: t => make t (column + 1) (column + 1) 0
  | '\t' :: t =>
    if (l.base + column) % 4 = 3 then make t (column + 1) (column + 1) 0
    else make ('\t' :: t) column (column + 1) 1
  | t => make t column column 0

/-- The lines of a quote that has reached line `i`: unquoted ones, and between them lines that only
continue a paragraph. Also the line after the quote, and whether it begins another block. -/
def quoteLines (a : Area) (stop : Nat) : Nat → Nat → Bool → Array Line → Array Line × Nat × Bool
  | 0, i, _, ls => (ls, i, false)
  | fuel + 1, i, afterEmpty, ls =>
    let l := a.line i
    if stop ≤ i ∨ l.isEmpty then (ls, i, false)
    else if isQuote l.content && !a.isOut i then
      let inner := unquote l
      quoteLines a stop fuel (i + 1) inner.isEmpty (ls.setIfInBounds i inner)
    else if afterEmpty then (ls, i, false)
    else if a.interrupts .quote i stop then (ls, i, true)
    else quoteLines a stop fuel (i + 1) afterEmpty (ls.setIfInBounds i { l with indent := -1 })

def quote? (read : Reader) (a : Area) (i stop : Nat) : Option (Blocks × Nat) :=
  if !a.isCode i && isQuote (a.line i).content then
    let first := unquote (a.line i)
    let (ls, last, cut) :=
      a.quoteLines stop (stop - i) (i + 1) first.isEmpty (a.lines.setIfInBounds i first)
    let (b, next) := read { a with
      lines := ls
      bound := if cut then last else a.bound
      indent := 0
      level := a.level + 1 } i last
    some (enclose (opening "blockquote_open" (i, next)) b "blockquote_close", next)
  else none

def itemContent (read : Reader) (a : Area) (m : Marker) (i stop : Nat) : Blocks × Nat :=
  let l := a.line i
  let start := l.indent.toNat + m.length
  let rest := l.content.drop m.length
  let (n, column) := Line.skipBlanks l.base start rest
  let bare := rest.length ≤ n
  let gap := if bare ∨ column - start > 4 then 1 else column - start
  let inner : Area := { a with
    lines := a.lines.setIfInBounds i { l with shift := l.shift + m.length + n, indent := column }
    indent := start + gap
    listIndent := a.indent
    level := a.level + 2 }
  if bare ∧ a.isEmpty (i + 1) then ({}, min (i + 2) stop) else read inner i stop

def items (read : Reader) (a : Area) (stop : Nat) : Nat → Marker → Nat → Blocks × Nat
  | 0, _, i => ({}, i)
  | fuel + 1, m, i =>
    let (b, next) := itemContent read a m i stop
    let item := enclose (opening "list_item_open" (i, next)) b "list_item_close"
    if stop ≤ next ∨ a.isOut next ∨ a.isCode next ∨ a.interrupts .list next stop then (item, next)
    else
      let content := (a.line next).content
      match if m.number.isSome then numbered? content else bullet? content with
      | some m' =>
        if m'.mark = m.mark then
          let (more, last) := items read a stop fuel m' next
          (item ++ more, last)
        else (item, next)
      | none => (item, next)

def list? (read : Reader) (a : Area) (i stop : Nat) : Option (Blocks × Nat) :=
  (a.item? false i).map fun m =>
    let (b, next) := a.items read stop (stop - i) m i
    match m.number with
    | some n =>
      let attributes := if n = 1 then [] else [("start", .int n)]
      (enclose { opening "ordered_list_open" (i, next) with attributes := attributes } b
        "ordered_list_close", next)
    | none => (enclose (opening "bullet_list_open" (i, next)) b "bullet_list_close", next)

def rowTokens (cell : String) (cs : List Text) (i : Nat) : List BlockToken :=
  opening "tr_open" (i, i + 1) :: cs.flatMap (fun c =>
    [{ opening (cell ++ "_open") (i, i + 1) with map := none },
      inlineOf (Text.trim Text.isBlank c) (i, i + 1), closing (cell ++ "_close")]) ++
    [closing "tr_close"]

def mostAddedCells : Int := 65536

def rows (a : Area) (columns stop : Nat) : Nat → Int → Nat → List (List BlockToken) × Nat
  | 0, _, i => ([], i)
  | fuel + 1, added, i =>
    let content := (a.line i).content
    if stop ≤ i ∨ a.isOut i ∨ a.interrupts .quote i stop ∨ content.all Text.isBlank ∨
        a.isCode i then
      ([], i)
    else
      let cs := cells content
      let added := added + columns - cs.length
      if added > mostAddedCells then ([], i)
      else
        let (more, next) := rows a columns stop fuel added (i + 1)
        let padded := (cs ++ List.replicate (columns - cs.length) []).take columns
        (rowTokens "td" padded i :: more, next)

def table? (a : Area) (i stop : Nat) : Option (Blocks × Nat) :=
  if !a.tables then none
  else (a.tableHead? i stop).map fun head =>
    let (body, next) := a.rows head.length stop (stop - i) 0 (i + 2)
    let bodyTokens :=
      if body.isEmpty then []
      else opening "tbody_open" (i + 2, next) :: body.flatten ++ [closing "tbody_close"]
    (enclose (opening "table_open" (i, next))
      (.ofTokens (opening "thead_open" (i, i + 1) :: rowTokens "th" head i ++
        closing "thead_close" :: bodyTokens)) "table_close", next)

def definitionBlock? (a : Area) (i : Nat) : Option (Blocks × Nat) :=
  (a.definition? i).map fun (d, next) => (⟨[], [d]⟩, next)

def block (read : Reader) (a : Area) (i stop : Nat) : Blocks × Nat :=
  ((a.table? i stop) <|> (a.code? i stop) <|> (a.fencedCode? i stop) <|> (a.quote? read i stop) <|>
    (a.breakLine? i) <|> (a.list? read i stop) <|> (a.definitionBlock? i) <|> (a.html? i stop) <|>
    (a.signedHeading? i) <|> (a.underlined? i stop)).getD (a.paragraph i)

def skipEmpty (a : Area) : Nat → Nat → Nat
  | 0, i => i
  | fuel + 1, i => if i < a.bound ∧ a.isEmpty i then skipEmpty a fuel (i + 1) else i

def deepest : Nat := 20

/-- The blocks from line `i` up to `stop`. What is too deep inside is left out. -/
def blocksFrom (read : Reader) (a : Area) (stop : Nat) : Nat → Nat → Blocks × Nat
  | 0, i => ({}, i)
  | fuel + 1, i =>
    if stop ≤ i then ({}, i)
    else
      let i := a.skipEmpty (a.bound - i) i
      if stop ≤ i ∨ a.isOut i then ({}, i)
      else if deepest ≤ a.level then ({}, stop)
      else
        let (b, next) := a.block read i stop
        let next := if next < stop ∧ a.isEmpty next then next + 1 else next
        let (more, last) := blocksFrom read a stop fuel next
        (b ++ more, last)

def reader : Nat → Reader
  | 0 => fun _ _ stop => ({}, stop)
  | depth + 1 => fun a i stop => a.blocksFrom (reader depth) stop (stop - i + 1) i

end Area

def blocksOf (tables : Bool) (t : Text) : Blocks :=
  let ls := (linesOf t).toArray
  let a : Area := { lines := ls, bound := ls.size, tables := tables }
  (Area.reader (Area.deepest + 1) a 0 ls.size).1

end Outline.Markdown
