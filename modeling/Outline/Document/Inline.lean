import Outline.Document.Source
import Outline.Document.Token
import Outline.Node
/-!
Running text. A fold over inline tokens keeps the open containers, innermost first, above the block
that the text belongs to, and a search position in the source. A piece whose literal text is found
in the source line at or after that position gets a span; a container gets the stretch from its
first located child to its last, widened by its marks. Neighbouring texts become one.
-/

namespace Outline.Document

/-- Where in the source the next piece is looked for; both count from zero. -/
structure Search where
  line : Option Int
  column : Nat := 0

def Search.nextLine (c : Search) : Search := ⟨c.line.map (· + 1), 0⟩

structure InlineFrame where
  info : Info
  markup : Text
  children : List (Tree Info)

structure InlineState where
  /-- The children of the enclosing block, newest first. -/
  base : List (Tree Info)
  frames : List InlineFrame
  search : Search

def inlineKind? (type : String) : Option Kind :=
  if type = "em_open" then some Kind.emphasis
  else if type = "strong_open" then some Kind.strong
  else if type = "s_open" then some Kind.delete
  else if type = "link_open" then some Kind.link
  else none

namespace Source

def searchLine? (s : Source) (c : Search) : Except Fault (Option (Int × Text)) :=
  match c.line with
  | none => .ok none
  | some i =>
    if (s.lines.length : Int) ≤ i then .ok none
    else match s.line? i with
      | some l => .ok (some (i, l))
      | none => .error .lineOutOfRange

def spanOf (s : Source) (startLine startColumn stopLine stopColumn : Int) : Except Fault Span :=
  match s.span? startLine startColumn stopLine stopColumn with
  | some p => .ok p
  | none => .error .lineOutOfRange

/-- Finds a literal piece; the search goes on after it. -/
def locate (s : Source) (value : Text) (c : Search) : Except Fault (Option Span × Search) := do
  if value.isEmpty then return (none, c)
  match ← s.searchLine? c with
  | none => return (none, c)
  | some (i, l) =>
    match Text.findFrom? value l c.column with
    | none => return (none, c)
    | some k =>
      let after := k + value.length
      let span ← s.spanOf (i + 1) (k + 1) (i + 1) (after + 1)
      return (some span, { c with column := after })

/-- Finds an image: from its opening mark to the next closing parenthesis. -/
def locateImage (s : Source) (c : Search) : Except Fault (Option Span × Search) := do
  match ← s.searchLine? c with
  | none => return (none, c)
  | some (i, l) =>
    match Text.findFrom? ['!', '['] l c.column with
    | none => return (none, c)
    | some start =>
      match Text.findFrom? [')'] l start with
      | none => return (none, c)
      | some close =>
        let span ← s.spanOf (i + 1) (start + 1) (i + 1) (close + 2)
        return (some span, { c with column := close + 1 })

/-- Where a link ends whose text ends at position `stop` of the line: past its closing mark, and
past its target if that is in parentheses. -/
def linkEnd (markup l : Text) (stop : Int) : Int :=
  if markup = "autolink".toList then stop + 1
  else if stop < l.length ∧ Text.entry? l stop = some ']' then
    let stop := stop + 1
    if stop < l.length ∧ Text.entry? l stop = some '(' then
      match Text.findFrom? [')'] l stop.toNat with
      | some close => close + 1
      | none => stop
    else stop
  else stop

def wrap (s : Source) (kind : Kind) (markup : Text) (children : List (Tree Info)) (c : Search) :
    Except Fault (Option Span × Search) := do
  let located := children.filterMap (·.label.span)
  match located.head?, located.getLast? with
  | some first, some last =>
    let start := first.start
    let stop := last.stop
    if kind ≠ Kind.link then
      let width : Int := markup.length
      let span ← s.spanOf start.line (max 1 (start.column - width)) stop.line (stop.column + width)
      return (some span, c)
    else
      match s.line? (stop.line - 1) with
      | none => .error .lineOutOfRange
      | some l =>
        let close := linkEnd markup l (stop.column - 1)
        let c := if c.line = some (stop.line - 1) then { c with column := max c.column close.toNat }
          else c
        let span ← s.spanOf start.line (max 1 (start.column - 1)) stop.line (close + 1)
        return (some span, c)
  | _, _ => return (none, c)

end Source

def InlineFrame.close (f : InlineFrame) (span : Option Span) : Tree Info :=
  .node { f.info with span := span } f.children.reverse

namespace InlineState

def onTop (st : InlineState) (f : List (Tree Info) → List (Tree Info)) : InlineState :=
  match st.frames with
  | [] => { st with base := f st.base }
  | top :: rest => { st with frames := { top with children := f top.children } :: rest }

def push (st : InlineState) (info : Info) : InlineState := st.onTop (.node info [] :: ·)

/-- Adds text after the children given newest first, into the last one if that is text. -/
def addText (value : Text) (span : Option Span) : List (Tree Info) → List (Tree Info)
  | .node info below :: rest =>
    if info.kind = Kind.text then
      let joined := match info.span, span with
        | some a, some b => some ⟨a.start, b.stop⟩
        | a, _ => a
      .node { info with value := some (info.value.getD [] ++ value), span := joined } below :: rest
    else .node { kind := Kind.text, value := some value, span := span } [] ::
      .node info below :: rest
  | [] => [.node { kind := Kind.text, value := some value, span := span } []]

/-- Closes what is still open at the end; it has no span. -/
def finish (st : InlineState) : List (Tree Info) :=
  let close (inner : List (Tree Info)) (f : InlineFrame) :=
    [InlineFrame.close { f with children := inner ++ f.children } none]
  st.frames.foldl close [] ++ st.base

end InlineState

def inlineStep (s : Source) (st : InlineState) (t : InlineToken) : Except Fault InlineState := do
  match inlineKind? t.type with
  | some kind =>
    let info : Info :=
      if kind = Kind.link then
        { kind := kind, url := t.attributes.text? "href", title := t.attributes.text? "title" }
      else { kind := kind }
    return { st with frames := ⟨info, t.markup, []⟩ :: st.frames }
  | none =>
    if t.nesting = .closes then
      match st.frames with
      | [] => return st
      | f :: rest =>
        let (span, search) ← s.wrap f.info.kind f.markup f.children.reverse st.search
        let st := { st with frames := rest, search := search }
        return st.onTop (f.close span :: ·)
    else if t.type = "text" then
      if t.content.isEmpty then return st
      let (span, search) ← s.locate t.content st.search
      let st := { st with search := search }
      return st.onTop (InlineState.addText t.content span)
    else if t.type = "softbreak" then
      let st := { st with search := st.search.nextLine }
      return st.onTop (InlineState.addText ['\n'] none)
    else if t.type = "hardbreak" then
      let st := { st with search := st.search.nextLine }
      return st.push { kind := Kind.lineBreak }
    else if t.type = "code_inline" then
      let (span, search) ← s.locate t.content st.search
      let st := { st with search := search }
      return st.push { kind := Kind.inlineCode, value := some t.content, span := span }
    else if t.type = "image" then
      let (span, search) ← s.locateImage st.search
      let st := { st with search := search }
      return st.push {
        kind := Kind.image, url := t.attributes.text? "src", alt := some t.content
        title := t.attributes.text? "title", span := span }
    else if t.type = "html_inline" then
      let (span, search) ← s.locate t.content st.search
      let st := { st with search := search }
      return st.push { kind := Kind.html, value := some t.content, span := span }
    else
      return st.push
        { kind := t.type, value := if t.content.isEmpty then none else some t.content }

def addInline (s : Source) (line : Option Int) (base : List (Tree Info))
    (tokens : List InlineToken) : Except Fault (List (Tree Info)) := do
  let st ← tokens.foldlM (inlineStep s) ⟨base, [], ⟨line, 0⟩⟩
  return st.finish

end Outline.Document
