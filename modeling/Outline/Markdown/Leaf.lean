import Outline.Markdown.Html
import Outline.Markdown.Line
/-!
How a line looks from outside: what kinds of blocks its content can begin. These tests decide what
a block starts with, and which lines end a paragraph, a quote or a list without an empty line
before them.
-/

namespace Outline.Markdown

structure Fence where
  mark : Char
  length : Nat
  info : Text

/-- Three or more backticks or tildes; after backticks no backtick may follow. -/
def fence? (content : Text) : Option Fence :=
  match content with
  | [] => none
  | c :: _ =>
    let run := content.takeWhile (· == c)
    let info := content.drop run.length
    if (c = '\x60' ∨ c = '~') ∧ 3 ≤ run.length ∧ ¬ (c = '\x60' ∧ info.contains c) then
      some ⟨c, run.length, info⟩
    else none

def Fence.isClosedBy (f : Fence) (content : Text) : Bool :=
  let run := content.takeWhile (· == f.mark)
  f.length ≤ run.length && (content.drop run.length).all Text.isSpaceOrTab

def isQuote (content : Text) : Bool := content.head? == some '>'

def isBreakLine (content : Text) : Bool :=
  match content with
  | [] => false
  | c :: _ => (c == '*' || c == '-' || c == '_') &&
      content.all (fun d => d == c || Text.isSpaceOrTab d) && 3 ≤ content.count c

def isBlankOrEnd (t : Text) : Bool := t.head?.all Text.isSpaceOrTab

/-- The level and the text of a heading with number signs; signs at the end go if blanks stand
before them. -/
def heading? (content : Text) : Option (Nat × Text) :=
  let level := (content.takeWhile (· == '#')).length
  let rest := content.drop level
  if 1 ≤ level ∧ level ≤ 6 ∧ isBlankOrEnd rest then
    let body := Text.trimEnd Text.isSpaceOrTab rest
    let cut := Text.trimEnd (· == '#') body
    let body := if cut.getLast?.any Text.isSpaceOrTab then cut else body
    some (level, Text.trim Text.isBlank body)
  else none

structure Marker where
  mark : Char
  length : Nat
  number : Option Nat

def bullet? (content : Text) : Option Marker :=
  match content with
  | c :: rest =>
    if (c = '*' ∨ c = '-' ∨ c = '+') ∧ isBlankOrEnd rest then some ⟨c, 1, none⟩ else none
  | [] => none

def numbered? (content : Text) : Option Marker :=
  let digits := content.takeWhile Text.isAsciiDigit
  match content.drop digits.length with
  | c :: rest =>
    if 1 ≤ digits.length ∧ digits.length ≤ 9 ∧ (c = ')' ∨ c = '.') ∧ isBlankOrEnd rest then
      some ⟨c, digits.length + 1, Text.readBase 10 digits⟩
    else none
  | [] => none

def marker? (content : Text) : Option Marker := (numbered? content).or (bullet? content)

def underline? (content : Text) : Option Nat :=
  match content with
  | [] => none
  | c :: _ =>
    if (c = '=' ∨ c = '-') ∧ (content.dropWhile (· == c)).all Text.isSpaceOrTab then
      some (if c = '=' then 1 else 2)
    else none

/-- Cuts at every bar that no backslash stands before; such backslashes go. `cell` holds the
current cell backwards. -/
def splitCells (escaped : Bool) (cell : Text) : Text → List Text
  | [] => [cell.reverse]
  | '|' :: t =>
    if escaped then splitCells false ('|' :: cell.drop 1) t
    else cell.reverse :: splitCells false [] t
  | c :: t => splitCells (c == '\\') (c :: cell) t

/-- The cells of a row; bars at its ends enclose no cell. -/
def cells (row : Text) : List Text :=
  let cs := splitCells false [] (Text.trim Text.isBlank row)
  let cs := if cs.head? = some [] then cs.drop 1 else cs
  if cs.getLast? = some [] then cs.dropLast else cs

def isRuleChar (c : Char) : Bool := c == '|' || c == '-' || c == ':'

/-- Whether a cell of the rule under the head is dashes, with a colon at neither, either or both
ends. -/
def isRuleCell (t : Text) : Bool :=
  let t := if t.head? = some ':' then t.drop 1 else t
  let t := if t.getLast? = some ':' then t.dropLast else t
  !t.isEmpty && t.all (· == '-')

def ruleColumns? (content : Text) : Option Nat :=
  match content with
  | a :: b :: _ =>
    if isRuleChar a ∧ ¬ (a = '-' ∧ Text.isSpaceOrTab b) ∧
        content.tail.all (fun c => isRuleChar c || Text.isSpaceOrTab c) then
      let cs := (Text.splitOn '|' content).map (Text.trim Text.isBlank)
      let inner := (cs.drop 1).dropLast
      if inner.any (·.isEmpty) ∨ ¬ cs.all (fun c => c.isEmpty || isRuleCell c) then none
      else some (cs.filter (!·.isEmpty)).length
    else none
  | _ => none

namespace Area

def tableHead? (a : Area) (i stop : Nat) : Option (List Text) :=
  if stop < i + 2 ∨ a.isOut (i + 1) ∨ a.isCode (i + 1) ∨ a.isCode i then none
  else
    let head := (a.line i).content
    match ruleColumns? (a.line (i + 1)).content with
    | some n =>
      let cs := cells head
      if head.contains '|' ∧ cs.length = n ∧ n ≠ 0 then some cs else none
    | none => none

/-- An item whose list lies further out than the enclosing one may not be this deep. -/
def isTooDeep (a : Area) (i : Nat) : Bool :=
  0 ≤ a.listIndent && 4 ≤ (a.line i).indent - a.listIndent && a.isOut i

/-- The marker of the item that a line begins. After a paragraph an item must have content, and
its number must be one. -/
def item? (a : Area) (afterParagraph : Bool) (i : Nat) : Option Marker :=
  if a.isCode i || a.isTooDeep i then none
  else
    let content := (a.line i).content
    match marker? content with
    | none => none
    | some m =>
      if afterParagraph && !a.isOut i &&
          ((m.number.any (· != 1)) || (content.drop m.length).all Text.isSpaceOrTab) then none
      else some m

inductive Enclosing where
  | paragraph
  | definition
  | quote
  | list
  deriving DecidableEq, Repr

def interrupts (a : Area) (e : Enclosing) (i stop : Nat) : Bool :=
  let content := (a.line i).content
  (!a.isCode i && ((fence? content).isSome || isQuote content || isBreakLine content)) ||
  (e != .list && ((a.item? (e == .paragraph) i).isSome ||
    (!a.isCode i && ((Html.start? content).any (·.2) || (heading? content).isSome)))) ||
  ((e == .paragraph || e == .definition) && a.tables && (a.tableHead? i stop).isSome)

/-- The line after a paragraph that has reached line `i`. Lines that are far in, or only continue a
paragraph, never end it. -/
def paragraphEnd (a : Area) : Nat → Nat → Nat
  | 0, i => i
  | fuel + 1, i =>
    if a.bound ≤ i ∨ a.isEmpty i then i
    else if a.isCode i ∨ (a.line i).indent < 0 then paragraphEnd a fuel (i + 1)
    else if a.interrupts .paragraph i a.bound then i
    else paragraphEnd a fuel (i + 1)

def underlineFrom? (a : Area) (stop : Nat) : Nat → Nat → Option (Nat × Nat)
  | 0, _ => none
  | fuel + 1, i =>
    if stop ≤ i ∨ a.isEmpty i then none
    else if a.isCode i then underlineFrom? a stop fuel (i + 1)
    else match if a.isOut i then none else underline? (a.line i).content with
      | some level => some (i, level)
      | none =>
        if (a.line i).indent < 0 then underlineFrom? a stop fuel (i + 1)
        else if a.interrupts .paragraph i stop then none
        else underlineFrom? a stop fuel (i + 1)

end Area
end Outline.Markdown
