import Outline.Document.Inline
import Outline.Document.Task
import Outline.Settings
/-!
Blocks. A fold over block tokens keeps the open blocks, innermost first, above the root. Opening
and closing tokens of the kinds in the table open and close blocks, those of other kinds change
nothing, and every other token adds to the innermost open block. A block is closed by any closing
token of the table, whatever opened it.
-/

namespace Outline.Document

structure BlockFrame where
  info : Info
  children : List (Tree Info)

structure BlockState where
  source : Source
  root : BlockFrame
  /-- A closing token too many closes the root. -/
  rootOpen : Bool := true
  frames : List BlockFrame := []
  quoteDepth : Nat := 0

def blockKind? (type : String) : Option Kind :=
  if type = "heading_open" then some Kind.heading
  else if type = "paragraph_open" then some Kind.paragraph
  else if type = "blockquote_open" then some Kind.blockquote
  else if type = "bullet_list_open" ∨ type = "ordered_list_open" then some Kind.list
  else if type = "list_item_open" then some Kind.listItem
  else if type = "table_open" then some Kind.table
  else if type = "tr_open" then some Kind.tableRow
  else if type = "th_open" ∨ type = "td_open" then some Kind.tableCell
  else none

/-- The opening type that belongs to a closing type: its last five characters change. -/
def openingOf (type : String) : String :=
  String.ofList (type.toList.take (type.length - 5) ++ "open".toList)

def BlockFrame.close (f : BlockFrame) : Tree Info := .node f.info f.children.reverse

namespace BlockState

def top (st : BlockState) : Except Fault (List (Tree Info)) :=
  match st.frames with
  | f :: _ => .ok f.children
  | [] => if st.rootOpen then .ok st.root.children else .error .noOpenBlock

def setTop (st : BlockState) (children : List (Tree Info)) : BlockState :=
  match st.frames with
  | f :: rest => { st with frames := { f with children := children } :: rest }
  | [] => { st with root := { st.root with children := children } }

def add (st : BlockState) (t : Tree Info) : Except Fault BlockState := do
  return st.setTop (t :: (← st.top))

def spanOf (st : BlockState) (map : Option (Int × Int)) : Except Fault (Option Span) :=
  match map with
  | none => .ok none
  | some m =>
    match st.source.blockSpan? st.quoteDepth m with
    | some s => .ok (some s)
    | none => .error .lineOutOfRange

end BlockState

/-- The first number of a list: one, unless the attribute says otherwise. A number of zero and an
empty text count as absent. -/
def listStart (v : Value) : Except Fault Int :=
  if !v.isTruthy then .ok 1
  else match v with
    | .str s => match Number.readInt? s with
      | some n => .ok n
      | none => .error .badNumber
    | .float d => match d.truncate? with
      | some n => .ok n
      | none => .error .badNumber
    | v => match v.asInt? with
      | some n => .ok n
      | none => .error .badNumber

def openedInfo (st : BlockState) (t : BlockToken) (kind : Kind) : Except Fault Info := do
  let span ← st.spanOf t.map
  if kind = Kind.heading then
    match Number.readInt? (t.tag.drop 1) with
    | some d => return { kind := kind, span := span, depth := .int d }
    | none => .error .badNumber
  else if kind = Kind.list then
    if t.type = "ordered_list_open" then
      let start ← listStart (t.attributes.get "start")
      return { kind := kind, span := span, ordered := some true, start := some start }
    else return { kind := kind, span := span, ordered := some false }
  else return { kind := kind, span := span }

def dropFinalBreaks (t : Text) : Text := Text.trimEnd (· == '\n') t

/-- The first word of a fence's information is the language, and the rest goes along with it. -/
def fenceInfo (span : Option Span) (content info : Text) : Info :=
  let words := Text.trim Text.isBlank info
  let lang := words.takeWhile (· != ' ')
  let rest := Text.trim Text.isBlank ((words.dropWhile (· != ' ')).drop 1)
  { kind := Kind.code, span := span, value := some (dropFinalBreaks content)
    lang := if lang.isEmpty then none else some lang
    data := if rest.isEmpty then [] else [("meta", .str rest)] }

/-- A block without blocks inside; one of an unknown type keeps it as its kind. -/
def leafInfo (span : Option Span) (t : BlockToken) : Info :=
  if t.type = "fence" then fenceInfo span t.content t.info
  else if t.type = "code_block" then
    { kind := Kind.code, span := span, value := some (dropFinalBreaks t.content) }
  else if t.type = "hr" then { kind := Kind.thematicBreak, span := span }
  else if t.type = "html_block" then
    { kind := Kind.html, span := span, value := some (dropFinalBreaks t.content) }
  else
    { kind := t.type, span := span, value := if t.content.isEmpty then none else some t.content }

def closeBlock (tasks : Bool) (st : BlockState) : Except Fault BlockState :=
  match st.frames with
  | [] => if st.rootOpen then .ok { st with rootOpen := false } else .error .noOpenBlock
  | f :: rest =>
    let st := { st with
      frames := rest
      quoteDepth := if f.info.kind = Kind.blockquote then st.quoteDepth - 1 else st.quoteDepth }
    let children := f.children.reverse
    if f.info.kind = Kind.listItem ∧ tasks then
      let (info, children) := detectTask f.info children
      st.add (.node info children)
    else st.add (.node f.info children)

def blockStep (tasks : Bool) (st : BlockState) (t : BlockToken) : Except Fault BlockState := do
  match t.nesting with
  | .opens =>
    match blockKind? t.type with
    | none => return st
    | some kind =>
      let info ← openedInfo st t kind
      let _ ← st.top
      return { st with
        frames := ⟨info, []⟩ :: st.frames
        quoteDepth := if kind = Kind.blockquote then st.quoteDepth + 1 else st.quoteDepth }
  | .closes => if (blockKind? (openingOf t.type)).isSome then closeBlock tasks st else return st
  | .stands =>
    let children ← st.top
    if t.type = "inline" then
      let line := t.map.map fun m => m.1 + (st.source.offset : Int)
      return st.setTop (← addInline st.source line children t.children)
    else
      let span ← st.spanOf t.map
      return st.setTop (.node (leafInfo span t) [] :: children)

/-- The root, in which the blocks that are still open are closed as they are. -/
def BlockState.finish (st : BlockState) : Tree Info :=
  let inner := st.frames.foldl
    (fun inner f => [BlockFrame.close { f with children := inner ++ f.children }]) []
  BlockFrame.close { st.root with children := inner ++ st.root.children }

end Outline.Document
