import Outline.Span
import Outline.Tree
import Outline.Value
/-!
Nodes of a syntax tree. What a node says is its `Info`; which node it is, is its `id`. Two nodes
with equal content are different nodes, and one node may stand at several places of a tree: there
its `id`, and with it everything below, is the same.
-/

namespace Outline

abbrev Kind := String

namespace Kind

def root : Kind := "root"
def heading : Kind := "heading"
def paragraph : Kind := "paragraph"
def text : Kind := "text"
def emphasis : Kind := "emphasis"
def strong : Kind := "strong"
def delete : Kind := "delete"
def inlineCode : Kind := "inlineCode"
def code : Kind := "code"
def blockquote : Kind := "blockquote"
def list : Kind := "list"
def listItem : Kind := "listItem"
def thematicBreak : Kind := "thematicBreak"
def image : Kind := "image"
def link : Kind := "link"
def lineBreak : Kind := "break"
def html : Kind := "html"
def yaml : Kind := "yaml"
def table : Kind := "table"
def tableRow : Kind := "tableRow"
def tableCell : Kind := "tableCell"

def catalogue : List (String × Kind) :=
  [("ROOT", root), ("HEADING", heading), ("PARAGRAPH", paragraph), ("TEXT", text),
    ("EMPHASIS", emphasis), ("STRONG", strong), ("DELETE", delete), ("INLINE_CODE", inlineCode),
    ("CODE", code), ("BLOCKQUOTE", blockquote), ("LIST", list), ("LIST_ITEM", listItem),
    ("THEMATIC_BREAK", thematicBreak), ("IMAGE", image), ("LINK", link), ("BREAK", lineBreak),
    ("HTML", html), ("YAML", yaml), ("TABLE", table), ("TABLE_ROW", tableRow),
    ("TABLE_CELL", tableCell)]

end Kind

structure Info where
  kind : Kind
  span : Option Span := none
  /-- Headings: the level. Any value can stand here; only positive integers are valid. -/
  depth : Value := .null
  /-- List items: whether the task is done, if it is a task. -/
  checked : Option Bool := none
  value : Option Text := none
  lang : Option Text := none
  url : Option Text := none
  title : Option Text := none
  alt : Option Text := none
  /-- Lists: numbered or not, and the first number. -/
  ordered : Option Bool := none
  start : Option Int := none
  data : List (String × Value) := []
  deriving Inhabited

structure Entry extends Info where
  id : Nat
  deriving Inhabited

abbrev Node := Tree Entry

namespace Node

def id (n : Node) : Nat := n.label.id
def kind (n : Node) : Kind := n.label.kind

def is (a b : Node) : Bool := a.label.id == b.label.id

def textContent (n : Node) : Text :=
  (n.walk.filter (·.node.label.kind == Kind.text)).flatMap (·.node.label.value.getD [])

def written (n : Node) : Text :=
  "SyntaxNode(".toList ++ Text.quoted n.label.kind.toList ++
    (match n.label.span with
      | some s => ", ".toList ++ s.text
      | none => []) ++ [')']

/-- Gives every node of a tree its place in the pre-order as its identity. -/
def ofTree (t : Tree Info) : Node := t.number.map fun (i, a) => ⟨a, i⟩

end Node

/-- Values by node, in the order in which nodes were first put in. -/
abbrev NodeMap (β : Type) := List (Node × β)

namespace NodeMap

variable {β : Type}

def get? (m : NodeMap β) (n : Node) : Option β := (m.find? (·.1.is n)).map (·.2)

/-- A node that is already there keeps its place and gets the new value. -/
def put (m : NodeMap β) (n : Node) (b : β) : NodeMap β :=
  match m with
  | [] => [(n, b)]
  | e :: m => if e.1.is n then (e.1, b) :: m else e :: put m n b

end NodeMap
end Outline
