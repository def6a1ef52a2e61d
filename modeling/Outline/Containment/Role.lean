import Outline.Node
/-!
What a node does when the nodes of a document are placed: containers own nodes that come later, and
have a role; a heading must have a valid level; an item encloses another if the other's list is one
of its own children.
-/

namespace Outline.Containment

inductive Role where
  | root
  | heading
  | listItem
  | blockquote
  deriving DecidableEq, Repr

namespace Role

def name : Role → Kind
  | root => Kind.root
  | heading => Kind.heading
  | listItem => Kind.listItem
  | blockquote => Kind.blockquote

def ofKind? (k : Kind) : Option Role :=
  if k = Kind.root then some root
  else if k = Kind.heading then some heading
  else if k = Kind.listItem then some listItem
  else if k = Kind.blockquote then some blockquote
  else none

end Role

inductive Violation where
  | noRole (kind : Kind)
  | badDepth (heading : Node)

def Violation.message : Violation → Text
  | noRole k => "Unknown container type: ".toList ++ k.toList
  | badDepth n => "Heading without a valid depth: ".toList ++ n.written ++
      " (depth=".toList ++ n.label.depth.written ++ [')']

def containerKinds : List Kind := [Role.root.name, Role.heading.name, Role.listItem.name,
  Role.blockquote.name]

def isContainer (k : Kind) : Bool := (Role.ofKind? k).isSome

def isTransparent (transparent : List Kind) (n : Node) : Bool := transparent.contains n.label.kind

def isBreak (n : Node) : Bool := n.label.kind == Kind.thematicBreak

def roleOf (n : Node) : Except Violation Role :=
  match Role.ofKind? n.label.kind with
  | some r => .ok r
  | none => .error (.noRole n.label.kind)

/-- A positive integer; a truth value is none. -/
def validDepth? : Value → Option Int
  | .int n => if 1 ≤ n then some n else none
  | _ => none

def depthOf (n : Node) : Except Violation Int :=
  match validDepth? n.label.depth with
  | some d => .ok d
  | none => .error (.badDepth n)

/-- Whether an item's parent is a list that is one of the candidate's own children. -/
def encloses (candidate : Node) (itemParent : Option Node) : Bool :=
  match itemParent with
  | none => false
  | some p => p.label.kind == Kind.list &&
      candidate.children.any fun c => c.label.kind == Kind.list && Node.is c p

end Outline.Containment
