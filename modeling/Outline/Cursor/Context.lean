import Outline.Settings
/-!
The source text around a node: the lines of the top-level block that it is in. Ancestors are those
of the syntax tree; of a node at several places, those of its first visit.
-/

namespace Outline.Cursor

abbrev Pending := Node × List Node

/-- The loop of `ancestors?`: take the first pending node, and put its children in front. -/
def ancestorsFrom (target : Node) : Nat → List Pending → Option (List Node)
  | 0, _ => none
  | _ + 1, [] => none
  | fuel + 1, (n, path) :: pending =>
    if Node.is n target then some path
    else ancestorsFrom target fuel (n.children.map (⟨·, path ++ [n]⟩) ++ pending)

def ancestors? (root target : Node) : Option (List Node) :=
  ancestorsFrom target root.size [(root, [])]

def topLevel? (root : Node) (target : Option Node) : Option Node :=
  match target with
  | none => none
  | some t =>
    match ancestors? root t with
    | none | some [] => none
    | some [_] => some t
    | some (_ :: top :: _) => some top

def content (n : Node) (source : Text) : Text :=
  match n.label.span with
  | none => []
  | some s => Text.unlines (Text.slice (Text.lines source) (s.start.line - 1) s.stop.line)

/-- The lines of the top-level block around a node, and the whole source around the root or a
foreign node. Nothing without a node or without its span. -/
def context (root : Node) (target : Option Node) (source : Text) : Text :=
  match target with
  | none => []
  | some t =>
    if t.label.span.isNone then []
    else match ancestors? root t with
      | none | some [] => source
      | some [_] => content t source
      | some (_ :: top :: _) => content top source

end Outline.Cursor
