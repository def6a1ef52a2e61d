import Outline.Node
import Outline.Containment.Role
/-!
Settings and what is wrong with them. `complaints` lists every fault in a fixed order; settings
are accepted iff the list is empty.
-/

namespace Outline

def Kind.defaultTransparent : List Kind := [root, list, text, strong, emphasis]

structure DrawingSettings where
  /-- The most members that are no containers which are drawn one by one. -/
  threshold : Int := 5
  showSpans : Bool := true

structure CursorSettings where
  /-- What a line counts against columns. -/
  weight : Int := 1000
  marker : Option Text := some "<CURSOR>".toList

structure ReadingSettings where
  tables : Bool := true
  strikethrough : Bool := true
  frontmatter : Bool := true
  taskItems : Bool := true

structure GraphSettings where
  edgeType : Option Text := some "contains".toList
  /-- The most characters of a node's text that its record keeps. -/
  preview : Int := 200

structure Settings where
  transparent : List Kind := Kind.defaultTransparent
  drawing : DrawingSettings := {}
  cursor : CursorSettings := {}
  reading : ReadingSettings := {}
  graph : GraphSettings := {}

namespace Settings

def version : String := "0.1.0"

inductive Complaint where
  | transparentContainers (kinds : List Kind)
  | transparentBreak
  | negativeThreshold (n : Int)
  | weightNotPositive (n : Int)
  | noMarker
  | noEdgeType
  | previewNotPositive (n : Int)

namespace Complaint

def message : Complaint → Text
  | transparentContainers ks =>
    ("Container kinds cannot be transparent: " ++ ", ".intercalate ks).toList
  | transparentBreak => "thematicBreak cannot be transparent".toList
  | negativeThreshold n => "Inspector summary_threshold must be >= 0, got ".toList ++ Text.ofInt n
  | weightNotPositive n => "Cursor multiline_weight must be positive, got ".toList ++ Text.ofInt n
  | noMarker => "Cursor marker cannot be empty".toList
  | noEdgeType => "Graph relationship_type cannot be empty".toList
  | previewNotPositive n => "Graph preview_chars must be positive, got ".toList ++ Text.ofInt n

end Complaint

def shadowable : List Kind := [Kind.blockquote, Kind.heading, Kind.listItem]

def transparencyComplaints (kinds : List Kind) : List Complaint :=
  let shadowed := shadowable.filter kinds.contains
  (if shadowed = [] then [] else [.transparentContainers shadowed]) ++
    (if kinds.contains Kind.thematicBreak then [.transparentBreak] else [])

def complaints (s : Settings) : List Complaint :=
  transparencyComplaints s.transparent ++
  (if s.drawing.threshold < 0 then [.negativeThreshold s.drawing.threshold] else []) ++
  (if s.cursor.weight ≤ 0 then [.weightNotPositive s.cursor.weight] else []) ++
  (if (s.cursor.marker.getD []).isEmpty then [.noMarker] else []) ++
  (if (s.graph.edgeType.getD []).all Text.isBlank then [.noEdgeType] else []) ++
  (if s.graph.preview ≤ 0 then [.previewNotPositive s.graph.preview] else [])

/-- Accepted, or the message that lists every complaint on a line of its own. -/
def check (s : Settings) : Except Text Unit :=
  match s.complaints with
  | [] => .ok ()
  | cs => .error (Text.unlines ("Configuration validation failed:".toList ::
      cs.map fun c => "  - ".toList ++ c.message))

end Settings
end Outline
