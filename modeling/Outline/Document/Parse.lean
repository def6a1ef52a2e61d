import Outline.Document.Block
import Outline.Frontmatter
import Outline.Markdown.Read
import Outline.Yaml.Load
/-!
From a note's text to its tree. The metadata block, if the text has one, becomes the first child
of the root and is cut off before the rest is read as Markdown; all spans count from the start of
the whole text. How a block is loaded and how a body is read are parameters of `parseWith`.
-/

namespace Outline.Document

abbrev Loader := Text → Except Yaml.Fault Value

/-- What a metadata block holds: an empty mapping if it is empty, nothing if it is malformed or no
mapping. -/
def metadata (load : Loader) (raw : Text) : Except Fault (Option Value) :=
  match load raw with
  | .error .malformed => .ok none
  | .error f => .error (.metadata f)
  | .ok .null => .ok (some (.map []))
  | .ok (.map es) => .ok (some (.map es))
  | .ok _ => .ok none

def documentSpan (t : Text) : Span :=
  let ls := Text.lines t
  ⟨⟨1, 1, some 0⟩, ⟨ls.length, (ls.getLast?.getD []).length + 1, some t.length⟩⟩

def metadataNode (s : Source) (b : Frontmatter.Block) (data : Option Value) :
    Except Fault (Tree Info) := do
  let closing := (s.line? (b.endLine - 1)).getD []
  let span ← s.spanOf 1 1 b.endLine ((Text.trimEnd Text.isBlank closing).length + 1)
  let fields := [("frontmatter", data.getD .null)]
  return .node { kind := Kind.yaml, span := some span, value := some b.raw, data := fields } []

/-- Folds the tokens of a body into the tree of a document, after the given first children. -/
def fold (tasks : Bool) (source : Source) (span : Span) (first : List (Tree Info))
    (tokens : List BlockToken) : Except Fault (Tree Info) := do
  let start : BlockState :=
    { source := source, root := ⟨{ kind := Kind.root, span := some span }, first⟩ }
  return (← tokens.foldlM (blockStep tasks) start).finish

def parseWith (load : Loader) (settings : ReadingSettings) (read : Text → List BlockToken)
    (t : Text) : Except Fault (Tree Info) := do
  let source := Source.ofText t
  let span := documentSpan t
  match if settings.frontmatter then Frontmatter.block? t else none with
  | none => fold settings.taskItems source span [] (read t)
  | some b =>
    let yaml ← metadataNode source b (← metadata load b.raw)
    fold settings.taskItems { source with offset := b.lineCount } span [yaml]
      (read (t.drop b.length))

def parse (settings : ReadingSettings) (t : Text) : Except Fault (Tree Info) :=
  parseWith Yaml.load settings (Markdown.read settings) t

end Outline.Document
