import Outline.Markdown.Block
import Outline.Markdown.Inline
import Outline.Settings
/-!
Reading Markdown: first the blocks, then, when all definitions are known, their running text.
-/

namespace Outline.Markdown

def readRunning (s : ReadingSettings) (ds : List Definition) (t : BlockToken) : BlockToken :=
  if t.type = "inline" then { t with children := inlineTokens ds s.strikethrough t.content } else t

def read (s : ReadingSettings) (t : Text) : List BlockToken :=
  let b := blocksOf s.tables t
  b.tokens.map (readRunning s b.definitions)

end Outline.Markdown
