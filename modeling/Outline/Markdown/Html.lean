import Outline.Text.Pattern
/-!
HTML in Markdown: the tags, comments, instructions and declarations that may stand in running text,
and the seven ways in which a line begins a block of HTML, each with what ends the block.
-/

namespace Outline.Markdown.Html

open Text Pattern

/-- Letters compare without case, and so do the few characters whose case forms are ASCII. -/
def lower (c : Char) : Char :=
  if c = '\u017f' then 's' else if c = '\u212a' then 'k'
  else if c = '\u0130' ∨ c = '\u0131' then 'i' else asciiLower c

def anyCase (s : String) : Pattern :=
  s.toList.foldr (fun c p => seq (one fun d => lower d == c) p) empty

def exact (s : String) : Pattern := literal s.toList

def blanks : Pattern := many isBlank

def someOf (p : Char → Bool) : Pattern := one p ++ many p

def isNameStart (c : Char) : Bool := isAsciiLetter c || c == '_' || c == ':'

def isNamePart (c : Char) : Bool :=
  isAsciiAlphanumeric c || c == ':' || c == '.' || c == '_' || c == '-'

def isUnquoted (c : Char) : Bool :=
  32 < c.toNat && !("\x22\x27=<>\x60".toList.contains c)

def attributeValue : Pattern :=
  someOf isUnquoted <|>
  (char '\x27' ++ many (· != '\x27') ++ char '\x27') <|>
  (char '\x22' ++ many (· != '\x22') ++ char '\x22')

def tagAttribute : Pattern :=
  someOf isBlank ++ (one isNameStart ++ many isNamePart) ++
    optional (blanks ++ char '=' ++ blanks ++ attributeValue)

def tagName : Pattern := one isAsciiLetter ++ many fun c => isAsciiAlphanumeric c || c == '-'

def openTag : Pattern :=
  char '<' ++ tagName ++ star tagAttribute ++ blanks ++ optional (char '/') ++ char '>'

def closeTag : Pattern := exact "</" ++ tagName ++ blanks ++ char '>'

def notDash : Pattern := one (· != '-')

def comment : Pattern :=
  (exact "<!--" ++ optional (char '-') ++ char '>') <|>
  (exact "<!--" ++
    star (notDash <|> (char '-' ++ notDash) <|> (exact "--" ++ one (· != '>'))) ++ exact "-->")

def upTo (stop : Text) : Pattern :=
  star (before (fun t => !stop.isPrefixOf t) ++ one fun _ => true) ++ literal stop

def instruction : Pattern := exact "<?" ++ upTo "?>".toList

def declaration : Pattern :=
  exact "<!" ++ one isAsciiLetter ++ many (· != '>') ++ char '>'

def cdata : Pattern := exact "<![CDATA[" ++ upTo "]]>".toList

def tag : Pattern := openTag <|> closeTag <|> comment <|> instruction <|> declaration <|> cdata

inductive Ending where
  /-- A line that holds one of the texts, in any case. -/
  | holds (texts : List String)
  | blank
  deriving DecidableEq, Repr

def contains (stop : Text) (t : Text) : Bool := (Text.find? stop t).isSome

def Ending.isMet (e : Ending) (line : Text) : Bool :=
  match e with
  | holds texts => texts.any fun s => contains s.toList (line.map lower)
  | blank => line.isEmpty

def anyOf (names : List String) : Pattern :=
  names.foldr (fun s p => alt (anyCase s) p) (one fun _ => false)

def rawNames : List String := ["script", "pre", "style", "textarea"]

def blockNames : List String :=
  ["address", "article", "aside", "base", "basefont", "blockquote", "body", "caption", "center",
    "col", "colgroup", "dd", "details", "dialog", "dir", "div", "dl", "dt", "fieldset",
    "figcaption", "figure", "footer", "form", "frame", "frameset", "h1", "h2", "h3", "h4", "h5",
    "h6", "head", "header", "hr", "html", "iframe", "legend", "li", "link", "main", "menu",
    "menuitem", "nav", "noframes", "ol", "optgroup", "option", "p", "param", "search", "section",
    "summary", "table", "tbody", "td", "tfoot", "th", "thead", "title", "tr", "track", "ul"]

def atBlank (t : Text) : Bool := t.head?.all isBlank

def rawStart : Pattern :=
  char '<' ++ anyOf rawNames ++ before fun t => atBlank t || t.head? == some '>'

def blockStart : Pattern :=
  char '<' ++ optional (char '/') ++ anyOf blockNames ++
    before fun t => atBlank t || t.head? == some '>' || "/>".toList.isPrefixOf t

def loneTag : Pattern := (openTag <|> closeTag) ++ before fun t => t.all isBlank

/-- The ending of the block of HTML that a line begins, and whether the block may follow a
paragraph without an empty line. -/
def start? (line : Text) : Option (Ending × Bool) :=
  if rawStart.isPrefixOf line then
    some (.holds ["</script>", "</pre>", "</style>", "</textarea>"], true)
  else if (exact "<!--").isPrefixOf line then some (.holds ["-->"], true)
  else if (exact "<?").isPrefixOf line then some (.holds ["?>"], true)
  else if (exact "<!" ++ one fun c => 'A' ≤ c && c ≤ 'Z').isPrefixOf line then
    some (.holds [">"], true)
  else if (exact "<![CDATA[").isPrefixOf line then some (.holds ["]]>"], true)
  else if blockStart.isPrefixOf line then some (.blank, true)
  else if loneTag.isPrefixOf line then some (.blank, false)
  else none

end Outline.Markdown.Html
