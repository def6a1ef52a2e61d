import Outline.Cursor.Lookup
/-!
A marker in the source text at a cursor. The cursor is first moved into the text: its line to an
existing line, then its character to that line.
-/

namespace Outline.Cursor

/-- The nearest number from zero to `most`. -/
def clamp (i : Int) (most : Nat) : Nat := min i.toNat most

def insertAt (marker : Text) (column : Nat) (line : Text) : Text :=
  line.take column ++ marker ++ line.drop column

def addMarker (marker : Text) (p : Position) (source : Text) : Text :=
  let ls := Text.lines source
  let row := clamp p.line (ls.length - 1)
  Text.unlines (ls.modify row fun l => insertAt marker (clamp p.character l.length) l)

def removeMarker (marker source : Text) : Text := Text.eraseAll marker source

end Outline.Cursor
