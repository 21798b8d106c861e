import Stencil.Data.Context
import Stencil.Template.Tag

/-!
# Filling and clearing placeholders

A mapping fills the first placeholder of each of its scalar keys. Once everything has been filled, the
placeholders that are left are cleared away.
-/

namespace Stencil

open Text

namespace Placeholder

/-- The placeholder of a key, or of a field of the rows of loop `row`. -/
def lexeme (row : Option String) (key : String) : List Char :=
  match row with
  | none => Tag.braced key.toList
  | some loop => Tag.braced (loop.toList ++ '.' :: key.toList)

/-- The first placeholder of a key replaced by a scalar. Containers fill nothing. -/
def fillOne (row : Option String) (text : List Char) (key : String) (value : Value) : List Char :=
  if value.isScalar then replaceFirst (lexeme row key) value.display.toList text else text

/-- The first placeholder of each scalar key replaced, key after key. -/
def fill (row : Option String) (text : List Char) (record : Mapping) : List Char :=
  record.foldl (fun text entry => fillOne row text entry.1 entry.2) text

/-- The entries of a context fill a text from the last to the first, so that of two entries with a
key the later one has the first placeholder. -/
def fillAll (text : List Char) (context : Context) : List Char :=
  context.entries.reverse.foldl (fill none) text

/-- Takes out the placeholders that are left, in one scan. -/
def clear (text : List Char) : List Char :=
  Tag.placeholderPath.replace (fun _ _ => []) text

end Placeholder

end Stencil
