import RecipeGraph.Text.Digit

/-!
Percent escapes in paths.

An escape stands for one byte of the text in UTF-8. A percent sign that two
hexadecimal digits do not follow stands for itself, and so does a plus sign.
-/

namespace RecipeGraph.Text

def unescapedBytes : List Char → List UInt8
  | [] => []
  | '%' :: a :: b :: rest =>
    match hexDigit? a, hexDigit? b with
    | some high, some low => (16 * high + low).toUInt8 :: unescapedBytes rest
    | _, _ => '%'.toUInt8 :: unescapedBytes (a :: b :: rest)
  | c :: rest => (String.singleton c).toUTF8.data.toList ++ unescapedBytes rest

/-- The text with all escapes undone, if the bytes are one. -/
def unescape? (text : String) : Option String :=
  String.fromUTF8? ⟨(unescapedBytes text.toList).toArray⟩

end RecipeGraph.Text
