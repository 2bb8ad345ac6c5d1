/-!
The characters that may stand between tokens: space, tab, carriage return and line feed.
-/
namespace Reckon.Text

def isBlank (c : Char) : Bool :=
  c == ' ' || c == '\t' || c == '\r' || c == '\n'

def skipBlanks (cs : List Char) : List Char :=
  cs.dropWhile isBlank

theorem length_skipBlanks_le (cs : List Char) : (skipBlanks cs).length ≤ cs.length :=
  (List.dropWhile_suffix _).length_le

end Reckon.Text
