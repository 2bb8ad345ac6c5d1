import Reckon.Text.Combining
import Reckon.Text.Unprintable

/-!
Quoted text, as error messages show it: between double quotes, on one line, with every character
that could not be told apart by eye written as its code point.
-/
namespace Reckon.Text

/-- A code point in lower-case hexadecimal, without padding. -/
def codePoint (c : Char) : List Char :=
  '\\' :: 'u' :: '\x7b' :: Nat.toDigits 16 c.toNat ++ ['\x7d']

/-- Printable ASCII needs no look at the tables. -/
def isPlain (c : Char) : Bool :=
  if c.toNat < 0x7f then 0x20 ≤ c.toNat else !isCombining c && !isUnprintable c

/-- One character inside the quotes. A single quote stands for itself. -/
def quoteChar (c : Char) : List Char :=
  match c with
  | '"' => ['\\', '"']
  | '\\' => ['\\', '\\']
  | '\t' => ['\\', 't']
  | '\n' => ['\\', 'n']
  | '\r' => ['\\', 'r']
  | '\x00' => ['\\', '0']
  | c => if isPlain c then [c] else codePoint c

def quoted (text : String) : String :=
  String.ofList ('"' :: text.toList.flatMap quoteChar ++ ['"'])

end Reckon.Text
