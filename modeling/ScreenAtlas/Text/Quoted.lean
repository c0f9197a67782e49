import ScreenAtlas.Text.Blank
import ScreenAtlas.Text.Hidden
/-!
# Quoted texts

A text inside a message stands between double quotes. Quotes, backslashes and the usual control
characters are escaped by a letter, and every other character that would not show is written by
its number in hexadecimal, between braces.
-/
namespace ScreenAtlas.Text

/-- The form of one character inside a quoted text. -/
def quotedChar (c : Char) : List Char :=
  if c = '\x00' then ['\\', '0']
  else if c = '\t' then ['\\', 't']
  else if c = '\r' then ['\\', 'r']
  else if c = '\n' then ['\\', 'n']
  else if c = '"' || c = '\\' then ['\\', c]
  else if inRanges hiddenRanges c.toNat then
    ['\\', 'u', '\x7b'] ++ Nat.toDigits 16 c.toNat ++ ['\x7d']
  else [c]

/-- The text between double quotes, with every character that would not show written by number. -/
def quoted (s : String) : String :=
  String.ofList ('"' :: s.toList.flatMap quotedChar ++ ['"'])

end ScreenAtlas.Text
