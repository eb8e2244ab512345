import HiveForum.Text.Hex
import HiveForum.Text.Unprintable
import HiveForum.Text.Combining

/-!
# Quoted texts

A text is quoted between double quotes so that a reader sees each of its characters: quotes and
backslashes are escaped, and characters that are unprintable or would merge with the one before
them are named by their code point.

## Main definitions

* `Quoted.escape`: the written form of one character.
* `Quoted.quote`: the written form of a text.
-/

namespace HiveForum.Quoted

/-- The written form of a character inside quotes. -/
def escape (c : Char) : List Char :=
  if c = '\x00' then ['\\', '0']
  else if c = '\t' then ['\\', 't']
  else if c = '\r' then ['\\', 'r']
  else if c = '\n' then ['\\', 'n']
  else if c = '\\' then ['\\', '\\']
  else if c = '"' then ['\\', '"']
  else if Combining.isCombining c || Unprintable.isUnprintable c then
    ['\\', 'u', '\x7b'] ++ Hex.natural c.toNat ++ ['\x7d']
  else [c]

/-- The text between double quotes, each character escaped. -/
def quote (text : String) : String :=
  String.ofList ('"' :: text.toList.flatMap escape ++ ['"'])

end HiveForum.Quoted
