import HiveForum.Text.Hex

/-!
# String literals

A string literal stands between double quotes. Quotes, backslashes and control characters inside
it are escaped when written; when read, any character may also be given by the hexadecimal digits
of its UTF-16 units, two for a character beyond the basic plane.

## Main definitions

* `Literal.write`: the literal that spells a text.
* `Literal.read?`: the pieces of a literal, up to its closing quote.
* `Literal.spell?`: the text that the pieces spell, unless a surrogate has no partner.
-/

namespace HiveForum.Literal

/-- A part of a literal: a character, or an escaped half of a surrogate pair. -/
inductive Piece where
  | char (c : Char)
  /-- A UTF-16 unit that is a character only together with a second one. -/
  | surrogate (unit : Nat)

/-- The escape letters and the characters that they stand for. -/
def letterEscape? : Char → Option Char
  | '"' => some '"'
  | '\\' => some '\\'
  | '/' => some '/'
  | 'b' => some '\x08'
  | 'f' => some '\x0c'
  | 'n' => some '\n'
  | 'r' => some '\r'
  | 't' => some '\t'
  | _ => none

/-- The piece with the given UTF-16 unit. -/
def ofUnit (unit : Nat) : Piece :=
  if 0xd800 ≤ unit ∧ unit < 0xe000 then .surrogate unit else .char (Char.ofNat unit)

/-- The pieces of a literal whose opening quote has been read, and what follows its closing
quote. -/
def read? : List Char → Option (List Piece × List Char)
  | [] => none
  | '"' :: rest => some ([], rest)
  | '\\' :: 'u' :: a :: b :: c :: d :: rest => do
    let unit ← Hex.number? [a, b, c, d]
    let (pieces, rest) ← read? rest
    some (ofUnit unit :: pieces, rest)
  | '\\' :: letter :: rest => do
    let c ← letterEscape? letter
    let (pieces, rest) ← read? rest
    some (.char c :: pieces, rest)
  | c :: rest =>
    if c = '\\' ∨ c.toNat < 0x20 then none
    else do
      let (pieces, rest) ← read? rest
      some (.char c :: pieces, rest)

/-- The text that the pieces spell; none if a surrogate has no partner. -/
def spell? : List Piece → Option (List Char)
  | [] => some []
  | .char c :: rest => (spell? rest).map (c :: ·)
  | .surrogate high :: .surrogate low :: rest =>
    if high < 0xdc00 ∧ 0xdc00 ≤ low then
      (spell? rest).map (Char.ofNat (0x10000 + (high - 0xd800) * 0x400 + (low - 0xdc00)) :: ·)
    else none
  | .surrogate _ :: _ => none

/-- The written form of a character inside a literal. -/
def escape (c : Char) : List Char :=
  if c = '"' then ['\\', '"']
  else if c = '\\' then ['\\', '\\']
  else if c = '\x08' then ['\\', 'b']
  else if c = '\x0c' then ['\\', 'f']
  else if c = '\n' then ['\\', 'n']
  else if c = '\r' then ['\\', 'r']
  else if c = '\t' then ['\\', 't']
  else if c.toNat < 0x20 then '\\' :: 'u' :: Hex.digits 4 c.toNat
  else [c]

/-- The literal that spells a text. -/
def write (text : List Char) : List Char :=
  '"' :: text.flatMap escape ++ ['"']

end HiveForum.Literal
