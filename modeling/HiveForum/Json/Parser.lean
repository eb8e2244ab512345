import HiveForum.Json.Value
import HiveForum.Json.Literal
import HiveForum.Text.Numeral

/-!
# Reading JSON

A text is read as one value with blanks around it. Each reader takes the characters from where it
starts and gives its value with the characters that it leaves.

## Main definitions

* `Json.parse?`: the value that a text writes.
* `Json.number?`: a number, kept as an integer if it is written as one.
-/

namespace HiveForum.Json

/-- The characters that may stand between the tokens of a JSON text. -/
def isBlank (c : Char) : Bool := c = ' ' || c = '\n' || c = '\r' || c = '\t'

/-- The characters after leading blanks. -/
def skipBlanks (cs : List Char) : List Char := cs.dropWhile isBlank

/-- The characters after a given start; none if they start otherwise. -/
def after? : (start : List Char) → List Char → Option (List Char)
  | [], cs => some cs
  | _ :: _, [] => none
  | s :: start, c :: cs => if s = c then after? start cs else none

/-- A run of one or more digits. -/
def digits? (cs : List Char) : Option (List Char × List Char) :=
  let run := cs.takeWhile Char.isDigit
  if run.isEmpty then none else some (run, cs.dropWhile Char.isDigit)

/-- The digits of a whole number: no zero leads another digit. -/
def whole? (cs : List Char) : Option (List Char × List Char) := do
  let (run, rest) ← digits? cs
  if run.head? = some '0' ∧ run.length ≠ 1 then none else some (run, rest)

/-- A decimal point and the digits after it, if there is a point. -/
def fraction? : List Char → Option (List Char × List Char)
  | '.' :: rest => do
    let (run, rest) ← digits? rest
    some ('.' :: run, rest)
  | cs => some ([], cs)

/-- The sign of an exponent, if there is one. -/
def sign : List Char → List Char × List Char
  | '+' :: rest => (['+'], rest)
  | '-' :: rest => (['-'], rest)
  | cs => ([], cs)

/-- An exponent, if there is one. -/
def exponent? : List Char → Option (List Char × List Char)
  | [] => some ([], [])
  | c :: rest =>
    if c = 'e' ∨ c = 'E' then do
      let (mark, rest) := sign rest
      let (run, rest) ← digits? rest
      some (c :: mark ++ run, rest)
    else some ([], c :: rest)

/-- The value of a run of digits. -/
def natural (run : List Char) : Nat := (Numeral.value? run).getD 0

/-- A number without its sign; `negative` tells whether a minus sign stands before it. -/
def unsigned? (negative : Bool) (cs : List Char) : Option (Json × List Char) := do
  let (whole, rest) ← whole? cs
  let (fraction, rest) ← fraction? rest
  let (exponent, rest) ← exponent? rest
  if fraction.isEmpty ∧ exponent.isEmpty ∧ ¬(negative ∧ natural whole = 0) then
    some (.integer (if negative then -(natural whole : Int) else natural whole), rest)
  else
    some (.decimal ((if negative then ['-'] else []) ++ whole ++ fraction ++ exponent), rest)

/-- A number. -/
def number? : List Char → Option (Json × List Char)
  | '-' :: rest => unsigned? true rest
  | cs => unsigned? false cs

/-- A string literal whose opening quote has been read. -/
def literal? (cs : List Char) : Option (Option String × List Char) := do
  let (pieces, rest) ← Literal.read? cs
  some ((Literal.spell? pieces).map String.ofList, rest)

mutual

/-- A value, with blanks before it. The fuel bounds the number of tokens. -/
def value? : (fuel : Nat) → List Char → Option (Json × List Char)
  | 0, _ => none
  | fuel + 1, cs =>
    match skipBlanks cs with
    | [] => none
    | 'n' :: rest => (after? "ull".toList rest).map ((.null, ·))
    | 't' :: rest => (after? "rue".toList rest).map ((.bool true, ·))
    | 'f' :: rest => (after? "alse".toList rest).map ((.bool false, ·))
    | '"' :: rest => do
      let (spelled, rest) ← literal? rest
      some (.string spelled, rest)
    | '[' :: rest =>
      match skipBlanks rest with
      | ']' :: rest => some (.array [], rest)
      | rest => do
        let (items, rest) ← items? fuel rest
        some (.array items, rest)
    | '\x7b' :: rest =>
      match skipBlanks rest with
      | '\x7d' :: rest => some (.object [], rest)
      | rest => do
        let (members, rest) ← members? fuel rest
        some (.object members, rest)
    | rest => number? rest

/-- One or more items up to the end of an array. -/
def items? : (fuel : Nat) → List Char → Option (List Json × List Char)
  | 0, _ => none
  | fuel + 1, cs => do
    let (item, rest) ← value? fuel cs
    match skipBlanks rest with
    | ',' :: rest => do
      let (items, rest) ← items? fuel rest
      some (item :: items, rest)
    | ']' :: rest => some ([item], rest)
    | _ => none

/-- One or more members up to the end of an object. -/
def members? : (fuel : Nat) → List Char → Option (List (Option String × Json) × List Char)
  | 0, _ => none
  | fuel + 1, cs =>
    match skipBlanks cs with
    | '"' :: rest => do
      let (name, rest) ← literal? rest
      let rest ← after? [':'] (skipBlanks rest)
      let (value, rest) ← value? fuel rest
      match skipBlanks rest with
      | ',' :: rest => do
        let (members, rest) ← members? fuel rest
        some ((name, value) :: members, rest)
      | '\x7d' :: rest => some ([(name, value)], rest)
      | _ => none
    | _ => none

end

/-- The value that the characters write, with blanks around it. -/
def parseChars? (cs : List Char) : Option Json := do
  let (value, rest) ← value? (2 * cs.length + 2) cs
  if (skipBlanks rest).isEmpty then some value else none

/-- The value that a text writes. -/
def parse? (text : String) : Option Json := parseChars? text.toList

end HiveForum.Json
