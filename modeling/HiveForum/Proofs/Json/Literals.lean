import HiveForum.Json.Literal
import HiveForum.Proofs.Text.Digits

/-!
# String literals that are written and read

A written literal is read up to its closing quote, and spells the text that it was written for,
whatever characters this has.

## Main results

* `Literal.read?_escape`: an escaped character is read as one piece.
* `Literal.read?_write`: a written literal is read back.
-/

namespace HiveForum.Literal

variable {c : Char} (cs : List Char)

/-- Adds a piece to what is read after it. -/
def withPiece (piece : Piece) (read : List Piece × List Char) : List Piece × List Char :=
  (piece :: read.1, read.2)

theorem read?_letter {letter : Char} (hunit : letter ≠ 'u') (h : letterEscape? letter = some c) :
    read? ('\\' :: letter :: cs) = (read? cs).map (withPiece (.char c)) := by
  rw [read?, h]
  · cases read? cs <;> rfl
  · intro a b c d rest hletter
    exact absurd hletter hunit

theorem read?_unit {n : Nat} {a b c d : Char} (h : Hex.number? [a, b, c, d] = some n) :
    read? ('\\' :: 'u' :: a :: b :: c :: d :: cs) = (read? cs).map (withPiece (ofUnit n)) := by
  rw [read?, h]
  cases read? cs <;> rfl

theorem read?_plain (hquote : c ≠ '"') (hbackslash : c ≠ '\\') (hcontrol : ¬c.toNat < 0x20) :
    read? (c :: cs) = (read? cs).map (withPiece (.char c)) := by
  rw [read?]
  · rw [if_neg (by simp [hbackslash, hcontrol])]
    cases read? cs <;> rfl
  · exact hquote
  · intro _ _ _ _ _ h
    exact absurd h hbackslash
  · intro _ _ h
    exact absurd h hbackslash

/-- A surrogate is no character, so that the unit of a character stands for the character. -/
theorem ofUnit_toNat (c : Char) : ofUnit c.toNat = .char c := by
  have hvalid : c.toNat < 0xd800 ∨ 0xdfff < c.toNat ∧ c.toNat < 0x110000 := c.valid
  rw [ofUnit, if_neg (by omega), Char.ofNat_toNat]

/-- The escape of a character is read as the character. -/
theorem read?_escape (c : Char) (cs : List Char) :
    read? (escape c ++ cs) = (read? cs).map (withPiece (.char c)) := by
  unfold escape
  split_ifs with hquote hbackslash hb hf hn hr ht hcontrol
  · subst hquote
    exact read?_letter cs (by decide) rfl
  · subst hbackslash
    exact read?_letter cs (by decide) rfl
  · subst hb
    exact read?_letter cs (by decide) rfl
  · subst hf
    exact read?_letter cs (by decide) rfl
  · subst hn
    exact read?_letter cs (by decide) rfl
  · subst hr
    exact read?_letter cs (by decide) rfl
  · subst ht
    exact read?_letter cs (by decide) rfl
  · have hnumber : Hex.number? (Hex.digits 4 c.toNat) = some c.toNat :=
      Hex.number?_digits (Nat.lt_trans hcontrol (by decide))
    rw [← ofUnit_toNat]
    exact read?_unit cs hnumber
  · exact read?_plain cs hquote hbackslash hcontrol

/-- What is read of an escaped text and its closing quote. -/
theorem read?_write (text cs : List Char) :
    read? (text.flatMap escape ++ '"' :: cs) = some (text.map .char, cs) := by
  induction text with
  | nil => rfl
  | cons c text ih =>
    rw [List.flatMap_cons, List.append_assoc, read?_escape, ih]
    rfl

theorem spell?_map_char (text : List Char) : spell? (text.map .char) = some text := by
  induction text with
  | nil => rfl
  | cons c text ih => rw [List.map_cons, spell?, ih, Option.map_some]

end HiveForum.Literal
