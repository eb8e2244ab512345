/-!
# Blank characters

The white space of Unicode, and the two things done with it: removing it around a text, and
splitting a text into the words between it.

## Main definitions

* `Blank.isBlank`: the characters of the table `Blank.ranges`.
* `Blank.trim`: a text without the blanks around it.
* `Blank.words`: the maximal runs of characters that are not blank.

## Main results

* `Blank.isBlank_of_isWhitespace`: the blanks of ASCII are blank.
* `Blank.trim_eq_nil_iff`: nothing is left exactly of a text of blanks.
-/

namespace HiveForum.Blank

/-- The code points with the property `White_Space`, as inclusive ranges in increasing order. -/
def ranges : List (Nat × Nat) :=
  [(0x9, 0xd), (0x20, 0x20), (0x85, 0x85), (0xa0, 0xa0), (0x1680, 0x1680), (0x2000, 0x200a),
   (0x2028, 0x2029), (0x202f, 0x202f), (0x205f, 0x205f), (0x3000, 0x3000)]

/-- Whether a character is white space. -/
def isBlank (c : Char) : Bool :=
  ranges.any (fun r => r.1 ≤ c.toNat && c.toNat ≤ r.2)

/-- The characters without the blanks at either end. -/
def trim (cs : List Char) : List Char :=
  ((cs.dropWhile isBlank).reverse.dropWhile isBlank).reverse

/-- The maximal runs of characters that are not blank, in order; `word` is the run that the
characters continue. -/
def wordsFrom (word : List Char) : List Char → List (List Char)
  | [] => if word.isEmpty then [] else [word]
  | c :: rest =>
    if isBlank c then
      if word.isEmpty then wordsFrom [] rest else word :: wordsFrom [] rest
    else wordsFrom (word ++ [c]) rest

/-- The words of a text: its maximal runs of characters that are not blank, in order. -/
def words (cs : List Char) : List (List Char) := wordsFrom [] cs

/-- The blanks of ASCII are blank. -/
theorem isBlank_of_isWhitespace {c : Char} (h : c.isWhitespace = true) : isBlank c = true := by
  simp only [Char.isWhitespace, Bool.or_eq_true, decide_eq_true_eq] at h
  rcases h with ((h | h) | h) | h <;> subst h <;> decide

theorem dropWhile_eq_nil_iff {p : Char → Bool} {cs : List Char} :
    cs.dropWhile p = [] ↔ ∀ c ∈ cs, p c = true := by
  induction cs with
  | nil => simp
  | cons c rest ih =>
    rw [List.dropWhile_cons]
    split <;> simp_all

/-- Nothing is left by trimming exactly of a text of blanks. -/
theorem trim_eq_nil_iff {cs : List Char} : trim cs = [] ↔ ∀ c ∈ cs, isBlank c = true := by
  unfold trim
  rw [List.reverse_eq_nil_iff, dropWhile_eq_nil_iff]
  constructor
  · intro h
    have hmid : cs.dropWhile isBlank = [] := by
      match hm : cs.dropWhile isBlank with
      | [] => rfl
      | c :: rest =>
        have hc := List.head?_dropWhile_not isBlank cs
        rw [hm] at hc
        have := h c (by rw [hm]; simp)
        simp_all
    exact dropWhile_eq_nil_iff.1 hmid
  · intro h
    rw [dropWhile_eq_nil_iff.2 h]
    simp

end HiveForum.Blank
