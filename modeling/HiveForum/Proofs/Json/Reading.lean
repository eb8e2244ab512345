import HiveForum.Json.Parser
import HiveForum.Json.Printer
import HiveForum.Proofs.Json.Literals
import Mathlib.Data.List.TakeWhile

/-!
# Values that are written and read

A written value is read back, whatever it holds and whatever follows it, as long as that does not
continue a number.

## Main definitions

* `Json.IsDecimal`: the numbers that are kept as they are written.
* `Json.WellFormed`: a value that holds only such numbers besides the integers.

## Main results

* `Json.value?_render`: a written value is read off the start of a text.
* `Json.parse?_toText`: a value is read back from its text.
-/

namespace HiveForum.Json

/-! ### Numbers -/

/-- One or more digits. -/
def IsRun (run : List Char) : Prop := run ≠ [] ∧ ∀ c ∈ run, c.isDigit = true

/-- The digits of a whole number: no zero leads another digit. -/
def IsWhole (run : List Char) : Prop := IsRun run ∧ (run.head? = some '0' → run.length = 1)

/-- Nothing, or a decimal point and the digits after it. -/
def IsFraction (cs : List Char) : Prop := cs = [] ∨ ∃ run, IsRun run ∧ cs = '.' :: run

/-- Nothing, or an exponent with or without a sign. -/
def IsExponent (cs : List Char) : Prop :=
  cs = [] ∨ ∃ mark sign run, (mark = 'e' ∨ mark = 'E') ∧ sign ∈ [[], ['+'], ['-']] ∧ IsRun run ∧
    cs = mark :: sign ++ run

/-- A number with a fraction or an exponent, or minus zero. -/
def IsDecimal (lexeme : List Char) : Prop :=
  ∃ (negative : Bool) (whole fraction exponent : List Char),
    IsWhole whole ∧ IsFraction fraction ∧ IsExponent exponent ∧
    (fraction = [] → exponent = [] → negative = true ∧ whole = ['0']) ∧
    lexeme = (if negative then ['-'] else []) ++ whole ++ fraction ++ exponent

/-- The characters do not start with one of a kind. -/
def Avoids (kind : Char → Bool) (cs : List Char) : Prop := ∀ c, cs.head? = some c → kind c = false

/-- A point or a digit: what may continue a whole number with its fraction. -/
def continuesFraction (c : Char) : Bool := c.isDigit || c = '.'

/-- A point, a digit or the mark of an exponent: what may continue a number. -/
def continuesNumber (c : Char) : Bool := continuesFraction c || c = 'e' || c = 'E'

variable {cs run rest fraction exponent : List Char}

theorem Avoids.mono {kind other : Char → Bool} (h : Avoids kind cs)
    (himp : ∀ c, kind c = false → other c = false) : Avoids other cs :=
  fun c hc => himp c (h c hc)

theorem Avoids.append {kind : Char → Bool} (h : Avoids kind cs) (hrest : Avoids kind rest) :
    Avoids kind (cs ++ rest) := by
  cases cs with
  | nil => exact hrest
  | cons c cs => exact h

theorem Avoids.toFraction (h : Avoids continuesNumber rest) : Avoids continuesFraction rest :=
  h.mono fun c hc => by
    rw [continuesNumber, Bool.or_eq_false_iff, Bool.or_eq_false_iff] at hc
    exact hc.1.1

theorem Avoids.toDigit (h : Avoids continuesFraction rest) : Avoids Char.isDigit rest :=
  h.mono fun c hc => by
    rw [continuesFraction, Bool.or_eq_false_iff] at hc
    exact hc.1

theorem IsFraction.avoids (h : IsFraction fraction) : Avoids Char.isDigit fraction := by
  rcases h with rfl | ⟨run, -, rfl⟩
  · rintro c ⟨⟩
  · rintro c ⟨⟩
    rfl

theorem IsExponent.avoids (h : IsExponent exponent) : Avoids continuesFraction exponent := by
  rcases h with rfl | ⟨mark, sign, run, rfl | rfl, -, -, rfl⟩
  · rintro c ⟨⟩
  · rintro c ⟨⟩
    rfl
  · rintro c ⟨⟩
    rfl

theorem digits?_append (h : IsRun run) (hrest : Avoids Char.isDigit rest) :
    digits? (run ++ rest) = some (run, rest) := by
  have hnone : rest.takeWhile Char.isDigit = [] ∧ rest.dropWhile Char.isDigit = rest := by
    cases rest with
    | nil => exact ⟨rfl, rfl⟩
    | cons c rest =>
      have hc := hrest c rfl
      exact ⟨List.takeWhile_cons_of_neg (by simp [hc]), List.dropWhile_cons_of_neg (by simp [hc])⟩
  have hrun : run.isEmpty = false := by simpa using h.1
  rw [digits?, List.takeWhile_append_of_pos h.2, List.dropWhile_append_of_pos h.2, hnone.1, hnone.2,
    List.append_nil]
  simp [hrun]

theorem whole?_append (h : IsWhole run) (hrest : Avoids Char.isDigit rest) :
    whole? (run ++ rest) = some (run, rest) := by
  rw [whole?, digits?_append h.1 hrest, Option.bind_eq_bind, Option.bind_some]
  exact if_neg fun ⟨hzero, hlength⟩ => hlength (h.2 hzero)

theorem fraction?_append (h : IsFraction fraction) (hrest : Avoids continuesFraction rest) :
    fraction? (fraction ++ rest) = some (fraction, rest) := by
  rcases h with rfl | ⟨run, hrun, rfl⟩
  · rw [List.nil_append]
    unfold fraction?
    split
    · cases hrest '.' rfl
    · rfl
  · rw [List.cons_append, fraction?, digits?_append hrun hrest.toDigit]
    rfl

/-- A sign is told from the digits after it. -/
theorem sign_append {marked : List Char} (hmarked : marked ∈ [[], ['+'], ['-']]) (h : IsRun run) :
    sign (marked ++ (run ++ rest)) = (marked, run ++ rest) := by
  simp only [List.mem_cons, List.not_mem_nil, or_false] at hmarked
  rcases hmarked with rfl | rfl | rfl
  · obtain ⟨c, run, rfl⟩ := List.exists_cons_of_ne_nil h.1
    have hc := h.2 c List.mem_cons_self
    rw [List.nil_append, List.cons_append]
    unfold sign
    split
    · rename_i heq
      cases heq
      cases hc
    · rename_i heq
      cases heq
      cases hc
    · rfl
  · rfl
  · rfl

theorem exponent?_append (h : IsExponent exponent) (hrest : Avoids continuesNumber rest) :
    exponent? (exponent ++ rest) = some (exponent, rest) := by
  rcases h with rfl | ⟨mark, marked, run, hmark, hmarked, hrun, rfl⟩
  · cases rest with
    | nil => rfl
    | cons c rest =>
      have hc := hrest c rfl
      simp only [continuesNumber, Bool.or_eq_false_iff, decide_eq_false_iff_not] at hc
      rw [List.nil_append, exponent?, if_neg (by simp [hc])]
  · have hdigits := digits?_append hrun hrest.toFraction.toDigit
    rw [List.append_assoc, List.cons_append, exponent?, if_pos hmark, sign_append hmarked hrun]
    change (digits? (run ++ rest)).bind _ = _
    rw [hdigits]
    rfl

theorem unsigned?_append (negative : Bool) (hrun : IsWhole run) (hfraction : IsFraction fraction)
    (hexponent : IsExponent exponent) (hrest : Avoids continuesNumber rest) :
    unsigned? negative (run ++ (fraction ++ (exponent ++ rest))) =
      if fraction.isEmpty ∧ exponent.isEmpty ∧ ¬(negative ∧ natural run = 0) then
        some (.integer (if negative then -(natural run : Int) else natural run), rest)
      else
        some
          (.decimal ((if negative then ['-'] else []) ++ run ++ fraction ++ exponent), rest) := by
  have hafter : Avoids continuesFraction (exponent ++ rest) :=
    hexponent.avoids.append hrest.toFraction
  rw [unsigned?, whole?_append hrun (hfraction.avoids.append hafter.toDigit)]
  change (fraction? _).bind _ = _
  rw [fraction?_append hfraction hafter]
  change (exponent? _).bind _ = _
  rw [exponent?_append hexponent hrest]
  rfl

theorem isWhole_natural (n : Nat) : IsWhole (Numeral.natural n) := by
  refine ⟨⟨Nat.toDigits_ne_nil, fun c => Numeral.isDigit_of_mem_natural⟩, fun h => ?_⟩
  rw [Numeral.eq_zero_of_head?_natural h]
  rfl

theorem natural_natural (n : Nat) : natural (Numeral.natural n) = n := by
  rw [natural, Numeral.value?_natural, Option.getD_some]

theorem number?_of_isWhole (h : IsWhole run) :
    number? (run ++ rest) = unsigned? false (run ++ rest) := by
  obtain ⟨c, run, rfl⟩ := List.exists_cons_of_ne_nil h.1.1
  have hc := h.1.2 c List.mem_cons_self
  rw [List.cons_append]
  unfold number?
  split
  · rename_i heq
    cases heq
    cases hc
  · rfl

theorem number?_integer (n : Int) (hrest : Avoids continuesNumber rest) :
    number? (Numeral.integer n ++ rest) = some (.integer n, rest) := by
  cases n with
  | ofNat n =>
    have hread := unsigned?_append false (isWhole_natural n) (.inl rfl) (.inl rfl) hrest
    rw [Numeral.integer, number?_of_isWhole (isWhole_natural n)]
    simpa [natural_natural] using hread
  | negSucc n =>
    have hread := unsigned?_append true (isWhole_natural (n + 1)) (.inl rfl) (.inl rfl) hrest
    rw [natural_natural] at hread
    simpa [Numeral.integer, number?, Int.negSucc_eq] using hread

/-- A number that is kept as it is written is read as it is written. -/
theorem number?_decimal {lexeme : List Char} (h : IsDecimal lexeme)
    (hrest : Avoids continuesNumber rest) :
    number? (lexeme ++ rest) = some (.decimal lexeme, rest) := by
  obtain ⟨negative, whole, fraction, exponent, hwhole, hfraction, hexponent, hplain, rfl⟩ := h
  have hread := unsigned?_append negative hwhole hfraction hexponent hrest
  have hkept : ¬(fraction.isEmpty = true ∧ exponent.isEmpty = true ∧
      ¬(negative = true ∧ natural whole = 0)) := by
    rintro ⟨hf, he, hzero⟩
    obtain ⟨hnegative, rfl⟩ := hplain (List.isEmpty_iff.1 hf) (List.isEmpty_iff.1 he)
    exact hzero ⟨hnegative, rfl⟩
  rw [if_neg hkept] at hread
  cases negative with
  | false =>
    rw [← number?_of_isWhole hwhole] at hread
    simpa using hread
  | true => simpa [number?] using hread

/-! ### Values -/

/-- The value holds no number that is written as none is. -/
inductive WellFormed : Json → Prop
  /-- The literal `null`. -/
  | null : WellFormed .null
  | bool (value : Bool) : WellFormed (.bool value)
  | integer (value : Int) : WellFormed (.integer value)
  | decimal {lexeme : List Char} (h : IsDecimal lexeme) : WellFormed (.decimal lexeme)
  | string (spelled : Option String) : WellFormed (.string spelled)
  | array {items : List Json} (h : ∀ item ∈ items, WellFormed item) : WellFormed (.array items)
  | object {members : List (Option String × Json)} (h : ∀ m ∈ members, WellFormed m.2) :
    WellFormed (.object members)

/-- Reading gives the value back, whatever follows it that does not continue a number. The fuel has
to exceed the length of what is written. -/
def ReadBack (value : Json) : Prop :=
  ∀ fuel rest, (render value).length ≤ fuel → Avoids continuesNumber rest →
    value? (fuel + 1) (render value ++ rest) = some (value, rest)

theorem skipBlanks_cons {c : Char} (h : isBlank c = false) (cs : List Char) :
    skipBlanks (c :: cs) = c :: cs :=
  List.dropWhile_cons_of_neg (by simp [h])

theorem literal?_of_read? {cs : List Char} {pieces : List Literal.Piece}
    (h : Literal.read? cs = some (pieces, rest)) :
    literal? cs = some ((Literal.spell? pieces).map String.ofList, rest) := by
  rw [literal?, h]
  rfl

theorem literal?_unpaired (rest : List Char) :
    literal? (['\\', 'u', 'd', '8', '0', '0', '"'] ++ rest) = some (none, rest) := by
  have hnumber : Hex.number? ['d', '8', '0', '0'] = some 0xd800 := by decide
  have hread : Literal.read? (['\\', 'u', 'd', '8', '0', '0', '"'] ++ rest) =
      some ([Literal.ofUnit 0xd800], rest) := Literal.read?_unit ('"' :: rest) hnumber
  have hspell : Literal.spell? [Literal.ofUnit 0xd800] = none := by decide
  rw [literal?_of_read? hread, hspell, Option.map_none]

/-- A literal is read back, and with it what it spells. -/
theorem literal?_renderString (spelled : Option String) (rest : List Char) :
    ∃ cs, renderString spelled ++ rest = '"' :: cs ∧ literal? cs = some (spelled, rest) := by
  cases spelled with
  | none =>
    have hwritten : renderString none = '"' :: ['\\', 'u', 'd', '8', '0', '0', '"'] := rfl
    exact ⟨_, by rw [hwritten, List.cons_append], literal?_unpaired rest⟩
  | some text =>
    refine ⟨text.toList.flatMap Literal.escape ++ '"' :: rest, ?_, ?_⟩
    · change Literal.write text.toList ++ rest = _
      rw [Literal.write, List.cons_append, List.cons_append, List.append_assoc,
        List.singleton_append]
    · rw [literal?_of_read? (Literal.read?_write _ rest), Literal.spell?_map_char, Option.map_some,
        String.ofList_toList]

theorem after?_append (start rest : List Char) : after? start (start ++ rest) = some rest := by
  induction start with
  | nil => rfl
  | cons c start ih => rw [List.cons_append, after?, if_pos rfl, ih]

/-- The characters that a number starts with. -/
def startsNumber (c : Char) : Bool := c = '-' || c.isDigit

theorem IsWhole.exists_start (h : IsWhole run) (cs : List Char) :
    ∃ c rest, run ++ cs = c :: rest ∧ startsNumber c = true := by
  obtain ⟨c, run, rfl⟩ := List.exists_cons_of_ne_nil h.1.1
  exact ⟨c, run ++ cs, rfl, by rw [startsNumber, h.1.2 c List.mem_cons_self, Bool.or_true]⟩

theorem exists_start_integer (n : Int) :
    ∃ c rest, Numeral.integer n = c :: rest ∧ startsNumber c = true := by
  cases n with
  | ofNat n => simpa [Numeral.integer] using (isWhole_natural n).exists_start []
  | negSucc n => exact ⟨'-', _, rfl, rfl⟩

theorem IsDecimal.exists_start {lexeme : List Char} (h : IsDecimal lexeme) :
    ∃ c rest, lexeme = c :: rest ∧ startsNumber c = true := by
  obtain ⟨negative, whole, fraction, exponent, hwhole, -, -, -, rfl⟩ := h
  cases negative with
  | false => simpa using hwhole.exists_start (fraction ++ exponent)
  | true => exact ⟨'-', _, rfl, rfl⟩

theorem ne_of_startsNumber {c d : Char} (h : startsNumber c = true)
    (hd : startsNumber d = false) : c ≠ d := by
  rintro rfl
  rw [h] at hd
  cases hd

theorem isBlank_of_startsNumber {c : Char} (h : startsNumber c = true) : isBlank c = false := by
  simp only [isBlank, Bool.or_eq_false_iff, decide_eq_false_iff_not]
  exact ⟨⟨⟨ne_of_startsNumber h rfl, ne_of_startsNumber h rfl⟩, ne_of_startsNumber h rfl⟩,
    ne_of_startsNumber h rfl⟩

theorem value?_number {fuel : Nat} {c : Char} (h : startsNumber c = true) (cs : List Char) :
    value? (fuel + 1) (c :: cs) = number? (c :: cs) := by
  rw [value?, skipBlanks_cons (isBlank_of_startsNumber h)]
  split
  case h_1 heq => cases heq
  case h_8 => rfl
  all_goals
    rename_i heq
    cases heq
    cases h

/-- A written value starts with a character that is no blank and ends no list or object. -/
theorem WellFormed.exists_render {value : Json} (h : value.WellFormed) :
    ∃ c cs, render value = c :: cs ∧ isBlank c = false ∧ c ≠ ']' ∧ c ≠ '\x7d' := by
  cases h with
  | null => exact ⟨'n', _, rfl, rfl, by decide, by decide⟩
  | bool value =>
    cases value
    · exact ⟨'f', _, rfl, rfl, by decide, by decide⟩
    · exact ⟨'t', _, rfl, rfl, by decide, by decide⟩
  | integer value =>
    obtain ⟨c, cs, hstart, hc⟩ := exists_start_integer value
    exact ⟨c, cs, hstart, isBlank_of_startsNumber hc, ne_of_startsNumber hc rfl,
      ne_of_startsNumber hc rfl⟩
  | decimal h =>
    obtain ⟨c, cs, hstart, hc⟩ := h.exists_start
    exact ⟨c, cs, hstart, isBlank_of_startsNumber hc, ne_of_startsNumber hc rfl,
      ne_of_startsNumber hc rfl⟩
  | string spelled =>
    obtain ⟨cs, hwritten, -⟩ := literal?_renderString spelled []
    rw [List.append_nil] at hwritten
    exact ⟨'"', cs, hwritten, rfl, by decide, by decide⟩
  | array h => exact ⟨'[', _, rfl, rfl, by decide, by decide⟩
  | object h => exact ⟨'\x7b', _, rfl, rfl, by decide, by decide⟩

/-! ### Lists and objects -/

theorem avoids_cons {c : Char} (h : continuesNumber c = false) (cs : List Char) :
    Avoids continuesNumber (c :: cs) := by
  rintro d ⟨⟩
  exact h

theorem items?_last {fuel : Nat} {item : Json} (h : value? fuel cs = some (item, ']' :: rest)) :
    items? (fuel + 1) cs = some ([item], rest) := by
  rw [items?, h]
  rfl

theorem items?_more {fuel : Nat} {item : Json} {items : List Json} {more : List Char}
    (h : value? fuel cs = some (item, ',' :: more))
    (hmore : items? fuel more = some (items, rest)) :
    items? (fuel + 1) cs = some (item :: items, rest) := by
  rw [items?, h]
  change (items? fuel more).bind _ = _
  rw [hmore]
  rfl

theorem renderItems_cons (item next : Json) (items : List Json) :
    renderItems (item :: next :: items) = render item ++ ',' :: renderItems (next :: items) := by
  rw [renderItems]
  rintro ⟨⟩

/-- The items of a list are read back up to its end. -/
theorem items?_renderItems {items : List Json} (h : ∀ item ∈ items, ReadBack item)
    (hne : items ≠ []) {fuel : Nat} (hfuel : (renderItems items).length ≤ fuel)
    (rest : List Char) :
    items? (fuel + 2) (renderItems items ++ ']' :: rest) = some (items, rest) := by
  induction items generalizing fuel with
  | nil => exact absurd rfl hne
  | cons item items ih =>
    have hitem := h item List.mem_cons_self
    cases items with
    | nil => exact items?_last (hitem fuel _ hfuel (avoids_cons rfl rest))
    | cons next items =>
      -- The comma is worth the fuel that is spent on the item.
      rw [renderItems_cons, List.length_append, List.length_cons] at hfuel
      obtain ⟨fuel, rfl⟩ : ∃ less, fuel = less + 1 := ⟨fuel - 1, by omega⟩
      rw [renderItems_cons, List.append_assoc, List.cons_append]
      have hlength : (renderItems (next :: items)).length ≤ fuel := by omega
      have hmore :=
        ih (fun other hother => h other (List.mem_cons_of_mem _ hother)) (by simp) hlength
      exact items?_more (hitem _ _ (by omega) (avoids_cons rfl _)) hmore

/-! ### Objects -/

theorem members?_last {fuel : Nat} {name : Option String} {value : Json} {more : List Char}
    (hname : literal? cs = some (name, ':' :: more))
    (hvalue : value? fuel more = some (value, '\x7d' :: rest)) :
    members? (fuel + 1) ('"' :: cs) = some ([(name, value)], rest) := by
  rw [members?, skipBlanks_cons rfl]
  change (literal? cs).bind _ = _
  rw [hname]
  change (value? fuel more).bind _ = _
  rw [hvalue]
  rfl

theorem members?_more {fuel : Nat} {name : Option String} {value : Json}
    {members : List (Option String × Json)} {more others : List Char}
    (hname : literal? cs = some (name, ':' :: more))
    (hvalue : value? fuel more = some (value, ',' :: others))
    (hothers : members? fuel others = some (members, rest)) :
    members? (fuel + 1) ('"' :: cs) = some ((name, value) :: members, rest) := by
  rw [members?, skipBlanks_cons rfl]
  change (literal? cs).bind _ = _
  rw [hname]
  change (value? fuel more).bind _ = _
  rw [hvalue]
  change (members? fuel others).bind _ = _
  rw [hothers]
  rfl

theorem renderMembers_cons (name : Option String) (value : Json) (next : Option String × Json)
    (members : List (Option String × Json)) :
    renderMembers ((name, value) :: next :: members) =
      renderString name ++ ':' :: render value ++ ',' :: renderMembers (next :: members) := by
  rw [renderMembers]
  rintro ⟨⟩

/-- The members of an object are read back up to its end. -/
theorem members?_renderMembers {members : List (Option String × Json)}
    (h : ∀ m ∈ members, ReadBack m.2) (hne : members ≠ []) {fuel : Nat}
    (hfuel : (renderMembers members).length ≤ fuel) (rest : List Char) :
    members? (fuel + 2) (renderMembers members ++ '\x7d' :: rest) = some (members, rest) := by
  induction members generalizing fuel with
  | nil => exact absurd rfl hne
  | cons member members ih =>
    obtain ⟨name, value⟩ := member
    have hvalue : ReadBack value := h (name, value) List.mem_cons_self
    cases members with
    | nil =>
      rw [renderMembers, List.length_append, List.length_cons] at hfuel
      obtain ⟨cs, hwritten, hname⟩ :=
        literal?_renderString name (':' :: (render value ++ '\x7d' :: rest))
      rw [renderMembers, List.append_assoc, List.cons_append, hwritten]
      exact members?_last hname (hvalue fuel _ (by omega) (avoids_cons rfl rest))
    | cons next members =>
      rw [renderMembers_cons, List.length_append, List.length_append, List.length_cons,
        List.length_cons] at hfuel
      obtain ⟨fuel, rfl⟩ : ∃ less, fuel = less + 1 := ⟨fuel - 1, by omega⟩
      obtain ⟨cs, hwritten, hname⟩ := literal?_renderString name
        (':' :: (render value ++ ',' :: (renderMembers (next :: members) ++ '\x7d' :: rest)))
      have hlength : (renderMembers (next :: members)).length ≤ fuel := by omega
      have hothers :=
        ih (fun other hother => h other (List.mem_cons_of_mem _ hother)) (by simp) hlength
      rw [renderMembers_cons, List.append_assoc, List.append_assoc, List.cons_append,
        List.cons_append, hwritten]
      exact members?_more hname (hvalue _ _ (by omega) (avoids_cons rfl _)) hothers

/-! ### All values -/

theorem value?_array {fuel : Nat} {c : Char} {items : List Json} (hblank : isBlank c = false)
    (hc : c ≠ ']') (h : items? fuel (c :: cs) = some (items, rest)) :
    value? (fuel + 1) ('[' :: c :: cs) = some (.array items, rest) := by
  have hopen : isBlank '[' = false := rfl
  simp only [value?, skipBlanks_cons hopen, skipBlanks_cons hblank]
  split
  · rename_i heq
    cases heq
    exact absurd rfl hc
  · rw [h]
    rfl

theorem value?_object {fuel : Nat} {c : Char} {members : List (Option String × Json)}
    (hblank : isBlank c = false) (hc : c ≠ '\x7d')
    (h : members? fuel (c :: cs) = some (members, rest)) :
    value? (fuel + 1) ('\x7b' :: c :: cs) = some (.object members, rest) := by
  have hopen : isBlank '\x7b' = false := rfl
  simp only [value?, skipBlanks_cons hopen, skipBlanks_cons hblank]
  split
  · rename_i heq
    cases heq
    exact absurd rfl hc
  · rw [h]
    rfl

theorem WellFormed.exists_renderItems {items : List Json} (h : ∀ item ∈ items, WellFormed item)
    (hne : items ≠ []) : ∃ c cs, renderItems items = c :: cs ∧ isBlank c = false ∧ c ≠ ']' := by
  obtain ⟨item, items, rfl⟩ := List.exists_cons_of_ne_nil hne
  obtain ⟨c, cs, hwritten, hblank, hc, -⟩ := (h item List.mem_cons_self).exists_render
  cases items with
  | nil => exact ⟨c, cs, hwritten, hblank, hc⟩
  | cons next items =>
    rw [renderItems_cons, hwritten]
    exact ⟨c, _, rfl, hblank, hc⟩

theorem exists_renderMembers {members : List (Option String × Json)} (hne : members ≠ []) :
    ∃ cs, renderMembers members = '"' :: cs := by
  obtain ⟨⟨name, value⟩, members, rfl⟩ := List.exists_cons_of_ne_nil hne
  cases members with
  | nil =>
    obtain ⟨cs, hwritten, -⟩ := literal?_renderString name (':' :: render value)
    exact ⟨cs, by rw [renderMembers, hwritten]⟩
  | cons next members =>
    obtain ⟨cs, hwritten, -⟩ := literal?_renderString name
      (':' :: render value ++ ',' :: renderMembers (next :: members))
    exact ⟨cs, by rw [renderMembers_cons, List.append_assoc, hwritten]⟩

theorem value?_string {fuel : Nat} {spelled : Option String}
    (h : literal? cs = some (spelled, rest)) :
    value? (fuel + 1) ('"' :: cs) = some (.string spelled, rest) := by
  rw [value?, skipBlanks_cons rfl]
  change (literal? cs).bind _ = _
  rw [h]
  rfl

/-- A word is read back. -/
theorem value?_word {fuel : Nat} (rest : List Char) :
    value? (fuel + 1) ("null".toList ++ rest) = some (.null, rest) ∧
      value? (fuel + 1) ("true".toList ++ rest) = some (.bool true, rest) ∧
      value? (fuel + 1) ("false".toList ++ rest) = some (.bool false, rest) := by
  refine ⟨?_, ?_, ?_⟩
  · change value? (fuel + 1) ('n' :: ("ull".toList ++ rest)) = _
    rw [value?, skipBlanks_cons rfl]
    exact congrArg (Option.map _) (after?_append _ rest)
  · change value? (fuel + 1) ('t' :: ("rue".toList ++ rest)) = _
    rw [value?, skipBlanks_cons rfl]
    exact congrArg (Option.map _) (after?_append _ rest)
  · change value? (fuel + 1) ('f' :: ("alse".toList ++ rest)) = _
    rw [value?, skipBlanks_cons rfl]
    exact congrArg (Option.map _) (after?_append _ rest)

/-- A written value is read off the start of a text. -/
theorem value?_render {value : Json} (h : value.WellFormed) : ReadBack value := by
  induction h with
  | null =>
    intro fuel rest _ _
    exact (value?_word rest).1
  | bool value =>
    intro fuel rest _ _
    cases value
    · exact (value?_word rest).2.2
    · exact (value?_word rest).2.1
  | integer n =>
    intro fuel rest _ hrest
    obtain ⟨c, cs, hwritten, hc⟩ := exists_start_integer n
    have hread := number?_integer n hrest
    rw [render]
    rw [hwritten] at hread ⊢
    rw [List.cons_append, value?_number hc]
    exact hread
  | @decimal lexeme h =>
    intro fuel rest _ hrest
    obtain ⟨c, cs, rfl, hc⟩ := h.exists_start
    rw [render, List.cons_append, value?_number hc]
    exact number?_decimal h hrest
  | string spelled =>
    intro fuel rest _ _
    obtain ⟨cs, hwritten, hread⟩ := literal?_renderString spelled rest
    rw [render, hwritten]
    exact value?_string hread
  | @array items h ih =>
    intro fuel rest hfuel _
    -- The two brackets are worth the fuel that is spent on the list itself.
    rw [render, List.length_append, List.length_cons, List.length_singleton] at hfuel
    obtain ⟨fuel, rfl⟩ : ∃ less, fuel = less + 2 := ⟨fuel - 2, by omega⟩
    rw [render, List.append_assoc, List.cons_append, List.singleton_append]
    by_cases hempty : items = []
    · subst hempty
      rw [value?, skipBlanks_cons rfl]
      rfl
    · obtain ⟨c, cs, hwritten, hblank, hc⟩ := WellFormed.exists_renderItems h hempty
      have hlength : (renderItems items).length ≤ fuel := by omega
      have hread := items?_renderItems ih hempty hlength rest
      rw [hwritten] at hread ⊢
      exact value?_array hblank hc hread
  | @object members h ih =>
    intro fuel rest hfuel _
    rw [render, List.length_append, List.length_cons, List.length_singleton] at hfuel
    obtain ⟨fuel, rfl⟩ : ∃ less, fuel = less + 2 := ⟨fuel - 2, by omega⟩
    rw [render, List.append_assoc, List.cons_append, List.singleton_append]
    by_cases hempty : members = []
    · subst hempty
      rw [value?, skipBlanks_cons rfl]
      rfl
    · obtain ⟨cs, hwritten⟩ := exists_renderMembers hempty
      have hlength : (renderMembers members).length ≤ fuel := by omega
      have hread := members?_renderMembers ih hempty hlength rest
      rw [hwritten] at hread ⊢
      exact value?_object rfl (by decide) hread

/-- A value is read back from its text. -/
theorem parse?_toText {value : Json} (h : value.WellFormed) : parse? value.toText = some value := by
  have hread := value?_render h (2 * (render value).length + 1) [] (by omega) (by rintro c ⟨⟩)
  rw [List.append_nil] at hread
  rw [parse?, toText, String.toList_ofList, parseChars?, hread]
  rfl

end HiveForum.Json
