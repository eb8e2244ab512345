import HiveForum.Proofs.Text.Digits
import HiveForum.Uuid

/-!
# The written forms of identifiers

An identifier is read from thirty-two digits, from these in five hyphenated groups, and from the
groups in braces or after `urn:uuid:`, and from nothing else. Of these forms only the last one has a
colon. The written form is the second one.

## Main definitions

* `Uuid.Digits`: thirty-two digits of an identifier.
* `Uuid.Form`: the forms that an identifier may be written in.

## Main results

* `Uuid.ungroup?_eq_some_iff`: what hyphens are removed from.
* `Uuid.parseChars?_eq_some_iff`: what is read as an identifier.
* `Uuid.form_chars`: the written form is one of the forms.
* `Uuid.digit_or_hyphen_of_mem_chars`: the characters of the written form.
* `Uuid.parse?_text`: an identifier is read back from its written form.
-/

namespace HiveForum

namespace Uuid

/-- The characters are thirty-two digits, of either case, of an identifier. -/
def Digits (cs : List Char) (id : Uuid) : Prop :=
  cs.length = 32 ∧ Hex.number? cs = some id.bits.toNat

/-- The forms that an identifier may be written in. -/
inductive Form : List Char → Uuid → Prop
  | digits {cs : List Char} {id : Uuid} (h : Digits cs id) : Form cs id
  /-- Digits in hyphenated groups. -/
  | grouped {cs : List Char} {id : Uuid} (h : Digits cs id) : Form (group groups cs) id
  | braced {cs : List Char} {id : Uuid} (h : Digits cs id) :
    Form ('{' :: group groups cs ++ ['}']) id
  | marked {mark cs : List Char} {id : Uuid} (h : Digits cs id)
    (hmark : mark.map Char.toLower = "urn:uuid:".toList) : Form (mark ++ group groups cs) id

/-! ### Digits -/

theorem ofHex?_eq_some_iff {cs : List Char} {id : Uuid} : ofHex? cs = some id ↔ Digits cs id := by
  unfold ofHex? Digits
  split
  · rename_i hlength
    rw [Option.map_eq_some_iff]
    constructor
    · rintro ⟨n, hn, rfl⟩
      have hlt : n < 2 ^ 128 := by
        have := (Hex.digits_of_number? hn).2
        rwa [hlength] at this
      refine ⟨hlength, ?_⟩
      rw [hn, ofNat, BitVec.toNat_ofNat, Nat.mod_eq_of_lt hlt]
    · rintro ⟨-, hn⟩
      exact ⟨_, hn, by rw [ofNat, BitVec.ofNat_toNat, BitVec.setWidth_eq]⟩
  · rename_i hlength
    simp [hlength]

/-! ### Groups -/

theorem group_cons (n m : Nat) (lengths : List Nat) (cs : List Char) :
    group (n :: m :: lengths) cs = cs.take n ++ '-' :: group (m :: lengths) (cs.drop n) :=
  rfl

theorem ungroup?_append {n m : Nat} {lengths : List Nat} {first rest : List Char}
    (h : first.length = n) :
    ungroup? (n :: m :: lengths) (first ++ '-' :: rest) =
      (ungroup? (m :: lengths) rest).map (first ++ ·) := by
  rw [ungroup?.eq_def]
  simp only [List.drop_left' h, List.take_left' h]

/-- There is a hyphen after the first of several groups. -/
theorem exists_of_ungroup? {n m : Nat} {lengths : List Nat} {cs digits : List Char}
    (h : ungroup? (n :: m :: lengths) cs = some digits) :
    ∃ first rest, cs = first ++ '-' :: rest ∧ first.length = n := by
  rw [ungroup?.eq_def] at h
  simp only at h
  split at h
  · rename_i rest hdrop
    have hlt : n < cs.length := by
      by_contra hle
      rw [List.drop_of_length_le (Nat.le_of_not_lt hle)] at hdrop
      cases hdrop
    exact ⟨cs.take n, rest, by rw [← hdrop, List.take_append_drop],
      List.length_take_of_le (Nat.le_of_lt hlt)⟩
  · cases h

/-- The characters that hyphens are removed from are those of all groups, with the hyphens. -/
theorem ungroup?_eq_some_iff {lengths : List Nat} {cs digits : List Char} :
    ungroup? lengths cs = some digits ↔
      digits.length = lengths.foldr (· + ·) 0 ∧ cs = group lengths digits := by
  induction lengths generalizing cs digits with
  | nil =>
    rw [ungroup?, group, List.foldr_nil, List.length_eq_zero_iff]
    cases cs <;> simp [eq_comm]
  | cons n lengths ih =>
    cases lengths with
    | nil =>
      rw [ungroup?, group, List.foldr_cons, List.foldr_nil, Nat.add_zero]
      constructor
      · intro h
        split at h
        · rename_i hlength
          cases h
          exact ⟨hlength, by rw [← hlength, List.take_length]⟩
        · cases h
      · rintro ⟨hlength, rfl⟩
        simp [← hlength]
    | cons m lengths =>
      rw [List.foldr_cons]
      constructor
      · intro h
        obtain ⟨first, rest, rfl, hfirst⟩ := exists_of_ungroup? h
        rw [ungroup?_append hfirst] at h
        obtain ⟨others, hothers, rfl⟩ := Option.map_eq_some_iff.1 h
        obtain ⟨hlength, rfl⟩ := ih.1 hothers
        exact ⟨by rw [List.length_append, hfirst, hlength],
          by rw [group_cons, List.take_left' hfirst, List.drop_left' hfirst]⟩
      · rintro ⟨hlength, rfl⟩
        have hfirst : (digits.take n).length = n := List.length_take_of_le (by omega)
        have hothers : ungroup? (m :: lengths) (group (m :: lengths) (digits.drop n)) =
            some (digits.drop n) := ih.2 ⟨by rw [List.length_drop]; omega, rfl⟩
        rw [group_cons, ungroup?_append hfirst, hothers, Option.map_some, List.take_append_drop]

/-- Hyphens are all that is written between groups. -/
theorem mem_or_hyphen_of_mem_group {lengths : List Nat} {cs : List Char} {c : Char}
    (h : c ∈ group lengths cs) : c ∈ cs ∨ c = '-' := by
  induction lengths generalizing cs with
  | nil => cases h
  | cons n lengths ih =>
    cases lengths with
    | nil => exact .inl (List.mem_of_mem_take h)
    | cons m lengths =>
      rw [group_cons, List.mem_append, List.mem_cons] at h
      rcases h with h | rfl | h
      · exact .inl (List.mem_of_mem_take h)
      · exact .inr rfl
      · exact (ih h).imp_left List.mem_of_mem_drop

/-! ### Forms -/

variable {cs : List Char} {id : Uuid}

theorem Digits.exists_group (h : Digits cs id) :
    ∃ c rest, group groups cs = c :: rest ∧ (Hex.digit? c).isSome = true := by
  obtain ⟨hlength, hnumber⟩ := h
  cases cs with
  | nil => cases hlength
  | cons c rest =>
    exact ⟨c, _, rfl, (Hex.digits_of_number? hnumber).1 c List.mem_cons_self⟩

theorem Digits.length_group (h : Digits cs id) : (group groups cs).length = 36 := by
  simp [group, groups, h.1]

theorem Digits.ungroup? (h : Digits cs id) : ungroup? groups (group groups cs) = some cs :=
  ungroup?_eq_some_iff.2 ⟨h.1, rfl⟩

theorem not_isSome_digit?_of_toLower {c : Char} (h : c.toLower = 'u') :
    ¬(Hex.digit? c).isSome = true := by
  have hc : c = 'u' ∨ c = 'U' := by
    unfold Char.toLower at h
    split at h
    · have hval := congrArg (fun c => c.val.toNat) h
      have hlt : c.toNat < 2 ^ 32 := c.val.toNat_lt
      simp at hval
      exact .inr (Char.toNat_inj.1 (show c.toNat = 85 by omega))
    · exact .inl h
  rcases hc with rfl | rfl <;> decide

/-- Nothing is removed around hyphenated groups. -/
theorem Digits.withoutFrame_group (h : Digits cs id) :
    withoutFrame (group groups cs) = group groups cs := by
  obtain ⟨c, rest, hgroup, hdigit⟩ := h.exists_group
  have hmark : ¬((c :: rest).take 9).map Char.toLower = "urn:uuid:".toList := fun hmark =>
    not_isSome_digit?_of_toLower (List.cons.inj hmark).1 hdigit
  rw [hgroup]
  unfold withoutFrame
  split
  · rename_i heq
    cases heq
    cases hdigit
  · rw [if_neg hmark]

theorem withoutFrame_braced (cs : List Char) : withoutFrame ('\x7b' :: cs ++ ['\x7d']) = cs := by
  simp [withoutFrame]

theorem withoutFrame_marked {mark : List Char} (h : mark.map Char.toLower = "urn:uuid:".toList)
    (cs : List Char) : withoutFrame (mark ++ cs) = cs := by
  have hlength : mark.length = 9 := by
    have := congrArg List.length h
    rwa [List.length_map] at this
  unfold withoutFrame
  split
  · rename_i heq
    cases mark with
    | nil => cases hlength
    | cons c mark =>
      cases heq
      cases h
  · rw [List.take_left' hlength, List.drop_left' hlength, if_pos h]

/-- What stands in a frame. -/
theorem withoutFrame_cases (cs : List Char) :
    withoutFrame cs = cs ∨ cs = '\x7b' :: withoutFrame cs ++ ['\x7d'] ∨
      ∃ mark, mark.map Char.toLower = "urn:uuid:".toList ∧ cs = mark ++ withoutFrame cs := by
  unfold withoutFrame
  split
  · rename_i rest
    split
    · rename_i hlast
      exact .inr (.inl (by simp [List.dropLast_append_getLast? _ hlast]))
    · exact .inl rfl
  · split
    · rename_i hmark
      exact .inr (.inr ⟨cs.take 9, hmark, (List.take_append_drop 9 cs).symm⟩)
    · exact .inl rfl

theorem parseChars?_of_ofHex? (h : ofHex? cs = none) :
    parseChars? cs = (ungroup? groups (withoutFrame cs)).bind ofHex? := by
  rw [parseChars?, h]
  rfl

theorem ofHex?_of_length (h : cs.length ≠ 32) : ofHex? cs = none := if_neg h

/-- An identifier is read from its forms and from nothing else. -/
theorem parseChars?_eq_some_iff : parseChars? cs = some id ↔ Form cs id := by
  constructor
  · intro h
    cases hhex : ofHex? cs with
    | some other =>
      rw [parseChars?, hhex] at h
      cases h
      exact .digits (ofHex?_eq_some_iff.1 hhex)
    | none =>
      rw [parseChars?_of_ofHex? hhex] at h
      obtain ⟨digits, hungroup, hdigits⟩ := Option.bind_eq_some_iff.1 h
      obtain ⟨-, hgroup⟩ := ungroup?_eq_some_iff.1 hungroup
      have hdigits := ofHex?_eq_some_iff.1 hdigits
      rcases withoutFrame_cases cs with hcs | hcs | ⟨mark, hmark, hcs⟩
      · rw [← hcs, hgroup]
        exact .grouped hdigits
      · rw [hcs, hgroup]
        exact .braced hdigits
      · rw [hcs, hgroup]
        exact .marked hdigits hmark
  · intro h
    -- The forms with hyphens are too long to be taken for digits alone.
    cases h with
    | digits h =>
      rw [parseChars?, ofHex?_eq_some_iff.2 h]
      rfl
    | grouped h =>
      have hlength := h.length_group
      rw [parseChars?_of_ofHex? (ofHex?_of_length (by omega)), h.withoutFrame_group, h.ungroup?]
      exact ofHex?_eq_some_iff.2 h
    | braced h =>
      have hlength := h.length_group
      rw [parseChars?_of_ofHex? (ofHex?_of_length (by simp [hlength])), withoutFrame_braced,
        h.ungroup?]
      exact ofHex?_eq_some_iff.2 h
    | marked h hmark =>
      have hlength := h.length_group
      rw [parseChars?_of_ofHex? (ofHex?_of_length (by simp [hlength])), withoutFrame_marked hmark,
        h.ungroup?]
      exact ofHex?_eq_some_iff.2 h

theorem digits_bits (id : Uuid) : Digits (Hex.digits 32 id.bits.toNat) id :=
  ⟨Hex.length_digits 32 _, Hex.number?_digits id.bits.isLt⟩

/-- The written form of an identifier is one of its forms. -/
theorem form_chars (id : Uuid) : Form id.chars id := .grouped (digits_bits id)

/-- The written form has no other characters than digits and hyphens. -/
theorem digit_or_hyphen_of_mem_chars {c : Char} (h : c ∈ id.chars) :
    (Hex.digit? c).isSome = true ∨ c = '-' :=
  (mem_or_hyphen_of_mem_group h).imp_left ((Hex.digits_of_number? (digits_bits id).2).1 c)

/-- An identifier is read back from its written form. -/
theorem parse?_text (id : Uuid) : parse? id.text = some id := by
  rw [parse?, text, String.toList_ofList]
  exact parseChars?_eq_some_iff.2 (form_chars id)

end Uuid

end HiveForum
