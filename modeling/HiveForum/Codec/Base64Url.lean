/-!
# Base64 for addresses, without padding

Three bytes are written as four letters of the sixty-four letter alphabet that is safe in
addresses. A last group of one or two bytes is written as two or three letters; the bits of the
last letter that belong to no byte are zero, and a text in which they are not is refused, as is
padding. Hence each list of bytes has one written form and no other text is read.

## Main definitions

* `Base64Url.encode`: the written form of a list of bytes.
* `Base64Url.decode?`: reads a written form.

## Main results

* `Base64Url.decode?_encode`: written bytes are read back.
* `Base64Url.encode_decode?`: a text that is read is the written form of what is read.
-/

namespace HiveForum.Base64Url

/-- The letter for a value below sixty-four. -/
def letter (n : Nat) : Char :=
  if n < 26 then Char.ofNat ('A'.toNat + n)
  else if n < 52 then Char.ofNat ('a'.toNat + (n - 26))
  else if n < 62 then Char.ofNat ('0'.toNat + (n - 52))
  else if n = 62 then '-'
  else '_'

/-- The value of a letter. -/
def value? (c : Char) : Option Nat :=
  if 'A' ≤ c ∧ c ≤ 'Z' then some (c.toNat - 'A'.toNat)
  else if 'a' ≤ c ∧ c ≤ 'z' then some (c.toNat - 'a'.toNat + 26)
  else if '0' ≤ c ∧ c ≤ '9' then some (c.toNat - '0'.toNat + 52)
  else if c = '-' then some 62
  else if c = '_' then some 63
  else none

/-- The written form of a list of bytes. -/
def encode : List UInt8 → List Char
  | [] => []
  | [a] => [letter (a.toNat / 4), letter (a.toNat % 4 * 16)]
  | [a, b] =>
    [letter (a.toNat / 4), letter (a.toNat % 4 * 16 + b.toNat / 16), letter (b.toNat % 16 * 4)]
  | a :: b :: c :: rest =>
    letter (a.toNat / 4) :: letter (a.toNat % 4 * 16 + b.toNat / 16) ::
      letter (b.toNat % 16 * 4 + c.toNat / 64) :: letter (c.toNat % 64) :: encode rest

/-- Reads a written form; none for a text that is not the written form of any bytes. -/
def decode? : List Char → Option (List UInt8)
  | [] => some []
  | [_] => none
  | [x, y] => do
    let x ← value? x
    let y ← value? y
    if y % 16 = 0 then some [UInt8.ofNat (x * 4 + y / 16)] else none
  | [x, y, z] => do
    let x ← value? x
    let y ← value? y
    let z ← value? z
    if z % 4 = 0 then
      some [UInt8.ofNat (x * 4 + y / 16), UInt8.ofNat (y % 16 * 16 + z / 4)]
    else none
  | x :: y :: z :: w :: rest => do
    let x ← value? x
    let y ← value? y
    let z ← value? z
    let w ← value? w
    let bytes ← decode? rest
    some (UInt8.ofNat (x * 4 + y / 16) :: UInt8.ofNat (y % 16 * 16 + z / 4) ::
      UInt8.ofNat (z % 4 * 64 + w) :: bytes)

/-! ### Letters and values -/

theorem value?_letter {n : Nat} (h : n < 64) : value? (letter n) = some n := by
  revert n
  decide

theorem letter_value? {c : Char} {n : Nat} (h : value? c = some n) : letter n = c ∧ n < 64 := by
  unfold value? at h
  have hc : Char.ofNat c.toNat = c := Char.ofNat_toNat c
  have hA : 'A'.toNat = 65 := rfl
  split at h
  · rename_i hr
    obtain rfl := Option.some.inj h
    have h1 : 65 ≤ c.toNat := hr.1
    have h2 : c.toNat ≤ 90 := hr.2
    refine ⟨?_, by omega⟩
    unfold letter
    rw [if_pos (by omega)]
    rw [show 'A'.toNat + (c.toNat - 'A'.toNat) = c.toNat from by omega, hc]
  · split at h
    · rename_i hr
      obtain rfl := Option.some.inj h
      have h1 : 97 ≤ c.toNat := hr.1
      have h2 : c.toNat ≤ 122 := hr.2
      refine ⟨?_, by simp; omega⟩
      unfold letter
      rw [if_neg (by omega), if_pos (by simp; omega)]
      rw [show 'a'.toNat + (c.toNat - 'a'.toNat + 26 - 26) = c.toNat from by simp; omega, hc]
    · split at h
      · rename_i hr
        obtain rfl := Option.some.inj h
        have h1 : 48 ≤ c.toNat := hr.1
        have h2 : c.toNat ≤ 57 := hr.2
        refine ⟨?_, by simp; omega⟩
        unfold letter
        rw [if_neg (by omega), if_neg (by simp), if_pos (by simp; omega)]
        rw [show '0'.toNat + (c.toNat - '0'.toNat + 52 - 52) = c.toNat from by simp; omega, hc]
      · split at h
        · rename_i hr
          obtain rfl := Option.some.inj h
          subst hr
          decide
        · split at h
          · rename_i hr
            obtain rfl := Option.some.inj h
            subst hr
            decide
          · cases h

theorem toNat_ofNat_of_lt {n : Nat} (h : n < 256) : (UInt8.ofNat n).toNat = n := by
  rw [UInt8.toNat_ofNat']
  omega

theorem ofNat_eq {a : UInt8} {n : Nat} (h : n = a.toNat) : UInt8.ofNat n = a := by
  subst h
  exact UInt8.ofNat_toNat

/-! ### Reading inverts writing -/

/-- Written bytes are read back. -/
theorem decode?_encode (bytes : List UInt8) : decode? (encode bytes) = some bytes := by
  fun_induction encode bytes with
  | case1 => rfl
  | case2 a =>
    have ha := a.toNat_lt
    simp only [decode?, value?_letter (n := a.toNat / 4) (by omega),
      value?_letter (n := a.toNat % 4 * 16) (by omega), Option.bind_eq_bind, Option.bind_some]
    rw [if_pos (by omega), ofNat_eq (a := a) (by omega)]
  | case3 a b =>
    have ha := a.toNat_lt
    have hb := b.toNat_lt
    simp only [decode?, value?_letter (n := a.toNat / 4) (by omega),
      value?_letter (n := a.toNat % 4 * 16 + b.toNat / 16) (by omega),
      value?_letter (n := b.toNat % 16 * 4) (by omega), Option.bind_eq_bind, Option.bind_some]
    rw [if_pos (by omega), ofNat_eq (a := a) (by omega), ofNat_eq (a := b) (by omega)]
  | case4 a b c rest ih =>
    have ha := a.toNat_lt
    have hb := b.toNat_lt
    have hc := c.toNat_lt
    simp only [decode?, value?_letter (n := a.toNat / 4) (by omega),
      value?_letter (n := a.toNat % 4 * 16 + b.toNat / 16) (by omega),
      value?_letter (n := b.toNat % 16 * 4 + c.toNat / 64) (by omega),
      value?_letter (n := c.toNat % 64) (by omega), ih, Option.bind_eq_bind, Option.bind_some]
    rw [ofNat_eq (a := a) (by omega), ofNat_eq (a := b) (by omega), ofNat_eq (a := c) (by omega)]

/-- A text that is read is the written form of what is read. -/
theorem encode_decode? {text : List Char} {bytes : List UInt8} (h : decode? text = some bytes) :
    encode bytes = text := by
  fun_induction decode? text generalizing bytes with
  | case1 => obtain rfl := Option.some.inj h; rfl
  | case2 => cases h
  | case3 x y =>
    simp only [Option.bind_eq_bind, Option.bind_eq_some_iff] at h
    obtain ⟨m, hm, n, hn, h⟩ := h
    split at h
    · rename_i hz
      obtain rfl := Option.some.inj h
      obtain ⟨hx, hm'⟩ := letter_value? hm
      obtain ⟨hy, hn'⟩ := letter_value? hn
      simp only [encode, toNat_ofNat_of_lt (n := m * 4 + n / 16) (by omega)]
      rw [← hx, ← hy]
      congr 2
      · omega
      · congr 1
        omega
    · cases h
  | case4 x y z =>
    simp only [Option.bind_eq_bind, Option.bind_eq_some_iff] at h
    obtain ⟨m, hm, n, hn, k, hk, h⟩ := h
    split at h
    · rename_i hz
      obtain rfl := Option.some.inj h
      obtain ⟨hx, hm'⟩ := letter_value? hm
      obtain ⟨hy, hn'⟩ := letter_value? hn
      obtain ⟨hz', hk'⟩ := letter_value? hk
      simp only [encode, toNat_ofNat_of_lt (n := m * 4 + n / 16) (by omega),
        toNat_ofNat_of_lt (n := n % 16 * 16 + k / 4) (by omega)]
      rw [← hx, ← hy, ← hz']
      rw [show (m * 4 + n / 16) / 4 = m by omega,
        show (m * 4 + n / 16) % 4 * 16 + (n % 16 * 16 + k / 4) / 16 = n by omega,
        show (n % 16 * 16 + k / 4) % 16 * 4 = k by omega]
    · cases h
  | case5 x y z w rest ih =>
    simp only [Option.bind_eq_bind, Option.bind_eq_some_iff] at h
    obtain ⟨m, hm, n, hn, k, hk, l, hl, tail, ht, h⟩ := h
    obtain rfl := Option.some.inj h
    obtain ⟨hx, hm'⟩ := letter_value? hm
    obtain ⟨hy, hn'⟩ := letter_value? hn
    obtain ⟨hz, hk'⟩ := letter_value? hk
    obtain ⟨hw, hl'⟩ := letter_value? hl
    simp only [encode, toNat_ofNat_of_lt (n := m * 4 + n / 16) (by omega),
      toNat_ofNat_of_lt (n := n % 16 * 16 + k / 4) (by omega),
      toNat_ofNat_of_lt (n := k % 4 * 64 + l) (by omega), ih ht]
    rw [← hx, ← hy, ← hz, ← hw]
    rw [show (m * 4 + n / 16) / 4 = m by omega,
      show (m * 4 + n / 16) % 4 * 16 + (n % 16 * 16 + k / 4) / 16 = n by omega,
      show (n % 16 * 16 + k / 4) % 16 * 4 + (k % 4 * 64 + l) / 64 = k by omega,
      show (k % 4 * 64 + l) % 64 = l by omega]

end HiveForum.Base64Url
