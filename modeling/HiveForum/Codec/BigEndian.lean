/-!
# Big-endian numbers

A number written as a fixed count of bytes, most significant byte first.

## Main definitions

* `BigEndian.encode`: the bytes of a number.
* `BigEndian.decode`: the number of a list of bytes.
* `BigEndian.capacity`: how many numbers a width has room for.

## Main results

* `BigEndian.decode_encode`: a number that fits is read back.
* `BigEndian.encode_decode`: bytes are written back, so the two are inverse on each width.
-/

namespace HiveForum.BigEndian

/-- The last `width` base-256 digits of `n`, most significant first. -/
def encode : (width : Nat) → (n : Nat) → List UInt8
  | 0, _ => []
  | width + 1, n => encode width (n / 256) ++ [UInt8.ofNat n]

/-- The number with the given base-256 digits, most significant first. -/
def decode (bytes : List UInt8) : Nat :=
  bytes.foldl (fun n byte => n * 256 + byte.toNat) 0

/-- How many numbers can be written with `width` bytes. -/
def capacity : (width : Nat) → Nat
  | 0 => 1
  | width + 1 => capacity width * 256

@[simp]
theorem length_encode (width n : Nat) : (encode width n).length = width := by
  induction width generalizing n with
  | zero => rfl
  | succ width ih => simp [encode, ih]

theorem decode_append_singleton (bytes : List UInt8) (byte : UInt8) :
    decode (bytes ++ [byte]) = decode bytes * 256 + byte.toNat := by
  simp [decode, List.foldl_append]

theorem decode_encode_mod (width n : Nat) : decode (encode width n) = n % capacity width := by
  induction width generalizing n with
  | zero => simp [encode, decode, capacity, Nat.mod_one]
  | succ width ih =>
    have hbyte : (UInt8.ofNat n).toNat = n % 256 := UInt8.toNat_ofNat'
    rw [encode, decode_append_singleton, ih, hbyte, capacity, Nat.mul_comm (capacity width) 256,
      Nat.mod_mul]
    omega

/-- A number that fits is read back. -/
theorem decode_encode {width n : Nat} (h : n < capacity width) : decode (encode width n) = n := by
  rw [decode_encode_mod, Nat.mod_eq_of_lt h]

theorem foldl_lt (bytes : List UInt8) (n : Nat) :
    bytes.foldl (fun n byte => n * 256 + byte.toNat) n < (n + 1) * capacity bytes.length := by
  induction bytes generalizing n with
  | nil => simp [capacity]
  | cons byte rest ih =>
    have hb : byte.toNat < 256 := byte.toNat_lt
    calc
      _ < (n * 256 + byte.toNat + 1) * capacity rest.length := ih _
      _ ≤ ((n + 1) * 256) * capacity rest.length := Nat.mul_le_mul_right _ (by omega)
      _ = (n + 1) * capacity (rest.length + 1) := by
        rw [Nat.mul_assoc, capacity, Nat.mul_comm 256]

theorem decode_lt (bytes : List UInt8) : decode bytes < capacity bytes.length := by
  simpa [decode] using foldl_lt bytes 0

/-- The bytes that were read are written back. -/
theorem encode_decode (bytes : List UInt8) : encode bytes.length (decode bytes) = bytes := by
  induction h : bytes.length generalizing bytes with
  | zero => rw [List.length_eq_zero_iff.1 h]; rfl
  | succ width ih =>
    have hne : bytes ≠ [] := by
      rintro rfl
      simp at h
    have hsplit := List.dropLast_concat_getLast hne
    generalize bytes.dropLast = front at hsplit
    generalize bytes.getLast hne = byte at hsplit
    subst hsplit
    have hlen : front.length = width := by simpa using h
    have hb : byte.toNat < 256 := byte.toNat_lt
    rw [encode, decode_append_singleton]
    have hdiv : (decode front * 256 + byte.toNat) / 256 = decode front := by omega
    have hbyte : UInt8.ofNat (decode front * 256 + byte.toNat) = byte := by
      apply UInt8.toNat.inj
      rw [UInt8.toNat_ofNat']
      omega
    rw [hdiv, hbyte, ih front hlen]

end HiveForum.BigEndian
