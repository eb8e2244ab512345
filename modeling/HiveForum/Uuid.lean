import HiveForum.Text.Hex
import HiveForum.Codec.BigEndian

/-!
# Universally unique identifiers

An identifier is a 128-bit word. Its order is the order of its sixteen big-endian bytes, which is
the order of the words. Its written form has thirty-two lowercase hexadecimal digits in five
hyphenated groups; reading accepts that form in either case, without hyphens, in braces and after
`urn:uuid:`.

## Main definitions

* `Uuid`: the identifiers, with their order.
* `Uuid.bytes`, `Uuid.ofBytes?`: the sixteen bytes.
* `Uuid.text`, `Uuid.parse?`: the written form and the forms that are read.
* `Uuid.version4`: an identifier marked as randomly drawn.

## Main results

* `Uuid.ofBytes?_bytes`, `Uuid.bytes_of_ofBytes?`: identifiers and sixteen bytes correspond.
-/

namespace HiveForum

open Std

/-- A 128-bit identifier. -/
structure Uuid where
  /-- The sixteen bytes as one big-endian word. -/
  bits : BitVec 128
deriving DecidableEq

namespace Uuid

instance : Inhabited Uuid := ⟨⟨0⟩⟩

instance : Ord Uuid := ⟨compareOn Uuid.bits⟩

instance : TransOrd Uuid := inferInstanceAs (TransCmp (compareOn Uuid.bits))

instance : LawfulEqOrd Uuid where
  eq_of_compare {a b} h := by
    have h : compare a.bits b.bits = .eq := h
    cases a
    cases b
    exact congrArg Uuid.mk (LawfulEqOrd.eq_of_compare h)

/-- The identifier with the given word, reduced to 128 bits. -/
def ofNat (n : Nat) : Uuid := ⟨BitVec.ofNat 128 n⟩

/-- The sixteen bytes, most significant first. -/
def bytes (id : Uuid) : List UInt8 := BigEndian.encode 16 id.bits.toNat

/-- The identifier with the given sixteen bytes. -/
def ofBytes? (bytes : List UInt8) : Option Uuid :=
  if bytes.length = 16 then some (ofNat (BigEndian.decode bytes)) else none

/-- Marks the identifier as version four: the four version bits are `0100` and the two variant
bits `10`. -/
def version4 (id : Uuid) : Uuid :=
  ⟨(id.bits &&& 0xffffffffffff0fff3fffffffffffffff#128) ||| 0x00000000000040008000000000000000#128⟩

/-! ### The written form -/

/-- The lengths of the five groups of digits. -/
def groups : List Nat := [8, 4, 4, 4, 12]

/-- Writes hyphens between groups of the given lengths. -/
def group : List Nat → List Char → List Char
  | [], _ => []
  | [n], cs => cs.take n
  | n :: ns, cs => cs.take n ++ '-' :: group ns (cs.drop n)

/-- Removes the hyphens between groups of the given lengths; none if the characters are not so
grouped. -/
def ungroup? : List Nat → List Char → Option (List Char)
  | [], cs => if cs.isEmpty then some [] else none
  | [n], cs => if cs.length = n then some cs else none
  | n :: ns, cs =>
    match cs.drop n with
    | '-' :: rest => (ungroup? ns rest).map (cs.take n ++ ·)
    | _ => none

/-- The written form: lowercase digits in five hyphenated groups. -/
def chars (id : Uuid) : List Char := group groups (Hex.digits 32 id.bits.toNat)

/-- The written form as a text. -/
def text (id : Uuid) : String := String.ofList id.chars

instance : ToString Uuid := ⟨text⟩

/-- Reads thirty-two hexadecimal digits. -/
def ofHex? (cs : List Char) : Option Uuid :=
  if cs.length = 32 then (Hex.number? cs).map ofNat else none

/-- Removes one pair of braces around the characters, or `urn:uuid:` in either case before
them. -/
def withoutFrame (cs : List Char) : List Char :=
  match cs with
  | '{' :: rest => if rest.getLast? = some '}' then rest.dropLast else cs
  | _ => if (cs.take 9).map Char.toLower = "urn:uuid:".toList then cs.drop 9 else cs

/-- Reads an identifier: thirty-two digits, or five hyphenated groups that may stand in braces or
after `urn:uuid:`. -/
def parseChars? (cs : List Char) : Option Uuid :=
  ofHex? cs <|> (ungroup? groups (withoutFrame cs)).bind ofHex?

/-- Reads an identifier from a text. -/
def parse? (text : String) : Option Uuid := parseChars? text.toList

/-! ### Identifiers and their bytes -/

@[simp]
theorem length_bytes (id : Uuid) : id.bytes.length = 16 := BigEndian.length_encode 16 _

/-- The bytes of an identifier are read back. -/
@[simp]
theorem ofBytes?_bytes (id : Uuid) : ofBytes? id.bytes = some id := by
  obtain ⟨bits⟩ := id
  have h : bits.toNat < BigEndian.capacity 16 := bits.isLt
  simp [ofBytes?, ofNat, bytes, BigEndian.decode_encode h]

/-- An identifier that was read has the bytes it was read from. -/
theorem bytes_of_ofBytes? {bytes : List UInt8} {id : Uuid} (h : ofBytes? bytes = some id) :
    id.bytes = bytes := by
  unfold ofBytes? at h
  split at h
  · rename_i hlen
    have hlt : BigEndian.decode bytes < BigEndian.capacity 16 := hlen ▸ BigEndian.decode_lt bytes
    obtain rfl := Option.some.inj h
    have hmod : (BitVec.ofNat 128 (BigEndian.decode bytes)).toNat = BigEndian.decode bytes := by
      rw [BitVec.toNat_ofNat]
      exact Nat.mod_eq_of_lt hlt
    rw [Uuid.bytes, ofNat, hmod, ← hlen, BigEndian.encode_decode]
  · cases h

end Uuid

end HiveForum
