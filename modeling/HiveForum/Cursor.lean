import HiveForum.Codec.Base64Url
import HiveForum.Codec.Sha256
import HiveForum.Collection.SortedSet
import HiveForum.Content.Order

/-!
# Cursors

A cursor is the position of the last item of a page, bound to the listing that the page belongs
to. It is written as fifty-one bytes in base64: a version byte, the index, the direction, the
scope, a fingerprint of the tag filter, the item and the sort value.

## Main definitions

* `Listing`: what a cursor is bound to.
* `Cursor`: a position in a listing.
* `Cursor.encode`, `Cursor.decode`: the written form, and the reader for one listing.
* `CursorError`: why a text is refused, each with its text.

## Main results

* `Cursor.decode_encode`: a cursor is read back for the listing that it belongs to.
-/

namespace HiveForum

/-- Why a text is not a cursor of a listing. -/
inductive CursorError where
  | encoding
  /-- There are `count` bytes, not fifty-one. -/
  | length (count : Nat)
  | version (byte : UInt8)
  | contextMismatch
deriving DecidableEq

/-- The text of the error. -/
def CursorError.message : CursorError → String
  | .encoding => "cursor is not valid base64"
  | .length count => s!"cursor has wrong length {count}"
  | .version byte => s!"unsupported cursor version {byte.toNat}"
  | .contextMismatch => "cursor was issued for a different listing"

/-- The bytes hashed for a tag filter: its tags in order, sixteen bytes each. -/
def filterBytes (tags : SortedSet TagId) : List UInt8 := tags.toList.flatMap (·.uuid.bytes)

/-- The first eight bytes of the hash of a tag filter, as a word. -/
def filterFingerprint (tags : SortedSet TagId) : UInt64 :=
  UInt64.ofNat (BigEndian.decode ((Sha256.digest (filterBytes tags)).take 8))

/-- The listing that a cursor is bound to. -/
structure Listing where
  scope : ScopeId
  sort : SortKey
  direction : Direction
  filter : UInt64
deriving DecidableEq

/-- The listing of a scope with a tag filter. -/
def Listing.ofTags (scope : ScopeId) (sort : SortKey) (direction : Direction)
    (tags : SortedSet TagId) : Listing :=
  ⟨scope, sort, direction, filterFingerprint tags⟩

/-- A position in a listing. -/
structure Cursor where
  listing : Listing
  position : IndexKey
deriving DecidableEq

namespace Cursor

/-- The version that is written and read. -/
def formatVersion : UInt8 := 1

/-- The number of bytes of a cursor. -/
def byteLength : Nat := 51

/-- The bytes that bind a cursor to its listing. -/
def header (listing : Listing) : List UInt8 :=
  listing.sort.tag :: listing.direction.tag ::
    (listing.scope.uuid.bytes ++ BigEndian.encode 8 listing.filter.toNat)

/-- The bytes of a position. -/
def positionBytes (position : IndexKey) : List UInt8 :=
  position.id.uuid.bytes ++ BigEndian.encode 8 position.sortValue.toUInt64.toNat

/-- The bytes of a cursor. -/
def bytes (cursor : Cursor) : List UInt8 :=
  formatVersion :: (header cursor.listing ++ positionBytes cursor.position)

/-- The written form of a cursor. -/
def encode (cursor : Cursor) : String := String.ofList (Base64Url.encode cursor.bytes)

/-- Reads a position from its bytes. -/
def readPosition? (bytes : List UInt8) : Option IndexKey :=
  (Uuid.ofBytes? (bytes.take 16)).map fun id =>
    ⟨(UInt64.ofNat (BigEndian.decode (bytes.drop 16))).toInt64, ⟨id⟩⟩

/-- Reads a cursor of the given listing. -/
def decode (text : String) (expected : Listing) : Except CursorError Cursor :=
  match Base64Url.decode? text.toList with
  | none => .error .encoding
  | some [] => .error (.length 0)
  | some (version :: rest) =>
    if rest.length + 1 ≠ byteLength then .error (.length (rest.length + 1))
    else if version ≠ formatVersion then .error (.version version)
    else if rest.take 26 ≠ header expected then .error .contextMismatch
    else
      match readPosition? (rest.drop 26) with
      | none => .error .encoding
      | some position => .ok ⟨expected, position⟩

@[simp]
theorem length_header (listing : Listing) : (header listing).length = 26 := by
  simp [header]

@[simp]
theorem length_positionBytes (position : IndexKey) : (positionBytes position).length = 24 := by
  simp [positionBytes]

theorem readPosition?_positionBytes (position : IndexKey) :
    readPosition? (positionBytes position) = some position := by
  obtain ⟨value, ⟨id⟩⟩ := position
  have hv : value.toUInt64.toNat < BigEndian.capacity 8 := value.toUInt64.toNat_lt
  simp [readPosition?, positionBytes, BigEndian.decode_encode hv]

/-- A written cursor is read back for the listing that it belongs to. -/
theorem decode_encode (cursor : Cursor) : decode cursor.encode cursor.listing = .ok cursor := by
  have hlength : (header cursor.listing ++ positionBytes cursor.position).length + 1 =
      byteLength := by
    rw [List.length_append, length_header, length_positionBytes, byteLength]
  have hheader : (header cursor.listing ++ positionBytes cursor.position).take 26 =
      header cursor.listing := List.take_left' (length_header _)
  have hposition : (header cursor.listing ++ positionBytes cursor.position).drop 26 =
      positionBytes cursor.position := List.drop_left' (length_header _)
  rw [decode, encode, String.toList_ofList, Base64Url.decode?_encode, bytes]
  dsimp only
  rw [if_neg (not_not_intro hlength), if_neg (not_not_intro rfl),
    if_neg (not_not_intro hheader), hposition, readPosition?_positionBytes]

end Cursor

end HiveForum
