import HiveForum.Cursor
import Mathlib.Data.Set.Subsingleton

/-!
# The written forms of cursors

A cursor has one written form, and no other text is read as it. A text that is read for a listing is
the written form of a cursor of that listing, and all other texts are refused.

## Main results

* `BigEndian.encode_inj`, `Uuid.bytes_injective`: numbers and identifiers are told by their bytes.
* `Cursor.header_injective`: a listing is told by the bytes that bind a cursor to it.
* `Cursor.decode_eq_ok_iff`: what is read, and for which listing.
* `Cursor.encode_injective`: different cursors have different written forms.
* `Cursor.written_forms_correspond`: texts and cursors correspond one to one.
-/

namespace HiveForum

/-! ### Numbers, identifiers and tags as bytes -/

/-- Numbers that fit are told by their bytes. -/
theorem BigEndian.encode_inj {width m n : Nat} (hm : m < capacity width) (hn : n < capacity width) :
    encode width m = encode width n ↔ m = n := by
  refine ⟨fun h => ?_, congrArg _⟩
  rw [← decode_encode hm, ← decode_encode hn, h]

/-- Identifiers are told by their bytes. -/
theorem Uuid.bytes_injective : Function.Injective Uuid.bytes := by
  intro a b h
  have hread := congrArg ofBytes? h
  rw [ofBytes?_bytes, ofBytes?_bytes] at hread
  exact Option.some.inj hread

theorem SortKey.tag_injective : Function.Injective SortKey.tag := by
  rintro (_ | _) (_ | _) h <;> cases h <;> rfl

theorem Direction.tag_injective : Function.Injective Direction.tag := by
  rintro (_ | _) (_ | _) h <;> cases h <;> rfl

namespace Cursor

/-- Listings are told by the bytes that bind a cursor to them. -/
theorem header_injective : Function.Injective header := by
  rintro ⟨⟨scope⟩, sort, direction, filter⟩ ⟨⟨scope'⟩, sort', direction', filter'⟩ h
  simp only [header, List.cons.injEq] at h
  obtain ⟨hsort, hdirection, hrest⟩ := h
  have hlength : scope.bytes.length = scope'.bytes.length := by simp
  obtain ⟨hscope, hfilter⟩ := List.append_inj hrest hlength
  have hfilter : filter = filter' :=
    UInt64.toNat.inj ((BigEndian.encode_inj filter.toNat_lt filter'.toNat_lt).1 hfilter)
  rw [SortKey.tag_injective hsort, Direction.tag_injective hdirection, Uuid.bytes_injective hscope,
    hfilter]

/-! ### Reading -/

/-- A position that is read is written as the bytes that it is read from. -/
theorem positionBytes_of_readPosition? {bytes : List UInt8} {position : IndexKey}
    (hlength : bytes.length = 24) (h : readPosition? bytes = some position) :
    positionBytes position = bytes := by
  obtain ⟨id, hid, rfl⟩ := Option.map_eq_some_iff.1 h
  have hvalue : (bytes.drop 16).length = 8 := by simp [hlength]
  have hlt : BigEndian.decode (bytes.drop 16) < 2 ^ 64 := by
    have := BigEndian.decode_lt (bytes.drop 16)
    rwa [hvalue] at this
  have hnumber : (UInt64.ofNat (BigEndian.decode (bytes.drop 16))).toInt64.toUInt64.toNat =
      BigEndian.decode (bytes.drop 16) := by
    rw [UInt64.toUInt64_toInt64, UInt64.toNat_ofNat_of_lt' hlt]
  have hencode := BigEndian.encode_decode (bytes.drop 16)
  rw [hvalue] at hencode
  rw [positionBytes, hnumber, Uuid.bytes_of_ofBytes? hid, hencode, List.take_append_drop]

/-- A text that is read for a listing is the written form of a cursor of the listing. -/
theorem eq_encode_of_decode {text : String} {listing : Listing} {cursor : Cursor}
    (h : decode text listing = .ok cursor) : cursor.listing = listing ∧ text = cursor.encode := by
  unfold decode at h
  split at h
  · cases h
  · cases h
  · rename_i version rest hbytes
    split at h
    · cases h
    · rename_i hlength
      split at h
      · cases h
      · rename_i hversion
        split at h
        · cases h
        · rename_i hheader
          split at h
          · cases h
          · rename_i position hposition
            cases h
            have hrest : rest.length = 50 := Nat.succ.inj (not_not.1 hlength)
            have hposition : positionBytes position = rest.drop 26 :=
              positionBytes_of_readPosition? (by simp [hrest]) hposition
            have hwritten : Cursor.bytes ⟨listing, position⟩ = version :: rest := by
              rw [Cursor.bytes, ← not_not.1 hheader, hposition, List.take_append_drop,
                not_not.1 hversion]
            refine ⟨rfl, ?_⟩
            rw [encode, hwritten, Base64Url.encode_decode? hbytes, String.ofList_toList]

/-- A text is read for a listing as a cursor exactly if it is the written form of the cursor, and
the cursor belongs to the listing. -/
theorem decode_eq_ok_iff {text : String} {listing : Listing} {cursor : Cursor} :
    decode text listing = .ok cursor ↔ cursor.listing = listing ∧ text = cursor.encode := by
  refine ⟨eq_encode_of_decode, ?_⟩
  rintro ⟨rfl, rfl⟩
  exact decode_encode cursor

/-- A text is refused for a listing exactly if it is the written form of no cursor of the
listing. -/
theorem decode_eq_error_iff {text : String} {listing : Listing} :
    (∃ error, decode text listing = .error error) ↔
      ¬∃ cursor : Cursor, cursor.listing = listing ∧ text = cursor.encode := by
  simp only [← decode_eq_ok_iff]
  cases decode text listing <;> simp

/-! ### Writing -/

theorem bytes_injective : Function.Injective bytes := by
  rintro ⟨listing, position⟩ ⟨listing', position'⟩ h
  have hlength : (header listing).length = (header listing').length := by simp
  obtain ⟨hlisting, hposition⟩ := List.append_inj (List.cons.inj h).2 hlength
  obtain rfl : listing = listing' := header_injective hlisting
  have hread := congrArg readPosition? hposition
  rw [readPosition?_positionBytes, readPosition?_positionBytes] at hread
  exact congrArg _ (Option.some.inj hread)

/-- Different cursors have different written forms, also if they belong to different listings. -/
theorem encode_injective : Function.Injective encode := by
  intro a b h
  have hread := congrArg Base64Url.decode? (String.ofList_injective h)
  rw [Base64Url.decode?_encode, Base64Url.decode?_encode] at hread
  exact bytes_injective (Option.some.inj hread)

/-- Texts and cursors correspond one to one. A text is read for a listing as a cursor exactly if it
is the written form of the cursor, and the cursor belongs to the listing; so every cursor is read
back for its listing, whatever it holds, no two texts are read as one cursor, no two cursors are
written as one text, and a text that is the written form of no cursor of a listing is refused. -/
theorem written_forms_correspond :
    (∀ text listing cursor, decode text listing = .ok cursor ↔
      cursor.listing = listing ∧ text = cursor.encode) ∧
    (∀ (scope : ScopeId) (sort : SortKey) (direction : Direction) (filter : UInt64)
      (id : ContentId) (sortValue : Int64),
      let cursor : Cursor := ⟨⟨scope, sort, direction, filter⟩, ⟨sortValue, id⟩⟩
      decode cursor.encode cursor.listing = .ok cursor) ∧
    (∀ cursor, Set.Subsingleton {text | ∃ listing, decode text listing = .ok cursor}) ∧
    Function.Injective encode ∧
    ∀ text listing, (∃ error, decode text listing = .error error) ↔
      ¬∃ cursor : Cursor, cursor.listing = listing ∧ text = cursor.encode := by
  refine ⟨fun _ _ _ => decode_eq_ok_iff, fun _ _ _ _ _ _ => decode_encode _, ?_,
    encode_injective, fun _ _ => decode_eq_error_iff⟩
  rintro cursor text ⟨listing, htext⟩ text' ⟨listing', htext'⟩
  rw [(decode_eq_ok_iff.1 htext).2, (decode_eq_ok_iff.1 htext').2]

end Cursor

end HiveForum
