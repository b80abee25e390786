import UnionFS.Bytes

/-!
# Text as bytes

A text crosses a connection, and names a file, as its UTF-8 form.  Main statement:
`decode_eq_some_iff`, every text has one form and nothing else is decoded.
-/

namespace UnionFS.Utf8

/-- The UTF-8 form of a text. -/
def encode (text : String) : Bytes :=
  text.toByteArray.data.toList

/-- The text whose UTF-8 form is `bytes`, if there is one. -/
def decode (bytes : Bytes) : Option String :=
  String.fromUTF8? ⟨bytes.toArray⟩

@[simp] theorem decode_encode (text : String) : decode (encode text) = some text := by
  have h : (⟨(encode text).toArray⟩ : ByteArray) = text.toByteArray := by simp [encode]
  rw [decode, h, String.fromUTF8?, dif_pos text.isValidUTF8]
  rfl

theorem eq_encode_of_decode {bytes : Bytes} {text : String} (h : decode bytes = some text) :
    bytes = encode text := by
  unfold decode String.fromUTF8? at h
  split at h
  · cases h; simp [encode, String.fromUTF8]
  · cases h

theorem decode_eq_some_iff {bytes : Bytes} {text : String} :
    decode bytes = some text ↔ bytes = encode text :=
  ⟨eq_encode_of_decode, fun h => h ▸ decode_encode text⟩

theorem encode_injective {a b : String} (h : encode a = encode b) : a = b := by
  have := decode_encode a
  rw [h, decode_encode] at this
  exact (Option.some.inj this).symm

end UnionFS.Utf8
