import Phrasebook.Text.Utf8

/-!
# Encoding and decoding

Every text is read back from its content, and a content that is read is the one that encodes the
text.
-/

namespace Phrasebook.Text

/-- A text is read back from the content that encodes it. -/
theorem decode_encode (t : Text) : decode (encode t) = .ok t := by
  have hvalid : ByteArray.IsValidUTF8 (String.ofList t).toUTF8 := (String.ofList t).isValidUTF8
  have hread : String.fromUTF8? (encode t) = some (String.ofList t) := by
    rw [encode, String.fromUTF8?, dif_pos hvalid]
    rfl
  simp only [decode, hread, String.toList_ofList]

/-- The text of a content encodes to that content. -/
theorem encode_of_decode {content : ByteArray} {t : Text} (h : decode content = .ok t) :
    encode t = content := by
  unfold decode at h
  cases hread : String.fromUTF8? content with
  | none => simp [hread] at h
  | some s =>
    simp only [hread, Except.ok.injEq] at h
    unfold String.fromUTF8? at hread
    split at hread
    · obtain rfl := Option.some.inj hread
      subst h
      rw [encode, String.ofList_toList]
      rfl
    · simp at hread

end Phrasebook.Text
