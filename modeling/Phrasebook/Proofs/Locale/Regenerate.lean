import Phrasebook.Proofs.Locale.Reread

/-!
# Files that are written anew from their own entries

What an escape sequence stands for may look escaped itself, and writing leaves it alone then: a
value that was loaded comes back from what is written for it only when its runs of backslashes are
short. A file that is regenerated from its entries keeps the texts with that property.
-/

namespace Phrasebook.Locale

open Text (Newline isBlankText)

/-- A value that was read comes back from what is written for it exactly when its runs of
backslashes are short. A file that is regenerated from its entries keeps every text of that kind
that is not blank and does not end in two backslashes, when the keys that it writes can stand
between double quotes. -/
theorem regenerated_keeps_loaded_texts (style : Style) (codes : List Text) (spacer t : Text) :
    let texts := (Entries.ofLines style.table (Text.lines t)).texts
    (∀ raw, Source.unescape (Source.escape (Source.unescape raw)) = Source.unescape raw ↔
      ∀ s ∈ Source.segments (Source.unescape raw), s.count ≤ s.limit) ∧
    ((∀ e ∈ texts.entries, isBlankText e.2 = false → Glue.IsKey e.1) →
      ∀ key value, texts.get? key = some value → isBlankText value = false →
        (∀ s ∈ Source.segments value, s.count ≤ s.limit ∧ (s.next = none → s.count ≤ 1)) →
        (Entries.ofLines style.table (Text.lines (Files.dropMark (Text.joinLines
          (newFile style codes (exactly texts) spacer) Newline.lf.text)))).texts.get? key =
            some value) := by
  intro texts
  refine ⟨fun raw => Source.unescape_escape_eq_self_iff, ?_⟩
  intro hkeys key value hvalue hblank hsegments
  obtain ⟨k, hmem, hk⟩ := Lexicon.get?_eq_some_iff.1 hvalue
  have hlines : ∀ line ∈ Text.lines t, '\n' ∉ line := fun _ => Text.not_mem_of_mem_lines
  refine get?_newFile codes spacer hlines (fun e he => he) texts.nodup_keys hmem hk hblank
    fun e he hb => isReadBack_of_isKey (hkeys e he hb) fun hsame => ?_
  have hone : e = (k, value) := texts.eq_of_mem_of_norm_eq he hmem (hsame.trans hk.symm)
  rw [hone]
  exact Source.isFaithful_of_segments hsegments

/-- A path with single, doubled and final backslashes keeps its text, next to a blank entry that is
dropped. -/
theorem regenerated_keeps_loaded_path :
    let t := Text.joinLines ["if locale == \"deDE\" then".toList,
      "    L[\"None\"] = \" \"".toList,
      "    L[\"Path\"] = 'C:\\\\a \"b\"\\\\\\\\x\\n\\\\'".toList, "end".toList] ['\n']
    let texts := (Entries.ofLines Style.default.table (Text.lines t)).texts
    let value := "C:\\a \"b\"\\\\x\n\\".toList
    (texts.get? "path".toList = some value ∧ isBlankText value = false) ∧
      (Entries.ofLines Style.default.table (Text.lines (Files.dropMark (Text.joinLines
        (newFile .default ["deDE".toList] (exactly texts) []) Newline.lf.text)))).texts.get?
          "path".toList = some value := by
  intro t texts value
  have hvalue : texts.get? "path".toList = some value := by decide +kernel
  have hblank : isBlankText value = false := by decide +kernel
  have hkept := (regenerated_keeps_loaded_texts .default ["deDE".toList] [] t).2
    (by decide +kernel) "path".toList value hvalue hblank (by decide +kernel)
  exact ⟨⟨hvalue, hblank⟩, hkept⟩

/-- An escaped backslash before the letter n is read as a backslash. Both are left alone when they
are written again, and are then read as a line feed. -/
theorem rewriting_changes_escaped_backslash :
    let raw := "a\\\\n".toList
    Source.takeLiteral ('"' :: raw ++ ['"']) = some (raw, []) ∧
      Source.unescape (Source.escape (Source.unescape raw)) ≠ Source.unescape raw := by
  decide +kernel

end Phrasebook.Locale
