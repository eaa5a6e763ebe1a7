import Phrasebook.Text.Blank

/-!
# Blanks around texts

How the cutting of blanks at the front of a text and the test for a blank text distribute over the
parts of a text.
-/

namespace Phrasebook.Text

@[simp] theorem isBlankText_nil : isBlankText [] = true := rfl

@[simp] theorem isBlankText_cons (c : Char) (t : Text) :
    isBlankText (c :: t) = (isBlank c && isBlankText t) := rfl

@[simp] theorem isBlankText_append (s t : Text) :
    isBlankText (s ++ t) = (isBlankText s && isBlankText t) :=
  List.all_append

/-- Blanks in front of a text are cut with its own. -/
theorem trimLeft_append_of_blank {s : Text} (h : isBlankText s = true) (t : Text) :
    trimLeft (s ++ t) = trimLeft t :=
  List.dropWhile_append_of_pos (by simpa [isBlankText] using h)

/-- Cutting the blanks in front leaves nothing of a blank text only. -/
theorem trimLeft_eq_nil_iff {t : Text} : trimLeft t = [] ↔ isBlankText t = true := by
  induction t with
  | nil => simp [trimLeft]
  | cons c t ih =>
    by_cases hc : isBlank c = true
    · simpa [trimLeft, hc] using ih
    · simp [trimLeft, hc]

/-- A text that is not blank keeps what follows it. -/
theorem trimLeft_append_of_not_blank {s : Text} (h : isBlankText s = false) (t : Text) :
    trimLeft (s ++ t) = trimLeft s ++ t := by
  induction s with
  | nil => simp at h
  | cons c s ih =>
    by_cases hc : isBlank c = true
    · simp only [isBlankText_cons, hc, Bool.true_and] at h
      simpa [trimLeft, hc] using ih h
    · simp [trimLeft, hc]

/-- A text that starts with a character that is not blank has no indent. -/
theorem trimLeft_cons_of_not_blank {c : Char} (h : isBlank c = false) (t : Text) :
    trimLeft (c :: t) = c :: t := by
  simp [trimLeft, h]

/-- The indent of a text ends at its first character that is not blank. -/
theorem indent_append_cons {s : Text} {c : Char} (hs : isBlankText s = true)
    (hc : isBlank c = false) (t : Text) : indent (s ++ c :: t) = s := by
  have hs' : ∀ d ∈ s, isBlank d = true := by simpa [isBlankText] using hs
  simp [indent, List.takeWhile_append_of_pos hs', hc]

/-- What follows a text that is not blank does not change its indent. -/
theorem indent_append_of_not_blank {s : Text} (h : isBlankText s = false) (t : Text) :
    indent (s ++ t) = indent s := by
  induction s with
  | nil => simp at h
  | cons c s ih =>
    by_cases hc : isBlank c = true
    · simp only [isBlankText_cons, hc, Bool.true_and] at h
      simpa [indent, hc] using ih h
    · simp [indent, hc]

/-- The indent of a text is blank. -/
theorem isBlankText_indent (t : Text) : isBlankText (indent t) = true :=
  List.all_takeWhile

/-- Every text consists of blanks and of what cutting them leaves. -/
theorem exists_blank_of_trimLeft_eq {t r : Text} (h : trimLeft t = r) :
    ∃ s, isBlankText s = true ∧ t = s ++ r :=
  ⟨indent t, isBlankText_indent t, by rw [← h, indent_append_trimLeft]⟩

end Phrasebook.Text
