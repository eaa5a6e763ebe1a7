import Phrasebook.Text.Ranges
import Phrasebook.Text.WordTable

/-!
# Word characters

Letters, numbers and the underscore: the characters that may continue a name.
-/

namespace Phrasebook.Text

/-- Letters and numbers of any script, and the underscore. -/
def isWordChar (c : Char) : Bool :=
  if c.toNat < 0x80 then c.isAlphanum || c == '_' else inRanges letterRanges c.toNat

/-- The letters and digits of ASCII are three ranges of code points. -/
theorem isAlphanum_iff {c : Char} :
    c.isAlphanum = true ↔ (65 ≤ c.toNat ∧ c.toNat ≤ 90) ∨ (97 ≤ c.toNat ∧ c.toNat ≤ 122) ∨
      (48 ≤ c.toNat ∧ c.toNat ≤ 57) := by
  have hdef : c.isAlphanum = ((decide (c.val ≥ 'A'.val ∧ c.val ≤ 'Z'.val) ||
      (decide (c.val ≥ 'a'.val) && decide (c.val ≤ 'z'.val))) ||
      (decide (c.val ≥ '0'.val) && decide (c.val ≤ '9'.val))) := rfl
  simp only [hdef, Bool.or_eq_true, Bool.and_eq_true, decide_eq_true_eq, or_assoc, ge_iff_le,
    UInt32.le_iff_toNat_le]
  rfl

/-- Every letter and digit of ASCII is a word character. -/
theorem isWordChar_of_isAlphanum {c : Char} (h : c.isAlphanum = true) : isWordChar c = true := by
  have hlt : c.toNat < 0x80 := by
    have := isAlphanum_iff.1 h
    omega
  simp [isWordChar, hlt, h]

end Phrasebook.Text
