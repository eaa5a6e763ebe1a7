import Phrasebook.Source.Comment
import Phrasebook.Source.Literal

/-!
# Raw texts of literals

The raw text of a literal is made of pairs that start with a backslash and of characters other than
the quote and the backslash. Reading a literal succeeds exactly where such a text stands between two
quotes, and the scanner for comments passes over it as a whole.
-/

namespace Phrasebook.Source

/-- Whether a text is made of pairs that start with a backslash and of characters other than the
backslash and the quote. -/
def isRaw (quote : Char) : Text → Bool
  | [] => true
  | c :: t =>
    if c = '\\' then
      match t with
      | [] => false
      | _ :: t => isRaw quote t
    else c ≠ quote && isRaw quote t

/-- A character that is no backslash stands for itself, so it must not be the quote. -/
theorem isRaw_cons {quote c : Char} (hc : c ≠ '\\') (t : Text) :
    isRaw quote (c :: t) = (decide (c ≠ quote) && isRaw quote t) := by
  conv => lhs; unfold isRaw
  simp [hc]

/-- A character that is neither the quote nor a backslash belongs to the raw text. -/
theorem closeLiteral_cons {quote c : Char} (hc : c ≠ '\\') (hq : c ≠ quote) (t : Text) :
    closeLiteral quote (c :: t) =
      (closeLiteral quote t).map fun (raw, rest) => (c :: raw, rest) := by
  conv => lhs; unfold closeLiteral
  simp [hc, hq]

/-- A raw text before a closing quote is read back with what follows that quote. -/
theorem closeLiteral_append {quote : Char} (hq : quote ≠ '\\') {raw : Text}
    (h : isRaw quote raw = true) (rest : Text) :
    closeLiteral quote (raw ++ quote :: rest) = some (raw, rest) := by
  fun_induction isRaw quote raw with
  | case1 =>
    unfold closeLiteral
    simp [hq]
  | case2 => simp at h
  | case3 d t ih => simp [closeLiteral, ih h]
  | case4 c t hc ih =>
    simp only [Bool.and_eq_true, decide_eq_true_eq] at h
    simp [closeLiteral_cons hc h.1, ih h.2]

/-- What is read up to a closing quote is a raw text, and the quote stands behind it. -/
theorem closeLiteral_eq_some {quote : Char} {t raw rest : Text}
    (h : closeLiteral quote t = some (raw, rest)) :
    isRaw quote raw = true ∧ t = raw ++ quote :: rest := by
  fun_induction closeLiteral quote t generalizing raw with
  | case1 => simp at h
  | case2 => simp at h
  | case3 d t ih =>
    obtain ⟨⟨raw', rest'⟩, hr, he⟩ := Option.map_eq_some_iff.1 h
    obtain ⟨rfl, rfl⟩ := Prod.mk.inj he
    obtain ⟨hraw, rfl⟩ := ih hr
    exact ⟨by simpa [isRaw] using hraw, rfl⟩
  | case4 t hq =>
    obtain ⟨rfl, rfl⟩ := Prod.mk.inj (Option.some.inj h)
    exact ⟨rfl, rfl⟩
  | case5 c t hc hq ih =>
    obtain ⟨⟨raw', rest'⟩, hr, he⟩ := Option.map_eq_some_iff.1 h
    obtain ⟨rfl, rfl⟩ := Prod.mk.inj he
    obtain ⟨hraw, rfl⟩ := ih hr
    exact ⟨by simp [isRaw_cons hc, hq, hraw], rfl⟩

/-- Neither quote is a backslash. -/
theorem ne_backslash_of_isQuote {c : Char} (h : isQuote c = true) : c ≠ '\\' := by
  rintro rfl
  simp [isQuote] at h

/-- A literal stands in front of a text exactly when the text is a quote, a raw text, the same quote
and the rest. -/
theorem takeLiteral_eq_some_iff {t raw rest : Text} :
    takeLiteral t = some (raw, rest) ↔
      ∃ quote, isQuote quote = true ∧ isRaw quote raw = true ∧
        t = quote :: raw ++ quote :: rest := by
  constructor
  · intro h
    cases t with
    | nil => simp [takeLiteral] at h
    | cons c t =>
      simp only [takeLiteral] at h
      split at h
      · rename_i hc
        obtain ⟨hraw, rfl⟩ := closeLiteral_eq_some h
        exact ⟨c, hc, hraw, rfl⟩
      · simp at h
  · rintro ⟨quote, hq, hraw, rfl⟩
    simp [takeLiteral, hq, closeLiteral_append (ne_backslash_of_isQuote hq) hraw rest]

/-- What follows a literal can be extended. -/
theorem takeLiteral_append {t raw rest : Text} (h : takeLiteral t = some (raw, rest))
    (more : Text) : takeLiteral (t ++ more) = some (raw, rest ++ more) := by
  obtain ⟨quote, hq, hraw, rfl⟩ := takeLiteral_eq_some_iff.1 h
  exact takeLiteral_eq_some_iff.2 ⟨quote, hq, hraw, by simp⟩

/-- No comment opens within a literal. -/
theorem codeFrom_quoted {quote : Char} (hq : quote ≠ '\\') {raw : Text}
    (h : isRaw quote raw = true) (rest : Text) :
    codeFrom (.quoted quote) (raw ++ quote :: rest) = raw ++ quote :: codeFrom .code rest := by
  fun_induction isRaw quote raw with
  | case1 => simp [codeFrom, Position.step, hq]
  | case2 => simp at h
  | case3 d t ih => simp [codeFrom, Position.step, ih h]
  | case4 c t hc ih =>
    simp only [Bool.and_eq_true, decide_eq_true_eq] at h
    simp [codeFrom, Position.step, hc, h.1, ih h.2]

/-- A literal is code, and the search for a comment goes on behind it. -/
theorem codeFrom_literal {quote : Char} (hq : isQuote quote = true) {raw : Text}
    (h : isRaw quote raw = true) (rest : Text) :
    codeFrom .code (quote :: raw ++ quote :: rest) =
      quote :: raw ++ quote :: codeFrom .code rest := by
  have hdash : quote ≠ '-' := by
    rintro rfl
    simp [isQuote] at hq
  simp [codeFrom, hdash, Position.step, hq, codeFrom_quoted (ne_backslash_of_isQuote hq) h rest]

end Phrasebook.Source
