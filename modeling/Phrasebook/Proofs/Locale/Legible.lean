import Phrasebook.Proofs.Format.Legible
import Phrasebook.Proofs.Glue.Rewriting
import Phrasebook.Proofs.Locale.Cleared
import Phrasebook.Proofs.Source.Comment

/-!
# Files with legible texts

The specifiers of the texts of a file are told when all of them have legible numbers. What is read of a
written line has no specifiers but those of its text, so a merge that clears keys leaves such a file
legible.
-/

namespace Phrasebook.Locale

open Text (isBlankText)

variable {style : Style} {texts : KeyMap Text} {table : Text} {lines : List Text} {valid : KeySet}

/-- A change of its result leaves open whether a computation succeeds. -/
theorem bind_pure_isOk_iff {α β ε : Type} {x : Except ε α} {f : α → β} :
    (∃ b, (x >>= fun a => pure (f a)) = .ok b) ↔ ∃ a, x = .ok a := by
  cases x <;> simp [bind, Except.bind, pure, Except.pure]

/-- A traversal succeeds when each of its steps does. -/
theorem mapM_isOk_iff {α β ε : Type} {f : α → Except ε β} {xs : List α} :
    (∃ ys, xs.mapM f = .ok ys) ↔ ∀ x ∈ xs, ∃ y, f x = .ok y := by
  induction xs with
  | nil => simp [pure, Except.pure]
  | cons x xs ih =>
    rw [List.mapM_cons, List.forall_mem_cons, ← ih]
    cases hx : f x with
    | error fault => simp [bind, Except.bind]
    | ok y => cases hxs : xs.mapM f <;> simp [bind, Except.bind, pure, Except.pure]

/-- The texts that lines assign have legible numbers. -/
def IsLegible (table : Text) (lines : List Text) : Prop :=
  ∀ a ∈ assignments table lines, Format.IsLegible a.value

/-- The specifiers of the texts of a file are told when the texts have legible numbers. -/
theorem specifiersByKey_isOk_iff :
    (∃ specifiers, specifiersByKey table lines = .ok specifiers) ↔ IsLegible table lines :=
  bind_pure_isOk_iff.trans (mapM_isOk_iff.trans (forall₂_congr fun _ _ =>
    bind_pure_isOk_iff.trans Format.specifiers_isOk_iff))

/-- What is read of the text behind an equals sign has no specifiers but those of the text. -/
theorem words_subset_of_assignedLiteral? {behind raw : Text}
    (h : Glue.assignedLiteral? behind = some raw) :
    Format.words (Source.unescape raw) ⊆ Format.words behind := by
  unfold Glue.assignedLiteral? at h
  cases hliteral : Source.takeLiteral (Text.trimLeft (Source.stripComment behind)) with
  | none => simp [hliteral] at h
  | some literal =>
    obtain ⟨raw', rest⟩ := literal
    simp only [hliteral] at h
    split_ifs at h
    obtain rfl := Option.some.inj h
    obtain ⟨quote, hquote, -, hcode⟩ := Source.takeLiteral_eq_some_iff.1 hliteral
    obtain ⟨comment, hsplit⟩ := Source.exists_eq_stripComment_append behind
    rw [← Text.indent_append_trimLeft (Source.stripComment behind), hcode] at hsplit
    have hinert : Format.isInert quote = true := by
      simp only [Source.isQuote, Bool.or_eq_true, beq_iff_eq] at hquote
      rcases hquote with rfl | rfl <;> rfl
    have hwords : Format.words behind = Format.words (Text.indent (Source.stripComment behind)) ++
        (Format.words raw' ++ Format.words (rest ++ Source.commentText comment)) := by
      rw [← Format.words_append_inert hinert raw', ← Format.words_append_inert hinert]
      exact congrArg Format.words (hsplit.trans (by simp))
    rw [Format.words_unescape, hwords]
    exact List.subset_append_of_subset_right _ (List.subset_append_left _ _)

/-- The text that is written behind an equals sign has the specifiers of its value. -/
theorem words_writtenValue (value : Text) :
    Format.words (Glue.writtenValue value) = Format.words value := by
  have hquote : Format.isInert '"' = true := by decide
  have hsplit : Glue.writtenValue value = [' '] ++ '"' :: (Source.escape value ++ '"' :: []) := rfl
  rw [hsplit, Format.words_append_inert hquote, Format.words_append_inert hquote,
    Format.words_escape]
  simp [Format.words, Format.wordsFrom]

/-- What is read of a line that keeps its key is legible when its text is. -/
theorem isLegible_of_keepsKey {k text indent : Text}
    (hindent : isBlankText indent = true) (hkeeps : keepsKey style.table k text = true)
    {a : Glue.Assignment} (ha : Glue.assignment? style.table (style.line indent k text) = some a)
    (htext : Format.IsLegible text) : Format.IsLegible a.value := by
  have hfold := fold_eq_of_keepsKey hindent hkeeps ha
  obtain ⟨target, raw, htarget, hraw, rfl⟩ := Glue.exists_of_assignment? ha
  obtain rfl := Glue.target?_line_of_fold (a := ⟨k, text, indent⟩) htarget hindent hfold
  have hwords := words_subset_of_assignedLiteral? hraw
  rw [words_writtenValue] at hwords
  exact htext.of_subset hwords

/-- A merge that clears the keys that are not valid leaves a legible file legible. -/
theorem Clears.isLegible_mergeLines (h : Clears texts style.table valid lines)
    (hassigned : assignments style.table lines ≠ [])
    (hclearable : Clearable style.table valid lines) (hlegible : IsLegible style.table lines) :
    IsLegible style.table (mergeLines style lines texts) := by
  intro a ha
  rcases h.cases_of_mem_mergeLines hassigned hclearable ha with
    ⟨hold, -⟩ | ⟨b, -, indent, text, hindent, -, hfile, hkeeps, hread⟩
  · exact hlegible a hold
  · obtain ⟨c, hc, -, rfl⟩ := exists_assignment_of_get? hfile
    exact isLegible_of_keepsKey hindent hkeeps hread (hlegible c hc)

end Phrasebook.Locale
