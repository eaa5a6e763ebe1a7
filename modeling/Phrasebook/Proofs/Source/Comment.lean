import Phrasebook.Proofs.Source.Literal

/-!
# Code and comments

A line is its code and, behind it, a comment or nothing. Characters other than dashes and quotes are
code, and so is a closed literal, whatever its raw text holds. What is put together from code is
code, so its comment is found where it was put.
-/

namespace Phrasebook.Source

variable {s t : Text}

/-- What may stand behind the code of a line: a comment, or nothing. -/
def commentText : Option Text → Text
  | none => []
  | some t => '-' :: '-' :: t

/-- The search for a comment goes through a text without finding one, and on behind it. -/
def IsCode (s : Text) : Prop :=
  ∀ t, codeFrom .code (s ++ t) = s ++ codeFrom .code t

/-- What is put together from code is code. -/
theorem IsCode.append (hs : IsCode s) (ht : IsCode t) : IsCode (s ++ t) := by
  intro u
  rw [List.append_assoc, hs, ht, List.append_assoc]

/-- Characters other than dashes and quotes are code. -/
theorem isCode_of_forall (h : ∀ c ∈ s, isQuote c = false ∧ c ≠ '-') : IsCode s := by
  intro t
  induction s with
  | nil => rfl
  | cons c s ih =>
    obtain ⟨⟨hquote, hdash⟩, hs⟩ := List.forall_mem_cons.1 h
    simp [codeFrom, hdash, Position.step, hquote, ih hs]

/-- A closed literal is code. -/
theorem isCode_literal {quote : Char} (hquote : isQuote quote = true) {raw : Text}
    (hraw : isRaw quote raw = true) : IsCode (quote :: raw ++ [quote]) := by
  intro t
  simpa using codeFrom_literal hquote hraw t

/-- Behind code, a comment is cut off. -/
theorem IsCode.stripComment (hs : IsCode s) (comment : Option Text) :
    stripComment (s ++ commentText comment) = s := by
  have hcomment : codeFrom .code (commentText comment) = [] := by
    cases comment with
    | none => rfl
    | some t => rfl
  rw [Source.stripComment, hs, hcomment, List.append_nil]

/-- What follows a comment belongs to it. -/
theorem exists_commentText_append (comment more : Option Text) :
    ∃ both, commentText comment ++ commentText more = commentText both := by
  cases comment with
  | none => exact ⟨more, rfl⟩
  | some t => exact ⟨some (t ++ commentText more), rfl⟩

/-- Whatever the search has passed so far, it finds a comment or the end of the text. -/
theorem exists_eq_codeFrom_append (p : Position) (t : Text) :
    ∃ comment, t = codeFrom p t ++ commentText comment := by
  induction t generalizing p with
  | nil => exact ⟨none, rfl⟩
  | cons c t ih =>
    by_cases hcomment : p = .code ∧ c = '-' ∧ t.head? = some '-'
    · obtain ⟨rfl, rfl, hhead⟩ := hcomment
      obtain ⟨rest, rfl⟩ := List.head?_eq_some_iff.1 hhead
      exact ⟨some rest, rfl⟩
    · obtain ⟨comment, ht⟩ := ih (p.step c)
      refine ⟨comment, ?_⟩
      have hcode : codeFrom p (c :: t) = c :: codeFrom (p.step c) t := by
        simpa [codeFrom, and_assoc] using hcomment
      rw [hcode, List.cons_append, ← ht]

/-- A line is its code and what stands behind it. -/
theorem exists_eq_stripComment_append (line : Text) :
    ∃ comment, line = stripComment line ++ commentText comment :=
  exists_eq_codeFrom_append .code line

end Phrasebook.Source
