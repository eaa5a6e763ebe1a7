import Phrasebook.Proofs.Format.Occurrence
import Phrasebook.Source.Escape

/-!
# Texts with legible numbers

The specifiers of a text can be told when no number of theirs is too long. A character that can stand in no
specifier splits a text into two with the same specifiers, and escapes are made of such characters. So the
raw text of a value has the specifiers of the value.
-/

namespace Phrasebook.Format

open Text (isDigit)

variable {c x : Char} {t u : Text}

/-! ### Legible texts -/

/-- No number in a specifier of a text is too long. -/
def IsLegible (t : Text) : Prop :=
  ∀ w ∈ words t, ∀ digits ∈ w.numerals, Text.isOverlong digits = false

/-- The specifiers of a text are told when its numbers are legible. -/
theorem specifiers_isOk_iff : (∃ ss, specifiers t = .ok ss) ↔ IsLegible t := by
  have hresult : specifiers t = readOr _ _ := number_eq 1 (words t)
  rw [readOr] at hresult
  cases hlong : ((words t).flatMap Word.numerals).find? Text.isOverlong with
  | none =>
    rw [hlong] at hresult
    refine iff_of_true ⟨_, hresult⟩ fun w hw digits hdigits => ?_
    exact eq_false_of_ne_true (List.find?_eq_none.1 hlong _ (List.mem_flatMap.2 ⟨w, hw, hdigits⟩))
  | some digits =>
    rw [hlong] at hresult
    refine iff_of_false (by simp [hresult]) fun hlegible => ?_
    obtain ⟨w, hw, hdigits⟩ := List.mem_flatMap.1 (List.mem_of_find?_eq_some hlong)
    have hfound := List.find?_some hlong
    rw [hlegible w hw digits hdigits] at hfound
    exact Bool.noConfusion hfound

/-- A text has legible numbers when its specifiers are among those of a text with legible numbers. -/
theorem IsLegible.of_subset (h : IsLegible t) (hwords : words u ⊆ words t) : IsLegible u :=
  fun w hw => h w (hwords hw)

/-! ### Characters that split texts -/

/-- Whether a character can stand in no specifier. -/
def isInert (c : Char) : Bool :=
  !(isDigit c || isFlag c || c == '$' || c == '.' || conversions.contains c)

/-- A specifier has no inert characters. -/
theorem Word.IsGrammatical.isInert_eq_false {w : Word} (h : w.IsGrammatical) (hc : c ∈ w.body) :
    isInert c = false := by
  rw [Word.body_eq] at hc
  simp only [List.mem_append, List.mem_singleton] at hc
  rcases hc with hindex | hflag | hwidth | hprecision | rfl
  · cases hw : w.index with
    | none => simp [indexText, hw] at hindex
    | some digits =>
      rw [hw, indexText, List.mem_append, List.mem_singleton] at hindex
      rcases hindex with hdigit | rfl
      · simp [isInert, (h.index digits hw).2 c hdigit]
      · rfl
  · simp [isInert, h.flags c hflag]
  · simp [isInert, h.width c hwidth]
  · cases hw : w.precision with
    | none => simp [precisionText, hw] at hprecision
    | some digits =>
      rw [hw, precisionText, List.mem_cons] at hprecision
      rcases hprecision with rfl | hdigit
      · rfl
      · simp [isInert, (h.precision digits hw).2 c hdigit]
  · simp [isInert, h.conversion]

/-- A specifier is read at the front of a text when it stands there with its zeros as flags. -/
theorem word?_eq_some_iff {w : Word} : word? t = some w ↔ w.Reads w.text ∧ w.body <+: t := by
  refine ⟨reads_of_word?, ?_⟩
  rintro ⟨hreads, rest, rfl⟩
  exact word?_body_append hreads rest

/-- No specifier goes beyond an inert character. -/
theorem word?_append_inert (hx : isInert x = true) (t u : Text) : word? (t ++ x :: u) = word? t := by
  apply Option.ext
  intro w
  rw [word?_eq_some_iff, word?_eq_some_iff]
  refine and_congr_right fun hreads => ⟨?_, fun hfront => hfront.trans (List.prefix_append _ _)⟩
  rintro ⟨rest, hrest⟩
  rcases List.append_eq_append_iff.1 hrest with ⟨front, rfl, -⟩ | ⟨front, hbody, hbehind⟩
  · exact List.prefix_append _ _
  · cases front with
    | nil => simp [hbody]
    | cons c front =>
      obtain rfl : x = c := (List.cons.inj hbehind).1
      have hinert := hreads.grammatical.isInert_eq_false (c := x) (by simp [hbody])
      exact absurd hx (by simp [hinert])

/-- An inert character splits a text into two with the same specifiers. -/
theorem words_append_inert (hx : isInert x = true) (t u : Text) :
    words (t ++ x :: u) = words t ++ words u := by
  have hpercent : x ≠ '%' := by
    rintro rfl
    exact Bool.noConfusion hx
  suffices ∀ skip ≤ t.length, wordsFrom skip (t ++ x :: u) = wordsFrom skip t ++ wordsFrom 0 u from
    this 0 (Nat.zero_le _)
  intro skip hskip
  fun_induction wordsFrom skip t with
  | case1 skip =>
    obtain rfl : skip = 0 := Nat.le_zero.1 hskip
    simp [wordsFrom, hpercent]
  | case2 skip c t ih => exact ih (Nat.le_of_succ_le_succ hskip)
  | case3 t w hw ih =>
    have hfront := (reads_of_word? hw).2.length_le
    simp only [List.cons_append, wordsFrom, word?_append_inert hx, hw, if_true, ih hfront]
  | case4 t hw ih =>
    simp only [List.cons_append, wordsFrom, word?_append_inert hx, hw, if_true, ih (Nat.zero_le _)]
  | case5 c t hc ih =>
    simp only [List.cons_append, wordsFrom, if_neg hc, ih (Nat.zero_le _)]

/-- So do several inert characters. -/
theorem words_append_inerts {xs : Text} (hxs : xs.all isInert = true) (hne : xs ≠ [])
    (t u : Text) : words (t ++ (xs ++ u)) = words t ++ words u := by
  induction xs generalizing t with
  | nil => exact absurd rfl hne
  | cons x xs ih =>
    rw [List.all_cons, Bool.and_eq_true] at hxs
    rw [List.cons_append, words_append_inert hxs.1]
    cases xs with
    | nil => rfl
    | cons y ys =>
      have hrest := ih hxs.2 (List.cons_ne_nil y ys) []
      rw [List.nil_append] at hrest
      rw [hrest]
      rfl

/-! ### Escapes -/

/-- A character that is written in another way is inert, and so are the characters that are written. -/
theorem escapeChar_cases (before previous following : Option Char) (c : Char) :
    Source.escapeChar before previous c following = [c] ∨
      isInert c = true ∧ Source.escapeChar before previous c following ≠ [] ∧
        (Source.escapeChar before previous c following).all isInert = true := by
  unfold Source.escapeChar
  split_ifs with hquote hafter hbackslash hkeeps hfeed hreturn htab
  · exact Or.inl rfl
  · rw [hquote]
    exact Or.inr (by decide)
  · exact Or.inl rfl
  · rw [hbackslash]
    exact Or.inr (by decide)
  · rw [hfeed]
    exact Or.inr (by decide)
  · rw [hreturn]
    exact Or.inr (by decide)
  · rw [htab]
    exact Or.inr (by decide)
  · exact Or.inl rfl

/-- The raw text of a value has the specifiers of the value. -/
theorem words_escape (value : Text) : words (Source.escape value) = words value := by
  suffices ∀ (before previous : Option Char) (front : Text),
      words (front ++ Source.escapeFrom before previous value) = words (front ++ value) from
    this none none []
  -- what has been read stands in front, since a specifier may reach across it
  induction value with
  | nil => exact fun _ _ _ => rfl
  | cons c t ih =>
    intro before previous front
    rw [Source.escapeFrom]
    rcases escapeChar_cases before previous t.head? c with hsame | ⟨hc, hne, hinert⟩
    · rw [hsame, List.append_cons, ← List.append_assoc, ih]
    · rw [words_append_inerts hinert hne, words_append_inert hc]
      exact congrArg (words front ++ ·) (ih _ _ [])

/-- A character for which an escape stands is inert, and so is the one behind the backslash. -/
theorem isInert_of_escaped? {d v : Char} (h : Source.escaped? d = some v) :
    isInert d = true ∧ isInert v = true := by
  unfold Source.escaped? at h
  split_ifs at h with hn hr ht hself
  · cases h; subst hn; decide
  · cases h; subst hr; decide
  · cases h; subst ht; decide
  · obtain rfl := Option.some.inj h
    simp only [Bool.or_eq_true, decide_eq_true_eq] at hself
    rcases hself with (rfl | rfl) | rfl <;> decide

/-- The value of a raw text has the specifiers of the raw text. -/
theorem words_unescape (raw : Text) : words (Source.unescape raw) = words raw := by
  have hbackslash : isInert '\\' = true := by decide
  suffices ∀ front, words (front ++ Source.unescape raw) = words (front ++ raw) from this []
  fun_induction Source.unescape raw with
  | case1 => exact fun _ => rfl
  | case2 => exact fun _ => rfl
  | case3 d t v hv ih =>
    intro front
    obtain ⟨hd, hvalue⟩ := isInert_of_escaped? hv
    rw [words_append_inert hvalue, words_append_inert hbackslash]
    refine congrArg (words front ++ ·) ?_
    exact (ih []).trans (words_append_inert hd [] t).symm
  | case4 d t hv ih =>
    intro front
    rw [words_append_inert hbackslash, words_append_inert hbackslash]
    exact congrArg (words front ++ ·) (ih [d])
  | case5 c t hc ih =>
    intro front
    have hmove := ih (front ++ [c])
    simpa using hmove

end Phrasebook.Format
