import Mathlib.Logic.Function.Iterate
import Phrasebook.Proofs.Source.Literal

/-!
# Closed literals

A literal of a line is read exactly where one is closed: two like quotes with items between them, an
item being a backslash with the character behind it or another character than that quote. No two
literals open at one position. A scanner that passes over literals as a whole goes on at each step
and stays in the line, so it reaches the end of the line.
-/

namespace Phrasebook.Source

/-- An item of a raw text: a backslash with the character that it takes with it, or a character that
is neither a backslash nor the quote. -/
def IsItem (quote : Char) (item : Text) : Prop :=
  (∃ c, item = ['\\', c]) ∨ ∃ c, c ≠ quote ∧ c ≠ '\\' ∧ item = [c]

/-- A raw text is a sequence of items. -/
theorem isRaw_iff_items {quote : Char} {raw : Text} :
    isRaw quote raw = true ↔
      ∃ items : List Text, raw = items.flatten ∧ ∀ item ∈ items, IsItem quote item := by
  constructor
  · intro h
    fun_induction isRaw quote raw with
    | case1 => exact ⟨[], rfl, by simp⟩
    | case2 => simp at h
    | case3 d t ih =>
      obtain ⟨items, rfl, hitems⟩ := ih h
      exact ⟨['\\', d] :: items, rfl, List.forall_mem_cons.2 ⟨Or.inl ⟨d, rfl⟩, hitems⟩⟩
    | case4 c t hc ih =>
      simp only [Bool.and_eq_true, decide_eq_true_eq] at h
      obtain ⟨items, rfl, hitems⟩ := ih h.2
      exact ⟨[c] :: items, rfl, List.forall_mem_cons.2 ⟨Or.inr ⟨c, h.1, hc, rfl⟩, hitems⟩⟩
  · rintro ⟨items, rfl, hitems⟩
    induction items with
    | nil => rfl
    | cons item items ih =>
      obtain ⟨hitem, hrest⟩ := List.forall_mem_cons.1 hitems
      have hraw := ih hrest
      rcases hitem with ⟨c, rfl⟩ | ⟨c, hq, hc, rfl⟩
      · simpa [isRaw] using hraw
      · simpa [isRaw_cons hc, hq] using hraw

/-- A closed literal of a line. -/
structure IsLiteral (t : Text) (l : Literal) : Prop where
  /-- One of the two quotes opens it. -/
  quote : isQuote l.quote = true
  /-- That quote stands at the start. -/
  opens : t[l.start]? = some l.quote
  /-- It ends within the line. -/
  le : l.stop ≤ t.length
  /-- From the start to the end there are the quote, the raw text and the quote again. -/
  span : (t.take l.stop).drop l.start = l.quote :: l.raw ++ [l.quote]
  /-- The raw text is a sequence of items. -/
  items : ∃ items : List Text, l.raw = items.flatten ∧ ∀ item ∈ items, IsItem l.quote item

/-- The literal that is read at a position, with what follows it in the line. -/
theorem literalAt_eq_some_iff {t : Text} {start : Nat} {l : Literal} :
    literalAt t start = some l ↔ isQuote l.quote = true ∧ isRaw l.quote l.raw = true ∧
      l.start = start ∧ l.stop = start + l.raw.length + 2 ∧
        ∃ rest, t.drop start = l.quote :: l.raw ++ l.quote :: rest := by
  obtain ⟨raw, quote, start', stop⟩ := l
  constructor
  · intro h
    unfold literalAt at h
    split at h
    · simp at h
    · rename_i c u hdrop
      split at h
      · rename_i hc
        obtain ⟨⟨raw', rest⟩, hclose, he⟩ := Option.map_eq_some_iff.1 h
        obtain ⟨rfl, rfl, rfl, rfl⟩ := Literal.mk.inj he
        obtain ⟨hraw, rfl⟩ := closeLiteral_eq_some hclose
        exact ⟨hc, hraw, rfl, rfl, rest, hdrop⟩
      · simp at h
  · rintro ⟨hq, hraw, rfl, hstop, rest, hdrop⟩
    obtain rfl : stop = start' + raw.length + 2 := hstop
    have hclose := closeLiteral_append (ne_backslash_of_isQuote hq) hraw rest
    dsimp only at hq hdrop hclose
    rw [List.cons_append] at hdrop
    simp [literalAt, hdrop, hq, hclose]

/-- What is read at a position is the closed literal that opens there. -/
theorem literalAt_eq_some_iff_isLiteral {t : Text} {start : Nat} {l : Literal} :
    literalAt t start = some l ↔ l.start = start ∧ IsLiteral t l := by
  rw [literalAt_eq_some_iff]
  constructor
  · rintro ⟨hq, hraw, rfl, hstop, rest, hdrop⟩
    have hlength := congrArg List.length hdrop
    simp only [List.length_drop, List.length_append, List.length_cons] at hlength
    refine ⟨rfl, hq, ?_, by omega, ?_, isRaw_iff_items.1 hraw⟩
    · have hfirst : (t.drop l.start)[0]? = t[l.start + 0]? := List.getElem?_drop
      simpa [hdrop] using hfirst.symm
    · have hwidth : l.stop - l.start = (l.quote :: l.raw ++ [l.quote]).length := by
        simp only [List.length_append, List.length_cons, List.length_nil]
        omega
      have hfront : l.quote :: l.raw ++ l.quote :: rest =
          (l.quote :: l.raw ++ [l.quote]) ++ rest := by simp
      rw [List.drop_take, hdrop, hwidth, hfront, List.take_left]
  · rintro ⟨rfl, hl⟩
    have hspan := hl.span
    have hlength := congrArg List.length hspan
    simp only [List.length_drop, List.length_take, List.length_append, List.length_cons,
      List.length_nil] at hlength
    have hle := hl.le
    refine ⟨hl.quote, isRaw_iff_items.2 hl.items, rfl, by omega,
      (t.drop l.start).drop (l.stop - l.start), ?_⟩
    rw [List.drop_take] at hspan
    have hsplit := (List.take_append_drop (l.stop - l.start) (t.drop l.start)).symm
    rw [hspan] at hsplit
    simpa using hsplit

/-! ### Passing over literals -/

/-- Behind a quote a scanner goes on at a later position of the line. -/
theorem lt_skipLiteral {t : Text} {start : Nat} (hstart : start < t.length) :
    start < skipLiteral t start ∧ skipLiteral t start ≤ t.length := by
  unfold skipLiteral
  split
  · rename_i l hl
    have hstop := (literalAt_eq_some_iff.1 hl).2.2.2.1
    exact ⟨by omega, (literalAt_eq_some_iff_isLiteral.1 hl).2.le⟩
  · exact ⟨hstart, Nat.le_refl _⟩

/-- A way to go through a line that passes over each literal as a whole and goes on elsewhere. -/
def PassesLiterals (t : Text) (next : Nat → Nat) : Prop :=
  ∀ i quote, t[i]? = some quote →
    if isQuote quote then next i = skipLiteral t i else i < next i

/-- Each step within the line goes on. -/
theorem PassesLiterals.lt {t : Text} {next : Nat → Nat} (h : PassesLiterals t next) {i : Nat}
    (hi : i < t.length) : i < next i := by
  have hstep := h i t[i] (List.getElem?_eq_getElem hi)
  split at hstep
  · exact hstep ▸ (lt_skipLiteral hi).1
  · exact hstep

/-- Steps that go on within a line reach its end, after no more of them than characters are left. -/
theorem exists_iterate_ge {length : Nat} {next : Nat → Nat} (hnext : ∀ i < length, i < next i)
    (start : Nat) : ∃ n ≤ length - start, length ≤ next^[n] start := by
  induction hleft : length - start using Nat.strongRecOn generalizing start with
  | _ left ih =>
    rcases Nat.lt_or_ge start length with hlt | hge
    · have hstep := hnext start hlt
      obtain ⟨n, hn, hreached⟩ := ih (length - next start) (by omega) (next start) rfl
      exact ⟨n + 1, by omega, by rwa [Function.iterate_succ_apply]⟩
    · exact ⟨0, Nat.zero_le _, hge⟩

/-- A literal is read at a position exactly when a closed one opens there, and then there is no
other one. Behind a quote a scanner goes on at a later position of the line, so when it passes over
literals it reaches the end of the line after no more steps than characters are left. -/
theorem literalAt_reads_closed (t : Text) (start : Nat) :
    (∀ l, literalAt t start = some l ↔ l.start = start ∧ IsLiteral t l) ∧
    (∀ l l', IsLiteral t l → IsLiteral t l' → l.start = l'.start → l = l') ∧
    (literalAt t start = none ↔ ¬ ∃ l, l.start = start ∧ IsLiteral t l) ∧
    (∀ quote, t[start]? = some quote → isQuote quote = true →
      start < skipLiteral t start ∧ skipLiteral t start ≤ t.length) ∧
    ∀ next, PassesLiterals t next → ∃ n ≤ t.length - start, t.length ≤ next^[n] start := by
  refine ⟨fun l => literalAt_eq_some_iff_isLiteral, fun l l' hl hl' hsame => ?_, ?_,
    fun quote hquote _ => ?_, fun next hnext => exists_iterate_ge (fun i hi => hnext.lt hi) start⟩
  · have hread := literalAt_eq_some_iff_isLiteral.2 ⟨rfl, hl⟩
    have hread' := literalAt_eq_some_iff_isLiteral.2 ⟨rfl, hl'⟩
    rw [hsame] at hread
    exact Option.some.inj (hread.symm.trans hread')
  · simp only [← literalAt_eq_some_iff_isLiteral, Option.eq_none_iff_forall_ne_some, not_exists]
  · exact lt_skipLiteral (List.getElem?_eq_some_iff.1 hquote).1

/-- A quote behind a backslash closes nothing, and a backslash at the end of a line leaves a literal
open. -/
theorem literalAt_reads_closed_of_backslashes :
    IsLiteral "x 'a\\'b' 'c\\".toList ⟨"a\\'b".toList, '\'', 2, 8⟩ ∧
    (¬ ∃ l, l.start = 9 ∧ IsLiteral "x 'a\\'b' 'c\\".toList l) ∧
    9 < skipLiteral "x 'a\\'b' 'c\\".toList 9 := by
  obtain ⟨hread, -, -, -, -⟩ := literalAt_reads_closed "x 'a\\'b' 'c\\".toList 2
  obtain ⟨-, -, hnone, hskip, -⟩ := literalAt_reads_closed "x 'a\\'b' 'c\\".toList 9
  exact ⟨((hread _).1 (by decide +kernel)).2, hnone.1 (by decide +kernel),
    (hskip '\'' (by decide +kernel) rfl).1⟩

end Phrasebook.Source
