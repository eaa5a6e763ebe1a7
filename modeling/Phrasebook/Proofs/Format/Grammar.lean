import Mathlib.Data.List.TakeWhile
import Phrasebook.Format.Specifier

/-!
# The grammar of specifiers

A specifier is a word `% (digits $)? flags* digits* (. digits)? conversion`. Zeros are flags and digits, so
a word can have several readings; they differ in the zeros in front of the width only, and there is one
reading in which all of these are flags. Taking as much as possible for each part finds the reading of the
only word that stands at the front of a text.
-/

namespace Phrasebook.Format

open Text (isDigit)

/-! ### Words and their readings -/

/-- The characters that end a specifier. -/
def conversions : Text :=
  ['s', 'd', 'i', 'o', 'x', 'X', 'e', 'E', 'f', 'g', 'G', 'c', 'u', 'a', 'A', '%']

/-- A run of one or more digits. -/
def IsNumeral (digits : Text) : Prop :=
  digits ≠ [] ∧ ∀ c ∈ digits, isDigit c = true

/-- Parts that make up a word of the grammar. -/
structure Word.IsGrammatical (w : Word) : Prop where
  /-- Digits stand before the dollar sign. -/
  index : ∀ digits ∈ w.index, IsNumeral digits
  /-- The flags are flags. -/
  flags : ∀ c ∈ w.flags, isFlag c = true
  /-- The width has no other characters than digits. -/
  width : ∀ c ∈ w.width, isDigit c = true
  /-- Digits stand after the point. -/
  precision : ∀ digits ∈ w.precision, IsNumeral digits
  /-- The last character is a conversion. -/
  conversion : w.conversion ∈ conversions
  /-- The kind is the one that the conversion asks for. -/
  kind : kindOf? w.conversion = some w.kind

/-- A word of the grammar. -/
def IsSpecifier (raw : Text) : Prop :=
  ∃ w : Word, w.IsGrammatical ∧ w.text = raw

/-- A reading of a text as a specifier in which zeros in front of the width are flags. -/
structure Word.Reads (w : Word) (raw : Text) : Prop where
  /-- The parts are those of a specifier. -/
  grammatical : w.IsGrammatical
  /-- No zero is left to the width. -/
  width : w.width.head? ≠ some '0'
  /-- The parts make up the text. -/
  text : w.text = raw

/-! ### Characters -/

/-- Conversions are no digits and no flags, and they do not open a part of a specifier. -/
theorem conversion_cases {c : Char} (h : c ∈ conversions) :
    isDigit c = false ∧ isFlag c = false ∧ c ≠ '$' ∧ c ≠ '.' := by
  have hall : conversions.all (fun c => !isDigit c && !isFlag c && c != '$' && c != '.') = true := by
    decide
  simpa [and_assoc] using List.all_eq_true.1 hall c h

/-- Only conversions ask for a kind. -/
theorem mem_conversions_of_kindOf? {c : Char} {kind : Kind} (h : kindOf? c = some kind) :
    c ∈ conversions := by
  by_contra hc
  simp only [conversions, List.mem_cons, List.not_mem_nil, or_false, not_or] at hc
  have hnone : kindOf? c = none := by
    simp only [kindOf?, hc, decide_false, Bool.or_self, Bool.false_eq_true, if_false]
  rw [hnone] at h
  exact nomatch h

/-- The percent sign is the conversion that takes no argument. -/
theorem kindOf?_eq_percent_iff {c : Char} : kindOf? c = some .percent ↔ c = '%' := by
  constructor
  · intro h
    have hall : conversions.all (fun c => kindOf? c != some .percent || c == '%') = true := by
      decide
    simpa [h] using List.all_eq_true.1 hall c (mem_conversions_of_kindOf? h)
  · rintro rfl
    rfl

/-- The zero is the only digit that is a flag. -/
theorem eq_zero_of_isFlag {c : Char} (hflag : isFlag c = true) (hdigit : isDigit c = true) :
    c = '0' := by
  simp only [isFlag, Bool.or_eq_true, beq_iff_eq] at hflag
  rcases hflag with ((rfl | rfl) | rfl) | rfl
  · exact absurd hdigit (by decide)
  · exact absurd hdigit (by decide)
  · rfl
  · exact absurd hdigit (by decide)

/-! ### The parts of a word -/

/-- The part of a word that an index makes up. -/
def indexText : Option Text → Text
  | none => []
  | some digits => digits ++ ['$']

/-- The part of a word that a precision makes up. -/
def precisionText : Option Text → Text
  | none => []
  | some digits => '.' :: digits

/-- A word is made up of its parts. -/
theorem Word.body_eq (w : Word) :
    w.body = indexText w.index ++ (w.flags ++ (w.width ++
      (precisionText w.precision ++ [w.conversion]))) := by
  obtain ⟨index, flags, width, precision, conversion, kind⟩ := w
  cases index <;> cases precision <;> simp [body, indexText, precisionText]

/-- Characters of a sort are taken up to the first one of another sort. -/
theorem takeWhile_append_of_head {p : Char → Bool} {front rest : Text} (h : ∀ c ∈ front, p c = true)
    (hrest : ∀ c ∈ rest.head?, p c = false) : (front ++ rest).takeWhile p = front := by
  rw [List.takeWhile_append_of_pos h]
  cases rest with
  | nil => simp
  | cons c rest => simp [hrest c rfl]

/-- Characters of a sort are dropped up to the first one of another sort. -/
theorem dropWhile_append_of_head {p : Char → Bool} {front rest : Text} (h : ∀ c ∈ front, p c = true)
    (hrest : ∀ c ∈ rest.head?, p c = false) : (front ++ rest).dropWhile p = rest := by
  rw [List.dropWhile_append_of_pos h]
  cases rest with
  | nil => rfl
  | cons c rest => simp [hrest c rfl]

/-- What follows the characters of a sort is one of those in front, or the first one of another sort. -/
theorem head?_dropWhile_append {p : Char → Bool} {c d : Char} {rest : Text} (front : Text)
    (hc : p c = false) (h : ((front ++ c :: rest).dropWhile p).head? = some d) :
    d ∈ front ∨ d = c := by
  induction front with
  | nil => simp_all
  | cons b front ih =>
    rw [List.cons_append, List.dropWhile_cons] at h
    split_ifs at h
    · exact (ih h).imp_left (List.mem_cons_of_mem b)
    · simp_all

/-! ### Taking the parts -/

/-- An index is taken with its dollar sign. -/
theorem takeIndex_append {digits : Text} (h : IsNumeral digits) (rest : Text) :
    takeIndex (digits ++ '$' :: rest) = (some digits, rest) := by
  have htake : (digits ++ '$' :: rest).takeWhile isDigit = digits :=
    takeWhile_append_of_head h.2 (by simp; decide)
  obtain ⟨c, digits, rfl⟩ := List.exists_cons_of_ne_nil h.1
  unfold takeIndex
  simp only [htake, List.drop_left]

/-- Digits without a dollar sign behind them are no index. -/
theorem takeIndex_of_head {t : Text} (h : (t.dropWhile isDigit).head? ≠ some '$') :
    takeIndex t = (none, t) := by
  have hdrop : t.drop (t.takeWhile isDigit).length = t.dropWhile isDigit := by
    calc t.drop (t.takeWhile isDigit).length
        = (t.takeWhile isDigit ++ t.dropWhile isDigit).drop (t.takeWhile isDigit).length := by
          rw [List.takeWhile_append_dropWhile]
      _ = t.dropWhile isDigit := List.drop_left
  unfold takeIndex
  dsimp only
  rw [hdrop]
  split
  · simp_all
  · rfl

/-- An index is taken, if there is one, when no dollar sign stands behind the next digits. -/
theorem takeIndex_indexText {index : Option Text} (hindex : ∀ digits ∈ index, IsNumeral digits)
    {t : Text} (h : (t.dropWhile isDigit).head? ≠ some '$') :
    takeIndex (indexText index ++ t) = (index, t) := by
  cases index with
  | none => exact takeIndex_of_head h
  | some digits =>
    have hsplit : indexText (some digits) ++ t = digits ++ '$' :: t := by simp [indexText]
    rw [hsplit, takeIndex_append (hindex digits rfl)]

/-- An index and what is left make up the text. -/
theorem takeIndex_spec (t : Text) :
    indexText (takeIndex t).1 ++ (takeIndex t).2 = t ∧
      ∀ digits ∈ (takeIndex t).1, IsNumeral digits := by
  unfold takeIndex
  dsimp only
  split
  next c digits rest hdigits hrest =>
    refine ⟨?_, ?_⟩
    · have hsplit := List.take_append_drop (t.takeWhile isDigit).length t
      have htake := List.prefix_iff_eq_take.1 (List.takeWhile_prefix (l := t) isDigit)
      rw [hrest, ← htake] at hsplit
      simpa [indexText] using hsplit
    · rintro _ ⟨⟩
      exact ⟨by simp [hdigits], fun c hc => List.mem_takeWhile_imp hc⟩
  next => exact ⟨rfl, nofun⟩

/-- A precision is taken up to the first character that is no digit. -/
theorem takePrecision_append {digits rest : Text} (h : IsNumeral digits)
    (hrest : ∀ c ∈ rest.head?, isDigit c = false) :
    takePrecision ('.' :: (digits ++ rest)) = (some digits, rest) := by
  have htake := takeWhile_append_of_head h.2 hrest
  have hdrop := dropWhile_append_of_head h.2 hrest
  obtain ⟨c, digits, rfl⟩ := List.exists_cons_of_ne_nil h.1
  simp only [takePrecision, htake, hdrop]

/-- Without a point there is no precision. -/
theorem takePrecision_of_head {t : Text} (h : t.head? ≠ some '.') : takePrecision t = (none, t) := by
  unfold takePrecision
  split
  · simp at h
  · rfl

/-- A precision is taken, if there is one, when the next character could not belong to it. -/
theorem takePrecision_precisionText {precision : Option Text}
    (hprecision : ∀ digits ∈ precision, IsNumeral digits) {c : Char} (hdigit : isDigit c = false)
    (hpoint : c ≠ '.') (rest : Text) :
    takePrecision (precisionText precision ++ c :: rest) = (precision, c :: rest) := by
  cases precision with
  | none => exact takePrecision_of_head fun heq => hpoint (Option.some.inj heq)
  | some digits => exact takePrecision_append (hprecision digits rfl) (by simpa using hdigit)

/-- A precision and what is left make up the text. -/
theorem takePrecision_spec (t : Text) :
    precisionText (takePrecision t).1 ++ (takePrecision t).2 = t ∧
      ∀ digits ∈ (takePrecision t).1, IsNumeral digits := by
  unfold takePrecision
  split
  next rest =>
    split
    next => exact ⟨rfl, nofun⟩
    next hne =>
      refine ⟨by simp [precisionText], ?_⟩
      rintro _ ⟨⟩
      exact ⟨fun hnil => hne hnil, fun c hc => List.mem_takeWhile_imp hc⟩
  next => exact ⟨rfl, nofun⟩

/-! ### Reading a word -/

/-- The specifier at the front of a text has its parts one after another. -/
theorem word?_eq (t : Text) :
    let rest := (takeIndex t).2
    let behind := takePrecision ((rest.dropWhile isFlag).dropWhile isDigit)
    word? t = behind.2.head?.bind fun c => (kindOf? c).map fun kind =>
      ⟨(takeIndex t).1, rest.takeWhile isFlag, (rest.dropWhile isFlag).takeWhile isDigit, behind.1, c,
        kind⟩ := by
  intro rest behind
  simp only [word?]
  split
  next h => simp [behind, rest, h]
  next c tail h => simp [behind, rest, h]

/-- What is read at the front of a text is a specifier that stands there, and its zeros are flags. -/
theorem reads_of_word? {t : Text} {w : Word} (h : word? t = some w) :
    w.Reads w.text ∧ w.body <+: t := by
  rw [word?_eq] at h
  obtain ⟨c, hc, hmade⟩ := Option.bind_eq_some_iff.1 h
  obtain ⟨kind, hkind, rfl⟩ := Option.map_eq_some_iff.1 hmade
  obtain ⟨hindex, hindexDigits⟩ := takeIndex_spec t
  set rest := (takeIndex t).2
  obtain ⟨hprecision, hprecisionDigits⟩ := takePrecision_spec ((rest.dropWhile isFlag).dropWhile isDigit)
  refine ⟨⟨⟨hindexDigits, fun c hc => List.mem_takeWhile_imp hc, fun c hc => List.mem_takeWhile_imp hc,
    hprecisionDigits, mem_conversions_of_kindOf? hkind, hkind⟩, ?_, rfl⟩, ?_⟩
  · intro hzero
    have hfirst := List.head?_dropWhile_not isFlag rest
    rw [List.head?_takeWhile, Option.filter_eq_some_iff] at hzero
    rw [hzero.1] at hfirst
    exact absurd hfirst (by decide)
  · obtain ⟨tail, htail⟩ := List.head?_eq_some_iff.1 hc
    refine ⟨tail, ?_⟩
    rw [Word.body_eq]
    simp only [List.append_assoc, List.singleton_append]
    rw [← htail, hprecision, List.takeWhile_append_dropWhile, List.takeWhile_append_dropWhile, hindex]

/-- A width whose zeros are flags is no flag, nor is what stands behind it. -/
theorem isFlag_head?_width {width : Text} {c : Char} (hwidth : ∀ d ∈ width, isDigit d = true)
    (hzero : width.head? ≠ some '0') (hc : isFlag c = false) (tail : Text) :
    ∀ d ∈ (width ++ c :: tail).head?, isFlag d = false := by
  intro d hd
  cases width with
  | nil =>
    obtain rfl := Option.some.inj hd
    exact hc
  | cons e width =>
    obtain rfl := Option.some.inj hd
    rw [Bool.eq_false_iff]
    intro hflag
    exact hzero (congrArg some (eq_zero_of_isFlag hflag (hwidth e (by simp))))

/-- A specifier at the front of a text is read in the way in which its zeros are flags. -/
theorem word?_body_append {w : Word} {raw : Text} (h : w.Reads raw) (rest : Text) :
    word? (w.body ++ rest) = some w := by
  obtain ⟨index, flags, width, precision, conversion, kind⟩ := w
  obtain ⟨⟨hindex, hflags, hwidth, hprecision, hconversion, hkind⟩, hzero, -⟩ := h
  dsimp only at hindex hflags hwidth hprecision hconversion hkind hzero
  obtain ⟨hdigit, hflag, hdollar, hpoint⟩ := conversion_cases hconversion
  -- what stands behind the width is taken for no other part
  obtain ⟨c, tail, hback, hc⟩ : ∃ c tail, precisionText precision ++ conversion :: rest = c :: tail ∧
      isDigit c = false ∧ isFlag c = false ∧ c ≠ '$' := by
    cases precision with
    | none => exact ⟨conversion, rest, rfl, hdigit, hflag, hdollar⟩
    | some digits => exact ⟨'.', digits ++ conversion :: rest, rfl, by decide⟩
  have htakeIndex : takeIndex (indexText index ++ (flags ++ (width ++ c :: tail))) =
      (index, flags ++ (width ++ c :: tail)) := by
    refine takeIndex_indexText hindex fun hnext => ?_
    rw [← List.append_assoc] at hnext
    rcases head?_dropWhile_append (flags ++ width) hc.1 hnext with hmem | heq
    · rcases List.mem_append.1 hmem with hmem | hmem
      · exact absurd (hflags _ hmem) (by decide)
      · exact absurd (hwidth _ hmem) (by decide)
    · exact hc.2.2 heq.symm
  have htakePrecision := takePrecision_precisionText hprecision hdigit hpoint rest
  have hwidthFlag := isFlag_head?_width hwidth hzero hc.2.1 tail
  have hbackDigit : ∀ d ∈ (c :: tail).head?, isDigit d = false := by simpa using hc.1
  rw [Word.body_eq, word?_eq]
  simp only [List.append_assoc, List.singleton_append, hback, htakeIndex,
    takeWhile_append_of_head hflags hwidthFlag, dropWhile_append_of_head hflags hwidthFlag,
    takeWhile_append_of_head hwidth hbackDigit, dropWhile_append_of_head hwidth hbackDigit,
    hback ▸ htakePrecision, List.head?_cons, Option.bind_some, hkind, Option.map_some]

/-- Every specifier has a reading in which zeros in front of the width are flags. -/
theorem IsSpecifier.exists_reads {raw : Text} (h : IsSpecifier raw) : ∃ w : Word, w.Reads raw := by
  obtain ⟨w, hw, rfl⟩ := h
  refine ⟨{ w with
    flags := w.flags ++ w.width.takeWhile isFlag
    width := w.width.dropWhile isFlag }, ⟨hw.index, ?_, ?_, hw.precision, hw.conversion, hw.kind⟩, ?_, ?_⟩
  · intro c hc
    rcases List.mem_append.1 hc with hc | hc
    · exact hw.flags c hc
    · exact List.mem_takeWhile_imp hc
  · exact fun c hc => hw.width c ((List.dropWhile_sublist isFlag).subset hc)
  · intro hzero
    have hfirst := List.head?_dropWhile_not isFlag w.width
    rw [show (w.width.dropWhile isFlag).head? = some '0' from hzero] at hfirst
    exact absurd hfirst (by decide)
  · rw [Word.text, Word.text, Word.body_eq, Word.body_eq]
    simp only [List.append_assoc]
    rw [← List.append_assoc (w.width.takeWhile isFlag), List.takeWhile_append_dropWhile]

/-- A specifier has one reading in which zeros in front of the width are flags. -/
theorem Word.Reads.unique {w w' : Word} {raw : Text} (h : w.Reads raw) (h' : w'.Reads raw) : w = w' := by
  have hbody : w.body = w'.body := (List.cons.inj (h.text.trans h'.text.symm)).2
  have hread := word?_body_append h []
  rw [hbody, word?_body_append h' []] at hread
  exact (Option.some.inj hread).symm

/-- A specifier at the front of a text is the one that is read there. -/
theorem IsSpecifier.exists_word? {raw t : Text} (h : IsSpecifier raw) (hfront : raw <+: '%' :: t) :
    ∃ w, word? t = some w ∧ w.text = raw := by
  obtain ⟨w, hw⟩ := h.exists_reads
  obtain ⟨rest, hrest⟩ := hfront
  rw [← hw.text, Word.text, List.cons_append] at hrest
  exact ⟨w, (List.cons.inj hrest).2 ▸ word?_body_append hw rest, hw.text⟩

/-- A specifier ends with its conversion. -/
theorem Word.Reads.getLast? {w : Word} {raw : Text} (h : w.Reads raw) :
    raw.getLast? = some w.conversion := by
  rw [← h.text, Word.text, Word.body, ← List.cons_append, List.getLast?_concat]

end Phrasebook.Format
