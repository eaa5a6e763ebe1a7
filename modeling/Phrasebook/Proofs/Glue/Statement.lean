import Phrasebook.Proofs.Locale.Guard
import Phrasebook.Proofs.Source.Comment

/-!
# The grammar of literal assignments

A statement is a literal assignment as it stands in a line: the name of the table, a bracketed
literal, an equals sign, another literal and perhaps a semicolon, with blanks anywhere between them.
A line is read as a literal assignment exactly when it is a statement with a comment or nothing
behind it, and the statement determines what is read. Whatever a line is read as, its comment has no
part in it.
-/

namespace Phrasebook.Glue

open Text (isBlank isBlankText trimLeft)

variable {table line : Text}

/-- Blanks in a row, or none. -/
abbrev Blanks := { t : Text // isBlankText t = true }

/-- A closed literal. A backslash takes the next character with it, so the raw text does not close
it. -/
structure Quotation where
  /-- The quote at both ends. -/
  quote : Char
  /-- What stands between the quotes. -/
  raw : Text
  /-- Double quotes and single quotes open literals. -/
  isQuote : Source.isQuote quote = true
  /-- The raw text is made of pairs that start with a backslash and of other characters than the
  backslash and the quote. -/
  isRaw : Source.isRaw quote raw = true

/-- A literal with its quotes. -/
def Quotation.text (q : Quotation) : Text :=
  q.quote :: q.raw ++ [q.quote]

/-- The look-up of a key as it is written, cut into its pieces. -/
structure LookUp where
  /-- The blanks behind the name of the table. -/
  afterTable : Blanks
  /-- The blanks behind the opening bracket. -/
  afterOpening : Blanks
  /-- The literal of the key. -/
  key : Quotation
  /-- The key is not empty. -/
  key_ne : key.raw ≠ []

/-- The text of a look-up in a table, up to the literal of the key. -/
def LookUp.text (l : LookUp) (table : Text) : Text :=
  table ++ l.afterTable.1 ++ ['['] ++ l.afterOpening.1 ++ l.key.text

/-- A literal assignment as it is written, cut into its pieces. -/
structure Statement extends LookUp where
  /-- The blanks before the look-up of the key that is assigned. -/
  indent : Blanks
  /-- The blanks behind the key. -/
  afterKey : Blanks
  /-- The blanks behind the closing bracket. -/
  afterClosing : Blanks
  /-- The blanks behind the equals sign. -/
  afterSign : Blanks
  /-- The literal that is assigned. -/
  value : Quotation
  /-- The blanks behind the value. -/
  afterValue : Blanks
  /-- Whether a semicolon follows. -/
  hasSemicolon : Bool
  /-- The blanks at the end. -/
  atEnd : Blanks

/-- A semicolon, or nothing. -/
def semicolonText (hasSemicolon : Bool) : Text :=
  if hasSemicolon then [';'] else []

namespace Statement

/-- A statement up to its equals sign. -/
def front (s : Statement) (table : Text) : Text :=
  s.indent.1 ++ s.toLookUp.text table ++ s.afterKey.1 ++ [']'] ++ s.afterClosing.1 ++ ['=']

/-- A statement behind its equals sign. -/
def back (s : Statement) : Text :=
  s.afterSign.1 ++ s.value.text ++ s.afterValue.1 ++ semicolonText s.hasSemicolon ++ s.atEnd.1

/-- The text of a statement about a table. -/
def text (s : Statement) (table : Text) : Text :=
  s.front table ++ s.back

/-- What a statement assigns: the raw text of its key, and the text that the raw text of its value
stands for. -/
def assignment (s : Statement) : Assignment :=
  ⟨s.key.raw, Source.unescape s.value.raw, s.indent.1⟩

end Statement

/-- Blanks are code. -/
theorem isCode_blanks (b : Blanks) : Source.IsCode b.1 := by
  refine Source.isCode_of_forall fun c hc => ?_
  have hblank : isBlank c = true := List.all_eq_true.1 b.2 c hc
  constructor
  · cases hquote : Source.isQuote c with
    | false => rfl
    | true => simp [isBlank_of_isQuote hquote] at hblank
  · rintro rfl
    exact absurd hblank (by decide)

/-- A name is code. -/
theorem isCode_of_isName (htable : Readers.isName table = true) : Source.IsCode table := by
  refine Source.isCode_of_forall fun c hc => ?_
  have hname : Readers.isNameChar c = true :=
    List.all_eq_true.1 (Bool.and_eq_true_iff.1 htable).2 c hc
  constructor
  · cases hquote : Source.isQuote c with
    | false => rfl
    | true =>
      simp only [Source.isQuote, Bool.or_eq_true, beq_iff_eq] at hquote
      rcases hquote with rfl | rfl <;> exact absurd hname (by decide)
  · rintro rfl
    exact absurd hname (by decide)

/-- Literals are code. -/
theorem Quotation.isCode (q : Quotation) : Source.IsCode q.text :=
  Source.isCode_literal q.isQuote q.isRaw

/-- A semicolon is code. -/
theorem isCode_semicolonText (hasSemicolon : Bool) :
    Source.IsCode (semicolonText hasSemicolon) :=
  Source.isCode_of_forall (by cases hasSemicolon <;> simp [semicolonText, Source.isQuote])

/-- A look-up is code. -/
theorem LookUp.isCode_text (htable : Readers.isName table = true) (l : LookUp) :
    Source.IsCode (l.text table) := by
  have hbracket : Source.IsCode ['['] := Source.isCode_of_forall (by simp [Source.isQuote])
  exact ((((isCode_of_isName htable).append (isCode_blanks _)).append hbracket).append
    (isCode_blanks _)).append l.key.isCode

namespace Statement

/-- What stands behind the equals sign of a statement is code. -/
theorem isCode_back (s : Statement) : Source.IsCode s.back :=
  ((((isCode_blanks _).append s.value.isCode).append (isCode_blanks _)).append
    (isCode_semicolonText _)).append (isCode_blanks _)

/-- A statement is code. -/
theorem isCode_text (htable : Readers.isName table = true) (s : Statement) :
    Source.IsCode (s.text table) := by
  have hbracket : Source.IsCode [']'] := Source.isCode_of_forall (by simp [Source.isQuote])
  have hsign : Source.IsCode ['='] := Source.isCode_of_forall (by simp [Source.isQuote])
  have htarget := ((isCode_blanks s.indent).append (s.toLookUp.isCode_text htable)).append
    (isCode_blanks s.afterKey)
  have hfront := ((htarget.append hbracket).append (isCode_blanks s.afterClosing)).append hsign
  exact hfront.append s.isCode_back

/-- The front of a statement is read, whatever follows its equals sign, except for another one. -/
theorem target?_front (s : Statement) (table : Text) {value : Text}
    (hvalue : value.head? ≠ some '=') :
    target? table (s.front table ++ value) = some ⟨s.key.raw, value⟩ := by
  refine target?_eq_some_iff.2 ⟨s.indent.1, s.afterTable.1, s.afterOpening.1, s.key.quote,
    s.afterKey.1, s.afterClosing.1, s.indent.2, s.afterTable.2, s.afterOpening.2, s.afterKey.2,
    s.afterClosing.2, s.key.isQuote, s.key_ne, s.key.isRaw, hvalue, ?_⟩
  simp [front, LookUp.text, Quotation.text]

/-- No equals sign follows that of a statement. -/
theorem head?_back (s : Statement) (t : Text) : (s.back ++ t).head? ≠ some '=' := by
  intro hhead
  cases hblank : s.afterSign.1 with
  | nil =>
    have hquote : s.value.quote = '=' := by simpa [back, hblank, Quotation.text] using hhead
    exact absurd s.value.isQuote (by simp [hquote, Source.isQuote])
  | cons c rest =>
    have hc : c = '=' := by simpa [back, hblank] using hhead
    exact absurd s.afterSign.2 (by simp [hblank, hc, isBlank])

/-- A line that starts with a statement has its indent. -/
theorem indent_front (htable : Readers.isName table = true) (s : Statement) (t : Text) :
    Text.indent (s.front table ++ t) = s.indent.1 := by
  have hhead := Locale.not_isBlank_head_of_isName htable
  cases table with
  | nil => simp at hhead
  | cons c rest =>
    simpa [front, LookUp.text] using Text.indent_append_cons s.indent.2 (by simpa using hhead) _

end Statement

/-- What may follow the value of a statement: blanks, with at most one semicolon among them. -/
theorem endsStatement_iff {t : Text} :
    endsStatement t = true ↔ ∃ (a b : Blanks) (hasSemicolon : Bool),
      t = a.1 ++ semicolonText hasSemicolon ++ b.1 := by
  constructor
  · intro h
    unfold endsStatement at h
    split at h
    · rename_i hblank
      exact ⟨⟨t, Text.trimLeft_eq_nil_iff.1 hblank⟩, ⟨[], rfl⟩, false, by simp [semicolonText]⟩
    · rename_i c rest htrim
      obtain ⟨hsemicolon, hrest⟩ := Bool.and_eq_true_iff.1 h
      obtain rfl : c = ';' := by simpa using hsemicolon
      obtain ⟨a, ha, rfl⟩ := Text.exists_blank_of_trimLeft_eq htrim
      exact ⟨⟨a, ha⟩, ⟨rest, hrest⟩, true, by simp [semicolonText]⟩
  · rintro ⟨⟨a, ha⟩, ⟨b, hb⟩, hasSemicolon, rfl⟩
    cases hasSemicolon with
    | false =>
      have hblank : trimLeft (a ++ b) = [] := Text.trimLeft_eq_nil_iff.2 (by simp [ha, hb])
      simp [endsStatement, semicolonText, hblank]
    | true =>
      have htrim : trimLeft (a ++ ';' :: b) = ';' :: b := by
        rw [Text.trimLeft_append_of_blank ha, Text.trimLeft_cons_of_not_blank (by decide)]
      simp [endsStatement, semicolonText, htrim, hb]

/-- The text behind an equals sign assigns a literal when it is the back of a statement, with a
comment or nothing behind it. -/
theorem assignedLiteral?_eq_some_iff {value raw : Text} :
    assignedLiteral? value = some raw ↔
      ∃ (a b c : Blanks) (q : Quotation) (hasSemicolon : Bool) (comment : Option Text),
        q.raw = raw ∧ value = a.1 ++ q.text ++ b.1 ++ semicolonText hasSemicolon ++ c.1 ++
          Source.commentText comment := by
  constructor
  · intro h
    unfold assignedLiteral? at h
    split at h
    · simp at h
    · rename_i raw' rest hliteral
      split_ifs at h with hend
      obtain rfl := Option.some.inj h
      obtain ⟨quote, hquote, hraw, htrim⟩ := Source.takeLiteral_eq_some_iff.1 hliteral
      obtain ⟨a, ha, hcode⟩ := Text.exists_blank_of_trimLeft_eq htrim
      obtain ⟨b, c, hasSemicolon, rfl⟩ := endsStatement_iff.1 hend
      obtain ⟨comment, hvalue⟩ := Source.exists_eq_stripComment_append value
      refine ⟨⟨a, ha⟩, b, c, ⟨quote, raw', hquote, hraw⟩, hasSemicolon, comment, rfl, ?_⟩
      rw [hvalue, hcode]
      simp [Quotation.text]
  · rintro ⟨a, b, c, q, hasSemicolon, comment, rfl, rfl⟩
    have hcode := (((isCode_blanks a).append q.isCode).append (isCode_blanks b)).append
      (isCode_semicolonText hasSemicolon) |>.append (isCode_blanks c)
    have htrim : trimLeft (a.1 ++ q.text ++ b.1 ++ semicolonText hasSemicolon ++ c.1) =
        q.text ++ (b.1 ++ semicolonText hasSemicolon ++ c.1) := by
      simp only [List.append_assoc]
      rw [Text.trimLeft_append_of_blank a.2, Quotation.text, List.cons_append, List.cons_append,
        Text.trimLeft_cons_of_not_blank (isBlank_of_isQuote q.isQuote)]
    have hliteral : Source.takeLiteral (q.text ++ (b.1 ++ semicolonText hasSemicolon ++ c.1)) =
        some (q.raw, b.1 ++ semicolonText hasSemicolon ++ c.1) :=
      Source.takeLiteral_eq_some_iff.2 ⟨q.quote, q.isQuote, q.isRaw, by simp [Quotation.text]⟩
    have hend : endsStatement (b.1 ++ semicolonText hasSemicolon ++ c.1) = true :=
      endsStatement_iff.2 ⟨b, c, hasSemicolon, rfl⟩
    simp only [assignedLiteral?, hcode.stripComment, htrim, hliteral, hend, if_true]

/-- A line is read as a literal assignment when it is a statement, with a comment or nothing behind
it. -/
theorem assignment?_eq_some_iff (htable : Readers.isName table = true) {a : Assignment} :
    assignment? table line = some a ↔
      ∃ (s : Statement) (comment : Option Text),
        line = s.text table ++ Source.commentText comment ∧ s.assignment = a := by
  constructor
  · intro h
    obtain ⟨target, raw, htarget, hraw, rfl⟩ := exists_of_assignment? h
    obtain ⟨i, x, y, quote, u, v, hi, hx, hy, hu, hv, hquote, hkey, hkeyRaw, -, hline⟩ :=
      target?_eq_some_iff.1 htarget
    obtain ⟨e, b, c, q, hasSemicolon, comment, rfl, hvalue⟩ := assignedLiteral?_eq_some_iff.1 hraw
    let s : Statement :=
      { indent := ⟨i, hi⟩, afterTable := ⟨x, hx⟩, afterOpening := ⟨y, hy⟩
        key := ⟨quote, target.key, hquote, hkeyRaw⟩, key_ne := hkey
        afterKey := ⟨u, hu⟩, afterClosing := ⟨v, hv⟩, afterSign := e, value := q
        afterValue := b, hasSemicolon := hasSemicolon, atEnd := c }
    have hsplit : line = s.text table ++ Source.commentText comment := by
      rw [hline, hvalue]
      simp [s, Statement.text, Statement.front, Statement.back, LookUp.text, Quotation.text]
    refine ⟨s, comment, hsplit, ?_⟩
    rw [hsplit, Statement.text, List.append_assoc, s.indent_front htable]
    rfl
  · rintro ⟨s, comment, rfl, rfl⟩
    have htarget := s.target?_front table (s.head?_back (Source.commentText comment))
    have hliteral : assignedLiteral? (s.back ++ Source.commentText comment) = some s.value.raw :=
      assignedLiteral?_eq_some_iff.2 ⟨s.afterSign, s.afterValue, s.atEnd, s.value, s.hasSemicolon,
        comment, rfl, rfl⟩
    rw [Statement.text, List.append_assoc, assignment?, htarget]
    simp [hliteral, s.indent_front htable, Statement.assignment]

/-- The comment of a line has no part in what the line is read as. -/
theorem assignment?_stripComment (htable : Readers.isName table = true) (line : Text) :
    assignment? table (Source.stripComment line) = assignment? table line := by
  apply Option.ext
  intro a
  rw [assignment?_eq_some_iff htable, assignment?_eq_some_iff htable]
  constructor
  · rintro ⟨s, comment, hcode, ha⟩
    obtain ⟨more, hline⟩ := Source.exists_eq_stripComment_append line
    obtain ⟨both, hboth⟩ := Source.exists_commentText_append comment more
    refine ⟨s, both, ?_, ha⟩
    rw [hline, hcode, List.append_assoc, hboth]
  · rintro ⟨s, comment, rfl, ha⟩
    refine ⟨s, none, ?_, ha⟩
    rw [(s.isCode_text htable).stripComment comment]
    exact (List.append_nil _).symm

/-- A line is read as a literal assignment exactly when it is a statement about the table, with a
comment or nothing behind it: then its key is the raw text of the first literal, its value what the
second one stands for, and its indent what the line starts with. The line without its comment is
read as the same. -/
theorem assignment?_iff_statement (htable : Readers.isName table = true) (line : Text) :
    (∀ a, assignment? table line = some a ↔
      ∃ (s : Statement) (comment : Option Text),
        line = s.text table ++ Source.commentText comment ∧ s.assignment = a) ∧
      assignment? table (Source.stripComment line) = assignment? table line :=
  ⟨fun _ => assignment?_eq_some_iff htable, assignment?_stripComment htable line⟩

/-- The key and the value hold quotes, brackets and comment signs, and the comment holds a quote. -/
theorem assignment?_iff_statement_of_quotes :
    let line := "\tL [ 'a\\'] = \"--' ]= '\\\\--\\'\"' ; -- it's \"so".toList
    let a : Assignment := ⟨"a\\'] = \"--".toList, "\\--'\"".toList, "\t".toList⟩
    Readers.isName "L".toList = true ∧
      (∃ (s : Statement) (comment : Option Text),
        line = s.text "L".toList ++ Source.commentText comment ∧ s.assignment = a) ∧
      assignment? "L".toList (Source.stripComment line) = some a := by
  intro line a
  have htable : Readers.isName "L".toList = true := by decide +kernel
  have hread : assignment? "L".toList line = some a := by decide +kernel
  obtain ⟨hgrammar, hcomment⟩ := assignment?_iff_statement htable line
  exact ⟨htable, (hgrammar a).1 hread, hcomment.trans hread⟩

end Phrasebook.Glue
