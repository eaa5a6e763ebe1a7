import Mathlib.Data.List.Induction
import Mathlib.Tactic.SplitIfs
import Phrasebook.Glue.Assignment
import Phrasebook.Proofs.Source.Escape
import Phrasebook.Proofs.Text.Blank

/-!
# The grammar of assignments

A line assigns a key exactly when it is made of the table's name, a bracketed literal and an equals
sign, with blanks between them. The decomposition determines the key and the text behind the equals
sign, whatever the name of the table is. A written line therefore assigns its key, and a plain value
is read back from it.
-/

namespace Phrasebook.Glue

open Text (isBlank isBlankText trimLeft)

/-- Whether a text can stand as a key between double quotes. -/
def IsKey (key : Text) : Prop :=
  key ≠ [] ∧ Source.takeLiteral ('"' :: key ++ ['"']) = some (key, [])

instance : DecidablePred IsKey :=
  fun key => inferInstanceAs (Decidable (key ≠ [] ∧ _))

/-- A key is a raw text that is not empty. -/
theorem isKey_iff {key : Text} : IsKey key ↔ key ≠ [] ∧ Source.isRaw '"' key = true := by
  have hq : Source.isQuote '"' = true := rfl
  constructor
  · rintro ⟨hne, hk⟩
    obtain ⟨quote, _, hraw, he⟩ := Source.takeLiteral_eq_some_iff.1 hk
    obtain rfl : quote = '"' := (List.cons.inj he).1.symm
    exact ⟨hne, hraw⟩
  · rintro ⟨hne, hraw⟩
    exact ⟨hne, Source.takeLiteral_eq_some_iff.2 ⟨'"', hq, hraw, rfl⟩⟩

/-- Quotes and brackets are not blank. -/
theorem isBlank_of_isQuote {c : Char} (h : Source.isQuote c = true) : isBlank c = false := by
  simp only [Source.isQuote, Bool.or_eq_true, beq_iff_eq] at h
  rcases h with rfl | rfl <;> decide

/-- The tails of a text without some of the blanks at its front. -/
theorem mem_blankTails_iff {t tail : Text} :
    tail ∈ blankTails t ↔ ∃ s, isBlankText s = true ∧ t = s ++ tail := by
  induction t with
  | nil =>
    simp only [blankTails, List.mem_singleton]
    constructor
    · rintro rfl
      exact ⟨[], rfl, rfl⟩
    · rintro ⟨s, _, he⟩
      exact (List.append_eq_nil_iff.1 he.symm).2
  | cons c t ih =>
    simp only [blankTails, List.mem_cons]
    constructor
    · rintro (rfl | h)
      · exact ⟨[], rfl, rfl⟩
      · split_ifs at h with hc
        · obtain ⟨s, hs, rfl⟩ := ih.1 h
          exact ⟨c :: s, by simp [hc, hs], rfl⟩
        · simp at h
    · rintro ⟨s, hs, he⟩
      cases s with
      | nil => exact Or.inl he.symm
      | cons d s =>
        obtain ⟨rfl, rfl⟩ := List.cons.inj he
        simp only [Text.isBlankText_cons, Bool.and_eq_true] at hs
        rw [if_pos hs.1]
        exact Or.inr (ih.2 ⟨s, hs.2, rfl⟩)

/-- The table's name, a bracket and a quote open a look-up, and the opening has their places. -/
theorem opening?_eq_some_iff {table t : Text} {o : Opening} :
    opening? table t = some o ↔
      ∃ a b rest, isBlankText a = true ∧ isBlankText b = true ∧
        rest.head?.any Source.isQuote = true ∧ t = table ++ (a ++ '[' :: (b ++ rest)) ∧
        o = ⟨table.length + a.length, table.length + a.length + 1 + b.length, rest⟩ := by
  constructor
  · intro h
    unfold opening? at h
    cases ht : Text.after? table t with
    | none => simp [ht] at h
    | some afterName =>
      simp only [ht] at h
      split at h
      · rename_i afterBracket htrim
        split_ifs at h with hq
        refine ⟨Text.indent afterName, Text.indent afterBracket, trimLeft afterBracket,
          Text.isBlankText_indent _, Text.isBlankText_indent _, hq, ?_, (Option.some.inj h).symm⟩
        rw [Text.indent_append_trimLeft, ← htrim, Text.indent_append_trimLeft]
        exact Text.after?_eq_some_iff.1 ht
      · simp at h
  · rintro ⟨a, b, rest, ha, hb, hq, rfl, rfl⟩
    obtain ⟨quote, r, rfl⟩ : ∃ quote r, rest = quote :: r := by
      cases rest with
      | nil => simp at hq
      | cons quote r => exact ⟨quote, r, rfl⟩
    have hquote : isBlank quote = false := isBlank_of_isQuote (by simpa using hq)
    have hbracket : isBlank '[' = false := by decide
    have htrim : trimLeft (a ++ '[' :: (b ++ quote :: r)) = '[' :: (b ++ quote :: r) := by
      rw [Text.trimLeft_append_of_blank ha, Text.trimLeft_cons_of_not_blank hbracket]
    have hrest : trimLeft (b ++ quote :: r) = quote :: r := by
      rw [Text.trimLeft_append_of_blank hb, Text.trimLeft_cons_of_not_blank hquote]
    simp only [opening?, Text.after?_eq_some_iff.2 rfl, htrim, hrest, hq, if_true,
      Text.indent_append_cons ha hbracket, Text.indent_append_cons hb hquote]

/-- What an opening is made of. -/
theorem opening?_eq_some {table t : Text} {o : Opening} (h : opening? table t = some o) :
    ∃ a b, isBlankText a = true ∧ isBlankText b = true ∧ o.rest.head?.any Source.isQuote = true ∧
      t = table ++ (a ++ '[' :: (b ++ o.rest)) := by
  obtain ⟨a, b, rest, ha, hb, hq, rfl, rfl⟩ := opening?_eq_some_iff.1 h
  exact ⟨a, b, ha, hb, hq, rfl⟩

/-- The table's name, a bracket and a quote open a look-up. -/
theorem exists_opening? (table : Text) {a b rest : Text} (ha : isBlankText a = true)
    (hb : isBlankText b = true) (hr : rest.head?.any Source.isQuote = true) :
    ∃ o, opening? table (table ++ (a ++ '[' :: (b ++ rest))) = some o ∧ o.rest = rest :=
  ⟨_, opening?_eq_some_iff.2 ⟨a, b, rest, ha, hb, hr, rfl, rfl⟩, rfl⟩

/-- The name of the table ends at one place of a line only, up to blanks. -/
theorem bracket_unique {table s a u s' a' u' : Text} (hs : isBlankText s = true)
    (ha : isBlankText a = true) (hs' : isBlankText s' = true) (ha' : isBlankText a' = true)
    (h : s ++ (table ++ (a ++ '[' :: u)) = s' ++ (table ++ (a' ++ '[' :: u'))) : u = u' := by
  have hbracket : ∀ {b : Text}, isBlankText b = true → ∀ v : Text,
      trimLeft (b ++ '[' :: v) = '[' :: v := by
    intro b hb v
    rw [Text.trimLeft_append_of_blank hb, Text.trimLeft_cons_of_not_blank (by decide)]
  have ht := congrArg trimLeft h
  rw [Text.trimLeft_append_of_blank hs, Text.trimLeft_append_of_blank hs'] at ht
  by_cases hblank : isBlankText table = true
  · rw [Text.trimLeft_append_of_blank hblank, Text.trimLeft_append_of_blank hblank, hbracket ha,
      hbracket ha'] at ht
    exact (List.cons.inj ht).2
  · rw [Bool.not_eq_true] at hblank
    rw [Text.trimLeft_append_of_not_blank hblank, Text.trimLeft_append_of_not_blank hblank] at ht
    have hcut := congrArg trimLeft (List.append_cancel_left ht)
    rw [hbracket ha, hbracket ha'] at hcut
    exact (List.cons.inj hcut).2

/-- The look-up that a line starts with. -/
theorem findSome?_opening?_iff {table line rest : Text} :
    (∃ o, (blankTails line).findSome? (opening? table) = some o ∧ o.rest = rest) ↔
      ∃ s a b, isBlankText s = true ∧ isBlankText a = true ∧ isBlankText b = true ∧
        rest.head?.any Source.isQuote = true ∧
          line = s ++ (table ++ (a ++ '[' :: (b ++ rest))) := by
  constructor
  · rintro ⟨o, h, rfl⟩
    obtain ⟨tail, hmem, ho⟩ := List.exists_of_findSome?_eq_some h
    obtain ⟨s, hs, rfl⟩ := mem_blankTails_iff.1 hmem
    obtain ⟨a, b, ha, hb, hq, rfl⟩ := opening?_eq_some ho
    exact ⟨s, a, b, hs, ha, hb, hq, rfl⟩
  · rintro ⟨s, a, b, hs, ha, hb, hq, rfl⟩
    obtain ⟨o, ho, hrest⟩ := exists_opening? table ha hb hq
    have hmem : table ++ (a ++ '[' :: (b ++ rest)) ∈
        blankTails (s ++ (table ++ (a ++ '[' :: (b ++ rest)))) :=
      mem_blankTails_iff.2 ⟨s, hs, rfl⟩
    have hsome : ((blankTails (s ++ (table ++ (a ++ '[' :: (b ++ rest))))).findSome?
        (opening? table)).isSome = true :=
      List.findSome?_isSome_iff.2 ⟨_, hmem, by simp [ho]⟩
    obtain ⟨o', ho'⟩ := Option.isSome_iff_exists.1 hsome
    refine ⟨o', ho', ?_⟩
    obtain ⟨tail, hmem', hopen⟩ := List.exists_of_findSome?_eq_some ho'
    obtain ⟨s', hs', he⟩ := mem_blankTails_iff.1 hmem'
    obtain ⟨a', b', ha', hb', hq', rfl⟩ := opening?_eq_some hopen
    have hu := congrArg trimLeft (bracket_unique hs ha hs' ha' he)
    rw [Text.trimLeft_append_of_blank hb, Text.trimLeft_append_of_blank hb'] at hu
    have hhead : ∀ {r : Text}, r.head?.any Source.isQuote = true → trimLeft r = r := by
      intro r hr
      cases r with
      | nil => rfl
      | cons c t => exact Text.trimLeft_cons_of_not_blank (isBlank_of_isQuote (by simpa using hr)) t
    rw [hhead hq, hhead hq'] at hu
    exact hu.symm

/-- A closing bracket and a single equals sign, with blanks around them. -/
theorem afterAssignmentSign?_eq_some_iff {t value : Text} :
    afterAssignmentSign? t = some value ↔
      ∃ a b, isBlankText a = true ∧ isBlankText b = true ∧ value.head? ≠ some '=' ∧
        t = a ++ ']' :: (b ++ '=' :: value) := by
  constructor
  · intro h
    unfold afterAssignmentSign? at h
    split at h
    · rename_i afterBracket hbracket
      split at h
      · rename_i afterSign hsign
        split_ifs at h with hhead
        obtain rfl := Option.some.inj h
        obtain ⟨a, ha, rfl⟩ := Text.exists_blank_of_trimLeft_eq hbracket
        obtain ⟨b, hb, rfl⟩ := Text.exists_blank_of_trimLeft_eq hsign
        exact ⟨a, b, ha, hb, hhead, rfl⟩
      · simp at h
    · simp at h
  · rintro ⟨a, b, ha, hb, hhead, rfl⟩
    have hbracket : trimLeft (a ++ ']' :: (b ++ '=' :: value)) = ']' :: (b ++ '=' :: value) := by
      rw [Text.trimLeft_append_of_blank ha, Text.trimLeft_cons_of_not_blank (by decide)]
    have hsign : trimLeft (b ++ '=' :: value) = '=' :: value := by
      rw [Text.trimLeft_append_of_blank hb, Text.trimLeft_cons_of_not_blank (by decide)]
    simp only [afterAssignmentSign?, hbracket, hsign, if_neg hhead]

/-- The front of an assignment: the table's name and a bracketed key before an equals sign. -/
theorem target?_eq_some_iff {table line : Text} {target : Target} :
    target? table line = some target ↔
      ∃ s a b quote c d, isBlankText s = true ∧ isBlankText a = true ∧ isBlankText b = true ∧
        isBlankText c = true ∧ isBlankText d = true ∧ Source.isQuote quote = true ∧
        target.key ≠ [] ∧ Source.isRaw quote target.key = true ∧ target.value.head? ≠ some '=' ∧
        line = s ++ (table ++ (a ++ '[' :: (b ++ (quote :: target.key ++
          quote :: (c ++ ']' :: (d ++ '=' :: target.value)))))) := by
  constructor
  · intro h
    unfold target? at h
    cases hopen : (blankTails line).findSome? (opening? table) with
    | none => simp [hopen] at h
    | some o =>
      simp only [hopen] at h
      split at h
      · rename_i k key rest hlit
        obtain ⟨value, hvalue, rfl⟩ := Option.map_eq_some_iff.1 h
        obtain ⟨c, d, hc, hd, hhead, rfl⟩ := afterAssignmentSign?_eq_some_iff.1 hvalue
        obtain ⟨quote, hquote, hraw, hrest⟩ := Source.takeLiteral_eq_some_iff.1 hlit
        obtain ⟨s, a, b, hs, ha, hb, -, rfl⟩ := findSome?_opening?_iff.1 ⟨o, hopen, hrest⟩
        exact ⟨s, a, b, quote, c, d, hs, ha, hb, hc, hd, hquote, by simp, hraw, hhead, rfl⟩
      · simp at h
  · rintro ⟨s, a, b, quote, c, d, hs, ha, hb, hc, hd, hquote, hkey, hraw, hhead, rfl⟩
    obtain ⟨key, value⟩ := target
    cases key with
    | nil => exact absurd rfl hkey
    | cons k key =>
      obtain ⟨o, hopen, hrest⟩ := (@findSome?_opening?_iff table _ _).2 ⟨s, a, b, hs, ha, hb,
        (by simpa using hquote : (quote :: (k :: key) ++ quote :: (c ++ ']' ::
          (d ++ '=' :: value))).head?.any Source.isQuote = true), rfl⟩
      have hlit : Source.takeLiteral o.rest = some (k :: key, c ++ ']' :: (d ++ '=' :: value)) := by
        rw [hrest]
        exact Source.takeLiteral_eq_some_iff.2 ⟨quote, hquote, hraw, rfl⟩
      have hsign := afterAssignmentSign?_eq_some_iff.2 ⟨c, d, hc, hd, hhead, rfl⟩
      simp only [target?, hopen, hlit, hsign, Option.map_some]

/-- A line that assigns a key has the table behind blanks, and a bracket behind more blanks. -/
theorem exists_of_assignedKey? {table line key : Text} (h : assignedKey? table line = some key) :
    ∃ s a rest, isBlankText s = true ∧ isBlankText a = true ∧
      line = s ++ (table ++ (a ++ '[' :: rest)) := by
  obtain ⟨target, htarget, -⟩ := Option.map_eq_some_iff.1 h
  obtain ⟨s, a, b, quote, c, d, hs, ha, -, -, -, -, -, -, -, rfl⟩ := target?_eq_some_iff.1 htarget
  exact ⟨s, a, _, hs, ha, rfl⟩

/-- A literal assignment comes from the target of its line and the literal of its value. -/
theorem exists_of_assignment? {table line : Text} {a : Assignment}
    (h : assignment? table line = some a) :
    ∃ target raw, target? table line = some target ∧ assignedLiteral? target.value = some raw ∧
      a = ⟨target.key, Source.unescape raw, Text.indent line⟩ := by
  unfold assignment? at h
  cases ht : target? table line with
  | none => simp [ht] at h
  | some target =>
    simp only [ht] at h
    obtain ⟨raw, hraw, rfl⟩ := Option.map_eq_some_iff.1 h
    exact ⟨target, raw, rfl, hraw, rfl⟩

/-- A literal assignment assigns its key. -/
theorem assignedKey?_of_assignment? {table line : Text} {a : Assignment}
    (h : assignment? table line = some a) : assignedKey? table line = some a.key := by
  obtain ⟨target, raw, htarget, -, rfl⟩ := exists_of_assignment? h
  rw [assignedKey?, htarget, Option.map_some]

/-- The indent of a literal assignment is that of its line. -/
theorem indent_of_assignment? {table line : Text} {a : Assignment}
    (h : assignment? table line = some a) : a.indent = Text.indent line := by
  obtain ⟨target, raw, -, -, rfl⟩ := exists_of_assignment? h
  rfl

/-- The indent of a literal assignment is blank. -/
theorem isBlankText_indent_of_assignment? {table line : Text} {a : Assignment}
    (h : assignment? table line = some a) : isBlankText a.indent = true := by
  rw [indent_of_assignment? h]
  exact Text.isBlankText_indent line

/-- The text behind the equals sign of a written line. -/
def writtenValue (value : Text) : Text :=
  ' ' :: ('"' :: Source.escape value ++ ['"'])

/-- A written line assigns its key, whatever the value is. -/
theorem target?_line (table : Text) {a : Assignment} (hkey : IsKey a.key)
    (hindent : isBlankText a.indent = true) :
    target? table (a.line table) = some ⟨a.key, writtenValue a.value⟩ := by
  obtain ⟨hne, hraw⟩ := isKey_iff.1 hkey
  refine target?_eq_some_iff.2 ⟨a.indent, [], [], '"', [], [' '], hindent, rfl, rfl, rfl, rfl, rfl,
    hne, hraw, by simp [writtenValue], ?_⟩
  simp [Assignment.line, writtenValue]

/-- A written line assigns its key, whatever the value is. -/
theorem assignedKey?_line (table : Text) {a : Assignment} (hkey : IsKey a.key)
    (hindent : isBlankText a.indent = true) : assignedKey? table (a.line table) = some a.key := by
  simp [assignedKey?, target?_line table hkey hindent]

/-- The literal of a value is read back when it closes where it should. -/
theorem assignedLiteral?_writtenValue {value : Text}
    (hraw : Source.isRaw '"' (Source.escape value) = true) :
    assignedLiteral? (writtenValue value) = some (Source.escape value) := by
  have hcode : Source.stripComment (writtenValue value) = writtenValue value := by
    have hlit := Source.codeFrom_literal rfl hraw []
    simp only [Source.codeFrom] at hlit
    simp [Source.stripComment, writtenValue, Source.codeFrom, Source.Position.step,
      Source.isQuote] at hlit ⊢
    exact hlit
  have htrim : trimLeft (writtenValue value) = '"' :: Source.escape value ++ ['"'] := by
    simp [writtenValue, trimLeft, isBlank]
  have hlit : Source.takeLiteral ('"' :: Source.escape value ++ ['"']) =
      some (Source.escape value, []) :=
    Source.takeLiteral_eq_some_iff.2 ⟨'"', rfl, hraw, rfl⟩
  have hend : endsStatement [] = true := rfl
  simp only [assignedLiteral?, hcode, htrim, hlit, hend, if_true]

/-- A value that is what its literal stands for is read back from its line. -/
theorem assignment?_line (table : Text) {a : Assignment} (hkey : IsKey a.key)
    (hindent : isBlankText a.indent = true) (hvalue : Source.IsFaithful a.value) :
    assignment? table (a.line table) = some { a with indent := Text.indent (a.line table) } := by
  simp [assignment?, target?_line table hkey hindent, assignedLiteral?_writtenValue hvalue.1,
    hvalue.2]

/-- A written line keeps its indent when the name of the table starts with no blank. -/
theorem indent_line {table : Text} (htable : table.head?.any isBlank = false) {a : Assignment}
    (hindent : isBlankText a.indent = true) : Text.indent (a.line table) = a.indent := by
  have hbracket : isBlank '[' = false := by decide
  cases table with
  | nil => simpa [Assignment.line] using Text.indent_append_cons hindent hbracket _
  | cons c table =>
    simpa [Assignment.line] using Text.indent_append_cons hindent (by simpa using htable) _

/-- Where a text with one more character ends in a given text, that ends with the character. -/
theorem append_singleton_eq {t u v : Text} {c d : Char} (hd : d ≠ c)
    (h : t ++ [c] = u ++ d :: v) : ∃ w, v = w ++ [c] ∧ t = u ++ d :: w := by
  cases v using List.reverseRecOn with
  | nil =>
    obtain ⟨-, he⟩ := List.append_inj' h rfl
    exact absurd (List.cons.inj he).1.symm hd
  | append_singleton w e =>
    rw [← List.cons_append, ← List.append_assoc] at h
    obtain ⟨ht, he⟩ := List.append_inj' h rfl
    obtain rfl := (List.cons.inj he).1
    exact ⟨w, rfl, ht⟩

/-- A blank at the end of a line belongs to the text behind the equals sign. -/
theorem target?_append_blank (table line : Text) {c : Char} (hc : isBlank c = true) :
    target? table (line ++ [c]) =
      (target? table line).map fun target => { target with value := target.value ++ [c] } := by
  have hne : '=' ≠ c := by
    rintro rfl
    simp [isBlank] at hc
  have hhead : ∀ v : Text, (v ++ [c]).head? ≠ some '=' ↔ v.head? ≠ some '=' := by
    intro v
    cases v with
    | nil => simpa using hne.symm
    | cons d v => simp
  apply Option.ext
  intro target
  rw [target?_eq_some_iff, Option.map_eq_some_iff]
  constructor
  · rintro ⟨s, a, b, quote, e, d, hs, ha, hb, he, hd, hquote, hkey, hraw, hh, hline⟩
    obtain ⟨w, hw, hline'⟩ := append_singleton_eq (u := s ++ (table ++ (a ++ '[' ::
      (b ++ (quote :: target.key ++ quote :: (e ++ ']' :: d)))))) hne (by simpa using hline)
    rw [hw, hhead] at hh
    refine ⟨⟨target.key, w⟩, target?_eq_some_iff.2 ⟨s, a, b, quote, e, d, hs, ha, hb, he, hd,
      hquote, hkey, hraw, hh, by simpa using hline'⟩, ?_⟩
    rw [← hw]
  · rintro ⟨target', ht, rfl⟩
    obtain ⟨s, a, b, quote, e, d, hs, ha, hb, he, hd, hquote, hkey, hraw, hh, rfl⟩ :=
      target?_eq_some_iff.1 ht
    exact ⟨s, a, b, quote, e, d, hs, ha, hb, he, hd, hquote, hkey, hraw, (hhead _).2 hh, by simp⟩

/-- A blank at the end of a text is no part of a literal in front of it. -/
theorem takeLiteral_append_blank (t : Text) {c : Char} (hc : isBlank c = true) :
    Source.takeLiteral (t ++ [c]) =
      (Source.takeLiteral t).map fun literal => (literal.1, literal.2 ++ [c]) := by
  apply Option.ext
  rintro ⟨raw, rest⟩
  rw [Option.map_eq_some_iff]
  constructor
  · intro h
    obtain ⟨quote, hquote, hraw, he⟩ := Source.takeLiteral_eq_some_iff.1 h
    have hne : quote ≠ c := by
      rintro rfl
      simp [isBlank_of_isQuote hquote] at hc
    obtain ⟨w, rfl, rfl⟩ := append_singleton_eq hne he
    exact ⟨(raw, w), Source.takeLiteral_eq_some_iff.2 ⟨quote, hquote, hraw, rfl⟩, rfl⟩
  · rintro ⟨⟨raw', rest'⟩, h, he⟩
    obtain ⟨rfl, rfl⟩ := Prod.mk.inj he
    exact Source.takeLiteral_append h [c]

/-- A blank at the end of a line belongs to its code or to its comment. -/
theorem codeFrom_append_blank (p : Source.Position) (t : Text) {c : Char} (hc : isBlank c = true) :
    Source.codeFrom p (t ++ [c]) = Source.codeFrom p t ∨
      Source.codeFrom p (t ++ [c]) = Source.codeFrom p t ++ [c] := by
  have hdash : c ≠ '-' := by
    rintro rfl
    simp [isBlank] at hc
  induction t generalizing p with
  | nil => simp [Source.codeFrom, hdash]
  | cons d t ih =>
    have hhead : ((t ++ [c]).head? = some '-') ↔ (t.head? = some '-') := by
      cases t with
      | nil => simpa using hdash
      | cons e t => simp
    simp only [List.cons_append, Source.codeFrom, hhead]
    split_ifs with hcomment
    · exact Or.inl rfl
    · rcases ih (p.step d) with h | h
      · exact Or.inl (by rw [h])
      · exact Or.inr (by rw [h, List.cons_append])

/-- A blank at the end of what follows a value changes nothing. -/
theorem endsStatement_append_blank (t : Text) {c : Char} (hc : isBlank c = true) :
    endsStatement (t ++ [c]) = endsStatement t := by
  have hblank : isBlankText [c] = true := by simp [hc]
  cases ht : isBlankText t with
  | true =>
    have h : trimLeft [c] = [] := by simp [trimLeft, hc]
    have h' : trimLeft t = [] := Text.trimLeft_eq_nil_iff.2 ht
    simp [endsStatement, Text.trimLeft_append_of_blank ht, h, h']
  | false =>
    rw [endsStatement, endsStatement, Text.trimLeft_append_of_not_blank ht]
    cases hr : trimLeft t with
    | nil => simp [Text.trimLeft_eq_nil_iff.1 hr] at ht
    | cons d r => simp [hc]

/-- A blank at the end of a value changes nothing. -/
theorem assignedLiteral?_append_blank (t : Text) {c : Char} (hc : isBlank c = true) :
    assignedLiteral? (t ++ [c]) = assignedLiteral? t := by
  unfold assignedLiteral? Source.stripComment
  rcases codeFrom_append_blank .code t hc with h | h
  · rw [h]
  · rw [h]
    cases hb : isBlankText (Source.codeFrom .code t) with
    | true =>
      have hcode := Text.trimLeft_eq_nil_iff.2 hb
      have hboth : trimLeft (Source.codeFrom .code t ++ [c]) = [] :=
        Text.trimLeft_eq_nil_iff.2 (by simp [hb, hc])
      rw [hcode, hboth]
    | false =>
      rw [Text.trimLeft_append_of_not_blank hb, takeLiteral_append_blank _ hc]
      cases Source.takeLiteral (trimLeft (Source.codeFrom .code t)) with
      | none => rfl
      | some literal => simp only [Option.map_some, endsStatement_append_blank _ hc]

/-- A blank at the end of a line changes nothing about its assignment. -/
theorem assignment?_append_blank (table line : Text) {c : Char} (hc : isBlank c = true) :
    assignment? table (line ++ [c]) = assignment? table line := by
  unfold assignment?
  rw [target?_append_blank table line hc]
  cases ht : target? table line with
  | none => rfl
  | some target =>
    have hindent : Text.indent (line ++ [c]) = Text.indent line := by
      obtain ⟨s, a, b, quote, e, d, -, -, -, -, -, -, -, -, -, rfl⟩ := target?_eq_some_iff.1 ht
      have hbracket : isBlank '[' = false := by decide
      exact Text.indent_append_of_not_blank (by simp [hbracket]) [c]
    simp only [Option.map_some, assignedLiteral?_append_blank _ hc, hindent]

/-- Blanks in front of the name of the table change nothing about the front of an assignment. -/
theorem target?_append_of_blank {table indent u : Text} (hindent : isBlankText indent = true) :
    target? table (indent ++ (table ++ '[' :: u)) = target? table (table ++ '[' :: u) := by
  apply Option.ext
  intro target
  rw [target?_eq_some_iff, target?_eq_some_iff]
  -- Either line has one place for the bracket, so what is behind it is the same.
  constructor
  · rintro ⟨s, a, b, quote, c, d, hs, ha, hb, hc, hd, hquote, hkey, hraw, hh, hline⟩
    have hbehind := bracket_unique (a := []) hindent rfl hs ha hline
    exact ⟨[], [], b, quote, c, d, rfl, rfl, hb, hc, hd, hquote, hkey, hraw, hh, by simp [hbehind]⟩
  · rintro ⟨s, a, b, quote, c, d, hs, ha, hb, hc, hd, hquote, hkey, hraw, hh, hline⟩
    have hbehind := bracket_unique (s := []) (a := []) rfl rfl hs ha hline
    exact ⟨indent, [], b, quote, c, d, hindent, rfl, hb, hc, hd, hquote, hkey, hraw, hh,
      by simp [hbehind]⟩

/-- The key and the value that are read of a written line do not depend on its indent. -/
theorem map_assignment?_line (table : Text) {a : Assignment}
    (hindent : isBlankText a.indent = true) :
    (assignment? table (a.line table)).map (fun b => (b.key, b.value)) =
      (assignment? table (Assignment.line ⟨a.key, a.value, []⟩ table)).map
        fun b => (b.key, b.value) := by
  have hsplit : ∀ s, Assignment.line ⟨a.key, a.value, s⟩ table = s ++ (table ++ '[' ::
      ('"' :: a.key ++ "\"] = \"".toList ++ Source.escape a.value ++ ['"'])) := by
    simp [Assignment.line]
  have hfront : target? table (a.line table) =
      target? table (Assignment.line ⟨a.key, a.value, []⟩ table) := by
    rw [hsplit a.indent, hsplit [], target?_append_of_blank hindent, List.nil_append]
  unfold assignment?
  rw [hfront]
  cases target? table (Assignment.line ⟨a.key, a.value, []⟩ table) with
  | none => rfl
  | some target =>
    simp only [Option.map_map]
    rfl

end Phrasebook.Glue
