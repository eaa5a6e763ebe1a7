import Phrasebook.Proofs.Glue.Reference
import Phrasebook.Proofs.Glue.Statement

/-!
# Look-ups and references

The search for references goes from left to right and on behind the bracket of the last look-up. It
misses none: between the start of a look-up and its quote there are only the other characters of the
name, blanks and the bracket, and at none of them does another look-up start. So the references of a
line are all of its look-ups, in the order of their places, the ones within literals included.
-/

namespace Phrasebook.Glue

open Text (isBlank isBlankText isWordChar trimLeft)

variable {patterns : Patterns} {table line : Text}

/-- A name has word characters only, and its first one is no blank and no bracket. -/
theorem head_of_isName (htable : Readers.isName table = true) :
    ∃ c rest, table = c :: rest ∧ isBlank c = false ∧ c ≠ '[' := by
  have hhead := Locale.not_isBlank_head_of_isName htable
  cases table with
  | nil => simp at hhead
  | cons c rest =>
    refine ⟨c, rest, rfl, by simpa using hhead, ?_⟩
    rintro rfl
    exact absurd htable (by simp [Readers.isName, Readers.isNameChar])

/-- The characters of a name are word characters. -/
theorem isWordChar_of_mem_isName (htable : Readers.isName table = true) {c : Char}
    (hc : c ∈ table) : isWordChar c = true :=
  Locale.isWordChar_of_isNameChar (List.all_eq_true.1 (Bool.and_eq_true_iff.1 htable).2 c hc)

/-- No look-up opens between the start of another one and its quote. -/
theorem quote_le_length (htable : Readers.isName table = true) {before rest : Text}
    {o o' : Opening} (h : opening? table (before ++ rest) = some o) (hne : before ≠ [])
    (hword : before.getLast?.any isWordChar = false) (h' : opening? table rest = some o') :
    o.quote ≤ before.length := by
  obtain ⟨a, b, r, ha, hb, -, hsplit, rfl⟩ := opening?_eq_some_iff.1 h
  obtain ⟨a', b', -, -, -, hrest⟩ := opening?_eq_some h'
  obtain ⟨c, name, htable', hblank, hbracket⟩ := head_of_isName htable
  rw [show table ++ (a ++ '[' :: (b ++ r)) = table ++ ((a ++ '[' :: b) ++ r) by simp] at hsplit
  rcases List.append_eq_append_iff.1 hsplit with ⟨x, hx, -⟩ | ⟨x, rfl, hbehind⟩
  · -- The other look-up would start within the name, behind a character of it.
    obtain ⟨d, hd⟩ := Option.isSome_iff_exists.1 (List.getLast?_isSome.2 hne)
    have hmem : d ∈ table := hx ▸ List.mem_append_left x (List.mem_of_getLast? hd)
    simp [hd, isWordChar_of_mem_isName htable hmem] at hword
  · rcases List.append_eq_append_iff.1 hbehind with ⟨y, rfl, -⟩ | ⟨y, hgap, hy⟩
    · simp
      omega
    · cases y with
      | nil =>
        have hlength := congrArg List.length hgap
        simp only [List.length_append, List.length_cons, List.append_nil] at hlength ⊢
        omega
      | cons d y =>
        -- The other look-up would start with a blank or with the bracket.
        have hd : d = c := by
          rw [hrest, htable'] at hy
          exact (List.cons.inj hy).1.symm
        have hmem : d ∈ a ++ '[' :: b := hgap ▸ (by simp)
        rw [List.mem_append, List.mem_cons] at hmem
        rcases hmem with hmem | rfl | hmem
        · simp [← hd, List.all_eq_true.1 ha d hmem] at hblank
        · exact absurd hd.symm hbracket
        · simp [← hd, List.all_eq_true.1 hb d hmem] at hblank

/-- A look-up opens in what is left of a line behind the character `previous`: it starts at least
`skip` characters on, and its name continues no word. -/
def OpensAt (table : Text) (skip : Nat) (previous : Option Char) (index : Nat) (t : Text) (i : Nat)
    (o : Opening) : Prop :=
  ∃ before rest, t = before ++ rest ∧ i = index + before.length ∧ skip ≤ before.length ∧
    (before.getLast?.or previous).any isWordChar = false ∧ opening? table rest = some o

/-- A look-up opens in front of what is left of a line, or behind the next character. -/
theorem opensAt_cons {skip index i : Nat} {previous : Option Char} {c : Char} {t : Text}
    {o : Opening} :
    OpensAt table skip previous index (c :: t) i o ↔
      (i = index ∧ skip = 0 ∧ previous.any isWordChar = false ∧
        opening? table (c :: t) = some o) ∨
      OpensAt table (skip - 1) (some c) (index + 1) t i o := by
  have hlast : ∀ before : Text, ((c :: before).getLast?.or previous) =
      before.getLast?.or (some c) := by
    intro before
    rw [List.getLast?_cons]
    cases before.getLast? <;> rfl
  constructor
  · rintro ⟨before, rest, ht, hi, hskip, hword, ho⟩
    cases before with
    | nil =>
      obtain rfl : c :: t = rest := ht
      exact Or.inl ⟨hi, by simpa using hskip, by simpa using hword, ho⟩
    | cons d before =>
      obtain ⟨rfl, rfl⟩ := List.cons.inj ht
      rw [hlast] at hword
      rw [List.length_cons] at hi hskip
      exact Or.inr ⟨before, rest, rfl, by omega, by omega, hword, ho⟩
  · rintro (⟨hi, hskip, hword, ho⟩ | ⟨before, rest, rfl, hi, hskip, hword, ho⟩)
    · exact ⟨[], c :: t, rfl, hi, by simp [hskip], by simpa using hword, ho⟩
    · refine ⟨c :: before, rest, rfl, ?_, ?_, by rwa [hlast], ho⟩
      · rw [List.length_cons]
        omega
      · rw [List.length_cons]
        omega

/-- The search skips the characters of an opening, and misses no look-up there. -/
theorem opensAt_quote_iff (htable : Readers.isName table = true) {index i : Nat} {c : Char}
    {t : Text} {o found : Opening} (hfound : opening? table (c :: t) = some found) :
    OpensAt table (found.quote - 1) (some c) index t i o ↔
      OpensAt table 0 (some c) index t i o := by
  refine exists_congr fun before => exists_congr fun rest => and_congr_right fun ht =>
    and_congr_right fun _ => and_congr_left ?_
  rintro ⟨hword, ho⟩
  have hword' : (c :: before).getLast?.any isWordChar = false := by
    rw [List.getLast?_cons]
    cases hlast : before.getLast? <;> simpa [hlast] using hword
  have hfound' : opening? table (c :: before ++ rest) = some found := by simpa [← ht] using hfound
  have hquote := quote_le_length htable hfound' (by simp) hword' ho
  rw [List.length_cons] at hquote
  omega

/-- The search finds all openings of look-ups. -/
theorem mem_openingsFrom_iff (htable : Readers.isName table = true) {skip index i : Nat}
    {previous : Option Char} {t : Text} {o : Opening} :
    (i, o) ∈ openingsFrom table skip previous index t ↔
      OpensAt table skip previous index t i o := by
  induction t generalizing skip previous index with
  | nil =>
    have hnone : opening? table [] = none := by
      unfold opening?
      cases table <;> rfl
    simp [openingsFrom, OpensAt, hnone]
  | cons c t ih =>
    rw [opensAt_cons]
    cases skip with
    | succ skip => simp [openingsFrom, ih]
    | zero =>
      rw [openingsFrom]
      split_ifs with hprevious
      · simp [ih, hprevious]
      · cases hfound : opening? table (c :: t) with
        | none => simp [ih]
        | some found =>
          have hword : previous.any isWordChar = false := by simpa using hprevious
          rw [List.mem_cons, ih, opensAt_quote_iff htable hfound]
          simp [hword, eq_comm]

/-- The openings are found in the order of their places. -/
theorem pairwise_openingsFrom (htable : Readers.isName table = true) (skip : Nat)
    (previous : Option Char) (index : Nat) (t : Text) :
    (openingsFrom table skip previous index t).Pairwise fun x y => x.1 < y.1 := by
  induction t generalizing skip previous index with
  | nil => simp [openingsFrom]
  | cons c t ih =>
    cases skip with
    | succ skip => exact ih skip (some c) (index + 1)
    | zero =>
      rw [openingsFrom]
      split
      · exact ih 0 (some c) (index + 1)
      · split
        · refine List.pairwise_cons.2 ⟨?_, ih _ (some c) (index + 1)⟩
          rintro ⟨i, o⟩ hmem
          obtain ⟨before, rest, -, rfl, -⟩ := (mem_openingsFrom_iff htable).1 hmem
          dsimp only
          omega
        · exact ih 0 (some c) (index + 1)

/-- A text that is read backwards ends with a name when that continues no longer one. -/
theorem endsWithName_iff {name reversed : Text} :
    endsWithName name reversed = true ↔ ∃ front : Text, reversed = (front ++ name).reverse ∧
      front.getLast?.any (fun c => isWordChar c || c == '.') = false := by
  unfold endsWithName
  constructor
  · intro h
    split at h
    · simp at h
    · rename_i rest hrest
      refine ⟨rest.reverse, ?_, ?_⟩
      · rw [Text.after?_eq_some_iff.1 hrest, List.reverse_append, List.reverse_reverse]
      · simpa using h
  · rintro ⟨front, rfl, hfront⟩
    have hrest : Text.after? name.reverse (front ++ name).reverse = some front.reverse := by
      rw [Text.after?_eq_some_iff, List.reverse_append]
    rw [hrest]
    simpa using hfront

/-- A text ends with the opening of a call of one of some functions, so that what follows is the
first argument. The name of the function continues no word, and no dotted name. -/
def EndsWithCall (functions : List Text) (t : Text) : Prop :=
  ∃ name ∈ functions, ∃ (front : Text) (a b : Blanks), t = front ++ name ++ a.1 ++ ['('] ++ b.1 ∧
    front.getLast?.any (fun c => isWordChar c || c == '.') = false

/-- Blanks read backwards are blanks. -/
theorem isBlankText_reverse (t : Text) : isBlankText t.reverse = isBlankText t :=
  List.all_reverse

/-- A template call is opened by a template function, a parenthesis and blanks. -/
theorem opensTemplateCall_iff {templates : List Text} {t : Text} :
    opensTemplateCall templates t = true ↔ EndsWithCall templates t := by
  constructor
  · intro h
    unfold opensTemplateCall at h
    split at h
    · rename_i rest htrim
      obtain ⟨b, hb, ht⟩ := Text.exists_blank_of_trimLeft_eq (t := t.reverse) htrim
      obtain ⟨tail, htail, hnames⟩ := List.any_eq_true.1 h
      obtain ⟨a, ha, rfl⟩ := mem_blankTails_iff.1 htail
      obtain ⟨name, hname, hends⟩ := List.any_eq_true.1 hnames
      obtain ⟨front, rfl, hfront⟩ := endsWithName_iff.1 hends
      refine ⟨name, hname, front, ⟨a.reverse, by rwa [isBlankText_reverse]⟩,
        ⟨b.reverse, by rwa [isBlankText_reverse]⟩, ?_, hfront⟩
      simpa using congrArg List.reverse ht
    · simp at h
  · rintro ⟨name, hname, front, ⟨a, ha⟩, ⟨b, hb⟩, rfl, hfront⟩
    have htrim : (front ++ name ++ a ++ ['('] ++ b).reverse.dropWhile isBlank =
        '(' :: (a.reverse ++ (front ++ name).reverse) := by
      have hb' : isBlankText b.reverse = true := by rwa [isBlankText_reverse]
      have hparenthesis : isBlank '(' = false := by decide
      have hreversed : (front ++ name ++ a ++ ['('] ++ b).reverse =
          b.reverse ++ '(' :: (a.reverse ++ (front ++ name).reverse) := by
        simp
      rw [hreversed]
      exact (Text.trimLeft_append_of_blank hb' _).trans
        (Text.trimLeft_cons_of_not_blank hparenthesis _)
    have htail : (front ++ name).reverse ∈ blankTails (a.reverse ++ (front ++ name).reverse) :=
      mem_blankTails_iff.2 ⟨a.reverse, by rwa [isBlankText_reverse], rfl⟩
    rw [opensTemplateCall, htrim]
    exact List.any_eq_true.2 ⟨_, htail, List.any_eq_true.2 ⟨name, hname,
      endsWithName_iff.2 ⟨front, rfl, hfront⟩⟩⟩

/-- The number of characters of a look-up before its bracket. -/
def LookUp.bracket (l : LookUp) (table : Text) : Nat :=
  table.length + l.afterTable.1.length

/-- What is told about a look-up that stands in a line behind `before`. -/
def LookUp.reference (l : LookUp) (patterns : Patterns) (line before : Text) : Reference where
  key := l.key.raw
  isJoined := Source.joinsInBrackets line (before.length + l.bracket patterns.table)
  isTemplate := opensTemplateCall patterns.templates before
  start := before.length
  bracket := before.length + l.bracket patterns.table

/-- An opening is a reference when a closed literal that is not empty follows it. -/
theorem reference?_eq_some_iff {o : Opening} {start : Nat} {r : Reference} :
    o.reference? patterns line start = some r ↔
      ∃ (q : Quotation) (after : Text), q.raw ≠ [] ∧ o.rest = q.text ++ after ∧
        r = ⟨q.raw, Source.joinsInBrackets line (start + o.bracket),
          opensTemplateCall patterns.templates (line.take start), start, start + o.bracket⟩ := by
  constructor
  · intro h
    unfold Opening.reference? at h
    split at h
    · rename_i c key after hliteral
      obtain ⟨quote, hquote, hraw, hrest⟩ := Source.takeLiteral_eq_some_iff.1 hliteral
      refine ⟨⟨quote, c :: key, hquote, hraw⟩, after, by simp, ?_, (Option.some.inj h).symm⟩
      simpa [Quotation.text] using hrest
    · simp at h
  · rintro ⟨⟨quote, key, hquote, hraw⟩, after, hne, hrest, rfl⟩
    obtain ⟨c, key, rfl⟩ := List.exists_cons_of_ne_nil hne
    have hliteral : Source.takeLiteral o.rest = some (c :: key, after) :=
      Source.takeLiteral_eq_some_iff.2 ⟨quote, hquote, hraw, by simpa [Quotation.text] using hrest⟩
    simp only [Opening.reference?, hliteral]

/-- The references of a line are its look-ups that continue no word. -/
theorem mem_references_iff (htable : Readers.isName patterns.table = true) {r : Reference} :
    r ∈ references patterns line ↔ ∃ (before : Text) (l : LookUp) (after : Text),
      line = before ++ l.text patterns.table ++ after ∧ before.getLast?.any isWordChar = false ∧
        l.reference patterns line before = r := by
  have htext : ∀ (l : LookUp) (after : Text), l.text patterns.table ++ after =
      patterns.table ++ (l.afterTable.1 ++ '[' :: (l.afterOpening.1 ++ (l.key.text ++ after))) := by
    intro l after
    simp [LookUp.text]
  rw [references, List.mem_filterMap]
  constructor
  · rintro ⟨⟨i, o⟩, hmem, hr⟩
    obtain ⟨before, rest, rfl, rfl, -, hword, ho⟩ := (mem_openingsFrom_iff htable).1 hmem
    obtain ⟨q, after, hne, hrest, rfl⟩ := reference?_eq_some_iff.1 hr
    obtain ⟨a, b, u, ha, hb, -, rfl, rfl⟩ := opening?_eq_some_iff.1 ho
    obtain rfl : u = q.text ++ after := hrest
    refine ⟨before, ⟨⟨a, ha⟩, ⟨b, hb⟩, q, hne⟩, after, ?_, by simpa using hword, ?_⟩
    · rw [List.append_assoc, htext]
    · simp [LookUp.reference, LookUp.bracket]
  · rintro ⟨before, l, after, rfl, hword, rfl⟩
    have hquote : (l.key.text ++ after).head?.any Source.isQuote = true := by
      simpa [Quotation.text] using l.key.isQuote
    have ho : opening? patterns.table (l.text patterns.table ++ after) = some _ :=
      opening?_eq_some_iff.2 ⟨l.afterTable.1, l.afterOpening.1, l.key.text ++ after,
        l.afterTable.2, l.afterOpening.2, hquote, htext l after, rfl⟩
    refine ⟨(before.length, _), (mem_openingsFrom_iff htable).2 ⟨before, _, ?_, ?_, ?_, ?_, ho⟩,
      reference?_eq_some_iff.2 ⟨l.key, after, l.key_ne, rfl, ?_⟩⟩
    · rw [List.append_assoc]
    · simp
    · simp
    · simpa using hword
    · simp [LookUp.reference, LookUp.bracket]

/-- The references of a line come in the order of their places. -/
theorem pairwise_references (htable : Readers.isName patterns.table = true) (line : Text) :
    (references patterns line).Pairwise fun r r' => r.start < r'.start := by
  refine (pairwise_openingsFrom htable 0 none 0 line).filterMap _ fun x x' hlt r hr r' hr' => ?_
  obtain ⟨_, _, -, -, rfl⟩ := reference?_eq_some_iff.1 hr
  obtain ⟨_, _, -, -, rfl⟩ := reference?_eq_some_iff.1 hr'
  exact hlt

/-- The references of a line are exactly its look-ups of keys that are not empty, in the order of
their places: the name of the table continues no word, and blanks, a bracket, blanks and a closed
literal follow. Each is told with the raw text of its literal, the place of its bracket and whether
the expression there joins strings, and it is a template exactly when the call of a template
function opens in front of it. -/
theorem references_are_lookUps (htable : Readers.isName patterns.table = true) (line : Text) :
    (references patterns line).Pairwise (fun r r' => r.start < r'.start) ∧
      ∀ r, r ∈ references patterns line ↔ ∃ (before : Text) (l : LookUp) (after : Text),
        line = before ++ l.text patterns.table ++ after ∧
        before.getLast?.any isWordChar = false ∧
        r.start = before.length ∧ r.bracket = before.length + l.bracket patterns.table ∧
        r.key = l.key.raw ∧ r.isJoined = Source.joinsInBrackets line r.bracket ∧
        (r.isTemplate = true ↔ EndsWithCall patterns.templates before) := by
  refine ⟨pairwise_references htable line, fun r => ?_⟩
  rw [mem_references_iff htable]
  refine exists_congr fun before => exists_congr fun l => exists_congr fun after =>
    and_congr_right fun _ => and_congr_right fun _ => ?_
  constructor
  · rintro rfl
    exact ⟨rfl, rfl, rfl, rfl, opensTemplateCall_iff⟩
  · rintro ⟨hstart, hbracket, hkey, hjoined, htemplate⟩
    rw [← opensTemplateCall_iff, ← Bool.eq_iff_iff] at htemplate
    rw [hbracket] at hjoined
    cases r
    simp_all [LookUp.reference]

/-- The first key holds another look-up, which is found too. A longer name, an empty key and a
literal that does not close are no look-ups. -/
theorem references_are_lookUps_of_nested :
    let patterns : Patterns := ⟨"L".toList, ["string.format".toList]⟩
    let line := "string.format( L [ \"a L['b']\" .. x], xL[\"c\"], L[\"\"], L[\"d".toList
    let found : List Reference :=
      [⟨"a L['b']".toList, true, true, 15, 17⟩, ⟨"b".toList, false, false, 22, 23⟩]
    Readers.isName patterns.table = true ∧ references patterns line = found ∧
      found.Pairwise (fun r r' => r.start < r'.start) ∧
      ∀ r ∈ found, ∃ (before : Text) (l : LookUp) (after : Text),
        line = before ++ l.text patterns.table ++ after ∧
        before.getLast?.any isWordChar = false ∧
        r.start = before.length ∧ r.bracket = before.length + l.bracket patterns.table ∧
        r.key = l.key.raw ∧ r.isJoined = Source.joinsInBrackets line r.bracket ∧
        (r.isTemplate = true ↔ EndsWithCall patterns.templates before) := by
  intro patterns line found
  have htable : Readers.isName patterns.table = true := by decide +kernel
  have hfound : references patterns line = found := by decide +kernel
  obtain ⟨horder, hall⟩ := references_are_lookUps htable line
  rw [hfound] at horder
  exact ⟨htable, hfound, horder, fun r hr => (hall r).1 (hfound ▸ hr)⟩

end Phrasebook.Glue
