import Phrasebook.Proofs.Glue.LookUp
import Phrasebook.Proofs.Source.Bracket

/-!
# The reference that a line assigns

The front of an assignment is itself a look-up, which the search for references finds first: before
it there are only blanks. Its bracket closes behind its key, so that its key expression joins no
strings, and no call opens in front of it. The references of the value start behind the equals sign
and do not include it.
-/

namespace Phrasebook.Glue

open Text (isBlank isBlankText isWordChar)

variable {patterns : Patterns} {table line : Text}

/-- Blanks open and close no bracket and join no strings. -/
theorem isOperand_blanks (b : Blanks) : Source.IsOperand b.1 := by
  refine Source.isOperand_of_forall fun c hc => ?_
  have hblank : isBlank c = true := List.all_eq_true.1 b.2 c hc
  refine ⟨?_, ?_, ?_, ?_⟩
  · cases hquote : Source.isQuote c with
    | false => rfl
    | true => simp [isBlank_of_isQuote hquote] at hblank
  all_goals
    rintro rfl
    exact absurd hblank (by decide)

/-- A look-up whose bracket closes behind its key joins no strings. -/
theorem joinsInBrackets_lookUp (l : LookUp) (before : Text) (b : Blanks) (t : Text) :
    Source.joinsInBrackets (before ++ l.text table ++ b.1 ++ [']'] ++ t)
      (before.length + l.bracket table) = false := by
  have hoperand := ((isOperand_blanks l.afterOpening).append
    (Source.isOperand_literal l.key.isQuote l.key.isRaw)).append (isOperand_blanks b)
  have hjoins := Source.joinsInBrackets_of_isOperand hoperand
    (before ++ table ++ l.afterTable.1) t
  have hline : before ++ l.text table ++ b.1 ++ [']'] ++ t =
      (before ++ table ++ l.afterTable.1) ++ '[' ::
        (l.afterOpening.1 ++ (l.key.quote :: l.key.raw ++ [l.key.quote]) ++ b.1 ++ ']' :: t) := by
    simp [LookUp.text, Quotation.text]
  have hplace : before.length + l.bracket table =
      (before ++ table ++ l.afterTable.1).length := by
    simp [LookUp.bracket]
  rw [hline, hplace, hjoins]

/-- No call opens in blanks. -/
theorem opensTemplateCall_blanks (templates : List Text) (b : Blanks) :
    opensTemplateCall templates b.1 = false := by
  rw [Bool.eq_false_iff]
  intro hcall
  obtain ⟨name, -, front, a, c, hsplit, -⟩ := opensTemplateCall_iff.1 hcall
  have hmem : '(' ∈ b.1 := by simp [hsplit]
  exact absurd (List.all_eq_true.1 b.2 _ hmem) (by decide)

/-- Blanks continue no word. -/
theorem getLast?_blanks (b : Blanks) : b.1.getLast?.any isWordChar = false := by
  cases hlast : b.1.getLast? with
  | none => rfl
  | some c =>
    have hblank : isBlank c = true := List.all_eq_true.1 b.2 c (List.mem_of_getLast? hlast)
    simpa using isWordChar_of_isBlank hblank

/-- A look-up behind blanks is the first reference of its line. -/
theorem exists_references_eq_cons (htable : Readers.isName patterns.table = true) {b : Blanks}
    {l : LookUp} {after : Text} (hline : line = b.1 ++ l.text patterns.table ++ after) :
    ∃ rest, references patterns line = l.reference patterns line b.1 :: rest := by
  have hmem : l.reference patterns line b.1 ∈ references patterns line :=
    (mem_references_iff htable).2 ⟨b.1, l, after, hline, getLast?_blanks b, rfl⟩
  have horder := pairwise_references htable line
  cases hall : references patterns line with
  | nil => simp [hall] at hmem
  | cons first rest =>
    rw [hall] at hmem horder
    rcases List.mem_cons.1 hmem with hfirst | hrest
    · exact ⟨rest, by rw [hfirst]⟩
    · -- Another first reference would start at one of the blanks.
      have hbefore := (List.pairwise_cons.1 horder).1 _ hrest
      have hfirst : first ∈ references patterns line := hall ▸ List.mem_cons_self
      obtain ⟨before, l', after', hline', -, rfl⟩ := (mem_references_iff htable).1 hfirst
      obtain ⟨c, name, hname, hblank, -⟩ := head_of_isName htable
      have hlt : before.length < b.1.length := hbefore
      rw [hline, List.append_assoc, List.append_assoc] at hline'
      rcases List.append_eq_append_iff.1 hline' with ⟨x, rfl, -⟩ | ⟨x, hx, hsplit⟩
      · rw [List.length_append] at hlt
        omega
      · cases x with
        | nil =>
          rw [List.append_nil] at hx
          simp [hx] at hlt
        | cons d x =>
          have hd : c = d := by
            rw [LookUp.text, hname] at hsplit
            exact (List.cons.inj (by simpa using hsplit)).1
          have hmem : d ∈ b.1 := by simp [hx]
          simp [hd, List.all_eq_true.1 b.2 d hmem] at hblank

/-- The front of an assignment is a look-up behind blanks, and its bracket closes behind its key. -/
theorem exists_lookUp_of_target? {target : Target} (h : target? table line = some target) :
    ∃ (b : Blanks) (l : LookUp) (c d : Blanks), l.key.raw = target.key ∧
      line = b.1 ++ l.text table ++ c.1 ++ [']'] ++ (d.1 ++ '=' :: target.value) := by
  obtain ⟨s, a, b, quote, c, d, hs, ha, hb, hc, hd, hquote, hkey, hraw, -, rfl⟩ :=
    target?_eq_some_iff.1 h
  refine ⟨⟨s, hs⟩, ⟨⟨a, ha⟩, ⟨b, hb⟩, ⟨quote, target.key, hquote, hraw⟩, hkey⟩, ⟨c, hc⟩, ⟨d, hd⟩,
    rfl, ?_⟩
  simp [LookUp.text, Quotation.text]

/-- The first reference of a line that assigns a key is a look-up of that key: it starts behind the
indent and before the value, joins no strings and is no template. The references of the value are
those that start at the value or behind it, so it is none of them. And a line that is read as a
literal assignment assigns the key of that assignment. -/
theorem assigned_key_is_first_reference (htable : Readers.isName patterns.table = true)
    (line : Text) :
    (∀ key, assignedKey? patterns.table line = some key →
      ∃ first rest start, references patterns line = first :: rest ∧
        valueStart? patterns.table line = some start ∧
        first.key = key ∧ first.start = (Text.indent line).length ∧ first.start < start ∧
        first.isJoined = false ∧ first.isTemplate = false ∧
        valueReferences patterns line =
          (references patterns line).filter (fun r => start ≤ r.start) ∧
        first ∉ valueReferences patterns line) ∧
      ∀ a, assignment? patterns.table line = some a →
        assignedKey? patterns.table line = some a.key := by
  refine ⟨fun key hkey => ?_, fun a ha => assignedKey?_of_assignment? ha⟩
  obtain ⟨target, htarget, rfl⟩ := Option.map_eq_some_iff.1 hkey
  obtain ⟨b, l, c, d, hraw, hline⟩ := exists_lookUp_of_target? htarget
  have hsplit : line = b.1 ++ l.text patterns.table ++
      (c.1 ++ [']'] ++ (d.1 ++ '=' :: target.value)) := by simpa using hline
  obtain ⟨rest, hall⟩ := exists_references_eq_cons htable hsplit
  have hstart : valueStart? patterns.table line = some (line.length - target.value.length) := by
    rw [valueStart?, htarget, Option.map_some]
  have hvalue : valueReferences patterns line = (references patterns line).filter fun r =>
      line.length - target.value.length ≤ r.start := by
    rw [valueReferences, hstart]
  have hbefore : b.1.length < line.length - target.value.length := by
    have hlength := congrArg List.length hline
    simp only [List.length_append, List.length_cons, List.length_nil] at hlength
    omega
  have hindent : Text.indent line = b.1 := by
    obtain ⟨e, name, hname, hblank, -⟩ := head_of_isName htable
    rw [hline]
    simpa [LookUp.text, hname] using Text.indent_append_cons b.2 hblank _
  refine ⟨_, rest, _, hall, hstart, hraw, ?_, hbefore, ?_, ?_, hvalue, ?_⟩
  · rw [hindent]
    rfl
  · rw [hline]
    exact joinsInBrackets_lookUp l b.1 c _
  · exact opensTemplateCall_blanks patterns.templates b
  · rw [hvalue, List.mem_filter]
    rintro ⟨-, hle⟩
    exact absurd (of_decide_eq_true hle) (Nat.not_le.2 hbefore)

/-- The key that is assigned holds a bracket, two dots and another look-up, and the comment looks up
a third key. -/
theorem assigned_key_is_first_reference_of_brackets :
    let patterns : Patterns := ⟨"L".toList, ["string.format".toList]⟩
    let line := "  L [\"a] .. L['b']\" ] = 'x' -- L[\"c\"]".toList
    let a : Assignment := ⟨"a] .. L['b']".toList, "x".toList, "  ".toList⟩
    (Readers.isName patterns.table = true ∧ assignment? patterns.table line = some a) ∧
      assignedKey? patterns.table line = some a.key ∧
      ∃ first rest start, references patterns line = first :: rest ∧
        valueStart? patterns.table line = some start ∧
        first.key = a.key ∧ first.start = (Text.indent line).length ∧ first.start < start ∧
        first.isJoined = false ∧ first.isTemplate = false ∧
        valueReferences patterns line =
          (references patterns line).filter (fun r => start ≤ r.start) ∧
        first ∉ valueReferences patterns line := by
  intro patterns line a
  have htable : Readers.isName patterns.table = true := by decide +kernel
  have hread : assignment? patterns.table line = some a := by decide +kernel
  obtain ⟨hfirst, hassigns⟩ := assigned_key_is_first_reference htable line
  exact ⟨⟨htable, hread⟩, hassigns a hread, hfirst a.key (hassigns a hread)⟩

end Phrasebook.Glue
