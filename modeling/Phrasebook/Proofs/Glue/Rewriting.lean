import Phrasebook.Proofs.Glue.Assignment
import Phrasebook.Text.Fold

/-!
# Assignments that are written again

A plain value is read back from the line that is written for it, whatever the key is, as long as the
key can stand between double quotes. Keys are carried as raw text and are always written in double
quotes, so a key that was read between single quotes is lost when it has a double quote that no
backslash takes along: then the rewritten line ends the key there.
-/

namespace Phrasebook.Glue

open Text (isBlank isBlankText)

/-- A written line is read as the assignment that it was written for. -/
theorem assignment?_line_eq_some {table : Text} (htable : table.head?.any isBlank = false)
    {key value indent : Text} (hkey : IsKey key) (hvalue : Source.IsPlain value)
    (hindent : isBlankText indent = true) :
    assignment? table (Assignment.line ⟨key, value, indent⟩ table) = some ⟨key, value, indent⟩ := by
  have hread := assignment?_line table (a := ⟨key, value, indent⟩) hkey hindent hvalue.isFaithful
  have hsame := indent_line htable (a := ⟨key, value, indent⟩) hindent
  rw [hread, hsame]

/-- A value with quotes, brackets, line ends, comment signs and a backslash at its end is read back
for a key that looks like an assignment. -/
theorem assignment?_line_of_punctuation :
    let key := "a\\\"] = 'b' -- [".toList
    let value := "]\" = \"x\" --[[\n\r\t; \\".toList
    let indent := " \t".toList
    ("L".toList.head?.any isBlank = false ∧ IsKey key ∧ Source.IsPlain value ∧
      isBlankText indent = true) ∧
      assignment? "L".toList (Assignment.line ⟨key, value, indent⟩ "L".toList) =
        some ⟨key, value, indent⟩ := by
  intro key value indent
  have htable : "L".toList.head?.any isBlank = false := by decide +kernel
  have hkey : IsKey key := by decide +kernel
  have hvalue : Source.IsPlain value := by decide +kernel
  have hindent : isBlankText indent = true := by decide +kernel
  exact ⟨⟨htable, hkey, hvalue, hindent⟩, assignment?_line_eq_some htable hkey hvalue hindent⟩

/-- The literal behind the bracket of an assignment is that of its key. -/
theorem key_of_bracket {table line s a b u : Text} {quote : Char} {target : Target}
    (h : target? table line = some target) (hs : isBlankText s = true) (ha : isBlankText a = true)
    (hb : isBlankText b = true) (hquote : Source.isQuote quote = true)
    (hline : line = s ++ (table ++ (a ++ '[' :: (b ++ quote :: u)))) :
    Source.isRaw quote target.key = true ∧ ∃ rest, u = target.key ++ quote :: rest := by
  obtain ⟨s', a', b', quote', c, d, hs', ha', hb', -, -, hquote', -, hraw, -, hsplit⟩ :=
    target?_eq_some_iff.1 h
  have hbehind := bracket_unique hs ha hs' ha' (hline.symm.trans hsplit)
  have htrim := congrArg Text.trimLeft hbehind
  rw [Text.trimLeft_append_of_blank hb, Text.trimLeft_append_of_blank hb',
    Text.trimLeft_cons_of_not_blank (isBlank_of_isQuote hquote), List.cons_append,
    Text.trimLeft_cons_of_not_blank (isBlank_of_isQuote hquote')] at htrim
  obtain ⟨rfl, hkey⟩ := List.cons.inj htrim
  exact ⟨hraw, _, hkey⟩

/-- Two texts that differ in case only and stand in front of a quote each are the same. -/
theorem eq_of_fold_eq_of_quote {k k' u u' : Text} (hfold : Text.fold k = Text.fold k')
    (h : k ++ '"' :: u = k' ++ '"' :: u') : k = k' := by
  -- What one of them has beyond the other starts with a quote, which folding keeps.
  have hnone : ∀ {t v w w' : Text}, Text.fold (t ++ v) = Text.fold t → '"' :: w = v ++ '"' :: w' →
      v = [] := by
    intro t v w w' hsame hrest
    cases v with
    | nil => rfl
    | cons c v =>
      obtain rfl := (List.cons.inj hrest).1
      simp [Text.fold, Text.foldChar] at hsame
  rcases List.append_eq_append_iff.1 h with ⟨v, rfl, hrest⟩ | ⟨v, rfl, hrest⟩
  · rw [hnone hfold.symm hrest, List.append_nil]
  · rw [hnone hfold hrest, List.append_nil]

/-- A written line that assigns its key up to case assigns the key itself, and has the value behind
the equals sign. -/
theorem target?_line_of_fold {table : Text} {a : Assignment} {target : Target}
    (h : target? table (a.line table) = some target) (hindent : isBlankText a.indent = true)
    (hfold : Text.fold target.key = Text.fold a.key) :
    target = ⟨a.key, writtenValue a.value⟩ := by
  have hline : a.line table = a.indent ++ (table ++ ([] ++ '[' :: ([] ++ '"' ::
      (a.key ++ '"' :: ("] = \"".toList ++ Source.escape a.value ++ ['"']))))) := by
    simp [Assignment.line]
  obtain ⟨hraw, rest, hrest⟩ := key_of_bracket h hindent rfl rfl rfl hline
  have hkey : target.key = a.key := eq_of_fold_eq_of_quote hfold hrest.symm
  obtain ⟨_, _, _, _, _, _, -, -, -, -, -, -, hne, -⟩ := target?_eq_some_iff.1 h
  have hwritten := target?_line table (isKey_iff.2 ⟨hkey ▸ hne, hkey ▸ hraw⟩) hindent
  exact Option.some.inj (h.symm.trans hwritten)

/-- A literal assignment that is written again with a plain value is read back with its key and the
new value exactly when every double quote of the key stands behind a backslash that takes it along;
so it is when the key was read between double quotes. -/
theorem rewritten_reads_back_iff {table line : Text} {a : Assignment} {value : Text}
    (ha : assignment? table line = some a) (hvalue : Source.IsPlain value) :
    ((∃ b, assignment? table (Assignment.line ⟨a.key, value, a.indent⟩ table) = some b ∧
        b.key = a.key ∧ b.value = value) ↔ Source.isRaw '"' a.key = true) ∧
      ∀ s x y u, isBlankText s = true → isBlankText x = true → isBlankText y = true →
        line = s ++ (table ++ (x ++ '[' :: (y ++ '"' :: u))) →
          Source.isRaw '"' a.key = true := by
  obtain ⟨target, htarget, hkey⟩ := Option.map_eq_some_iff.1 (assignedKey?_of_assignment? ha)
  have hne : a.key ≠ [] := by
    obtain ⟨_, _, _, _, _, _, -, -, -, -, -, -, hne, -⟩ := target?_eq_some_iff.1 htarget
    exact hkey ▸ hne
  have hindent : isBlankText a.indent = true :=
    isBlankText_indent_of_assignment? ha
  refine ⟨⟨?_, fun hraw => ?_⟩, fun s x y u hs hx hy hline => ?_⟩
  · rintro ⟨b, hb, hbkey, -⟩
    obtain ⟨again, hagain, hakey⟩ := Option.map_eq_some_iff.1 (assignedKey?_of_assignment? hb)
    have hline : Assignment.line ⟨a.key, value, a.indent⟩ table = a.indent ++ (table ++ ([] ++
        '[' :: ([] ++ '"' :: (a.key ++ "\"] = \"".toList ++ Source.escape value ++ ['"'])))) := by
      simp [Assignment.line]
    have hraw := (key_of_bracket hagain hindent rfl rfl rfl hline).1
    rwa [hakey, hbkey] at hraw
  · exact ⟨_, assignment?_line table (a := ⟨a.key, value, a.indent⟩) (isKey_iff.2 ⟨hne, hraw⟩)
      hindent hvalue.isFaithful, rfl, rfl⟩
  · exact hkey ▸ (key_of_bracket htarget hs hx hy rfl hline).1

/-- A key between single quotes that has a double quote is not read back. -/
theorem rewritten_not_read_back_of_inner_quote :
    let line := "  L['say \"hi\"'] = \"x\"".toList
    let a : Assignment := ⟨"say \"hi\"".toList, "x".toList, "  ".toList⟩
    (assignment? "L".toList line = some a ∧ Source.IsPlain "y".toList) ∧
      ¬ ∃ b, assignment? "L".toList (Assignment.line ⟨a.key, "y".toList, a.indent⟩ "L".toList) =
        some b ∧ b.key = a.key ∧ b.value = "y".toList := by
  intro line a
  have ha : assignment? "L".toList line = some a := by decide +kernel
  have hvalue : Source.IsPlain "y".toList := by decide +kernel
  refine ⟨⟨ha, hvalue⟩, fun hread => ?_⟩
  exact absurd ((rewritten_reads_back_iff ha hvalue).1.1 hread) (by decide +kernel)

end Phrasebook.Glue
