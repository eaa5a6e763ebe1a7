import Phrasebook.Proofs.Locale.Entries
import Phrasebook.Proofs.Locale.Stable
import Phrasebook.Proofs.Text.Lines

/-!
# Reading back written lines

Written lines have no line feeds, since their keys stand on lines of the file and their texts are
escaped. Lines that are joined with either end are therefore read back one by one, and a carriage
return that is taken for a part of an end makes no difference to what a line assigns.
-/

namespace Phrasebook

open Text (Newline isBlankText)

/-- Escaping leaves no line feed. -/
theorem Source.newline_not_mem_escape (value : Text) : '\n' ∉ Source.escape value := by
  suffices ∀ before previous, '\n' ∉ Source.escapeFrom before previous value from this none none
  induction value with
  | nil => simp [Source.escapeFrom]
  | cons c t ih =>
    intro before previous
    rw [Source.escapeFrom, List.mem_append, not_or]
    refine ⟨?_, ih _ _⟩
    by_cases hc : c = '\n'
    · subst hc
      simp [Source.escapeChar]
    · unfold Source.escapeChar
      split_ifs <;> simp [Ne.symm hc]

/-- A blank at the end of a line changes nothing about the key that it assigns. -/
theorem Glue.assignedKey?_append_blank (table line : Text) {c : Char}
    (hc : Text.isBlank c = true) :
    Glue.assignedKey? table (line ++ [c]) = Glue.assignedKey? table line := by
  rw [Glue.assignedKey?, Glue.target?_append_blank table line hc, Option.map_map]
  rfl

namespace Locale

variable {style : Style} {texts : KeyMap Text} {guarded : Bool} {table key : Text}

/-- What is read back of a line assigns the same key. -/
theorem assignedKey?_readBack (newline : Newline) (line : Text) :
    Glue.assignedKey? table (newline.readBack line) = Glue.assignedKey? table line := by
  rcases newline.exists_readBack line with h | h
  · rw [← h]
  · conv => rhs; rw [h]
    exact (Glue.assignedKey?_append_blank table _ (by decide)).symm

/-- What is read back of a line is the same literal assignment. -/
theorem assignment?_readBack (newline : Newline) (line : Text) :
    Glue.assignment? table (newline.readBack line) = Glue.assignment? table line := by
  rcases newline.exists_readBack line with h | h
  · rw [← h]
  · conv => rhs; rw [h]
    exact (Glue.assignment?_append_blank table _ (by decide)).symm

/-- What is read back of lines has the same literal assignments. -/
theorem assignments_readBack (newline : Newline) (ls : List Text) :
    assignments table (ls.map newline.readBack) = assignments table ls := by
  rw [assignments, List.filterMap_map]
  exact List.filterMap_congr fun line _ => assignment?_readBack newline line

/-- What is read back of lines has the same values. -/
theorem literals_readBack (newline : Newline) (ls : List Text) :
    literals table key (ls.map newline.readBack) = literals table key ls := by
  rw [literals, assignments_readBack, literals]

/-- The name of the table and the key of an assignment stand on its line. -/
theorem mem_of_assignedKey? {line : Text} (h : Glue.assignedKey? table line = some key) {c : Char} :
    (c ∈ table → c ∈ line) ∧ (c ∈ key → c ∈ line) := by
  obtain ⟨target, ht, rfl⟩ := Option.map_eq_some_iff.1 h
  obtain ⟨s, a, b, quote, d, e, -, -, -, -, -, -, -, -, -, rfl⟩ := Glue.target?_eq_some_iff.1 ht
  exact ⟨fun hc => by simp [hc], fun hc => by simp [hc]⟩

/-- A written line has no line feed when its parts have none. -/
theorem newline_not_mem_line {indent k : Text} (htable : '\n' ∉ style.table)
    (hindent : '\n' ∉ indent) (hk : '\n' ∉ k) (text : Text) :
    '\n' ∉ style.line indent k text := by
  have hescape := Source.newline_not_mem_escape text
  simp [Style.line, Glue.Assignment.line, htable, hindent, hk, hescape]

/-- The indent of a line stands on it. -/
theorem newline_not_mem_indent {line : Text} (h : '\n' ∉ line) : '\n' ∉ Text.indent line :=
  fun hmem => h ((List.takeWhile_sublist _).subset hmem)

/-- The lines of a merged region have no line feeds. -/
theorem newline_not_mem_mergeRegion (htable : '\n' ∉ style.table)
    (hkeys : ∀ e ∈ texts.entries, '\n' ∉ e.1) {ls : List Text} (hls : ∀ line ∈ ls, '\n' ∉ line) :
    ∀ line ∈ mergeRegion style texts guarded ls, '\n' ∉ line := by
  have hbody : ∀ line ∈ (editRegion style texts guarded ls).body, '\n' ∉ line := by
    induction ls using List.reverseRecOn with
    | nil => simp [editRegion, Edit.start]
    | append_singleton ls line ih =>
      intro w hw
      rw [editRegion_concat, Edit.body_step, List.mem_append] at hw
      rcases hw with hw | hw
      · exact ih (fun l hl => hls l (by simp [hl])) w hw
      · have hline := hls line (by simp)
        have hfate := Edit.fate_written style texts guarded
          (editRegion style texts guarded ls).handled line
        generalize Edit.written style texts guarded
          (editRegion style texts guarded ls).handled line = out at hfate hw
        cases hfate with
        | other => simpa [List.mem_singleton.1 hw] using hline
        | kept => simpa [List.mem_singleton.1 hw] using hline
        | dropped => simp at hw
        | @rewritten a text ha =>
          have hkey := (mem_of_assignedKey? (c := '\n') (Glue.assignedKey?_of_assignment? ha)).2
          rw [List.mem_singleton.1 hw, Glue.indent_of_assignment? ha]
          exact newline_not_mem_line htable (newline_not_mem_indent hline)
            (fun hmem => hline (hkey hmem)) text
  have hindent : '\n' ∉ (editRegion style texts guarded ls).addedIndent guarded := by
    unfold Edit.addedIndent
    cases guarded with
    | true => exact show '\n' ∉ guardIndent by decide
    | false =>
      rw [indent_editRegion]
      cases hf : ls.find? (assignsKey style.table) with
      | none => simp
      | some line => exact newline_not_mem_indent (hls line (List.mem_of_find?_eq_some hf))
  intro line hline
  rw [mergeRegion_eq, List.mem_append] at hline
  rcases hline with hline | hline
  · exact hbody line hline
  · obtain ⟨e, he, rfl⟩ := List.mem_map.1 hline
    exact newline_not_mem_line htable hindent (hkeys e (get?_of_mem_missing he).1) e.2

end Locale

end Phrasebook
