import Phrasebook.Proofs.Locale.Cleared
import Phrasebook.Proofs.Workspace.Save

/-!
# The keys of a new file

A file that is written anew is read with the keys of its entries that are not blank, and with no
others, when the line of each of them is read back as an assignment of its key.
-/

namespace Phrasebook.Locale

open Text (Newline isBlankText)

variable {style : Style} {table key text : Text} {codes : List Text} {entries : Dictionary Text}

/-- Whether the line that is written for a text of a key is read as an assignment of the key. -/
def readsBack (table key text : Text) : Bool :=
  (Glue.assignment? table (Glue.Assignment.line ⟨key, text, []⟩ table)).any fun a =>
    Text.fold a.key = Text.fold key

/-- A key that can stand between double quotes is read back when the literal of its text closes where
it should. -/
theorem readsBack_of_isKey (table : Text) (hkey : Glue.IsKey key)
    (htext : Source.isRaw '"' (Source.escape text) = true) : readsBack table key text = true := by
  have htarget := Glue.target?_line table (a := ⟨key, text, []⟩) hkey rfl
  simp [readsBack, Glue.assignment?, htarget, Glue.assignedLiteral?_writtenValue htext]

/-- A line that is read as an assignment of its key assigns no other one. -/
theorem keepsKey_of_readsBack (h : readsBack table key text = true) :
    keepsKey table key text = true := by
  unfold readsBack at h
  unfold keepsKey
  cases hread : Glue.assignment? table (Glue.Assignment.line ⟨key, text, []⟩ table) with
  | none => rfl
  | some a => simpa [hread] using h

/-- A line that is read as an assignment of its key is read so behind any indent. -/
theorem exists_assignment_of_readsBack {indent : Text}
    (hindent : isBlankText indent = true) (h : readsBack style.table key text = true) :
    ∃ a, Glue.assignment? style.table (style.line indent key text) = some a ∧
      Text.fold a.key = Text.fold key := by
  obtain ⟨b, hb, hsame⟩ := (Option.any_eq_true _ _).1 h
  have hread := Glue.map_assignment?_line style.table (a := ⟨key, text, indent⟩) hindent
  rw [hb, Option.map_some, Option.map_eq_some_iff] at hread
  obtain ⟨a, ha, hpair⟩ := hread
  exact ⟨a, ha, (Prod.mk.inj hpair).1 ▸ of_decide_eq_true hsame⟩

/-- A new file has a line for each entry that is not blank. -/
theorem line_mem_newFile {e : Text × Text} (he : e ∈ entries.entries)
    (hblank : isBlankText e.2 = false) :
    style.line guardIndent e.1 e.2 ∈ newFile style codes entries [] := by
  have hwritten : e ∈ writtenEntries entries :=
    List.mem_filter.2 ⟨(sortedEntries_perm entries).mem_iff.2 he, by simp [hblank]⟩
  have hline := List.mem_map_of_mem (f := fun e => style.line guardIndent e.1 e.2) hwritten
  rw [newFile_eq]
  simp only [List.mem_append]
  exact Or.inr (Or.inl (Or.inr hline))

/-- A new file is read with the keys of its entries that are not blank. -/
theorem get?_newFile_ne_none_iff (htable : Readers.isName style.table = true)
    (hnames : '\n' ∉ style.table ∧ '\n' ∉ style.addon ∧ '\n' ∉ style.expression)
    (hcodes : ∀ code ∈ codes, '\n' ∉ code) (hkeys : ∀ e ∈ entries.entries, '\n' ∉ e.1)
    (hread : ∀ e ∈ entries.entries, isBlankText e.2 = false →
      readsBack style.table e.1 e.2 = true) :
    (Entries.ofLines style.table (Text.lines (Text.joinLines (newFile style codes entries [])
      Newline.lf.text))).texts.get? key ≠ none ↔
        ∃ e ∈ entries.entries, isBlankText e.2 = false ∧ Text.fold e.1 = Text.fold key := by
  have hassigned : assignments style.table (Text.lines (Text.joinLines
      (newFile style codes entries []) Newline.lf.text)) =
        assignments style.table (newFile style codes entries []) := by
    rw [lines_newFile hnames.1 hnames.2.1 hnames.2.2 hcodes hkeys, assignments_readBack]
  constructor
  · intro hsome
    obtain ⟨text, htext⟩ := Option.ne_none_iff_exists'.1 hsome
    obtain ⟨a, ha, hk, -⟩ := exists_assignment_of_get? htext
    obtain ⟨e, he, hblank, hsame⟩ := exists_entry_of_mem_newFile htable
      (fun e he hb => keepsKey_of_readsBack (hread e he hb)) (hassigned ▸ ha)
    exact ⟨e, he, hblank, hsame.symm.trans hk⟩
  · rintro ⟨e, he, hblank, hk⟩
    obtain ⟨a, ha, hkey⟩ := exists_assignment_of_readsBack
      (show isBlankText guardIndent = true from rfl) (hread e he hblank)
    have hmem : a ∈ assignments style.table (newFile style codes entries []) :=
      mem_assignments (line_mem_newFile he hblank) ha
    exact get?_ne_none_of_mem_assignments (hassigned ▸ hmem) (hkey.trans hk)

end Phrasebook.Locale
