import Phrasebook.Proofs.Locale.Cleared

/-!
# What a new file is read as

No line of a new file but those of its entries is read as an assignment: the others have no bracket,
the binding of the table apart, which starts with another word than the name of the table. So a new
file is read as its entries that are not blank, in key order, when each of them can be read back.
-/

namespace Phrasebook.Locale

open Text (Newline isBlankText)

variable {style : Style} {table : Text} {codes : List Text} {entries : Dictionary Text}

/-- The lines around the entries of a new file assign nothing. -/
theorem assignment?_frame (haddon : '[' ∉ style.addon) (hcodes : ∀ code ∈ codes, '[' ∉ code) :
    ∀ line ∈ style.frame codes, Glue.assignment? style.table line = none := by
  have hcondition : '[' ∉ condition codes := not_mem_condition (by decide) hcodes
  intro line hline
  simp only [Style.frame, List.mem_cons, List.not_mem_nil, or_false] at hline
  rcases hline with rfl | rfl | rfl | rfl | rfl | rfl | rfl | rfl | rfl
  case inr.inr.inr.inr.inr.inl => exact assignment?_eq_none (assignsKey_binding style)
  all_goals exact assignment?_eq_none (assignsKey_of_not_mem (by simp [haddon, hcondition]))

/-- A new file assigns its entries that are not blank, when each of them can be read back. -/
theorem assignments_newFile (haddon : '[' ∉ style.addon) (hcodes : ∀ code ∈ codes, '[' ∉ code)
    (hread : ∀ e ∈ entries.entries, Glue.IsKey e.1 ∧ Source.IsFaithful e.2) :
    assignments style.table (newFile style codes entries []) =
      (writtenEntries entries).map fun e =>
        ⟨e.1, e.2, Text.indent (style.line guardIndent e.1 e.2)⟩ := by
  have hframe : ∀ {lines : List Text}, lines ⊆ style.frame codes →
      assignments style.table lines = [] := fun hlines =>
    List.filterMap_eq_nil_iff.2 fun line hline =>
      assignment?_frame haddon hcodes line (hlines hline)
  have hwritten : assignments style.table
      ((writtenEntries entries).map fun e => style.line guardIndent e.1 e.2) =
        (writtenEntries entries).map fun e =>
          ⟨e.1, e.2, Text.indent (style.line guardIndent e.1 e.2)⟩ := by
    rw [assignments, List.filterMap_map, ← List.filterMap_eq_map]
    refine List.filterMap_congr fun e he => ?_
    obtain ⟨hkey, hvalue⟩ := hread e (mem_writtenEntries.1 he).1
    exact Glue.assignment?_line style.table hkey (show isBlankText guardIndent = true from rfl)
      hvalue
  rw [newFile_eq]
  simp only [assignments_append, hwritten]
  rw [hframe (by simp [Style.frame]), hframe (by simp [Style.frame]),
    hframe (by simp [Style.frame]), hframe (by simp [Style.frame])]
  simp

/-- The entries of a new file are those that are not blank, in key order. -/
theorem entries_newFile (htable : '\n' ∉ style.table)
    (haddon : '\n' ∉ style.addon ∧ '[' ∉ style.addon)
    (hexpression : '\n' ∉ style.expression)
    (hcodes : ∀ code ∈ codes, '\n' ∉ code ∧ '[' ∉ code)
    (hdistinct : (entries.entries.map fun e => Text.fold e.1).Nodup)
    (hread : ∀ e ∈ entries.entries, '\n' ∉ e.1 ∧ Glue.IsKey e.1 ∧ Source.IsFaithful e.2) :
    (Entries.ofLines style.table (Text.lines (Text.joinLines (newFile style codes entries [])
      Newline.lf.text))).texts.entries = writtenEntries entries := by
  have hassigned : assignments style.table (Text.lines (Text.joinLines
      (newFile style codes entries []) Newline.lf.text)) = (writtenEntries entries).map fun e =>
        ⟨e.1, e.2, Text.indent (style.line guardIndent e.1 e.2)⟩ := by
    rw [lines_newFile htable haddon.1 hexpression (fun code hcode => (hcodes code hcode).1)
      fun e he => (hread e he).1, assignments_readBack]
    exact assignments_newFile haddon.2 (fun code hcode => (hcodes code hcode).2)
      fun e he => (hread e he).2
  have hsorted : ((writtenEntries entries).map fun e => Text.fold e.1).Nodup :=
    (List.filter_sublist.map _).nodup
      (((sortedEntries_perm entries).map fun e => Text.fold e.1).nodup_iff.2 hdistinct)
  rw [entries_texts, hassigned, entries_valuesByKey (by rwa [List.map_map]), List.map_map,
    List.map_map]
  exact List.map_id'' (fun _ => rfl) _

end Phrasebook.Locale
