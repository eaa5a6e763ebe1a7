import Phrasebook.Proofs.Locale.Written

/-!
# Clearing keys

A merge with blank texts for the keys that are not valid leaves valid keys only, as far as no other
key stands around the region. A new file assigns the keys of its entries that are not blank, and no
others.
-/

namespace Phrasebook.Locale

open Text (Newline isBlankText)

variable {style : Style} {texts : KeyMap Text} {guarded : Bool} {table key : Text}
  {lines : List Text} {valid : KeySet}

/-- A merge that clears the keys that are not valid reaches them all: the literal assignments around
the region have valid keys, and what has to be written for a valid key assigns no other key. -/
def Clearable (table : Text) (valid : KeySet) (lines : List Text) : Prop :=
  ∀ region ∈ region? table lines,
    (∀ a ∈ assignments table (region.outside lines), valid.contains a.key = true) ∧
      ∀ a ∈ assignments table lines, valid.contains a.key = true →
        ∀ text ∈ (Entries.ofLines table lines).texts.get? a.key, isBlankText text = false →
          writes table (region.slice lines) a.key text = true → keepsKey table a.key text = true

instance (table : Text) (valid : KeySet) (lines : List Text) :
    Decidable (Clearable table valid lines) :=
  inferInstanceAs (Decidable (∀ region ∈ region? table lines,
    (∀ a ∈ assignments table (region.outside lines), valid.contains a.key = true) ∧
      ∀ a ∈ assignments table lines, valid.contains a.key = true →
        ∀ text ∈ (Entries.ofLines table lines).texts.get? a.key, _ → _ → _ = true))

/-- The texts of a file with those of the keys that are not valid replaced by blank ones. -/
structure Clears (texts : KeyMap Text) (table : Text) (valid : KeySet) (lines : List Text) :
    Prop where
  /-- The keys are spelled as in the file. -/
  spelled : ∀ e ∈ texts.entries, ∃ a ∈ assignments table lines, a.key = e.1
  /-- No key of the file is left out. -/
  all : ∀ key, texts.get? key = none → (Entries.ofLines table lines).texts.get? key = none
  /-- Only valid keys have texts that are not blank, and these are the ones that the file has. -/
  valid : ∀ key text, texts.get? key = some text → isBlankText text = false →
    valid.contains key = true ∧ (Entries.ofLines table lines).texts.get? key = some text

/-- A key that is assigned has a text. -/
theorem get?_ne_none_of_mem_assignments {b : Glue.Assignment} (hb : b ∈ assignments table lines)
    (hk : Text.fold b.key = Text.fold key) : (Entries.ofLines table lines).texts.get? key ≠ none :=
  fun hnone => List.ne_nil_of_mem (mem_literals hb hk) (literals_eq_nil_of_get? hnone)

/-- A merge that clears the keys that are not valid leaves assignments of valid keys that the file
had, and writes lines for texts of valid keys that the file had. -/
theorem Clears.cases_of_mem_mergeLines (h : Clears texts style.table valid lines)
    (hassigned : assignments style.table lines ≠ [])
    (hclearable : Clearable style.table valid lines) {a : Glue.Assignment}
    (ha : a ∈ assignments style.table (mergeLines style lines texts)) :
    a ∈ assignments style.table lines ∧ valid.contains a.key = true ∨
      ∃ b ∈ assignments style.table lines, ∃ indent text, isBlankText indent = true ∧
        valid.contains b.key = true ∧
        (Entries.ofLines style.table lines).texts.get? b.key = some text ∧
        keepsKey style.table b.key text = true ∧
        Glue.assignment? style.table (style.line indent b.key text) = some a := by
  obtain ⟨region, hregion⟩ := exists_region_of_assignments hassigned
  obtain ⟨houtside, hwrites⟩ := hclearable region hregion
  obtain ⟨front, core, back, rfl, hslice, -, hlayout⟩ := exists_layout hregion
  rw [hlayout.outside hregion] at houtside
  rw [hslice] at hwrites
  rw [assignments_append, List.forall_mem_append] at houtside
  rw [hlayout.mergeLines, assignments_append, assignments_append, List.mem_append,
    List.mem_append] at ha
  have hcore : ∀ {b}, b ∈ assignments style.table core →
      b ∈ assignments style.table (front ++ (core ++ back)) := fun hb => by
    simp [assignments_append, hb]
  rcases ha with hfront | hmerged | hback
  · exact Or.inl ⟨by simp [assignments_append, hfront], houtside.1 a hfront⟩
  · rcases mem_assignments_mergeRegion hmerged with ⟨hold, hkept⟩ | ⟨line, hnew, hread⟩
    · refine Or.inl ⟨hcore hold, ?_⟩
      cases ht : texts.get? a.key with
      | none => exact absurd (h.all a.key ht) (get?_ne_none_of_mem_assignments (hcore hold) rfl)
      | some text => exact (h.valid a.key text ht (hkept text ht)).1
    · obtain ⟨indent, k, text, rfl, hindent, hspelled, ht, hb, hwrite⟩ := hnew
      obtain ⟨b, hmem, rfl⟩ : ∃ b ∈ assignments style.table (front ++ (core ++ back)),
          b.key = k := by
        rcases hspelled with hk | ⟨b, hold, rfl⟩
        · obtain ⟨e, he, rfl⟩ := List.mem_map.1 hk
          exact h.spelled e he
        · exact ⟨b, hcore hold, rfl⟩
      obtain ⟨hvalid, hfile⟩ := h.valid b.key text ht hb
      exact Or.inr ⟨b, hmem, indent, text, hindent, hvalid, hfile,
        hwrites b hmem hvalid text hfile hb hwrite, hread⟩
  · exact Or.inl ⟨by simp [assignments_append, hback], houtside.2 a hback⟩

/-- A merge that clears the keys that are not valid leaves valid keys only, and no key that the file
did not have. -/
theorem Clears.valid_of_mem_mergeLines (h : Clears texts style.table valid lines)
    (hassigned : assignments style.table lines ≠ [])
    (hclearable : Clearable style.table valid lines) {a : Glue.Assignment}
    (ha : a ∈ assignments style.table (mergeLines style lines texts)) :
    valid.contains a.key = true ∧
      ∃ b ∈ assignments style.table lines, Text.fold b.key = Text.fold a.key := by
  rcases h.cases_of_mem_mergeLines hassigned hclearable ha with
    ⟨hold, hvalid⟩ | ⟨b, hmem, indent, text, hindent, hvalid, -, hkeeps, hread⟩
  · exact ⟨hvalid, a, hold, rfl⟩
  · have hfold := fold_eq_of_keepsKey hindent hkeeps hread
    exact ⟨KeySet.contains_congr valid hfold ▸ hvalid, b, hmem, hfold.symm⟩

/-- The lines of a new file around those of its entries. -/
def Style.frame (style : Style) (codes : List Text) : List Text :=
  ["local _, ".toList ++ style.addon ++ " = ...".toList, [],
    "local locale = GetLocale()".toList, [],
    "if ".toList ++ condition codes ++ " then".toList, style.binding, [], "end".toList, []]

/-- The lines of a new file are those around the entries and one for each entry that is not
blank. -/
theorem mem_newFile {codes : List Text} {entries : Dictionary Text} {line : Text}
    (h : line ∈ newFile style codes entries []) :
    line ∈ style.frame codes ∨ ∃ e ∈ entries.entries, isBlankText e.2 = false ∧
      line = style.line guardIndent e.1 e.2 := by
  rw [newFile_eq] at h
  simp only [List.mem_append, List.mem_map] at h
  rcases h with (hheader | hguard) | (hbinding | ⟨e, he, rfl⟩) | hend
  · exact Or.inl (List.mem_append_left _ hheader)
  · exact Or.inl (by simp [Style.frame, List.mem_singleton.1 hguard])
  · rcases List.mem_pair.1 hbinding with rfl | rfl <;> exact Or.inl (by simp [Style.frame])
  · obtain ⟨hentry, hblank⟩ := mem_writtenEntries.1 he
    exact Or.inr ⟨e, hentry, hblank, rfl⟩
  · rcases List.mem_pair.1 hend with rfl | rfl <;> exact Or.inl (by simp [Style.frame])

/-- The lines around the entries of a new file assign no key. -/
theorem assignsKey_frame (htable : Readers.isName style.table = true) (codes : List Text) :
    ∀ line ∈ style.frame codes, assignsKey style.table line = false := by
  have hword : ∀ word rest : Text, word ≠ [] → word.all Readers.isNameChar = true →
      rest.head?.any Readers.isNameChar = false → (Text.trimLeft rest).head? ≠ some '[' →
        assignsKey style.table (word ++ rest) = false := fun word rest hne hall hrest hbracket =>
    not_assignsKey_of_word htable (show isBlankText [] = true from rfl) hne hall hrest hbracket
  have hempty : assignsKey style.table [] = false := assignsKey_of_blank rfl
  have hfirst : "local _, ".toList ++ style.addon ++ " = ...".toList =
      "local".toList ++ (' ' :: '_' :: (", ".toList ++ style.addon ++ " = ...".toList)) := by
    simp
  have hlocale : "local locale = GetLocale()".toList =
      "local".toList ++ (' ' :: 'l' :: "ocale = GetLocale()".toList) := by
    simp
  have hif : "if ".toList ++ condition codes ++ " then".toList =
      "if".toList ++ (' ' :: (condition codes ++ " then".toList)) := by
    simp
  have hend : "end".toList = "end".toList ++ [] := by simp
  intro line hline
  simp only [Style.frame, List.mem_cons, List.not_mem_nil, or_false] at hline
  rcases hline with rfl | rfl | rfl | rfl | rfl | rfl | rfl | rfl | rfl
  · rw [hfirst]
    exact hword _ _ (by simp) rfl rfl (by simp [Text.trimLeft, Text.isBlank])
  · exact hempty
  · rw [hlocale]
    exact hword _ _ (by simp) rfl rfl (by simp [Text.trimLeft, Text.isBlank])
  · exact hempty
  · rw [hif]
    refine hword _ _ (by simp) rfl rfl ?_
    cases codes with
    | nil => simp [condition, Text.join, Text.trimLeft, Text.isBlank]
    | cons code codes =>
      have hhead : (condition (code :: codes)).head? = some 'l' := by
        cases codes <;> simp [condition, Text.join, List.intercalate_cons_cons]
      obtain ⟨rest, hrest⟩ := List.head?_eq_some_iff.1 hhead
      simp [hrest, Text.trimLeft, Text.isBlank]
  · exact assignsKey_binding style
  · exact hempty
  · rw [hend]
    exact hword _ [] (by simp) rfl rfl (by simp [Text.trimLeft])
  · exact hempty

/-- A literal assignment of a new file has the key of an entry that is not blank. -/
theorem exists_entry_of_mem_newFile (htable : Readers.isName style.table = true)
    {codes : List Text} {entries : Dictionary Text}
    (hkeys : ∀ e ∈ entries.entries, isBlankText e.2 = false → keepsKey style.table e.1 e.2 = true)
    {a : Glue.Assignment} (ha : a ∈ assignments style.table (newFile style codes entries [])) :
    ∃ e ∈ entries.entries, isBlankText e.2 = false ∧ Text.fold a.key = Text.fold e.1 := by
  obtain ⟨line, hline, hread⟩ := List.mem_filterMap.1 ha
  rcases mem_newFile hline with hframe | ⟨e, he, hblank, rfl⟩
  · have hnone := assignsKey_frame htable codes line hframe
    simp [assignsKey, Glue.assignedKey?_of_assignment? hread] at hnone
  · exact ⟨e, he, hblank, fold_eq_of_keepsKey rfl (hkeys e he hblank) hread⟩

/-- A comparison with codes has no character but those of the codes and of the comparison itself. -/
theorem not_mem_condition {c : Char} {codes : List Text} (hc : c ∉ " or locale == \"".toList)
    (h : ∀ code ∈ codes, c ∉ code) : c ∉ condition codes := by
  have hparts : " or locale == \"".toList = " or ".toList ++ "locale == \"".toList := rfl
  rw [hparts, List.mem_append, not_or] at hc
  obtain ⟨hor, hlocale⟩ := hc
  induction codes with
  | nil => simp [condition, Text.join]
  | cons code codes ih =>
    have hrest := ih fun code' hcode' => h code' (by simp [hcode'])
    have hcode : c ∉ "locale == \"".toList ++ code ++ ['"'] := by
      have hquote : c ≠ '"' := fun hsame => hlocale (by simp [hsame])
      simpa [hquote, h code (by simp)] using hlocale
    cases codes with
    | nil => simpa [condition, Text.join] using hcode
    | cons next codes =>
      simp only [condition, Text.join, List.map_cons] at hrest ⊢
      rw [List.intercalate_cons_cons]
      simp only [List.mem_append, not_or] at hcode hrest ⊢
      exact ⟨⟨hcode, hor⟩, hrest⟩

/-- A comparison with codes has no line feed that they do not have. -/
theorem newline_not_mem_condition {codes : List Text} (h : ∀ code ∈ codes, '\n' ∉ code) :
    '\n' ∉ condition codes :=
  not_mem_condition (by decide) h

/-- A new file is read back line by line when its names and keys have no line feeds. -/
theorem lines_newFile {codes : List Text} {entries : Dictionary Text}
    (htable : '\n' ∉ style.table) (haddon : '\n' ∉ style.addon)
    (hexpression : '\n' ∉ style.expression) (hcodes : ∀ code ∈ codes, '\n' ∉ code)
    (hkeys : ∀ e ∈ entries.entries, '\n' ∉ e.1) :
    Text.lines (Text.joinLines (newFile style codes entries []) Newline.lf.text) =
      (newFile style codes entries []).map Newline.lf.readBack := by
  have hframe : ∀ line ∈ style.frame codes, '\n' ∉ line := by
    have hcondition := newline_not_mem_condition hcodes
    intro line hline
    simp only [Style.frame, List.mem_cons, List.not_mem_nil, or_false] at hline
    rcases hline with rfl | rfl | rfl | rfl | rfl | rfl | rfl | rfl | rfl <;>
      simp [Style.binding, guardIndent, haddon, hcondition, htable, hexpression]
  refine Text.lines_joinLines _ Newline.lf fun line hline => ?_
  rcases mem_newFile hline with hline | ⟨e, he, -, rfl⟩
  · exact hframe line hline
  · exact newline_not_mem_line htable (by decide) (hkeys e he) e.2

end Phrasebook.Locale
