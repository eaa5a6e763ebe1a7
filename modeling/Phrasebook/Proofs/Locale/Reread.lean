import Phrasebook.Proofs.Locale.Readback
import Phrasebook.Proofs.Locale.Synthesis
import Phrasebook.Proofs.Locale.Unchanged
import Phrasebook.Workspace.Files

/-!
# What a written file is read as

A merge with texts that the file has gives a key the text that it had, when the text is not blank
and the lines that the merge has to write are read back. A file that is written anew gives its keys
their texts under the same condition.
-/

namespace Phrasebook.Locale

open Text (Newline isBlankText)

variable {style : Style} {texts : KeyMap Text} {guarded : Bool} {table key value : Text}
  {valid : KeySet}

/-- Whether a merge writes a new line for a text: no line of the region assigns the key, or the
first one that does assigns another literal. -/
def writes (table : Text) (core : List Text) (key text : Text) : Bool :=
  match leader? table key core with
  | none => true
  | some line => (Glue.assignment? table line).any fun a => a.value ≠ text

/-- The text of a key survives a merge that keeps the valid keys of the file: the key is assigned
behind the region, or else a computed assignment of the key does not hide a literal one, a line that
the merge has to write for the key is read back, and none that it has to write for another valid key
is taken for one of the key. -/
def Survives (table : Text) (valid : KeySet) (key : Text) (lines : List Text) : Prop :=
  ∀ region ∈ region? table lines, literals table key (lines.drop region.stop) ≠ [] ∨
    ((leader? table key (region.slice lines)).all (isLiteral table) = true ∨
        literals table key (region.slice lines) = []) ∧
      ∀ a ∈ assignments table lines, valid.contains a.key = true →
        ∀ text ∈ (Entries.ofLines table lines).texts.get? a.key, isBlankText text = false →
          writes table (region.slice lines) a.key text = true → IsReadBack table key a.key text

/-- What a merge has to write for the texts of a file is read back. -/
def WritesReadBack (style : Style) (texts : KeyMap Text) (key : Text) (lines core : List Text) :
    Prop :=
  ∀ a ∈ assignments style.table lines, ∀ text, texts.get? a.key = some text →
    isBlankText text = false → writes style.table core a.key text = true →
      IsReadBack style.table key a.key text

/-- The lines that get another text are read back. -/
theorem WritesReadBack.rewritable {lines core : List Text} (hcore : core ⊆ lines)
    (h : WritesReadBack style texts key lines core) : Rewritable style texts key core := by
  intro line hline a ha hfirst text hget hne hb
  refine h a (mem_assignments (hcore hline) ha) text hget hb ?_
  simp [writes, hfirst, ha, Ne.symm hne]

/-- The lines that are added are read back. -/
theorem WritesReadBack.missing {lines core : List Text}
    (hkeys : ∀ e ∈ texts.entries, ∃ a ∈ assignments style.table lines, a.key = e.1)
    (h : WritesReadBack style texts key lines core) :
    ∀ e ∈ (editRegion style texts guarded core).missing texts,
      IsReadBack style.table key e.1 e.2 := by
  intro e he
  obtain ⟨hmem, hget, hb, -⟩ := get?_of_mem_missing he
  have hnone := leader?_of_mem_missing he
  obtain ⟨a, ha, hk⟩ := hkeys e hmem
  rw [← hk] at hget hnone ⊢
  exact h a ha e.2 hget hb (by simp [writes, hnone])

/-- A merge with texts of a file keeps a text that survives. -/
theorem getLast?_literals_mergeLines {lines : List Text}
    (ht : texts.get? key = some value) (hblank : isBlankText value = false)
    (hlast : (literals style.table key lines).getLast? = some value)
    (htexts : ∀ k text, texts.get? k = some text → isBlankText text = false →
      valid.contains k = true ∧ (Entries.ofLines style.table lines).texts.get? k = some text)
    (hkeys : ∀ e ∈ texts.entries, ∃ a ∈ assignments style.table lines, a.key = e.1)
    (hsurvives : Survives style.table valid key lines) :
    (literals style.table key (mergeLines style lines texts)).getLast? = some value := by
  have hassigned : assignments style.table lines ≠ [] := by
    intro hnil
    simp [literals, hnil] at hlast
  obtain ⟨region, hregion⟩ := exists_region_of_assignments hassigned
  have hsafe := hsurvives region hregion
  obtain ⟨front, core, back, rfl, hslice, hdrop, hlayout⟩ := exists_layout hregion
  rw [hslice, hdrop] at hsafe
  rw [hlayout.mergeLines, literals_append, literals_append]
  rw [literals_append, literals_append] at hlast
  by_cases hback : literals style.table key back = []
  · obtain ⟨hleader, hwrites⟩ := hsafe.resolve_left fun h => h hback
    have hreadBack : WritesReadBack style texts key (front ++ (core ++ back)) core := by
      intro a ha text hget hb hwrite
      obtain ⟨hvalid, hfile⟩ := htexts a.key text hget hb
      exact hwrites a ha hvalid text hfile hb hwrite
    have hcore : core ⊆ front ++ (core ++ back) := fun line hline => by simp [hline]
    rw [literals_mergeRegion ht (hreadBack.rewritable hcore) (hreadBack.missing hkeys), hblank,
      hback, List.append_nil]
    rw [hback, List.append_nil] at hlast
    cases hall : (leader? style.table key core).all (isLiteral style.table) with
    | true => simp
    | false =>
      rw [hleader.resolve_left (by simp [hall])] at hlast
      simpa using hlast
  · rw [List.getLast?_append_of_ne_nil _ (by simp [hback]),
      List.getLast?_append_of_ne_nil _ hback]
    rwa [List.getLast?_append_of_ne_nil _ (by simp [hback]),
      List.getLast?_append_of_ne_nil _ hback] at hlast

/-- A line that starts with the mark of the byte order assigns nothing. -/
theorem literals_mark (hmark : table.head? ≠ some '\uFEFF') (line : Text) :
    literals table key ['\uFEFF' :: line] = [] := by
  apply literals_eq_nil_of_not_assigns
  intro l hl
  obtain rfl := List.mem_singleton.1 hl
  cases hkey : Glue.assignedKey? table ('\uFEFF' :: line) with
  | none => simp [assigns, hkey]
  | some k =>
    exfalso
    obtain ⟨s, a, rest, hs, ha, hsplit⟩ := Glue.exists_of_assignedKey? hkey
    have hhead := congrArg List.head? hsplit
    cases s with
    | cons c s =>
      obtain rfl : '\uFEFF' = c := by simpa using hhead
      simp [show Text.isBlank '\uFEFF' = false by decide] at hs
    | nil =>
      cases table with
      | cons c t =>
        obtain rfl : '\uFEFF' = c := by simpa using hhead
        exact hmark rfl
      | nil =>
        cases a with
        | nil => simp at hhead
        | cons c a =>
          obtain rfl : '\uFEFF' = c := by simpa using hhead
          simp [show Text.isBlank '\uFEFF' = false by decide] at ha

/-- Lines that are written to a file and read from it give a key the same last value, even if their
first character is taken for a mark of the byte order. -/
theorem getLast?_literals_joinLines (hmark : table.head? ≠ some '\uFEFF') {out : List Text}
    (hout : ∀ line ∈ out, '\n' ∉ line) (newline : Newline)
    (hlast : (literals table key out).getLast? = some value) :
    (literals table key (Text.lines (Files.dropMark
      (Text.joinLines out newline.text)))).getLast? = some value := by
  have hread : ∀ ls : List Text, (∀ line ∈ ls, '\n' ∉ line) →
      literals table key (Text.lines (Text.joinLines ls newline.text)) = literals table key ls := by
    intro ls hls
    rw [Text.lines_joinLines ls newline hls, literals_readBack]
  cases out with
  | nil => simp at hlast
  | cons first rest =>
    cases first with
    | nil =>
      have hsame : Files.dropMark (Text.joinLines ([] :: rest) newline.text) =
          Text.joinLines ([] :: rest) newline.text := by
        cases newline <;> rfl
      rw [hsame, hread _ hout, hlast]
    | cons c line =>
      by_cases hc : c = '\uFEFF'
      · subst hc
        have hdrop : Files.dropMark (Text.joinLines (('\uFEFF' :: line) :: rest) newline.text) =
            Text.joinLines (line :: rest) newline.text := by
          simp [Text.joinLines, Files.dropMark]
        have hline : '\n' ∉ line := fun hmem => hout _ List.mem_cons_self (by simp [hmem])
        rw [← List.singleton_append, literals_append, literals_mark hmark, List.nil_append] at hlast
        rw [hdrop, hread, ← List.singleton_append, literals_append, List.getLast?_append, hlast,
          Option.some_or]
        intro l hl
        rcases List.mem_cons.1 hl with rfl | hl
        · exact hline
        · exact hout l (by simp [hl])
      · have hsame : Files.dropMark (Text.joinLines ((c :: line) :: rest) newline.text) =
            Text.joinLines ((c :: line) :: rest) newline.text := by
          simp [Text.joinLines, Files.dropMark, hc]
        rw [hsame, hread _ hout, hlast]

/-- The lines of a merged file have no line feeds. -/
theorem newline_not_mem_mergeLines {lines : List Text} (hassigned : assignments style.table lines ≠ [])
    (hlines : ∀ line ∈ lines, '\n' ∉ line)
    (hkeys : ∀ e ∈ texts.entries, ∃ a ∈ assignments style.table lines, a.key = e.1) :
    ∀ line ∈ mergeLines style lines texts, '\n' ∉ line := by
  obtain ⟨region, hregion⟩ := exists_region_of_assignments hassigned
  have htable := newline_not_mem_table hassigned hlines
  have hentries : ∀ e ∈ texts.entries, '\n' ∉ e.1 := by
    intro e he
    obtain ⟨a, ha, hk⟩ := hkeys e he
    exact hk ▸ newline_not_mem_key ha hlines
  obtain ⟨front, core, back, rfl, -, -, hlayout⟩ := exists_layout hregion
  rw [hlayout.mergeLines]
  intro l hl
  rw [List.mem_append, List.mem_append] at hl
  rcases hl with hl | hl | hl
  · exact hlines l (by simp [hl])
  · exact newline_not_mem_mergeRegion htable hentries (fun l hl => hlines l (by simp [hl])) l hl
  · exact hlines l (by simp [hl])

/-- Of texts with distinct keys, the one text of a key that is not blank is written. -/
theorem map_snd_filter_writtenEntries {entries : Dictionary Text} {k : Text}
    (hdistinct : (entries.keys.map Text.fold).Nodup) (hmem : (k, value) ∈ entries.entries)
    (hk : Text.fold k = Text.fold key) (hblank : isBlankText value = false) :
    ((writtenEntries entries).filter fun e => Text.fold e.1 = Text.fold key).map (·.2) =
      [value] := by
  let known : KeyMap Text := ⟨entries.entries, nodup_entries hdistinct⟩
  have hfound : known.find? key = some (k, value) := Lexicon.find?_eq_some_iff.2 ⟨hmem, hk⟩
  have hperm : (writtenEntries entries).Perm
      (entries.entries.filter fun e => !isBlankText e.2) := (sortedEntries_perm entries).filter _
  have hone := (hperm.filter fun e => Text.fold e.1 = Text.fold key).trans
    (List.Perm.of_eq (List.filter_comm ..))
  have hkey : entries.entries.filter (fun e => Text.fold e.1 = Text.fold key) = [(k, value)] := by
    have hentries := known.filter_entries key
    rw [hfound] at hentries
    exact hentries
  have hkept : [(k, value)].filter (fun e => !isBlankText e.2) = [(k, value)] := by
    simp [hblank]
  rw [hkey, hkept] at hone
  rw [List.perm_singleton.1 hone]
  rfl

/-- A file that is written anew gives a key its text, when the texts that it writes are read
back. -/
theorem getLast?_literals_newFile {entries : Dictionary Text} {k : Text} (codes : List Text)
    (spacer : Text) (hdistinct : (entries.keys.map Text.fold).Nodup)
    (hmem : (k, value) ∈ entries.entries) (hk : Text.fold k = Text.fold key)
    (hblank : isBlankText value = false) (htable : '\n' ∉ style.table)
    (hkeys : ∀ e ∈ entries.entries, '\n' ∉ e.1)
    (hread : ∀ e ∈ entries.entries, isBlankText e.2 = false →
      IsReadBack style.table key e.1 e.2) :
    (literals style.table key (Text.lines (Files.dropMark (Text.joinLines
      (newFile style codes entries spacer) Newline.lf.text)))).getLast? = some value := by
  have hwritten : ∀ e ∈ writtenEntries entries, e ∈ entries.entries ∧ isBlankText e.2 = false := by
    intro e he
    obtain ⟨hmem, hb⟩ := List.mem_filter.1 he
    exact ⟨(sortedEntries_perm entries).subset hmem, by simpa using hb⟩
  obtain ⟨header, hfile, hheader⟩ : ∃ header, newFile style codes entries spacer = header ++
      (((writtenEntries entries).map fun e => style.line guardIndent e.1 e.2) ++
        ["end".toList, []]) ∧ header ≠ [] :=
    ⟨_, List.append_assoc _ _ _, List.cons_ne_nil _ _⟩
  have hmark : Files.dropMark (Text.joinLines (newFile style codes entries spacer)
      Newline.lf.text) = Text.joinLines (newFile style codes entries spacer) Newline.lf.text := rfl
  have hjoin : Text.joinLines (newFile style codes entries spacer) Newline.lf.text =
      Text.joinLines header Newline.lf.text ++ Text.joinLines
        (((writtenEntries entries).map fun e => style.line guardIndent e.1 e.2) ++
          ["end".toList, []]) Newline.lf.text := by
    simp only [hfile, Text.joinLines, List.flatMap_append]
  have hend : (Text.joinLines header Newline.lf.text).getLast? = some '\n' := by
    obtain ⟨front, last, rfl⟩ : ∃ front last, header = front ++ [last] :=
      ⟨_, _, (List.dropLast_append_getLast hheader).symm⟩
    simp [Text.joinLines, Newline.text]
  have hlines : ∀ line ∈ ((writtenEntries entries).map fun e =>
      style.line guardIndent e.1 e.2) ++ ["end".toList, []], '\n' ∉ line := by
    intro line hline
    rcases List.mem_append.1 hline with hline | hline
    · obtain ⟨e, he, rfl⟩ := List.mem_map.1 hline
      exact newline_not_mem_line htable (by decide) (hkeys e (hwritten e he).1) e.2
    · rcases List.mem_pair.1 hline with rfl | rfl <;> decide
  have htail : literals style.table key ["end".toList, []] = [] :=
    literals_eq_nil_of_not_assigns fun line hline => by
      rcases List.mem_pair.1 hline with rfl | rfl <;>
        exact assigns_of_assignsKey (assignsKey_of_not_mem (by decide))
  rw [hmark, hjoin, Text.lines_append_joinLines (Or.inr hend) _ _ hlines, literals_append,
    literals_readBack, literals_append, htail, List.append_nil,
    literals_map_line rfl fun e he => hread e (hwritten e he).1 (hwritten e he).2,
    map_snd_filter_writtenEntries hdistinct hmem hk hblank]
  simp

/-- Entries of a file that are written anew keep a text, when the texts that are written are read
back. -/
theorem get?_newFile {entries : Dictionary Text} {lines : List Text} {k : Text} (codes : List Text)
    (spacer : Text) (hlines : ∀ line ∈ lines, '\n' ∉ line)
    (hentries : ∀ e ∈ entries.entries, e ∈ (Entries.ofLines style.table lines).texts.entries)
    (hdistinct : (entries.keys.map Text.fold).Nodup) (hmem : (k, value) ∈ entries.entries)
    (hk : Text.fold k = Text.fold key) (hblank : isBlankText value = false)
    (hread : ∀ e ∈ entries.entries, isBlankText e.2 = false →
      IsReadBack style.table key e.1 e.2) :
    (Entries.ofLines style.table (Text.lines (Files.dropMark (Text.joinLines
      (newFile style codes entries spacer) Newline.lf.text)))).texts.get? key = some value := by
  have htable : '\n' ∉ style.table := by
    obtain ⟨a, ha, -⟩ := exists_assignment_of_mem_entries (hentries _ hmem)
    exact newline_not_mem_table (List.ne_nil_of_mem ha) hlines
  have hkeys : ∀ e ∈ entries.entries, '\n' ∉ e.1 := by
    intro e he
    obtain ⟨a, ha, hak⟩ := exists_assignment_of_mem_entries (hentries e he)
    exact hak ▸ newline_not_mem_key ha hlines
  rw [get?_ofLines]
  exact getLast?_literals_newFile codes spacer hdistinct hmem hk hblank htable hkeys hread

end Phrasebook.Locale
