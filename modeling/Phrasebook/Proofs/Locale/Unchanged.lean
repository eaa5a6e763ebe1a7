import Phrasebook.Proofs.Locale.Layout
import Phrasebook.Proofs.Locale.Readback

/-!
# When a merge changes nothing

A merge with the texts that were read from a file keeps its region exactly when the region settles
all keys: every key with a literal assignment in the file is assigned in the region, and no literal
assignment there stands behind a computed one of the same key.
-/

namespace Phrasebook.Locale

open Text (Newline isBlankText)

variable {style : Style} {texts : KeyMap Text} {guarded : Bool} {table key : Text}

/-- An edit that writes every line as it is changes nothing. -/
theorem body_eq_self {ls : List Text} (h : ∀ before line after, ls = before ++ line :: after →
    Edit.written style texts guarded (editRegion style texts guarded before).handled line =
      [line]) : (editRegion style texts guarded ls).body = ls := by
  induction ls using List.reverseRecOn with
  | nil => rfl
  | append_singleton ls line ih =>
    have hbefore := ih fun before l after hs => h before l (after ++ [line]) (by rw [hs]; simp)
    exact editRegion_concat_of_written hbefore (h ls line [] rfl)

/-- A line leads to one new line at most. -/
theorem length_written_le (handled : KeySet) (line : Text) :
    (Edit.written style texts guarded handled line).length ≤ 1 := by
  have hfate := Edit.fate_written style texts guarded handled line
  generalize Edit.written style texts guarded handled line = out at hfate ⊢
  cases hfate <;> simp

/-- A region has no more lines after an edit. -/
theorem length_body_le (ls : List Text) :
    (editRegion style texts guarded ls).body.length ≤ ls.length := by
  induction ls using List.reverseRecOn with
  | nil => exact Nat.le_refl _
  | append_singleton ls line ih =>
    have hone := @length_written_le style texts guarded
      (editRegion style texts guarded ls).handled line
    rw [editRegion_concat, Edit.body_step, List.length_append, List.length_append]
    exact Nat.add_le_add ih hone

/-- An edit that keeps the number of lines drops none. -/
theorem written_ne_nil_of_length {ls : List Text}
    (h : (editRegion style texts guarded ls).body.length = ls.length) {before after : List Text}
    {line : Text} (hsplit : ls = before ++ line :: after) :
    Edit.written style texts guarded (editRegion style texts guarded before).handled line ≠ [] := by
  induction ls using List.reverseRecOn generalizing after with
  | nil => simp at hsplit
  | append_singleton ls last ih =>
    have hone := @length_written_le style texts guarded
      (editRegion style texts guarded ls).handled last
    have hle := @length_body_le style texts guarded ls
    rw [editRegion_concat, Edit.body_step, List.length_append, List.length_append,
      List.length_singleton] at h
    rcases Text.split_concat hsplit with ⟨rfl, rfl, -⟩ | ⟨between, -, hls⟩
    · intro hnil
      rw [hnil, List.length_nil] at h
      omega
    · exact ih (by omega) hls

/-- A region settles the keys of a file when it assigns each of them and the first assignment of
each key that has a literal assignment in the region is literal. -/
structure Settles (table : Text) (lines core : List Text) : Prop where
  /-- The first assignment of a key with a literal assignment in the region is literal. -/
  first : ∀ a ∈ assignments table core, (leader? table a.key core).any (isLiteral table) = true
  /-- Every key with a literal assignment in the file is assigned in the region. -/
  all : ∀ a ∈ assignments table lines, (leader? table a.key core).isSome = true

/-- The value of an assignment is among the values of its key. -/
theorem mem_literals {lines : List Text} {a : Glue.Assignment} (ha : a ∈ assignments table lines)
    (hk : Text.fold a.key = Text.fold key) : a.value ∈ literals table key lines :=
  List.mem_map.2 ⟨a, List.mem_filter.2 ⟨ha, decide_eq_true hk⟩, rfl⟩

/-- The assignment of a line of a file is among those of the file. -/
theorem mem_assignments {lines : List Text} {line : Text} {a : Glue.Assignment}
    (hline : line ∈ lines) (ha : Glue.assignment? table line = some a) :
    a ∈ assignments table lines :=
  List.mem_filterMap.2 ⟨line, hline, ha⟩

/-- The texts of a file without duplicates are the values of its assignments. -/
theorem get?_of_mem_assignments {lines : List Text}
    (hunique : (Entries.ofLines table lines).duplicates.isEmpty = true) {a : Glue.Assignment}
    (ha : a ∈ assignments table lines) :
    (Entries.ofLines table lines).texts.get? a.key = some a.value := by
  have hmem : a.value ∈ literals table a.key lines := mem_literals ha rfl
  have hlength := isEmpty_duplicates_iff.1 hunique a.key
  rw [get?_ofLines]
  cases hl : literals table a.key lines with
  | nil => simp [hl] at hmem
  | cons value values =>
    rw [hl] at hmem hlength
    obtain rfl : values = [] := by
      rw [← List.length_eq_zero_iff]
      simpa using hlength
    simpa [eq_comm] using hmem

/-- Of the lines before a literal assignment, none assigns its key when the region settles the keys
of a file without duplicates. -/
theorem not_assigns_of_settles {lines core before after : List Text} {line : Text}
    {a : Glue.Assignment} (hsettles : Settles table lines core)
    (hunique : (literals table a.key core).length ≤ 1) (hsplit : core = before ++ line :: after)
    (ha : Glue.assignment? table line = some a) :
    ∀ l ∈ before, assigns table a.key l = false := by
  intro l hl
  cases hassigns : assigns table a.key l with
  | false => rfl
  | true =>
    exfalso
    have hsome : (leader? table a.key before).isSome = true :=
      List.find?_isSome.2 ⟨l, hl, hassigns⟩
    obtain ⟨first, hfirst⟩ := Option.isSome_iff_exists.1 hsome
    have hleader : leader? table a.key core = some first := by
      rw [hsplit, leader?, List.find?_append, ← leader?, hfirst, Option.some_or]
    -- The first assignment of the key is literal, and `line` gives the key a second value.
    have hliteral := hsettles.first a (mem_assignments (by simp [hsplit]) ha)
    rw [hleader] at hliteral
    obtain ⟨b, hb⟩ := Option.isSome_iff_exists.1 (show isLiteral table first = true from hliteral)
    have hsame : Text.fold b.key = Text.fold a.key := by
      have hfound := List.find?_some hfirst
      rw [assigns_of_assignment? hb] at hfound
      exact of_decide_eq_true hfound
    have hbefore : b.value ∈ literals table a.key before :=
      mem_literals (mem_assignments (List.mem_of_find?_eq_some hfirst) hb) hsame
    have hline : literals table a.key [line] = [a.value] := by
      rw [literals_singleton_of_some ha, if_pos rfl]
    have hpos := List.length_pos_of_mem hbefore
    rw [hsplit, literals_append, ← List.singleton_append, literals_append, hline,
      List.length_append, List.length_append, List.length_singleton] at hunique
    omega

/-- No text of a file is missing when its region assigns every key. -/
theorem missing_eq_nil_of_leader {lines core : List Text}
    (hkeys : ∀ e ∈ texts.entries, ∃ a ∈ assignments style.table lines, a.key = e.1)
    (hall : ∀ a ∈ assignments style.table lines,
      (leader? style.table a.key core).isSome = true) :
    (editRegion style texts guarded core).missing texts = [] := by
  rw [missing_eq_nil_iff]
  intro e he _
  obtain ⟨a, ha, hk⟩ := hkeys e he
  have ht : texts.get? e.1 = some e.2 := Lexicon.get?_eq_some_iff.2 ⟨e.1, he, rfl⟩
  rw [← contains_handled_editRegion, contains_handled_of_get? ht, ← hk]
  exact hall a ha

/-- A merge with the texts of the file keeps a region that settles them. -/
theorem mergeRegion_of_settles {lines core : List Text} (hcore : core ⊆ lines)
    (hunique : ∀ key, (literals style.table key core).length ≤ 1)
    (htexts : ∀ a ∈ assignments style.table lines, texts.get? a.key = some a.value)
    (hkeys : ∀ e ∈ texts.entries, ∃ a ∈ assignments style.table lines, a.key = e.1)
    (hblank : ∀ a ∈ assignments style.table lines, isBlankText a.value = false)
    (hsettles : Settles style.table lines core) :
    mergeRegion style texts guarded core = core := by
  have hbody : (editRegion style texts guarded core).body = core := by
    refine body_eq_self fun before line after hsplit => ?_
    cases ha : Glue.assignment? style.table line with
    | none => simp [Edit.written, ha]
    | some a =>
      have hmem := mem_assignments (hcore (show line ∈ core by simp [hsplit])) ha
      refine Edit.written_of_kept ha ?_ (Or.inr ⟨htexts a hmem, hblank a hmem⟩)
      rw [contains_handled_editRegion, List.any_eq_false]
      intro l hl
      have hfree := not_assigns_of_settles hsettles (hunique a.key) hsplit ha l hl
      simp [Edit.handles, hfree]
  have hmissing := @missing_eq_nil_of_leader style texts guarded lines core hkeys hsettles.all
  rw [mergeRegion_eq, hbody, hmissing, List.map_nil, List.append_nil]

/-- An edit that keeps the number of lines finds each literal assignment of a key of the texts to be
the first one of its key. -/
theorem leader?_of_length {core : List Text}
    (hlength : (editRegion style texts guarded core).body.length = core.length) {line : Text}
    (hline : line ∈ core) {a : Glue.Assignment}
    (hread : Glue.assignment? style.table line = some a)
    (htext : texts.get? a.key = some a.value) : leader? style.table a.key core = some line := by
  obtain ⟨before, after, hsplit⟩ := List.append_of_mem hline
  have hwritten := written_ne_nil_of_length hlength hsplit
  have hfresh : (editRegion style texts guarded before).handled.contains a.key = false := by
    cases hc : (editRegion style texts guarded before).handled.contains a.key with
    | false => rfl
    | true => simp [Edit.written, hread, hc] at hwritten
  rw [contains_handled_of_get? htext] at hfresh
  have hnone : leader? style.table a.key before = none := by
    simpa using hfresh
  rw [hsplit, leader?, List.find?_append, ← leader?, hnone, Option.none_or, List.find?_cons,
    assigns_of_assignment? hread]
  simp

section MergeRegion

variable {lines core : List Text} {newline : Newline}
  (htexts : ∀ a ∈ assignments style.table lines, texts.get? a.key = some a.value)
  (hkeys : ∀ e ∈ texts.entries, ∃ a ∈ assignments style.table lines, a.key = e.1)
  (hblank : ∀ a ∈ assignments style.table lines, isBlankText a.value = false)
  (hwritable : ∀ a ∈ assignments style.table lines, leader? style.table a.key core = none →
    Glue.IsKey a.key)
  (hsame : (mergeRegion style texts guarded core).map newline.readBack =
    core.map newline.readBack)

include htexts hkeys hblank hwritable hsame

/-- A merge that keeps the characters of a region finds every key of the file assigned there, when the
keys that the region does not assign can be written: a new line would assign its key. -/
theorem isSome_leader?_of_mergeRegion {a : Glue.Assignment}
    (ha : a ∈ assignments style.table lines) :
    (leader? style.table a.key core).isSome = true := by
  cases hleader : leader? style.table a.key core with
  | some l => rfl
  | none =>
    exfalso
    obtain ⟨k, hmem, hk⟩ := Lexicon.get?_eq_some_iff.1 (htexts a ha)
    obtain ⟨b, hb, rfl⟩ := hkeys _ hmem
    have hnone : leader? style.table b.key core = none := by
      rw [leader?, List.find?_eq_none] at hleader ⊢
      intro l hl
      simpa [assigns, hk] using hleader l hl
    have hmissing : (b.key, a.value) ∈
        (editRegion style texts guarded core).missing texts := by
      refine List.mem_filter.2 ⟨(sortedEntries_perm texts).mem_iff.2 hmem, ?_⟩
      have ht : texts.get? b.key = some a.value :=
        Lexicon.get?_eq_some_iff.2 ⟨b.key, hmem, rfl⟩
      rw [contains_handled_of_get? ht, hnone, hblank a ha]
      rfl
    have hline : newline.readBack (style.line ((editRegion style texts guarded core).addedIndent
        guarded) b.key a.value) ∈ core.map newline.readBack := by
      rw [← hsame, mergeRegion_eq]
      exact List.mem_map_of_mem (List.mem_append_right _ (List.mem_map.2 ⟨_, hmissing, rfl⟩))
    obtain ⟨l, hl, he⟩ := List.mem_map.1 hline
    have hread := congrArg (Glue.assignedKey? style.table) he
    rw [assignedKey?_readBack, assignedKey?_readBack] at hread
    have hwritten := Glue.assignedKey?_line (a := ⟨b.key, a.value, _⟩) style.table
      (hwritable b hb hnone) (@isBlankText_addedIndent style texts guarded core)
    have hassigns : assigns style.table b.key l = true := by
      rw [assigns, hread.trans hwritten]
      simp
    exact absurd hassigns (by simpa using List.find?_eq_none.1 hnone l hl)

/-- A merge with the texts of the file that keeps the characters of a region finds it settled, when
the keys that the region does not assign can be written. -/
theorem settles_of_mergeRegion (hcore : core ⊆ lines) : Settles style.table lines core := by
  have hall : ∀ a ∈ assignments style.table lines,
      (leader? style.table a.key core).isSome = true := fun a ha =>
    isSome_leader?_of_mergeRegion htexts hkeys hblank hwritable hsame ha
  have hmissing := @missing_eq_nil_of_leader style texts guarded lines core hkeys hall
  -- Nothing is added, so the region has as many lines as before and no line was dropped.
  have hlength : (editRegion style texts guarded core).body.length = core.length := by
    have hlengths := congrArg List.length hsame
    rw [mergeRegion_eq, hmissing] at hlengths
    simpa using hlengths
  refine ⟨fun a ha => ?_, hall⟩
  obtain ⟨line, hline, hread⟩ := List.mem_filterMap.1 ha
  rw [leader?_of_length hlength hline hread (htexts a (mem_assignments (hcore hline) hread))]
  exact Option.isSome_iff_exists.2 ⟨a, hread⟩

end MergeRegion

/-- A file with a literal assignment has a line that assigns a key. -/
theorem exists_assigned_of_assignments {lines : List Text} (h : assignments table lines ≠ []) :
    ∃ line ∈ lines, assignsKey table line = true := by
  obtain ⟨a, ha⟩ := List.exists_mem_of_ne_nil _ h
  obtain ⟨line, hline, hread⟩ := List.mem_filterMap.1 ha
  exact ⟨line, hline, assignsKey_of_assignment? hread⟩

/-- A file with a literal assignment has a region. -/
theorem exists_region_of_assignments {lines : List Text} (h : assignments table lines ≠ []) :
    ∃ region, region? table lines = some region :=
  Option.isSome_iff_exists.1 (region?_isSome (Or.inr (exists_assigned_of_assignments h)))

/-- The table whose keys the lines of a file assign stands on a line. -/
theorem newline_not_mem_table {lines : List Text} (h : assignments table lines ≠ [])
    (hlines : ∀ line ∈ lines, '\n' ∉ line) : '\n' ∉ table := by
  obtain ⟨line, hline, hassigns⟩ := exists_assigned_of_assignments h
  obtain ⟨key, hkey⟩ := Option.isSome_iff_exists.1 hassigns
  exact fun hmem => hlines line hline ((mem_of_assignedKey? hkey).1 hmem)

/-- A table that some line assigns to has a name. -/
theorem isName_of_assignments {t : Text} (htable : Readers.name (.text table) = .ok table)
    (h : assignments table (Text.lines t) ≠ []) : Readers.isName table = true := by
  obtain ⟨name, hname, rfl | rfl⟩ := exists_isName_of_name htable
  · exact hname
  · exact absurd (by simp) (newline_not_mem_table h fun _ => Text.not_mem_of_mem_lines)

/-- The key of an assignment of a file stands on a line. -/
theorem newline_not_mem_key {lines : List Text} {a : Glue.Assignment}
    (ha : a ∈ assignments table lines) (hlines : ∀ line ∈ lines, '\n' ∉ line) : '\n' ∉ a.key := by
  obtain ⟨line, hline, hread⟩ := List.mem_filterMap.1 ha
  have hkey := Glue.assignedKey?_of_assignment? hread
  exact fun hmem => hlines line hline ((mem_of_assignedKey? hkey).2 hmem)

/-- A file with a literal assignment is not written anew. -/
theorem isFresh_of_assignments {lines : List Text} (h : assignments table lines ≠ []) :
    isFresh (some lines) = false := by
  obtain ⟨line, hline, hassigns⟩ := exists_assigned_of_assignments h
  exact isFresh_eq_false hline (isBlankText_of_assignsKey hassigns)

/-- A file with a literal assignment is merged with the texts that are written to it. -/
theorem fileLines_of_assignments {lines : List Text} (h : assignments style.table lines ≠ [])
    (code : Text) (texts : Dictionary Text) :
    fileLines style code texts (some lines) = mergeLines style lines (upToCase texts) := by
  rw [fileLines, isFresh_of_assignments h]
  rfl

/-- Writing a file with the texts that were read from it merges them. -/
theorem fileLines_ofLines {lines : List Text} (h : assignments style.table lines ≠ [])
    (code : Text) :
    fileLines style code (exactly (Entries.ofLines style.table lines).texts) (some lines) =
      mergeLines style lines (Entries.ofLines style.table lines).texts := by
  rw [fileLines_of_assignments h, upToCase, exactly, Lexicon.ofList_entries]

/-- A file whose region settles its keys is written as it is. -/
theorem fileLines_of_settles {lines : List Text} {region : Region}
    (hassigned : assignments style.table lines ≠ []) (code : Text)
    (hregion : region? style.table lines = some region)
    (hunique : (Entries.ofLines style.table lines).duplicates.isEmpty = true)
    (hblank : ∀ a ∈ assignments style.table lines, isBlankText a.value = false)
    (hsettles : Settles style.table lines (region.slice lines)) :
    fileLines style code (exactly (Entries.ofLines style.table lines).texts) (some lines) =
      lines := by
  rw [fileLines_ofLines hassigned]
  obtain ⟨front, core, back, rfl, hslice, -, hlayout⟩ := exists_layout hregion
  rw [hslice] at hsettles
  have hcore : core ⊆ front ++ (core ++ back) := fun line hline => by simp [hline]
  have hshort : ∀ key, (literals style.table key core).length ≤ 1 := by
    intro key
    have hall := isEmpty_duplicates_iff.1 hunique key
    rw [literals_append, literals_append, List.length_append, List.length_append] at hall
    omega
  rw [hlayout.mergeLines, mergeRegion_of_settles hcore hshort
    (fun a ha => get?_of_mem_assignments hunique ha)
    (fun e he => exists_assignment_of_mem_entries he) hblank hsettles]

/-- A file that is written as it was has a region that settles its keys, when the keys that the
region does not assign can be written. -/
theorem settles_of_fileLines {lines : List Text} {region : Region}
    (hassigned : assignments style.table lines ≠ []) (code : Text)
    (hregion : region? style.table lines = some region)
    (hunique : (Entries.ofLines style.table lines).duplicates.isEmpty = true)
    (hblank : ∀ a ∈ assignments style.table lines, isBlankText a.value = false)
    (hwritable : ∀ a ∈ assignments style.table lines,
      leader? style.table a.key (region.slice lines) = none → Glue.IsKey a.key)
    (hlines : ∀ line ∈ lines, '\n' ∉ line) {newline : Newline}
    (hsame : Text.joinLines (fileLines style code
      (exactly (Entries.ofLines style.table lines).texts) (some lines)) newline.text =
        Text.joinLines lines newline.text) :
    Settles style.table lines (region.slice lines) := by
  rw [fileLines_ofLines hassigned] at hsame
  have htable := newline_not_mem_table hassigned hlines
  have hentries : ∀ e ∈ (Entries.ofLines style.table lines).texts.entries, '\n' ∉ e.1 := by
    intro e he
    obtain ⟨a, ha, hk⟩ := exists_assignment_of_mem_entries he
    exact hk ▸ newline_not_mem_key ha hlines
  obtain ⟨front, core, back, rfl, hslice, -, hlayout⟩ := exists_layout hregion
  rw [hslice] at hwritable ⊢
  have hcore : core ⊆ front ++ (core ++ back) := fun line hline => by simp [hline]
  rw [hlayout.mergeLines] at hsame
  simp only [Text.joinLines, List.flatMap_append] at hsame
  have hjoin := List.append_cancel_right (List.append_cancel_left hsame)
  have hread := congrArg Text.lines hjoin
  have hcut := @Text.lines_joinLines
  simp only [Text.joinLines] at hcut
  rw [hcut _ newline fun l hl => hlines l (hcore hl), hcut _ newline
    (newline_not_mem_mergeRegion htable hentries fun l hl => hlines l (hcore hl))] at hread
  exact settles_of_mergeRegion (fun a ha => get?_of_mem_assignments hunique ha)
    (fun e he => exists_assignment_of_mem_entries he) hblank hwritable hread hcore

end Phrasebook.Locale
