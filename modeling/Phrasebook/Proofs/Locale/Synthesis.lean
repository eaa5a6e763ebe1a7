import Phrasebook.Proofs.Key.Order
import Phrasebook.Proofs.Locale.Layout
import Phrasebook.Proofs.Locale.Stable

/-!
# Writing a file twice

A second writing of a file finds the same guard, or the lines from the first to the last assignment
of the new region, which may be fewer than before. Since lines that assign nothing are copied and
take care of no key, the edit of these lines is the edit of the whole new region, and changes
nothing. A new file is itself a file with a guard.
-/

namespace Phrasebook.Locale

open Text (isBlank isBlankText trimLeft)

variable {style : Style} {texts : KeyMap Text} {guarded : Bool} {key : Text}

/-- An edit copies the guards and the ends of blocks, and writes none. -/
theorem filter_bounds_mergeRegion (htable : Readers.isName style.table = true)
    (hend : style.table ≠ "end".toList) (hkeys : ∀ key ∈ texts.keys, Glue.IsKey key)
    {ls : List Text}
    (hls : ∀ line ∈ ls, ∀ a, Glue.assignment? style.table line = some a → Glue.IsKey a.key) :
    (mergeRegion style texts guarded ls).filter bounds = ls.filter bounds := by
  have hone : ∀ handled line, line ∈ ls →
      (Edit.written style texts guarded handled line).filter bounds = [line].filter bounds := by
    intro handled line hline
    have hassigned : ∀ {a : Glue.Assignment}, Glue.assignment? style.table line = some a →
        bounds line = false := fun ha =>
      bounds_of_assignsKey htable hend (assignsKey_of_assignment? ha)
    have hfate := Edit.fate_written style texts guarded handled line
    generalize Edit.written style texts guarded handled line = out at hfate ⊢
    cases hfate with
    | other => rfl
    | kept => rfl
    | dropped ha => simp [hassigned ha]
    | @rewritten a text ha =>
      have hindent : isBlankText a.indent = true :=
        Glue.isBlankText_indent_of_assignment? ha
      have hnew := bounds_of_assignsKey htable hend
        (assignsKey_line hindent (hls line hline a ha) text)
      simp [hassigned ha, hnew]
  have hbody : (editRegion style texts guarded ls).body.filter bounds = ls.filter bounds := by
    clear hls
    induction ls using List.reverseRecOn with
    | nil => rfl
    | append_singleton ls line ih =>
      rw [editRegion_concat, Edit.body_step, List.filter_append, List.filter_append,
        ih fun handled l hl => hone handled l (by simp [hl]), hone _ line (by simp)]
  have hadded : ((editRegion style texts guarded ls).added style texts guarded).filter bounds =
      [] := by
    rw [List.filter_eq_nil_iff]
    intro line hline
    obtain ⟨e, he, rfl⟩ := List.mem_map.1 hline
    have hk := hkeys e.1 (List.mem_map_of_mem (get?_of_mem_missing he).1)
    simp [bounds_of_assignsKey htable hend (assignsKey_line (isBlankText_addedIndent ls) hk e.2)]
  exact (List.filter_append ..).trans (by rw [hbody, hadded, List.append_nil])

/-- Lines behind a region that assign nothing are copied. -/
theorem body_append_of_not_assignsKey (ls : List Text) {back : List Text}
    (hback : ∀ line ∈ back, assignsKey style.table line = false) :
    (editRegion style texts guarded (ls ++ back)).body =
      (editRegion style texts guarded ls).body ++ back := by
  induction back using List.reverseRecOn with
  | nil => simp
  | append_singleton back line ih =>
    have hnone := assignment?_eq_none (hback line (by simp))
    rw [← List.append_assoc, editRegion_concat, Edit.body_step, ih fun l hl => hback l (by simp [hl])]
    simp [Edit.written, hnone]

/-- What is written for a line depends on the members of the set of handled keys only. -/
theorem written_congr {h h' : KeySet} (hsame : ∀ key, h.contains key = h'.contains key)
    (line : Text) :
    Edit.written style texts guarded h line = Edit.written style texts guarded h' line := by
  unfold Edit.written
  cases Glue.assignment? style.table line with
  | none => rfl
  | some a => simp only [hsame]

/-- Lines in front of a region that assign nothing are copied. -/
theorem body_append_of_not_assignsKey_front {front : List Text}
    (hfront : ∀ line ∈ front, assignsKey style.table line = false) (ls : List Text) :
    (editRegion style texts guarded (front ++ ls)).body =
      front ++ (editRegion style texts guarded ls).body := by
  have hnone : ∀ key, front.any (Edit.handles style texts guarded key) = false := fun key =>
    List.any_eq_false.2 fun line hline => by simp [Edit.handles_of_not_assignsKey (hfront line hline)]
  induction ls using List.reverseRecOn with
  | nil =>
    have hcopied := @body_append_of_not_assignsKey style texts guarded [] front hfront
    rw [List.append_nil]
    exact hcopied.trans (List.append_nil front).symm
  | append_singleton ls line ih =>
    have hhandled : ∀ key, (editRegion style texts guarded (front ++ ls)).handled.contains key =
        (editRegion style texts guarded ls).handled.contains key := by
      intro key
      rw [contains_handled_editRegion, contains_handled_editRegion, List.any_append, hnone,
        Bool.false_or]
    rw [← List.append_assoc, editRegion_concat, Edit.body_step, ih, written_congr hhandled,
      editRegion_concat, Edit.body_step, List.append_assoc]

/-- Where an edit changes nothing, it changes nothing of the lines from the first to the last
assignment. -/
theorem mergeRegion_core {front core back : List Text}
    (hfront : ∀ line ∈ front, assignsKey style.table line = false)
    (hback : ∀ line ∈ back, assignsKey style.table line = false)
    (hbody : (editRegion style texts guarded (front ++ (core ++ back))).body =
      front ++ (core ++ back))
    (hmissing : (editRegion style texts guarded (front ++ (core ++ back))).missing texts = []) :
    mergeRegion style texts guarded core = core := by
  rw [body_append_of_not_assignsKey_front hfront, body_append_of_not_assignsKey core hback] at hbody
  have hcore : (editRegion style texts guarded core).body = core :=
    List.append_cancel_right (List.append_cancel_left hbody)
  have hsame : (editRegion style texts guarded core).missing texts =
      (editRegion style texts guarded (front ++ (core ++ back))).missing texts := by
    have hnone : ∀ {ls : List Text}, (∀ line ∈ ls, assignsKey style.table line = false) →
        ∀ key, ls.any (Edit.handles style texts guarded key) = false := fun hls key =>
      List.any_eq_false.2 fun line hline => by simp [Edit.handles_of_not_assignsKey (hls line hline)]
    simp only [Edit.missing, contains_handled_editRegion, List.any_append, hnone hfront,
      hnone hback, Bool.false_or, Bool.or_false]
  rw [mergeRegion_eq, hcore, hsame, hmissing, List.map_nil, List.append_nil]

/-- A merged guarded block is again the guarded block of its file. -/
theorem Layout.mergeRegion_of_guard (htable : Readers.isName style.table = true)
    (hend : style.table ≠ "end".toList) (hkeys : ∀ key ∈ texts.keys, Glue.IsKey key)
    {front core back : List Text} (hlayout : Layout style.table front core back true)
    (hcore : ∀ line ∈ core, ∀ a, Glue.assignment? style.table line = some a →
      Glue.IsKey a.key) :
    Layout style.table front (mergeRegion style texts true core) back true := by
  cases hlayout with
  | @guard before _ after guard fin hbefore hguard hinside hfin =>
    refine .guard hbefore hguard (fun line hline => ?_) hfin
    cases hb : isBlockEnd line with
    | false => rfl
    | true =>
      have hmem : line ∈ (mergeRegion style texts true core).filter bounds :=
        List.mem_filter.2 ⟨hline, by simp [bounds, hb]⟩
      rw [filter_bounds_mergeRegion htable hend hkeys hcore] at hmem
      exact hb.symm.trans (hinside line (List.mem_filter.1 hmem).1)

/-- Merging a file with a guarded block twice is merging it once. -/
theorem mergeLines_mergeLines_of_guard (htable : Readers.isName style.table = true)
    (hend : style.table ≠ "end".toList) (hkeys : ∀ key ∈ texts.keys, Glue.IsKey key)
    {front core back : List Text} (hlayout : Layout style.table front core back true)
    (hcore : ∀ line ∈ core, ∀ a, Glue.assignment? style.table line = some a →
      Glue.IsKey a.key) :
    mergeLines style (mergeLines style (front ++ (core ++ back)) texts) texts =
      mergeLines style (front ++ (core ++ back)) texts := by
  have hnew := hlayout.mergeRegion_of_guard htable hend hkeys hcore
  rw [hlayout.mergeLines, hnew.mergeLines,
    mergeRegion_mergeRegion (isBlank_head_of_isName htable) hkeys hcore]

/-- Merging a file without a guarded block twice is merging it once, when the new region has an
assignment. -/
theorem mergeLines_mergeLines_of_plain (htable : Readers.isName style.table = true)
    (hend : style.table ≠ "end".toList) (hkeys : ∀ key ∈ texts.keys, Glue.IsKey key)
    {front core back : List Text} (hlayout : Layout style.table front core back false)
    (hcore : ∀ line ∈ core, ∀ a, Glue.assignment? style.table line = some a →
      Glue.IsKey a.key)
    (hassigned : ∃ line ∈ mergeRegion style texts false core,
      assignsKey style.table line = true) :
    mergeLines style (mergeLines style (front ++ (core ++ back)) texts) texts =
      mergeLines style (front ++ (core ++ back)) texts := by
  have hmerged := hlayout.mergeLines texts
  obtain ⟨hbody, hmissing⟩ := @editRegion_mergeRegion style texts false
    (isBlank_head_of_isName htable) hkeys core hcore
  have hbounds := @filter_bounds_mergeRegion style texts false htable hend hkeys core hcore
  -- Dropped lines may leave fewer lines between the first and the last assignment, so the second
  -- merge edits only `core'`.
  obtain ⟨front', core', back', hsplit, hfront', hback', hhead, hlast⟩ :=
    exists_assigned_core hassigned
  rw [hsplit] at hmerged hbody hmissing hbounds
  have hfixed := mergeRegion_core hfront' hback' hbody hmissing
  cases hlayout with
  | plain hblock hfront hback =>
    have hregroup : front ++ (front' ++ (core' ++ back') ++ back) =
        (front ++ front') ++ (core' ++ (back' ++ back)) := by
      simp
    have hsame : (front ++ (front' ++ (core' ++ back') ++ back)).filter bounds =
        (front ++ (core ++ back)).filter bounds := by
      rw [List.filter_append, List.filter_append, hbounds, List.filter_append, List.filter_append]
    have hnone : guardedBlock? (front ++ (front' ++ (core' ++ back') ++ back)) = none := by
      have hsome := guardedBlock?_isSome_congr hsame
      rw [hblock] at hsome
      simpa using hsome
    have hnew : Layout style.table (front ++ front') core' (back' ++ back) false := by
      refine .plain (hregroup ▸ hnone) (fun line hline => ?_) (fun line hline => ?_) hhead hlast
      · exact (List.mem_append.1 hline).elim (hfront line) (hfront' line)
      · exact (List.mem_append.1 hline).elim (hback' line) (hback line)
    rw [hmerged, hregroup, hnew.mergeLines, hfixed]

/-- A computed assignment of a region is copied. -/
theorem mem_mergeRegion_of_computed {ls : List Text} {line : Text} (hline : line ∈ ls)
    (hcomputed : Glue.assignment? style.table line = none) :
    line ∈ mergeRegion style texts guarded ls := by
  suffices line ∈ (editRegion style texts guarded ls).body from List.mem_append_left _ this
  induction ls using List.reverseRecOn with
  | nil => simp at hline
  | append_singleton ls l ih =>
    rw [editRegion_concat, Edit.body_step, List.mem_append]
    rcases List.mem_append.1 hline with hbefore | hlast
    · exact Or.inl (ih hbefore)
    · obtain rfl := List.mem_singleton.1 hlast
      exact Or.inr (by simp [Edit.written, hcomputed])

/-- A merged region has an assignment when some text is not blank. -/
theorem exists_assigned_of_text (htable : Readers.isName style.table = true)
    (hkeys : ∀ key ∈ texts.keys, Glue.IsKey key) {ls : List Text}
    (hls : ∀ line ∈ ls, ∀ a, Glue.assignment? style.table line = some a → Glue.IsKey a.key)
    {e : Text × Text} (he : e ∈ texts.entries) (hblank : isBlankText e.2 = false) :
    ∃ line ∈ mergeRegion style texts guarded ls, assignsKey style.table line = true := by
  obtain ⟨-, hmissing⟩ := @editRegion_mergeRegion style texts guarded
    (isBlank_head_of_isName htable) hkeys ls hls
  obtain ⟨line, hline, hhandles⟩ :=
    List.any_eq_true.1 (missing_eq_nil_iff.1 hmissing e he hblank)
  refine ⟨line, hline, ?_⟩
  cases hassigns : assignsKey style.table line with
  | true => rfl
  | false => simp [Edit.handles_of_not_assignsKey hassigns] at hhandles

/-- The line of a new file that binds the table. -/
def Style.binding (style : Style) : Text :=
  guardIndent ++ "local ".toList ++ style.table ++ " = ".toList ++ style.expression

/-- The entries of a new file. -/
def writtenEntries (texts : Dictionary Text) : List (Text × Text) :=
  (sortedEntries texts).filter fun entry => !isBlankText entry.2

/-- The entries that a new file has are those that are not blank. -/
theorem writtenEntries_perm (texts : Dictionary Text) :
    (writtenEntries texts).Perm (texts.entries.filter fun e => !isBlankText e.2) :=
  (sortedEntries_perm texts).filter _

/-- A new file has an entry exactly when its text is not blank. -/
theorem mem_writtenEntries {texts : Dictionary Text} {e : Text × Text} :
    e ∈ writtenEntries texts ↔ e ∈ texts.entries ∧ isBlankText e.2 = false := by
  rw [(writtenEntries_perm texts).mem_iff, List.mem_filter, Bool.not_eq_true']

/-- The entries that a new file has are in key order. -/
theorem pairwise_writtenEntries (texts : Dictionary Text) :
    (writtenEntries texts).Pairwise fun a b => keyLe a.1 b.1 = true :=
  (pairwise_mergeSort_keyLe texts.entries).sublist List.filter_sublist

/-- The keys of a new file are those of the entries that are not blank, in key order. -/
theorem map_fst_writtenEntries (texts : Dictionary Text) :
    (writtenEntries texts).map (·.1) =
      sortKeys ((texts.entries.filter fun e => !isBlankText e.2).map (·.1)) :=
  eq_sortKeys_of_perm (List.pairwise_map.2 (pairwise_writtenEntries texts))
    ((writtenEntries_perm texts).map _)

/-- A new file consists of a header, a guard, the binding of the table and a line for each entry. -/
theorem newFile_eq (codes : List Text) (texts : Dictionary Text) (spacer : Text) :
    newFile style codes texts spacer =
      (["local _, ".toList ++ style.addon ++ " = ...".toList, [],
        "local locale = GetLocale()".toList, []] ++
        ["if ".toList ++ condition codes ++ " then".toList]) ++
      (([style.binding, spacer] ++
        (writtenEntries texts).map fun e => style.line guardIndent e.1 e.2) ++
        "end".toList :: [[]]) := by
  simp [newFile, Style.binding, writtenEntries]

/-- The number of characters before the first bracket of a text that are not blank. -/
def lettersBeforeBracket (t : Text) : Nat :=
  (t.takeWhile (· ≠ '[')).countP fun c => !isBlank c

/-- Behind blanks, the same characters come before the first bracket. -/
theorem lettersBeforeBracket_append_of_blank {s : Text} (hs : isBlankText s = true) (t : Text) :
    lettersBeforeBracket (s ++ t) = lettersBeforeBracket t := by
  have hnone : ∀ c ∈ s, c ≠ '[' ∧ isBlank c = true := by
    intro c hc
    have hblank := List.all_eq_true.1 hs c hc
    refine ⟨?_, hblank⟩
    rintro rfl
    exact absurd hblank (by decide)
  rw [lettersBeforeBracket, List.takeWhile_append_of_pos fun c hc => decide_eq_true (hnone c hc).1,
    List.countP_append, List.countP_eq_zero.2 fun c hc => by simp [(hnone c hc).2], Nat.zero_add]
  rfl

/-- A longer text has no fewer characters before its first bracket. -/
theorem lettersBeforeBracket_le_append (s t : Text) :
    lettersBeforeBracket s ≤ lettersBeforeBracket (s ++ t) := by
  unfold lettersBeforeBracket
  rw [List.takeWhile_append]
  split_ifs with hall
  · rw [List.countP_append, (List.takeWhile_prefix _).eq_of_length hall]
    exact Nat.le_add_right _ _
  · exact le_rfl

/-- A bracket behind blanks ends the count. -/
theorem lettersBeforeBracket_append_bracket (s : Text) {a : Text} (ha : isBlankText a = true)
    (t : Text) : lettersBeforeBracket (s ++ (a ++ '[' :: t)) = lettersBeforeBracket s := by
  have hbehind : lettersBeforeBracket (a ++ '[' :: t) = 0 := by
    rw [lettersBeforeBracket_append_of_blank ha]
    rfl
  unfold lettersBeforeBracket at hbehind ⊢
  rw [List.takeWhile_append]
  split_ifs with hall
  · rw [List.countP_append, hbehind, (List.takeWhile_prefix _).eq_of_length hall, Nat.add_zero]
  · rfl

/-- The binding of the table assigns no key, whatever the name of the table is: the word in front
leaves too few characters for the name before the first bracket. -/
theorem target?_binding (style : Style) : Glue.target? style.table style.binding = none := by
  cases htarget : Glue.target? style.table style.binding with
  | none => rfl
  | some target =>
    obtain ⟨s, a, b, quote, c, d, hs, ha, -, -, -, -, -, -, -, hline⟩ :=
      Glue.target?_eq_some_iff.1 htarget
    have hname := congrArg lettersBeforeBracket hline
    rw [lettersBeforeBracket_append_of_blank hs, lettersBeforeBracket_append_bracket _ ha] at hname
    have hword : lettersBeforeBracket style.binding =
        lettersBeforeBracket (style.table ++ (" = ".toList ++ style.expression)) + 5 := by
      simp [Style.binding, guardIndent, lettersBeforeBracket, isBlank]
    have hle := lettersBeforeBracket_le_append style.table (" = ".toList ++ style.expression)
    omega

/-- The binding of the table assigns no key. -/
theorem assignsKey_binding (style : Style) : assignsKey style.table style.binding = false := by
  simp [assignsKey, Glue.assignedKey?, target?_binding]

/-- A new file has a guard around the lines that it writes, when none of them ends a block. -/
theorem layout_newFile (style : Style) (code : Text) {written : List Text}
    (hwritten : ∀ line ∈ written, isBlockEnd line = false) :
    Layout style.table
      (["local _, ".toList ++ style.addon ++ " = ...".toList, [],
        "local locale = GetLocale()".toList, []] ++
        ["if ".toList ++ condition [code] ++ " then".toList])
      ([style.binding, guardIndent] ++ written) ("end".toList :: [[]]) true := by
  refine .guard (fun line hline => ?_) ?_ (fun line hline => ?_) rfl
  · simp only [List.mem_cons, List.not_mem_nil, or_false] at hline
    rcases hline with rfl | rfl | rfl | rfl
    · simp [isGuard, trimLeft, isBlank, Text.after?]
    · rfl
    · rfl
    · rfl
  · simp [isGuard, condition, Text.join, trimLeft, isBlank, Text.after?, Text.startsWith]
  · rcases List.mem_append.1 hline with hheader | hline
    · simp only [List.mem_cons, List.not_mem_nil, or_false] at hheader
      rcases hheader with rfl | rfl
      · simp [isBlockEnd, Style.binding, guardIndent, trimLeft, isBlank, Text.after?]
      · rfl
    · exact hwritten line hline

/-- The lines of a new file in front of its entries assign no key. -/
theorem assignsKey_header (style : Style) :
    ∀ line ∈ [style.binding, guardIndent], assignsKey style.table line = false := by
  have hspacer : assignsKey style.table guardIndent = false := assignsKey_of_blank rfl
  simp [assignsKey_binding, hspacer]

/-- The lines of a new file in front of its entries are copied, and take care of no key. -/
theorem editRegion_header (style : Style) (texts : KeyMap Text) (guarded : Bool) :
    (editRegion style texts guarded [style.binding, guardIndent]).body =
        [style.binding, guardIndent] ∧
      ∀ key, [style.binding, guardIndent].any (Edit.handles style texts guarded key) = false :=
  ⟨body_append_of_not_assignsKey [] (assignsKey_header style), fun _ =>
    List.any_eq_false.2 fun line hline => by
      simp [Edit.handles_of_not_assignsKey (assignsKey_header style line hline)]⟩

/-- Keys that differ up to case belong to entries that do. -/
theorem nodup_entries {texts : Dictionary Text} (hdistinct : (texts.keys.map Text.fold).Nodup) :
    (texts.entries.map fun e => Text.fold e.1).Nodup :=
  texts.map_keys Text.fold ▸ hdistinct

/-- A map whose keys differ up to case keeps its entries when its keys are compared up to case. -/
theorem entries_upToCase {texts : Dictionary Text}
    (hdistinct : (texts.keys.map Text.fold).Nodup) : (upToCase texts).entries = texts.entries :=
  Lexicon.entries_ofList (nodup_entries hdistinct)

/-- Merging a new file with its texts changes nothing. -/
theorem mergeLines_newFile (htable : Readers.isName style.table = true)
    (hend : style.table ≠ "end".toList) (code : Text) {texts : Dictionary Text}
    (hdistinct : (texts.keys.map Text.fold).Nodup) (hkeys : ∀ key ∈ texts.keys, Glue.IsKey key) :
    mergeLines style (newFile style [code] texts guardIndent) (upToCase texts) =
      newFile style [code] texts guardIndent := by
  have hentries := entries_upToCase hdistinct
  have htexts : ∀ e ∈ writtenEntries texts,
      Glue.IsKey e.1 ∧ (upToCase texts).get? e.1 = some e.2 := by
    intro e he
    have hmem := (mem_writtenEntries.1 he).1
    exact ⟨hkeys e.1 (List.mem_map_of_mem hmem),
      Lexicon.get?_eq_some_iff.2 ⟨e.1, hentries ▸ hmem, rfl⟩⟩
  have hnodup : ((writtenEntries texts).map fun e => Text.fold e.1).Nodup :=
    (List.filter_sublist.map _).nodup
      (((sortedEntries_perm texts).map fun e => Text.fold e.1).nodup_iff.2
        (nodup_entries hdistinct))
  obtain ⟨hcopied, hnone⟩ := editRegion_header style (upToCase texts) true
  have hbody := editRegion_append_lines (isBlank_head_of_isName htable)
    (show isBlankText guardIndent = true from rfl) hcopied htexts
    (fun e he => (mem_writtenEntries.1 he).2) (fun e _ => hnone e.1) hnodup
  have hmissing : (editRegion style (upToCase texts) true ([style.binding, guardIndent] ++
      (writtenEntries texts).map fun e => style.line guardIndent e.1 e.2)).missing
        (upToCase texts) = [] := by
    rw [missing_eq_nil_iff]
    intro e he hblank
    have hwrite : e ∈ writtenEntries texts :=
      mem_writtenEntries.2 ⟨hentries ▸ he, hblank⟩
    rw [any_handles_append_lines rfl htexts, List.any_eq_true.2 ⟨e, hwrite, decide_eq_true rfl⟩,
      Bool.or_true]
  have hends : ∀ line ∈ (writtenEntries texts).map fun e => style.line guardIndent e.1 e.2,
      isBlockEnd line = false := by
    intro line hline
    obtain ⟨e, he, rfl⟩ := List.mem_map.1 hline
    exact isBlockEnd_of_assignsKey htable hend (assignsKey_line rfl (htexts e he).1 e.2)
  rw [newFile_eq, (layout_newFile style code hends).mergeLines, mergeRegion_eq, hbody, hmissing,
    List.map_nil, List.append_nil]

/-- A guard is not blank. -/
theorem isBlankText_of_isGuard {line : Text} (h : isGuard line = true) :
    isBlankText line = false := by
  cases hb : isBlankText line with
  | false => rfl
  | true => simp [isGuard, Text.trimLeft_eq_nil_iff.2 hb, Text.after?] at h

/-- The new region of a file without a guarded block has an assignment when there is a text to write
or a computed assignment to copy. -/
theorem exists_assigned_mergeRegion (htable : Readers.isName style.table = true)
    (hkeys : ∀ key ∈ texts.keys, Glue.IsKey key) {front core back : List Text}
    (hlayout : Layout style.table front core back false)
    (hcore : ∀ line ∈ core, ∀ a, Glue.assignment? style.table line = some a →
      Glue.IsKey a.key)
    (hneeded : (∃ e ∈ texts.entries, isBlankText e.2 = false) ∨
      ∃ line ∈ front ++ (core ++ back), assignsKey style.table line = true ∧
        isLiteral style.table line = false) :
    ∃ line ∈ mergeRegion style texts false core, assignsKey style.table line = true := by
  rcases hneeded with ⟨e, he, hblank⟩ | ⟨line, hline, hassigns, hcomputed⟩
  · exact exists_assigned_of_text htable hkeys hcore he hblank
  · have hnone : Glue.assignment? style.table line = none := by
      simpa [isLiteral] using hcomputed
    cases hlayout with
    | plain _ hfront hback =>
      rcases List.mem_append.1 hline with hmem | hmem
      · simp [hfront line hmem] at hassigns
      · rcases List.mem_append.1 hmem with hmem | hmem
        · exact ⟨line, mem_mergeRegion_of_computed hmem hnone, hassigns⟩
        · simp [hback line hmem] at hassigns

/-- Writing the file of a locale twice with the same texts is writing it once, whatever the values
are: a new file, a file with a guarded block, or a file with assignments of which some are left. -/
theorem fileLines_fileLines (style : Style) (code : Text) (texts : Dictionary Text)
    (existing : Option (List Text)) (htable : Readers.isName style.table = true)
    (hend : style.table ≠ "end".toList) (hdistinct : (texts.keys.map Text.fold).Nodup)
    (hkeys : ∀ key ∈ texts.keys, Glue.IsKey key)
    (hlines : ∀ line ∈ existing.getD [], ∀ key ∈ Glue.assignedKey? style.table line,
      Glue.IsKey key)
    (hexisting : isFresh existing = true ∨ (guardedBlock? (existing.getD [])).isSome = true ∨
      (∃ line ∈ existing.getD [], assignsKey style.table line = true) ∧
        ((∃ value ∈ texts.values, isBlankText value = false) ∨
          ∃ line ∈ existing.getD [], assignsKey style.table line = true ∧
            isLiteral style.table line = false)) :
    fileLines style code texts (some (fileLines style code texts existing)) =
      fileLines style code texts existing := by
  cases hfresh : isFresh existing with
  | true =>
    have hnew : isFresh (some (newFile style [code] texts guardIndent)) = false :=
      @isFresh_eq_false _ "end".toList (by simp [newFile_eq]) rfl
    simp only [fileLines, hfresh, if_true, hnew, if_false, Option.getD_some, Bool.false_eq_true,
      mergeLines_newFile htable hend code hdistinct hkeys]
  | false =>
    have hkeys' : ∀ key ∈ (upToCase texts).keys, Glue.IsKey key := by
      rw [Lexicon.keys, entries_upToCase hdistinct]
      exact hkeys
    have hliteral : ∀ line ∈ existing.getD [], ∀ a,
        Glue.assignment? style.table line = some a → Glue.IsKey a.key := fun line hline a ha =>
      hlines line hline a.key (Glue.assignedKey?_of_assignment? ha)
    have hregion : (region? style.table (existing.getD [])).isSome = true :=
      region?_isSome ((hexisting.resolve_left (by simp [hfresh])).imp_right And.left)
    obtain ⟨region, hregion⟩ := Option.isSome_iff_exists.1 hregion
    obtain ⟨front, core, back, hsplit, -, -, hlayout⟩ := exists_layout hregion
    rw [hsplit] at hexisting hliteral
    have hcore : ∀ line ∈ core, ∀ a, Glue.assignment? style.table line = some a →
        Glue.IsKey a.key := fun line hline => hliteral line (by simp [hline])
    have hmerge : fileLines style code texts existing =
        mergeLines style (front ++ (core ++ back)) (upToCase texts) := by
      rw [fileLines, hfresh, hsplit]
      rfl
    have hagain : isFresh (some (mergeLines style (front ++ (core ++ back)) (upToCase texts))) =
          false ∧
        mergeLines style (mergeLines style (front ++ (core ++ back)) (upToCase texts))
          (upToCase texts) = mergeLines style (front ++ (core ++ back)) (upToCase texts) := by
      cases hg : region.guarded with
      | true =>
        rw [hg] at hlayout
        refine ⟨?_, mergeLines_mergeLines_of_guard htable hend hkeys' hlayout hcore⟩
        rw [hlayout.mergeLines]
        cases hlayout with
        | guard _ hguard =>
          exact isFresh_eq_false (by simp) (isBlankText_of_isGuard hguard)
      | false =>
        rw [hg] at hlayout
        have hneeded : (∃ e ∈ (upToCase texts).entries, isBlankText e.2 = false) ∨
            ∃ line ∈ front ++ (core ++ back), assignsKey style.table line = true ∧
              isLiteral style.table line = false := by
          rcases hexisting with hcontra | hblock | ⟨-, hvalue | hcomputed⟩
          · simp [hfresh] at hcontra
          · cases hlayout with
            | plain hnone => simp [hnone] at hblock
          · obtain ⟨value, hmem, hblank⟩ := hvalue
            obtain ⟨e, he, rfl⟩ := List.mem_map.1 hmem
            exact Or.inl ⟨e, entries_upToCase hdistinct ▸ he, hblank⟩
          · exact Or.inr hcomputed
        have hassigned := exists_assigned_mergeRegion htable hkeys' hlayout hcore hneeded
        refine ⟨?_, mergeLines_mergeLines_of_plain htable hend hkeys' hlayout hcore hassigned⟩
        obtain ⟨line, hline, hassigns⟩ := hassigned
        rw [hlayout.mergeLines]
        exact isFresh_eq_false (by simp [hline]) (isBlankText_of_assignsKey hassigns)
    rw [hmerge, fileLines, hagain.1]
    exact hagain.2

/-- A text whose line does not read back is written to the same line again, between computed
assignments that bound the region. -/
theorem fileLines_fileLines_of_escaped_quote :
    let existing := some ["L[\"first\"] = L.name .. \"!\"".toList, "L[\"said\"] = \"no\"".toList]
    let texts : Dictionary Text := .ofList [("said".toList, ['a', '\\', '"']),
      ("New".toList, ['b', '\\', 'x'])]
    fileLines .default "deDE".toList texts
        (some (fileLines .default "deDE".toList texts existing)) =
      fileLines .default "deDE".toList texts existing := by
  intro existing texts
  exact fileLines_fileLines .default "deDE".toList texts existing (by decide +kernel)
    (by decide +kernel) (by decide +kernel) (by decide +kernel) (by decide +kernel)
    (by decide +kernel)

end Phrasebook.Locale
