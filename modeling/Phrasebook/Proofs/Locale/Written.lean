import Phrasebook.Proofs.Locale.Reread

/-!
# The lines that a merge writes

Every line of a merged region is one of its old lines, or has been written for a text that is not
blank. A key that neither the texts nor the old lines have is assigned by none of them. The lines of
a file are read back one by one when none of them starts with the mark of the byte order.
-/

namespace Phrasebook.Locale

open Text (Newline isBlankText)

variable {style : Style} {texts : KeyMap Text} {guarded : Bool} {table key : Text}

/-- A line is written for a text of a region: the text is not blank, and the region has no line for
it. The key is spelled as in the texts or as in the region. -/
def IsWritten (style : Style) (texts : KeyMap Text) (core : List Text) (line : Text) : Prop :=
  ∃ indent k text, line = style.line indent k text ∧ isBlankText indent = true ∧
    (k ∈ texts.keys ∨ ∃ a ∈ assignments style.table core, a.key = k) ∧
    texts.get? k = some text ∧ isBlankText text = false ∧ writes style.table core k text = true

/-- A line may be kept: its key has no blank text. -/
def IsKept (table : Text) (texts : KeyMap Text) (line : Text) : Prop :=
  ∀ a, Glue.assignment? table line = some a → ∀ text, texts.get? a.key = some text →
    isBlankText text = false

/-- What is written for a line: the line itself, or a line for another text of its key. -/
theorem mem_written {handled : KeySet} {line w : Text}
    (h : w ∈ Edit.written style texts guarded handled line) :
    w = line ∧ IsKept style.table texts line ∨ ∃ a text,
      Glue.assignment? style.table line = some a ∧ handled.contains a.key = false ∧
      texts.get? a.key = some text ∧ isBlankText text = false ∧ text ≠ a.value ∧
      w = style.line a.indent a.key text := by
  unfold Edit.written at h
  cases ha : Glue.assignment? style.table line with
  | none => exact Or.inl ⟨by simpa [ha] using h, by simp [IsKept, ha]⟩
  | some a =>
    simp only [ha] at h
    by_cases hc : handled.contains a.key = true
    · simp [hc] at h
    · rw [if_neg hc] at h
      cases ht : texts.get? a.key with
      | none =>
        cases guarded with
        | false => simp [ht] at h
        | true => exact Or.inl ⟨by simpa [ht] using h, by simp [IsKept, ha, ht]⟩
      | some text =>
        simp only [ht] at h
        split_ifs at h with hb hv
        · simp at h
        · exact Or.inl ⟨List.mem_singleton.1 h, by simpa [IsKept, ha, ht] using hb⟩
        · exact Or.inr ⟨a, text, rfl, by simpa using hc, ht, by simpa using hb, hv,
            List.mem_singleton.1 h⟩

/-- The lines of an edited region are old ones, or written for the first assignment of a key. -/
theorem mem_body {ls : List Text} {w : Text} (h : w ∈ (editRegion style texts guarded ls).body) :
    w ∈ ls ∧ IsKept style.table texts w ∨ ∃ line ∈ ls, ∃ a text,
      Glue.assignment? style.table line = some a ∧ leader? style.table a.key ls = some line ∧
      texts.get? a.key = some text ∧ isBlankText text = false ∧ text ≠ a.value ∧
      w = style.line a.indent a.key text := by
  induction ls using List.reverseRecOn with
  | nil => simp [editRegion, Edit.start] at h
  | append_singleton ls line ih =>
    rw [editRegion_concat, Edit.body_step, List.mem_append] at h
    rcases h with h | h
    · refine (ih h).imp (fun hold => ⟨List.mem_append_left _ hold.1, hold.2⟩) ?_
      rintro ⟨l, hl, a, text, ha, hleader, hrest⟩
      refine ⟨l, List.mem_append_left _ hl, a, text, ha, ?_, hrest⟩
      rw [leader?_concat, hleader, Option.some_or]
    · rcases mem_written h with ⟨rfl, hkept⟩ | ⟨a, text, ha, hfresh, ht, hrest⟩
      · exact Or.inl ⟨by simp, hkept⟩
      · refine Or.inr ⟨line, by simp, a, text, ha, ?_, ht, hrest⟩
        rw [contains_handled_of_get? ht] at hfresh
        have hnone : leader? style.table a.key ls = none := by simpa using hfresh
        rw [leader?_concat, hnone, Option.none_or, assigns_of_assignment? ha]
        simp

/-- The lines that are added behind the others are written for texts. -/
theorem isWritten_of_mem_added {core : List Text} {w : Text}
    (h : w ∈ (editRegion style texts guarded core).added style texts guarded) :
    IsWritten style texts core w := by
  obtain ⟨e, he, rfl⟩ := List.mem_map.1 h
  obtain ⟨hmem, ht, hb, -⟩ := get?_of_mem_missing he
  refine ⟨_, e.1, e.2, rfl, isBlankText_addedIndent core,
    Or.inl (List.mem_map_of_mem hmem), ht, hb, ?_⟩
  simp [writes, leader?_of_mem_missing he]

/-- The lines of a merged region are old ones that may be kept, or written for a text. -/
theorem mem_mergeRegion {core : List Text} {w : Text}
    (h : w ∈ mergeRegion style texts guarded core) :
    w ∈ core ∧ IsKept style.table texts w ∨ IsWritten style texts core w := by
  rw [mergeRegion, List.mem_append] at h
  rcases h with h | h
  · refine (mem_body h).imp_right ?_
    rintro ⟨line, hline, a, text, ha, hleader, ht, hb, hv, rfl⟩
    refine ⟨a.indent, a.key, text, rfl, Glue.isBlankText_indent_of_assignment? ha,
      Or.inr ⟨a, mem_assignments hline ha, rfl⟩, ht, hb, ?_⟩
    simp [writes, hleader, ha, Ne.symm hv]
  · exact Or.inr (isWritten_of_mem_added h)

/-- The literal assignments of a merged region are old ones that may be kept, or stand on lines that
are written for a text. -/
theorem mem_assignments_mergeRegion {core : List Text} {a : Glue.Assignment}
    (h : a ∈ assignments style.table (mergeRegion style texts guarded core)) :
    a ∈ assignments style.table core ∧
        (∀ text, texts.get? a.key = some text → isBlankText text = false) ∨
      ∃ line, IsWritten style texts core line ∧ Glue.assignment? style.table line = some a := by
  obtain ⟨line, hline, hread⟩ := List.mem_filterMap.1 h
  exact (mem_mergeRegion hline).imp
    (fun hold => ⟨mem_assignments hold.1 hread, hold.2 a hread⟩) fun hnew => ⟨line, hnew, hread⟩

/-- A merge copies every line that is no literal assignment. -/
theorem mem_mergeLines_of_computed {lines : List Text} {line : Text} (hline : line ∈ lines)
    (hcomputed : Glue.assignment? style.table line = none) :
    line ∈ mergeLines style lines texts := by
  cases hregion : region? style.table lines with
  | none => simp [mergeLines, hregion, hline]
  | some region =>
    obtain ⟨front, core, back, rfl, -, -, hlayout⟩ := exists_layout hregion
    rw [hlayout.mergeLines]
    simp only [List.mem_append] at hline ⊢
    exact hline.imp_right fun h =>
      h.imp_left fun hcore => mem_mergeRegion_of_computed hcore hcomputed

/-- Whether the line that is written for a text of a key assigns no other key. It assigns none at
all when the key cannot stand between double quotes. -/
def keepsKey (table key text : Text) : Bool :=
  (Glue.assignment? table (Glue.Assignment.line ⟨key, text, []⟩ table)).all fun a =>
    Text.fold a.key = Text.fold key

/-- A line that keeps its key assigns no other one, whatever its indent is. -/
theorem fold_eq_of_keepsKey {k text indent : Text}
    (hindent : isBlankText indent = true) (hkeeps : keepsKey style.table k text = true)
    {a : Glue.Assignment} (ha : Glue.assignment? style.table (style.line indent k text) = some a) :
    Text.fold a.key = Text.fold k := by
  have hread := Glue.map_assignment?_line style.table (a := ⟨k, text, indent⟩) hindent
  rw [Style.line] at ha
  rw [ha, Option.map_some, eq_comm, Option.map_eq_some_iff] at hread
  obtain ⟨b, hb, hsame⟩ := hread
  rw [keepsKey, hb] at hkeeps
  rw [← (Prod.mk.inj hsame).1]
  exact of_decide_eq_true hkeeps

/-- A line that is read back for its key assigns no other one. -/
theorem keepsKey_of_isReadBack {k text : Text} (h : IsReadBack table k k text) :
    keepsKey table k text = true := by
  unfold keepsKey
  cases ha : Glue.assignment? table (Glue.Assignment.line ⟨k, text, []⟩ table) with
  | none => rfl
  | some a =>
    rw [IsReadBack, if_pos rfl, literals_singleton_of_some ha] at h
    by_cases hk : Text.fold a.key = Text.fold k
    · simpa using hk
    · simp [hk] at h

/-- A line that is read back for its key is so for every key. -/
theorem IsReadBack.of_self {k text : Text} (h : IsReadBack table k k text) (key : Text) :
    IsReadBack table key k text := by
  by_cases hk : Text.fold k = Text.fold key
  · rw [IsReadBack, if_pos hk, ← literals_congr hk, h, if_pos rfl]
  · have hkeeps := keepsKey_of_isReadBack h
    unfold keepsKey at hkeeps
    rw [IsReadBack, if_neg hk]
    cases ha : Glue.assignment? table (Glue.Assignment.line ⟨k, text, []⟩ table) with
    | none => exact literals_singleton_of_none ha
    | some a =>
      rw [ha, Option.all_some, decide_eq_true_eq] at hkeeps
      rw [literals_singleton_of_some ha, if_neg fun hsame => hk (hkeeps.symm.trans hsame)]

/-- The lines that a merge writes assign no keys but their own. -/
def WritesKeys (style : Style) (texts : KeyMap Text) (core : List Text) : Prop :=
  ∀ k, (k ∈ texts.keys ∨ ∃ a ∈ assignments style.table core, a.key = k) →
    ∀ text, texts.get? k = some text → isBlankText text = false →
      writes style.table core k text = true → keepsKey style.table k text = true

/-- It is enough to look at the assignments of a file that spells the keys of the texts. -/
theorem WritesKeys.of_assignments {lines core : List Text} (hcore : core ⊆ lines)
    (hspelled : ∀ e ∈ texts.entries, ∃ a ∈ assignments style.table lines, a.key = e.1)
    (h : ∀ a ∈ assignments style.table lines, ∀ text, texts.get? a.key = some text →
      isBlankText text = false → writes style.table core a.key text = true →
        keepsKey style.table a.key text = true) :
    WritesKeys style texts core := by
  intro k hk text ht hb hwrite
  obtain ⟨a, ha, rfl⟩ : ∃ a ∈ assignments style.table lines, a.key = k := by
    rcases hk with hmem | ⟨a, ha, hk⟩
    · obtain ⟨e, he, rfl⟩ := List.mem_map.1 hmem
      exact hspelled e he
    · obtain ⟨line, hline, hread⟩ := List.mem_filterMap.1 ha
      exact ⟨a, mem_assignments (hcore hline) hread, hk⟩
  exact h a ha text ht hb hwrite

/-- A merged region has no value of a key whose text is blank, nor of one that neither the texts nor
the old region have. -/
theorem literals_mergeRegion_of_blank {core : List Text} (hkeys : WritesKeys style texts core)
    (hblank : ∀ text, texts.get? key = some text → isBlankText text = true)
    (hnone : texts.get? key = none → literals style.table key core = []) :
    literals style.table key (mergeRegion style texts guarded core) = [] := by
  rw [List.eq_nil_iff_forall_not_mem]
  intro value hvalue
  obtain ⟨a, ha, rfl⟩ := List.mem_map.1 hvalue
  obtain ⟨hassigned, hkey⟩ := List.mem_filter.1 ha
  have hfold : Text.fold a.key = Text.fold key := of_decide_eq_true hkey
  rcases mem_assignments_mergeRegion hassigned with ⟨hold, hkept⟩ | ⟨line, hnew, hread⟩
  · rw [Lexicon.get?_congr texts hfold] at hkept
    cases ht : texts.get? key with
    | none => exact List.ne_nil_of_mem (mem_literals hold hfold) (hnone ht)
    | some text => exact absurd (hblank text ht) (by simp [hkept text ht])
  · obtain ⟨indent, k, text, rfl, hindent, hspelled, ht, hb, hwrites⟩ := hnew
    have hsame := fold_eq_of_keepsKey hindent (hkeys k hspelled text ht hb hwrites) hread
    rw [Lexicon.get?_congr texts (hsame.symm.trans hfold)] at ht
    simp [hblank text ht] at hb

/-- A line that starts with the mark of the byte order is not written. -/
theorem IsWritten.head?_ne_mark (hmark : style.table.head? ≠ some '\uFEFF') {core : List Text}
    {w : Text} (h : IsWritten style texts core w) : w.head? ≠ some '\uFEFF' := by
  obtain ⟨indent, k, text, rfl, hindent, -⟩ := h
  have hrest : ((style.table ++ "[\"".toList) ++ k ++ "\"] = \"".toList ++
      Source.escape text ++ ['"']).head? ≠ some '\uFEFF' := by
    cases htable : style.table with
    | nil => simp
    | cons c t => simpa [htable] using hmark
  cases indent with
  | nil => simpa [Style.line, Glue.Assignment.line] using hrest
  | cons c t =>
    intro hc
    obtain rfl : c = '\uFEFF' := by simpa [Style.line, Glue.Assignment.line] using hc
    simp [show Text.isBlank '\uFEFF' = false by decide] at hindent

/-- No line of a merged region starts with the mark of the byte order when no old one does. -/
theorem head?_mergeRegion_ne_mark (hmark : style.table.head? ≠ some '\uFEFF') {core : List Text}
    (hcore : ∀ line ∈ core, line.head? ≠ some '\uFEFF') :
    ∀ line ∈ mergeRegion style texts guarded core, line.head? ≠ some '\uFEFF' :=
  fun line hline => (mem_mergeRegion hline).elim (fun hold => hcore line hold.1)
    (·.head?_ne_mark hmark)

/-- Lines that do not start with the mark of the byte order are read back one by one. -/
theorem lines_dropMark_joinLines {out : List Text}
    (hmark : ∀ line ∈ out, line.head? ≠ some '\uFEFF')
    (hout : ∀ line ∈ out, '\n' ∉ line) (newline : Newline) :
    Text.lines (Files.dropMark (Text.joinLines out newline.text)) = out.map newline.readBack := by
  have hsame : Files.dropMark (Text.joinLines out newline.text) =
      Text.joinLines out newline.text := by
    cases out with
    | nil => rfl
    | cons first rest =>
      cases first with
      | nil => cases newline <;> rfl
      | cons c line =>
        have hc : c ≠ '\uFEFF' := by simpa using hmark (c :: line) (by simp)
        simp [Text.joinLines, Files.dropMark, hc]
  rw [hsame, Text.lines_joinLines out newline hout]

/-- A merged file is read back line by line when no line of it starts with the mark of the byte
order. -/
theorem lines_mergeLines (hmark : style.table.head? ≠ some '\uFEFF') {lines : List Text}
    (hassigned : assignments style.table lines ≠ [])
    (hlines : ∀ line ∈ lines, '\n' ∉ line ∧ line.head? ≠ some '\uFEFF')
    (hkeys : ∀ e ∈ texts.entries, ∃ a ∈ assignments style.table lines, a.key = e.1)
    (newline : Newline) :
    Text.lines (Files.dropMark (Text.joinLines (mergeLines style lines texts) newline.text)) =
      (mergeLines style lines texts).map newline.readBack := by
  refine lines_dropMark_joinLines ?_ (newline_not_mem_mergeLines hassigned
    (fun line hline => (hlines line hline).1) hkeys) newline
  obtain ⟨region, hregion⟩ := exists_region_of_assignments hassigned
  obtain ⟨front, core, back, rfl, -, -, hlayout⟩ := exists_layout hregion
  rw [hlayout.mergeLines]
  intro line hline
  rw [List.mem_append, List.mem_append] at hline
  rcases hline with hline | hline | hline
  · exact (hlines line (by simp [hline])).2
  · exact head?_mergeRegion_ne_mark hmark (fun l hl => (hlines l (by simp [hl])).2) line hline
  · exact (hlines line (by simp [hline])).2

end Phrasebook.Locale
