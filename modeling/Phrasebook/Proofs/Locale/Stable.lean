import Phrasebook.Proofs.Locale.Merge

/-!
# Merging twice

A second edit with the same texts finds every new line as it would write it: a kept line is kept
again, and a written line is either read back with its text or is written anew to the same
characters, also when its value does not parse. The keys that the new lines take care of are those
that the old ones took care of, up to keys without a text to write, so the second edit adds nothing.
-/

namespace Phrasebook.Locale

open Text (isBlank isBlankText)

variable {style : Style} {texts : KeyMap Text} {guarded : Bool} {key : Text}

namespace Edit

/-- What becomes of a line of a region. -/
inductive Fate (style : Style) (texts : KeyMap Text) (guarded : Bool) (handled : KeySet)
    (line : Text) : List Text → Prop where
  /-- A line that is no literal assignment is kept. -/
  | other (h : Glue.assignment? style.table line = none) : Fate style texts guarded handled line [line]
  /-- A literal assignment of a key that needs no line is dropped. -/
  | dropped {a : Glue.Assignment} (h : Glue.assignment? style.table line = some a)
      (hneedless : handled.contains a.key = true ∨ (texts.get? a.key = none ∧ guarded = false) ∨
        ∃ text, texts.get? a.key = some text ∧ isBlankText text = true) :
      Fate style texts guarded handled line []
  /-- A literal assignment that has its text, or no text within a guard, is kept. -/
  | kept {a : Glue.Assignment} (h : Glue.assignment? style.table line = some a)
      (hnew : handled.contains a.key = false)
      (htext : (texts.get? a.key = none ∧ guarded = true) ∨
        (texts.get? a.key = some a.value ∧ isBlankText a.value = false)) :
      Fate style texts guarded handled line [line]
  /-- A literal assignment with another text is rewritten. -/
  | rewritten {a : Glue.Assignment} {text : Text} (h : Glue.assignment? style.table line = some a)
      (hnew : handled.contains a.key = false) (htext : texts.get? a.key = some text)
      (hblank : isBlankText text = false) :
      Fate style texts guarded handled line [style.line a.indent a.key text]

/-- Every line of a region meets one of the fates. -/
theorem fate_written (style : Style) (texts : KeyMap Text) (guarded : Bool) (handled : KeySet)
    (line : Text) :
    Fate style texts guarded handled line (written style texts guarded handled line) := by
  unfold written
  cases ha : Glue.assignment? style.table line with
  | none => exact .other ha
  | some a =>
    by_cases hc : handled.contains a.key = true
    · simpa only [hc, if_true] using Fate.dropped ha (Or.inl hc)
    · have hnew : handled.contains a.key = false := by simpa using hc
      cases ht : texts.get? a.key with
      | none =>
        cases guarded with
        | true => simpa [hc, ht] using Fate.kept ha hnew (Or.inl ⟨ht, rfl⟩)
        | false => simpa [hc, ht] using Fate.dropped ha (Or.inr (Or.inl ⟨ht, rfl⟩))
      | some text =>
        by_cases hb : isBlankText text = true
        · simpa [hc, ht, hb] using Fate.dropped ha (Or.inr (Or.inr ⟨text, ht, hb⟩))
        · have hblank : isBlankText text = false := by simpa using hb
          by_cases hv : text = a.value
          · subst hv
            simpa [hc, ht, hb] using Fate.kept ha hnew (Or.inr ⟨ht, hblank⟩)
          · simpa [hc, ht, hb, hv] using Fate.rewritten ha hnew ht hblank

/-- A kept line is kept wherever its key needs a line. -/
theorem written_of_kept {handled : KeySet} {line : Text} {a : Glue.Assignment}
    (h : Glue.assignment? style.table line = some a) (hnew : handled.contains a.key = false)
    (htext : (texts.get? a.key = none ∧ guarded = true) ∨
      (texts.get? a.key = some a.value ∧ isBlankText a.value = false)) :
    written style texts guarded handled line = [line] := by
  rcases htext with ⟨ht, rfl⟩ | ⟨ht, hb⟩
  · simp [written, h, hnew, ht]
  · simp [written, h, hnew, ht, hb]

/-- A line that is written for a text is written again for it, whether or not it reads back. -/
theorem written_line (hstyle : style.table.head?.any isBlank = false) {handled : KeySet}
    {indent k text : Text} (hindent : isBlankText indent = true) (hk : Glue.IsKey k)
    (hnew : handled.contains k = false) (htext : texts.get? k = some text)
    (hblank : isBlankText text = false) :
    written style texts guarded handled (style.line indent k text) =
      [style.line indent k text] := by
  cases ha : Glue.assignment? style.table (style.line indent k text) with
  | none => simp [written, ha]
  | some a =>
    have hkey : a.key = k := by
      have hread := Glue.assignedKey?_of_assignment? ha
      have hline := Glue.assignedKey?_line (a := ⟨k, text, indent⟩) style.table hk hindent
      exact Option.some.inj (hread.symm.trans hline)
    have hdepth : a.indent = indent := by
      rw [Glue.indent_of_assignment? ha]
      exact Glue.indent_line (a := ⟨k, text, indent⟩) hstyle hindent
    simp only [written, ha, hkey, hdepth, hnew, htext, hblank]
    split_ifs <;> simp_all

/-- A line that is written for a text takes care of its key only. -/
theorem handles_line {indent k text : Text} (hindent : isBlankText indent = true)
    (hk : Glue.IsKey k) (htext : texts.get? k = some text) (value : Text) :
    handles style texts guarded key (style.line indent k value) =
      decide (Text.fold k = Text.fold key) := by
  have hline := Glue.assignedKey?_line (a := ⟨k, value, indent⟩) style.table hk hindent
  have hassigns : assigns style.table key (style.line indent k value) =
      decide (Text.fold k = Text.fold key) := by
    unfold assigns Style.line
    rw [hline]
    rfl
  rw [handles, hassigns]
  by_cases hf : Text.fold k = Text.fold key
  · simp [hf, ← Lexicon.get?_congr texts hf, htext]
  · simp [hf]

end Edit

/-- The new lines `body` of the lines `ls` stay as they are in a second edit and take care of no
other keys, but of all that have a text to write. -/
structure Steady (style : Style) (texts : KeyMap Text) (guarded : Bool) (ls body : List Text) :
    Prop where
  /-- A second edit keeps the new lines. -/
  kept : (editRegion style texts guarded body).body = body
  /-- The new lines take care of no further keys. -/
  handled : ∀ key, body.any (Edit.handles style texts guarded key) = true →
    ls.any (Edit.handles style texts guarded key) = true
  /-- The new lines take care of all keys with a text to write. -/
  needed : ∀ key text, texts.get? key = some text → isBlankText text = false →
    ls.any (Edit.handles style texts guarded key) = true →
      body.any (Edit.handles style texts guarded key) = true

/-- New lines with one more line that a second edit keeps. -/
theorem editRegion_concat_of_written {ls : List Text} {line : Text}
    (hls : (editRegion style texts guarded ls).body = ls)
    (hline : Edit.written style texts guarded (editRegion style texts guarded ls).handled line =
      [line]) :
    (editRegion style texts guarded (ls ++ [line])).body = ls ++ [line] := by
  rw [editRegion_concat, Edit.body_step, hls, hline]

/-- The new lines stay steady when one more line of the region is edited. -/
theorem Steady.concat (hstyle : style.table.head?.any isBlank = false) {ls body : List Text}
    (h : Steady style texts guarded ls body) {line : Text}
    (hline : ∀ a, Glue.assignment? style.table line = some a → Glue.IsKey a.key) :
    Steady style texts guarded (ls ++ [line])
      (body ++ Edit.written style texts guarded (editRegion style texts guarded ls).handled line) := by
  have hnew : ∀ {k : Text}, (editRegion style texts guarded ls).handled.contains k = false →
      (editRegion style texts guarded body).handled.contains k = false := by
    intro k hk
    rw [contains_handled_editRegion] at hk ⊢
    cases hb : body.any (Edit.handles style texts guarded k) with
    | false => rfl
    | true => simp [h.handled k hb] at hk
  -- In three of the four fates the new line `w` takes care of the same keys as the old one.
  have hsame : ∀ {w : Text}, (∀ key, Edit.handles style texts guarded key w =
        Edit.handles style texts guarded key line) →
      Edit.written style texts guarded (editRegion style texts guarded body).handled w = [w] →
      Steady style texts guarded (ls ++ [line]) (body ++ [w]) := by
    intro w hw hwritten
    refine ⟨editRegion_concat_of_written h.kept hwritten, fun key hkey => ?_,
      fun key text ht hb hkey => ?_⟩
    · simp only [List.any_append, List.any_cons, List.any_nil, Bool.or_false, Bool.or_eq_true,
        hw] at hkey ⊢
      exact hkey.imp_left (h.handled key)
    · simp only [List.any_append, List.any_cons, List.any_nil, Bool.or_false, Bool.or_eq_true,
        hw] at hkey ⊢
      exact hkey.imp_left (h.needed key text ht hb)
  have hfate := Edit.fate_written style texts guarded (editRegion style texts guarded ls).handled line
  generalize Edit.written style texts guarded (editRegion style texts guarded ls).handled line = out
    at hfate ⊢
  cases hfate with
  | other ha => exact hsame (fun _ => rfl) (by simp [Edit.written, ha])
  | kept ha hfresh ht => exact hsame (fun _ => rfl) (Edit.written_of_kept ha (hnew hfresh) ht)
  | @rewritten a text ha hfresh ht hb =>
    have hindent : isBlankText a.indent = true :=
      Glue.isBlankText_indent_of_assignment? ha
    refine hsame (fun key => ?_)
      (Edit.written_line hstyle hindent (hline a ha) (hnew hfresh) ht hb)
    rw [Edit.handles_line hindent (hline a ha) ht, Edit.handles, assigns_of_assignment? ha]
    by_cases hf : Text.fold a.key = Text.fold key
    · simp [hf, ← Lexicon.get?_congr texts hf, ht]
    · simp [hf]
  | @dropped a ha hneedless =>
    rw [List.append_nil]
    refine ⟨h.kept, fun key hkey => by simp [h.handled key hkey], fun key text ht hb hkey => ?_⟩
    simp only [List.any_append, List.any_cons, List.any_nil, Bool.or_false, Bool.or_eq_true] at hkey
    rcases hkey with hkey | hkey
    · exact h.needed key text ht hb hkey
    · have hf : Text.fold a.key = Text.fold key := by
        rw [Edit.handles, assigns_of_assignment? ha, Bool.and_eq_true] at hkey
        exact of_decide_eq_true hkey.1
      rw [Lexicon.get?_congr texts hf, ht, KeySet.contains_congr _ hf,
        contains_handled_editRegion] at hneedless
      rcases hneedless with hc | ⟨hnone, -⟩ | ⟨t, hsome, hblank⟩
      · exact h.needed key text ht hb hc
      · simp at hnone
      · obtain rfl := Option.some.inj hsome
        simp [hb] at hblank

/-- The new lines of a region are steady. -/
theorem steady_body (hstyle : style.table.head?.any isBlank = false) {ls : List Text}
    (hls : ∀ line ∈ ls, ∀ a, Glue.assignment? style.table line = some a → Glue.IsKey a.key) :
    Steady style texts guarded ls (editRegion style texts guarded ls).body := by
  induction ls using List.reverseRecOn with
  | nil => exact ⟨rfl, fun _ h => h, fun _ _ _ _ h => h⟩
  | append_singleton ls line ih =>
    rw [editRegion_concat, Edit.body_step]
    exact (ih fun l hl => hls l (by simp [hl])).concat hstyle (hls line (by simp))

/-- Lines that are written for entries take care of the keys of these entries. -/
theorem any_handles_append_lines {indent : Text} (hindent : isBlankText indent = true)
    {front : List Text} {entries : List (Text × Text)}
    (hentries : ∀ e ∈ entries, Glue.IsKey e.1 ∧ texts.get? e.1 = some e.2) :
    (front ++ entries.map fun e => style.line indent e.1 e.2).any
        (Edit.handles style texts guarded key) =
      (front.any (Edit.handles style texts guarded key) ||
        entries.any fun e => decide (Text.fold e.1 = Text.fold key)) := by
  have hlines : (entries.map fun e => style.line indent e.1 e.2).any
      (Edit.handles style texts guarded key) =
        entries.any fun e => decide (Text.fold e.1 = Text.fold key) := by
    rw [List.any_map, Bool.eq_iff_iff, List.any_eq_true, List.any_eq_true]
    refine exists_congr fun e => and_congr_right fun he => ?_
    obtain ⟨hk, ht⟩ := hentries e he
    rw [Function.comp_apply, Edit.handles_line hindent hk ht e.2]
  rw [List.any_append, hlines]

/-- Lines that are written for the texts of new keys stay as they are behind lines that do so. -/
theorem editRegion_append_lines (hstyle : style.table.head?.any isBlank = false) {indent : Text}
    (hindent : isBlankText indent = true) {front : List Text} {entries : List (Text × Text)}
    (hfront : (editRegion style texts guarded front).body = front)
    (hentries : ∀ e ∈ entries, Glue.IsKey e.1 ∧ texts.get? e.1 = some e.2)
    (hblank : ∀ e ∈ entries, isBlankText e.2 = false)
    (hnew : ∀ e ∈ entries, front.any (Edit.handles style texts guarded e.1) = false)
    (hdistinct : (entries.map fun e => Text.fold e.1).Nodup) :
    (editRegion style texts guarded
        (front ++ entries.map fun e => style.line indent e.1 e.2)).body =
      front ++ entries.map fun e => style.line indent e.1 e.2 := by
  induction entries using List.reverseRecOn with
  | nil => simpa using hfront
  | append_singleton entries e ih =>
    have hbefore : ∀ e' ∈ entries, e' ∈ entries ++ [e] := fun e' he' => by simp [he']
    have hlast : e ∈ entries ++ [e] := by simp
    rw [List.map_append, List.nodup_append] at hdistinct
    have hkept := ih (fun e' he' => hentries e' (hbefore e' he'))
      (fun e' he' => hblank e' (hbefore e' he')) (fun e' he' => hnew e' (hbefore e' he'))
      hdistinct.1
    obtain ⟨hk, ht⟩ := hentries e hlast
    have hfresh : (editRegion style texts guarded
        (front ++ entries.map fun e => style.line indent e.1 e.2)).handled.contains e.1 =
          false := by
      rw [contains_handled_editRegion,
        any_handles_append_lines hindent fun e' he' => hentries e' (hbefore e' he'),
        hnew e hlast, Bool.false_or, List.any_eq_false]
      intro e' he'
      have hne := hdistinct.2.2 (Text.fold e'.1) (List.mem_map_of_mem he') (Text.fold e.1) (by simp)
      simpa using hne
    have hwritten : Edit.written style texts guarded (editRegion style texts guarded
        (front ++ entries.map fun e => style.line indent e.1 e.2)).handled
          (style.line indent e.1 e.2) = [style.line indent e.1 e.2] :=
      Edit.written_line hstyle hindent hk hfresh ht (hblank e hlast)
    have hall := editRegion_concat_of_written hkept hwritten
    simpa using hall

/-- The value of a key of an entry is that of the entry. -/
theorem get?_of_mem_missing {ls : List Text} {e : Text × Text}
    (he : e ∈ (editRegion style texts guarded ls).missing texts) :
    e ∈ texts.entries ∧ texts.get? e.1 = some e.2 ∧ isBlankText e.2 = false ∧
      ls.any (Edit.handles style texts guarded e.1) = false := by
  obtain ⟨hmem, hmissing⟩ := List.mem_filter.1 he
  have hmem' : e ∈ texts.entries := (sortedEntries_perm texts).subset hmem
  simp only [Bool.and_eq_true, Bool.not_eq_true', contains_handled_editRegion] at hmissing
  exact ⟨hmem', Lexicon.get?_eq_some_iff.2 ⟨e.1, hmem', rfl⟩, hmissing.2, hmissing.1⟩

/-- No line assigns the key of a text that is missing. -/
theorem leader?_of_mem_missing {ls : List Text} {e : Text × Text}
    (he : e ∈ (editRegion style texts guarded ls).missing texts) :
    leader? style.table e.1 ls = none := by
  have hnew := (List.mem_filter.1 he).2
  rw [contains_handled_of_get? (get?_of_mem_missing he).2.1] at hnew
  simp only [Bool.and_eq_true, Bool.not_eq_true'] at hnew
  simpa using hnew.1

/-- The keys that are missing are distinct. -/
theorem nodup_missing (e : Edit) (texts : KeyMap Text) :
    ((e.missing texts).map fun e => Text.fold e.1).Nodup := by
  have hsorted : ((sortedEntries texts).map fun e => Text.fold e.1).Nodup :=
    ((sortedEntries_perm texts).map fun e => Text.fold e.1).nodup_iff.2 texts.distinct
  exact (List.filter_sublist.map _).nodup hsorted

/-- No text is missing when the lines take care of every key with a text to write. -/
theorem missing_eq_nil_iff {ls : List Text} :
    (editRegion style texts guarded ls).missing texts = [] ↔
      ∀ e ∈ texts.entries, isBlankText e.2 = false →
        ls.any (Edit.handles style texts guarded e.1) = true := by
  rw [Edit.missing, List.filter_eq_nil_iff]
  refine forall_congr' fun e => ?_
  rw [(sortedEntries_perm texts).mem_iff, contains_handled_editRegion]
  cases isBlankText e.2 <;> simp

/-- A second edit of a merged region keeps all of its lines and finds no text missing. -/
theorem editRegion_mergeRegion (hstyle : style.table.head?.any isBlank = false)
    (hkeys : ∀ key ∈ texts.keys, Glue.IsKey key) {ls : List Text}
    (hls : ∀ line ∈ ls, ∀ a, Glue.assignment? style.table line = some a → Glue.IsKey a.key) :
    (editRegion style texts guarded (mergeRegion style texts guarded ls)).body =
        mergeRegion style texts guarded ls ∧
      (editRegion style texts guarded (mergeRegion style texts guarded ls)).missing texts = [] := by
  have hsteady := @steady_body style texts guarded hstyle ls hls
  have hindent := @isBlankText_addedIndent style texts guarded ls
  have hentries : ∀ e ∈ (editRegion style texts guarded ls).missing texts,
      Glue.IsKey e.1 ∧ texts.get? e.1 = some e.2 := by
    intro e he
    obtain ⟨hmem, ht, -⟩ := get?_of_mem_missing he
    exact ⟨hkeys e.1 (List.mem_map_of_mem hmem), ht⟩
  constructor
  · refine editRegion_append_lines hstyle hindent hsteady.kept hentries
      (fun e he => (get?_of_mem_missing he).2.2.1) (fun e he => ?_) (nodup_missing _ _)
    have hnew := (get?_of_mem_missing he).2.2.2
    cases hb : (editRegion style texts guarded ls).body.any
        (Edit.handles style texts guarded e.1) with
    | false => rfl
    | true => exact (hsteady.handled e.1 hb).symm.trans hnew
  · rw [missing_eq_nil_iff]
    intro e he hb
    rw [mergeRegion_eq, any_handles_append_lines hindent hentries]
    have ht : texts.get? e.1 = some e.2 := Lexicon.get?_eq_some_iff.2 ⟨e.1, he, rfl⟩
    cases hany : ls.any (Edit.handles style texts guarded e.1) with
    | true => rw [hsteady.needed e.1 e.2 ht hb hany, Bool.true_or]
    | false =>
      have hmissing : e ∈ (editRegion style texts guarded ls).missing texts := by
        refine List.mem_filter.2 ⟨(sortedEntries_perm texts).mem_iff.2 he, ?_⟩
        rw [contains_handled_editRegion, hany, hb]
        rfl
      rw [List.any_eq_true.2 ⟨e, hmissing, decide_eq_true rfl⟩, Bool.or_true]

/-- Merging a region twice is merging it once. -/
theorem mergeRegion_mergeRegion (hstyle : style.table.head?.any isBlank = false)
    (hkeys : ∀ key ∈ texts.keys, Glue.IsKey key) {ls : List Text}
    (hls : ∀ line ∈ ls, ∀ a, Glue.assignment? style.table line = some a → Glue.IsKey a.key) :
    mergeRegion style texts guarded (mergeRegion style texts guarded ls) =
      mergeRegion style texts guarded ls := by
  obtain ⟨hbody, hmissing⟩ := @editRegion_mergeRegion style texts guarded hstyle hkeys ls hls
  rw [mergeRegion_eq (mergeRegion style texts guarded ls), hbody, hmissing, List.map_nil,
    List.append_nil]

end Phrasebook.Locale
