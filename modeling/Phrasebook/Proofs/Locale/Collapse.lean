import Phrasebook.Proofs.Locale.Written

/-!
# Collapsing repeated assignments

A merge of a file with its own texts leaves each key with one value, its last text, or with none
when that text is blank, as far as the values of the key stand in the region with a literal
assignment before the others. Around the region nothing is collapsed.
-/

namespace Phrasebook.Locale

open Text (isBlankText)

variable {style : Style} {table key : Text} {lines : List Text}

/-- A merge of a file with its own texts leaves each key with its last text alone. Around the region
stands no value of the key, unless a computed assignment takes the place of those in the region:
then the last text stands there, once. What the merge has to write is read back. -/
def Collapsible (table : Text) (lines : List Text) : Prop :=
  ∀ region ∈ region? table lines, ∀ a ∈ assignments table lines,
    ∀ text ∈ (Entries.ofLines table lines).texts.get? a.key,
      literals table a.key (region.outside lines) =
          (if (leader? table a.key (region.slice lines)).all (isLiteral table) || isBlankText text
            then [] else [text]) ∧
        (isBlankText text = false → writes table (region.slice lines) a.key text = true →
          IsReadBack table a.key a.key text)

instance (table : Text) (lines : List Text) : Decidable (Collapsible table lines) :=
  inferInstanceAs (Decidable (∀ region ∈ region? table lines, ∀ a ∈ assignments table lines,
    ∀ text ∈ (Entries.ofLines table lines).texts.get? a.key,
      literals table a.key (region.outside lines) = _ ∧ (_ → _ → IsReadBack table a.key a.key text)))

/-- The values around a region and those in it never come together: what is left is the last text of
the key, unless it is blank. -/
theorem values_of_outside {front back : List Text} {text : Text} {literal : Bool}
    (h : front ++ back = if literal || isBlankText text then [] else [text]) :
    front ++ ((if literal && !isBlankText text then [text] else []) ++ back) =
      if isBlankText text then [] else [text] := by
  cases hb : isBlankText text with
  | true =>
    rw [hb, Bool.or_true, if_pos rfl, List.append_eq_nil_iff] at h
    simp [h.1, h.2]
  | false =>
    cases literal with
    | true =>
      rw [Bool.true_or, if_pos rfl, List.append_eq_nil_iff] at h
      simp [h.1, h.2]
    | false => simpa [hb] using h

/-- A merge of a collapsible file with its own texts leaves each key with its last text, or without
a value when the text is blank. -/
theorem literals_mergeLines_of_collapsible (hassigned : assignments style.table lines ≠ [])
    (h : Collapsible style.table lines) (key : Text) :
    literals style.table key (mergeLines style lines (Entries.ofLines style.table lines).texts) =
      (((Entries.ofLines style.table lines).texts.get? key).filter
        fun text => !isBlankText text).toList := by
  obtain ⟨region, hregion⟩ := exists_region_of_assignments hassigned
  obtain ⟨front, core, back, rfl, hslice, -, hlayout⟩ := exists_layout hregion
  have hcollapse := h region hregion
  rw [hlayout.outside hregion, hslice] at hcollapse
  have hcore : core ⊆ front ++ (core ++ back) := fun line hline => by simp [hline]
  have hentries : ∀ e ∈ (Entries.ofLines style.table (front ++ (core ++ back))).texts.entries,
      ∃ a ∈ assignments style.table (front ++ (core ++ back)), a.key = e.1 :=
    fun e he => exists_assignment_of_mem_entries he
  rw [hlayout.mergeLines, literals_append, literals_append]
  cases hget : (Entries.ofLines style.table (front ++ (core ++ back))).texts.get? key with
  | none =>
    have hnone := literals_eq_nil_of_get? hget
    rw [literals_append, literals_append, List.append_eq_nil_iff, List.append_eq_nil_iff] at hnone
    have hwrites := WritesKeys.of_assignments hcore hentries fun a ha text ht hb hwrite =>
      keepsKey_of_isReadBack ((hcollapse a ha text ht).2 hb hwrite)
    rw [hnone.1, hnone.2.2, literals_mergeRegion_of_blank hwrites (by simp [hget])
      fun _ => hnone.2.1]
    rfl
  | some text =>
    obtain ⟨a, ha, hk, -⟩ := exists_assignment_of_get? hget
    have hread : WritesReadBack style (Entries.ofLines style.table (front ++ (core ++ back))).texts
        key (front ++ (core ++ back)) core := fun a ha text ht hb hwrite =>
      ((hcollapse a ha text ht).2 hb hwrite).of_self key
    have houtside := (hcollapse a ha text (by rwa [Lexicon.get?_congr _ hk])).1
    rw [literals_congr hk, leader?_congr hk, literals_append] at houtside
    rw [literals_mergeRegion hget (hread.rewritable hcore) (hread.missing hentries)]
    rw [values_of_outside houtside]
    cases hb : isBlankText text <;> simp [hb, Option.filter]

/-- A collapsible file that is merged with its own texts and read again has no duplicates, and its
texts that are not blank. -/
theorem entries_of_collapsible (hmark : style.table.head? ≠ some '\uFEFF')
    (hassigned : assignments style.table lines ≠ [])
    (hlines : ∀ line ∈ lines, '\n' ∉ line ∧ line.head? ≠ some '\uFEFF')
    (h : Collapsible style.table lines) (newline : Text.Newline) :
    let texts := (Entries.ofLines style.table lines).texts
    let read := Entries.ofLines style.table (Text.lines (Files.dropMark
      (Text.joinLines (mergeLines style lines texts) newline.text)))
    read.duplicates.isEmpty = true ∧
      ∀ key, read.texts.get? key = (texts.get? key).filter fun text => !isBlankText text := by
  intro texts read
  have hvalues : ∀ key, literals style.table key (Text.lines (Files.dropMark
      (Text.joinLines (mergeLines style lines texts) newline.text))) =
        ((texts.get? key).filter fun text => !isBlankText text).toList := by
    intro key
    rw [lines_mergeLines hmark hassigned hlines
      (fun e he => exists_assignment_of_mem_entries he) newline, literals_readBack]
    exact literals_mergeLines_of_collapsible hassigned h key
  constructor
  · refine isEmpty_duplicates_iff.2 fun key => ?_
    rw [hvalues]
    cases (texts.get? key).filter fun text => !isBlankText text <;> simp
  · intro key
    rw [get?_ofLines, hvalues]
    cases (texts.get? key).filter fun text => !isBlankText text <;> rfl

end Phrasebook.Locale
