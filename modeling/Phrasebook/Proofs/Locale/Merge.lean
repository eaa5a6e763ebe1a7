import Phrasebook.Proofs.Locale.Region

/-!
# What a merge writes

A merged region is made of the new lines for its old ones and of added lines in key order. The added
lines assign exactly those keys that no line took care of, so each key of the texts that no line of
the region computes is assigned once in the merged region, and a key with a blank text not at all.
-/

namespace Phrasebook.Locale

variable {style : Style} {texts : KeyMap Text} {guarded : Bool} {table key : Text}

/-- The entries in key order are the entries of the map. -/
theorem sortedEntries_perm {norm : Text → Text} (texts : Lexicon norm Text) :
    (sortedEntries texts).Perm texts.entries :=
  List.mergeSort_perm _ _

/-- The entries in key order have each key once. -/
theorem filter_sortedEntries {norm : Text → Text} (texts : Lexicon norm Text) (key : Text) :
    (sortedEntries texts).filter (fun e => norm e.1 = norm key) = (texts.find? key).toList := by
  have hperm := (sortedEntries_perm texts).filter fun e => decide (norm e.1 = norm key)
  rw [texts.filter_entries] at hperm
  cases hf : texts.find? key with
  | none =>
    rw [hf] at hperm
    exact hperm.eq_nil
  | some e =>
    rw [hf] at hperm
    exact List.perm_singleton.1 hperm

/-- A merged region consists of the edited lines and of lines for the missing texts. -/
theorem mergeRegion_eq (ls : List Text) :
    mergeRegion style texts guarded ls = (editRegion style texts guarded ls).body ++
      ((editRegion style texts guarded ls).missing texts).map fun e =>
        style.line ((editRegion style texts guarded ls).addedIndent guarded) e.1 e.2 :=
  rfl

/-- Lines that are written for entries have the texts of the entries as their values, when they are
read back. -/
theorem literals_map_line {indent : Text} (hindent : Text.isBlankText indent = true)
    {entries : List (Text × Text)} (h : ∀ e ∈ entries, IsReadBack style.table key e.1 e.2) :
    literals style.table key (entries.map fun e => style.line indent e.1 e.2) =
      (entries.filter fun e => Text.fold e.1 = Text.fold key).map (·.2) := by
  induction entries with
  | nil => rfl
  | cons e entries ih =>
    have htail := ih fun e' he' => h e' (by simp [he'])
    rw [List.map_cons, ← List.singleton_append, literals_append, htail,
      (h e (by simp)).literals_line hindent]
    by_cases hk : Text.fold e.1 = Text.fold key <;> simp [hk]

/-- The added lines assign a key of the texts when no line of the region took care of it and its
text is not blank. -/
theorem literals_added {lines : List Text} {text : Text} (ht : texts.get? key = some text)
    (hentries : ∀ e ∈ (editRegion style texts guarded lines).missing texts,
      IsReadBack style.table key e.1 e.2) :
    literals style.table key
        ((editRegion style texts guarded lines).added style texts guarded) =
      if (leader? style.table key lines).isNone && !Text.isBlankText text then [text] else [] := by
  obtain ⟨⟨k, v⟩, hf, rfl⟩ := Option.map_eq_some_iff.1 ht
  obtain ⟨-, hk⟩ := Lexicon.find?_eq_some_iff.1 hf
  rw [Edit.added, literals_map_line (isBlankText_addedIndent lines) hentries, Edit.missing,
    List.filter_comm, filter_sortedEntries, hf]
  have hhandled : (editRegion style texts guarded lines).handled.contains k =
      (leader? style.table key lines).isSome := by
    rw [KeySet.contains_congr _ hk, contains_handled_of_get? ht]
  cases hl : leader? style.table key lines <;> rw [hl] at hhandled <;>
    cases hb : Text.isBlankText v <;> simp [hhandled, hb]

/-- A merged region assigns a key of the texts once, with its text, unless a computed assignment
takes care of it or the text is blank; then it has no value for it. -/
theorem literals_mergeRegion {lines : List Text} {text : Text} (ht : texts.get? key = some text)
    (hlines : Rewritable style texts key lines)
    (hentries : ∀ e ∈ (editRegion style texts guarded lines).missing texts,
      IsReadBack style.table key e.1 e.2) :
    literals style.table key (mergeRegion style texts guarded lines) =
      if (leader? style.table key lines).all (isLiteral style.table) && !Text.isBlankText text
      then [text] else [] := by
  rw [mergeRegion, literals_append, literals_body ht hlines, literals_added ht hentries]
  cases leader? style.table key lines with
  | none => cases Text.isBlankText text <;> rfl
  | some line => simp

/-- There is a region to edit in every file that has a closed guard or an assignment. -/
theorem region?_isSome {lines : List Text}
    (h : (guardedBlock? lines).isSome = true ∨ ∃ line ∈ lines, assignsKey table line = true) :
    (region? table lines).isSome = true := by
  unfold region?
  cases hblock : guardedBlock? lines with
  | some block => rfl
  | none =>
    rw [hblock] at h
    obtain ⟨line, hline, hassigns⟩ := h.resolve_left (by simp)
    have hfound : (lines.findIdx? (assignsKey table)).isSome = true :=
      List.findIdx?_isSome.trans (List.any_eq_true.2 ⟨line, hline, hassigns⟩)
    obtain ⟨start, hstart⟩ := Option.isSome_iff_exists.1 hfound
    simp [assignedRegion?, hstart]

/-- A merge writes what it is asked to write: it changes no line outside the region, and each key of
the texts that no line of the region computes is assigned once in the new region, with its text, or
not at all when the text is blank. -/
theorem mergeLines_writes_texts (style : Style) (lines : List Text) (texts : KeyMap Text)
    (hregion : (guardedBlock? lines).isSome = true ∨
      ∃ line ∈ lines, assignsKey style.table line = true)
    (hlines : ∀ line ∈ lines, ∀ key ∈ Glue.assignedKey? style.table line, Glue.IsKey key)
    (hkeys : ∀ key ∈ texts.keys, Glue.IsKey key)
    (hvalues : ∀ value ∈ texts.values, Source.IsPlain value) :
    ∃ region, region? style.table lines = some region ∧
      mergeLines style lines texts = lines.take region.start ++
        mergeRegion style texts region.guarded (region.slice lines) ++ lines.drop region.stop ∧
      ∀ key text, texts.get? key = some text →
        (∀ line ∈ region.slice lines, assigns style.table key line = true →
          isLiteral style.table line = true) →
        literals style.table key (mergeRegion style texts region.guarded (region.slice lines)) =
          if Text.isBlankText text then [] else [text] := by
  obtain ⟨region, hr⟩ := Option.isSome_iff_exists.1 (region?_isSome hregion)
  refine ⟨region, hr, by simp only [mergeLines, hr], fun key text ht hliteral => ?_⟩
  have hplain : ∀ k v, texts.get? k = some v → Source.IsPlain v := by
    intro k v hget
    obtain ⟨k', hmem, -⟩ := Lexicon.get?_eq_some_iff.1 hget
    exact hvalues v (List.mem_map.2 ⟨(k', v), hmem, rfl⟩)
  have hrewritable : Rewritable style texts key (region.slice lines) := by
    intro line hline a ha _ t hget _ _
    have hline' : line ∈ lines := List.mem_of_mem_take (List.mem_of_mem_drop hline)
    exact isReadBack_of_isKey (hlines line hline' a.key (Glue.assignedKey?_of_assignment? ha))
      fun _ => (hplain a.key t hget).isFaithful
  have hmissing : ∀ e ∈ (editRegion style texts region.guarded (region.slice lines)).missing texts,
      IsReadBack style.table key e.1 e.2 := by
    intro e he
    have hmem : e ∈ texts.entries := (sortedEntries_perm texts).subset (List.mem_filter.1 he).1
    exact isReadBack_of_isKey (hkeys e.1 (List.mem_map_of_mem hmem))
      fun _ => (hvalues e.2 (List.mem_map_of_mem hmem)).isFaithful
  rw [literals_mergeRegion ht hrewritable hmissing]
  cases hleader : leader? style.table key (region.slice lines) with
  | none => cases Text.isBlankText text <;> rfl
  | some line =>
    have hlit := hliteral line (List.mem_of_find?_eq_some hleader) (List.find?_some hleader)
    cases Text.isBlankText text <;> simp [hlit]

/-- A repeated key is collapsed into its new text, a cleared one is removed, and a new one is added
behind the others. -/
theorem mergeLines_writes_texts_of_repeated_and_cleared :
    let lines := ["local L = TRB.Localization".toList, "L[\"Old\"] = \"a\"".toList,
      "L[\"OLD\"] = \"b\" -- again".toList, "L[\"Gone\"] = 'c'; ".toList]
    let texts : KeyMap Text := .ofList [("old".toList, "say \"hi\"".toList),
      ("gone".toList, " ".toList), ("New".toList, "line\nbreak".toList)]
    ∃ region, region? Style.default.table lines = some region ∧
      literals Style.default.table "OLD".toList (mergeRegion .default texts region.guarded
        (region.slice lines)) = ["say \"hi\"".toList] ∧
      literals Style.default.table "GONE".toList (mergeRegion .default texts region.guarded
        (region.slice lines)) = [] ∧
      literals Style.default.table "NEW".toList (mergeRegion .default texts region.guarded
        (region.slice lines)) = ["line\nbreak".toList] := by
  intro lines texts
  obtain ⟨region, hr, -, hall⟩ := mergeLines_writes_texts .default lines texts
    (Or.inr ⟨"L[\"Old\"] = \"a\"".toList, by decide +kernel, by decide +kernel⟩)
    (by decide +kernel) (by decide +kernel) (by decide +kernel)
  have hregion : region = ⟨1, 4, false⟩ := Option.some.inj (hr.symm.trans (by decide +kernel))
  subst hregion
  have hold := hall "OLD".toList "say \"hi\"".toList (by decide +kernel) (by decide +kernel)
  have hgone := hall "GONE".toList " ".toList (by decide +kernel) (by decide +kernel)
  have hnew := hall "NEW".toList "line\nbreak".toList (by decide +kernel) (by decide +kernel)
  exact ⟨_, hr, hold, hgone, hnew⟩

end Phrasebook.Locale
